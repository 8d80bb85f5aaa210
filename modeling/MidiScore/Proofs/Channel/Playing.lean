import MidiScore.Proofs.Channel.Clocked
import MidiScore.Proofs.Channel.Parted

/-!
# What is owed while an element is played

While an element of a slurred phrase is played, its strikes and releases are owed: each key once,
and all of them by the tick on which the element ends (`Owed`). So no key is released twice before
it is struck again, which is what keeps strikes apart from releases (`Playing.released`,
`Playing.struck`). When the element has ended nothing is owed any more (`Playing.waiting`).
-/

namespace MidiScore

/-- What the action does to keys is over by `limit` if it is run on `tick`. -/
def Action.Meets (limit tick : Nat) : Action → Prop
  | noteOff .. => tick ≤ limit
  | play _ _ duration _ => tick + duration ≤ limit
  | _ => True

theorem Action.meets_of_noteKey?_eq_none {a : Action} {limit tick : Nat} (h : a.noteKey? = none) :
    a.Meets limit tick := by
  cases a with
  | noteOff => cases h
  | play => cases h
  | _ => trivial

theorem Action.le_of_meets {a : Action} {limit tick key : Nat} (h : a.noteKey? = some key)
    (hmeets : a.Meets limit tick) : tick ≤ limit := by
  cases a with
  | noteOff => exact hmeets
  | play => exact Nat.le_trans (Nat.le_add_right ..) hmeets
  | _ => cases h

/-- The keys that actions strike or release. -/
def noteKeys (owed : List (Nat × Action)) : List Nat :=
  owed.filterMap (·.2.noteKey?)

theorem noteKeys_cons (tick : Nat) (a : Action) (owed : List (Nat × Action)) :
    noteKeys ((tick, a) :: owed) = a.noteKey?.toList ++ noteKeys owed := by
  unfold noteKeys
  rw [List.filterMap_cons]
  cases a.noteKey? <;> rfl

theorem mem_noteKeys {tick key velocity : Nat} {owed : List (Nat × Action)}
    (h : (tick, Action.noteOff key velocity) ∈ owed) : key ∈ noteKeys owed :=
  List.mem_filterMap.2 ⟨_, h, rfl⟩

namespace Channel

/-- What is owed strikes or releases each key once, and in time. A key that is to be released was
not released yet. -/
structure Owed (limit : Nat) (c : Channel) (owed : List (Nat × Action)) : Prop where
  timely : ∀ q ∈ owed, c.clock ≤ q.1
  meets : ∀ q ∈ owed, q.2.Meets limit q.1
  once : (noteKeys owed).Nodup
  held : ∀ tick key velocity, (tick, .noteOff key velocity) ∈ owed → c.noteState key ≠ .offSlurred

variable {limit tick key velocity : Nat} {c c' : Channel} {owed owed' : List (Nat × Action)}
  {a : Action}

namespace Owed

theorem perm (h : Owed limit c owed) (hp : owed.Perm owed') : Owed limit c owed' :=
  ⟨fun q hq => h.timely q (hp.mem_iff.2 hq), fun q hq => h.meets q (hp.mem_iff.2 hq),
    (hp.filterMap _).nodup_iff.1 h.once, fun t k v hm => h.held t k v (hp.mem_iff.2 hm)⟩

theorem congr (h : Owed limit c owed) (hn : c'.notes = c.notes) (hc : c'.clock = c.clock) :
    Owed limit c' owed := by
  refine ⟨hc ▸ h.timely, h.meets, h.once, fun t k v hm => ?_⟩
  unfold noteState
  rw [hn]
  exact h.held t k v hm

theorem tail {q : Nat × Action} (h : Owed limit c (q :: owed)) : Owed limit c owed := by
  obtain ⟨-, htimely⟩ := List.forall_mem_cons.1 h.timely
  obtain ⟨-, hmeets⟩ := List.forall_mem_cons.1 h.meets
  have hsub : (noteKeys owed).Sublist (noteKeys (q :: owed)) :=
    (List.sublist_cons_self q owed).filterMap _
  exact ⟨htimely, hmeets, h.once.sublist hsub,
    fun t k v hm => h.held t k v (List.mem_cons_of_mem _ hm)⟩

/-- What is owed besides the first does not concern its key. -/
theorem not_mem (h : Owed limit c ((tick, a) :: owed)) (ha : a.noteKey? = some key) :
    key ∉ noteKeys owed := by
  have honce := h.once
  rw [noteKeys_cons, ha] at honce
  exact (List.nodup_cons.1 honce).1

/-- Something else that concerns the same key may be owed instead. -/
theorem replace {t : Nat} {b : Action} (h : Owed limit c ((t, a) :: owed))
    (hkey : b.noteKey? = a.noteKey?) (hge : c.clock ≤ tick) (hmeets : b.Meets limit tick)
    (hheld : ∀ key velocity, b = .noteOff key velocity → c.noteState key ≠ .offSlurred) :
    Owed limit c ((tick, b) :: owed) := by
  have htail := h.tail
  refine ⟨List.forall_mem_cons.2 ⟨hge, htail.timely⟩,
    List.forall_mem_cons.2 ⟨hmeets, htail.meets⟩, ?_, fun u k v hm => ?_⟩
  · rw [noteKeys_cons, hkey, ← noteKeys_cons t]
    exact h.once
  · rcases List.mem_cons.1 hm with heq | hm
    · exact hheld k v (Prod.mk.inj heq).2.symm
    · exact htail.held u k v hm

/-- What concerns no key may be owed as well. -/
theorem cons_aside (h : Owed limit c owed) (ha : a.noteKey? = none) (ht : c.clock ≤ tick) :
    Owed limit c ((tick, a) :: owed) := by
  refine ⟨List.forall_mem_cons.2 ⟨ht, h.timely⟩,
    List.forall_mem_cons.2 ⟨Action.meets_of_noteKey?_eq_none ha, h.meets⟩, ?_, fun t k v hm => ?_⟩
  · rw [noteKeys_cons, ha]
    exact h.once
  · rcases List.mem_cons.1 hm with heq | hm
    · cases heq
      cases ha
    · exact h.held t k v hm

end Owed

/-- The channel plays a phrase that began when it was `c₀`. Pitches and beats are read as they were
then. -/
structure Within (c₀ c : Channel) : Prop where
  parted : Parted c₀.track.nextHandle c
  soundingKey : c.soundingKey = c₀.soundingKey
  timing : c.timing = c₀.timing
  unmuted : c.muted = false

/-- An element that began on tick `start` is being played, and `due` still has to be done now. -/
structure Playing (c₀ : Channel) (start limit : Nat) (due : List Action) (c : Channel) : Prop
    extends Within c₀ c where
  slurred : c.slurred
  started : start ≤ c.clock
  owed : Owed limit c (c.owing due)

/-- The channel is between two elements: no strike or release is owed. -/
structure Waiting (c₀ : Channel) (slurred : Bool) (c : Channel) : Prop extends Within c₀ c where
  slurred : c.slurred = slurred
  timely : ∀ q ∈ c.pending.toList, c.clock ≤ q.1
  idle : ∀ q ∈ c.pending.toList, q.2.noteKey? = none

variable {c₀ : Channel} {start : Nat} {due : List Action}

theorem Within.of_parted (h : Within c₀ c) (hp : Parted c₀.track.nextHandle c')
    (hk : c'.soundingKey = c.soundingKey) (ht : c'.timing = c.timing) (hm : c'.muted = c.muted) :
    Within c₀ c' :=
  ⟨hp, hk.trans h.soundingKey, ht.trans h.timing, hm.trans h.unmuted⟩

namespace Playing

theorem aside (h : Playing c₀ start limit due c) (ha : ChannelM.Aside c c') :
    Playing c₀ start limit due c' := by
  have hparted := h.parted.aside ha
  obtain ⟨track, controllers, dynamic, bend, rfl, -⟩ := ha
  exact ⟨h.of_parted hparted rfl rfl rfl, h.slurred, h.started, h.owed.congr rfl rfl⟩

theorem tail (h : Playing c₀ start limit (a :: due) c) : Playing c₀ start limit due c :=
  ⟨h.toWithin, h.slurred, h.started, h.owed.tail⟩

/-- What is owed is promised instead of done. -/
theorem push {b : Action} (h : Playing c₀ start limit due c)
    (howed : Owed limit c ((tick, b) :: c.owing due)) :
    Playing c₀ start limit due { c with pending := c.pending.push tick b } := by
  have hparted : Parted c₀.track.nextHandle { c with pending := c.pending.push tick b } :=
    h.parted.congr rfl rfl rfl (Nat.le_refl _)
  refine ⟨h.of_parted hparted rfl rfl rfl, h.slurred, h.started, ?_⟩
  refine (howed.perm ?_).congr rfl rfl
  have hpush := (Agenda.toList_push_perm c.pending tick b).append_left (due.map (c.clock, ·))
  exact (hpush.trans List.perm_middle).symm

theorem released (h : Playing c₀ start limit (.noteOff key velocity :: due) c)
    (hkey : key < 128) : Playing c₀ start limit due (c.released key velocity) := by
  have hstate : c.noteState key ≠ .offSlurred := h.owed.held _ key velocity List.mem_cons_self
  have hparted : Parted c₀.track.nextHandle (c.released key velocity) :=
    h.parted.released h.unmuted h.slurred hkey hstate
  have howed := h.owed.tail
  refine ⟨h.of_parted hparted rfl rfl rfl, h.slurred, h.started, howed.timely, howed.meets,
    howed.once, fun t k v hm => ?_⟩
  have hne : key ≠ k := by
    rintro rfl
    exact h.owed.not_mem rfl (mem_noteKeys hm)
  rw [noteState_released, if_neg fun hk => hne hk.1]
  exact howed.held t k v hm

/-- A strike that is owed leaves its release to be owed. -/
theorem struck {c₁ : Channel} {delta : Int} {duration offVelocity : Nat}
    (h : Playing c₀ start limit (.play key delta duration offVelocity :: due) c) (hkey : key < 128)
    (hge : c.clock ≤ tick) (hle : tick ≤ c.clock + duration)
    (hjoin : (∃ handle, c.joinedRelease? key = .ok (some handle) ∧ c₁ = c.takenBack key handle) ∨
      (c.joinedRelease? key = .ok none ∧ c₁ = c)) :
    Playing c₀ start limit due { c₁.struck key velocity with
      pending := c₁.pending.push tick (.noteOff key offVelocity) } := by
  have hrested : (∃ track releases, c₁ = { c with track, releases }) ∧
      Parted c₀.track.nextHandle c₁ ∧ Rested c₀.track.nextHandle c₁ key := by
    rcases hjoin with ⟨handle, hj, rfl⟩ | ⟨hj, rfl⟩
    · obtain ⟨-, -, hr, -⟩ := exists_of_joinedRelease? hj
      exact ⟨⟨_, _, rfl⟩, h.parted.takenBack hr⟩
    · exact ⟨⟨_, _, rfl⟩, h.parted, h.parted.rested h.slurred hj⟩
  obtain ⟨⟨track, releases, rfl⟩, hparted, hrested⟩ := hrested
  -- the key is on now, so no other release of it can have been owed
  have hstate : ∀ k, (Channel.struck { c with track, releases } key velocity).noteState k =
      .offSlurred → key ≠ k ∧ c.noteState k = .offSlurred := by
    intro k hk
    rw [noteState_struck] at hk
    by_cases hcond : key = k ∧ key < 128
    · rw [if_pos hcond] at hk
      split at hk <;> cases hk
    · rw [if_neg hcond] at hk
      exact ⟨fun heq => hcond ⟨heq, hkey⟩, hk⟩
  obtain ⟨hmeets, -⟩ := List.forall_mem_cons.1 h.owed.meets
  have hstruck : Playing c₀ start limit (.play key delta duration offVelocity :: due)
      (Channel.struck { c with track, releases } key velocity) :=
    ⟨h.of_parted (hparted.struck h.unmuted hrested) rfl rfl rfl, h.slurred, h.started,
      h.owed.timely, h.owed.meets, h.owed.once,
      fun t k v hm hk => h.owed.held t k v hm (hstate k hk).2⟩
  refine hstruck.tail.push (hstruck.owed.replace rfl hge (Nat.le_trans hle hmeets) ?_)
  rintro k v ⟨⟩ hk
  exact (hstate key hk).1 rfl

/-- The clock moves on to the bucket that is due. -/
theorem pop {target tick : Nat} {actions : List Action} {rest : Agenda Action}
    (h : Playing c₀ start limit [] c)
    (hpop : c.pending.popDue? target = some (tick, actions, rest)) :
    Playing c₀ start limit actions { c with pending := rest, clock := max c.clock tick } := by
  have hlist : c.owing [] = actions.map (tick, ·) ++ rest.toList := Agenda.toList_of_popDue? hpop
  have hticks : ∀ q ∈ c.owing [], tick ≤ q.1 := Agenda.tick_le_of_popDue? hpop
  have hmax : max c.clock tick = tick := by
    obtain ⟨a, as, rfl⟩ := List.exists_cons_of_ne_nil (Agenda.ne_nil_of_popDue? hpop)
    exact Nat.max_eq_right (h.owed.timely (tick, a) (by simp [hlist]))
  have hclock : c.clock ≤ max c.clock tick := Nat.le_max_left ..
  refine ⟨h.of_parted (h.parted.congr rfl rfl rfl hclock) rfl rfl rfl, h.slurred,
    Nat.le_trans h.started hclock, ?_⟩
  have howing : Channel.owing actions { c with pending := rest, clock := max c.clock tick } =
      c.owing [] := by
    rw [hlist, hmax]
    rfl
  rw [howing]
  refine ⟨fun q hq => ?_, h.owed.meets, h.owed.once, h.owed.held⟩
  show max c.clock tick ≤ q.1
  rw [hmax]
  exact hticks q hq

/-- The clock goes on to a tick by which nothing is due. -/
theorem rest {target : Nat} (h : Playing c₀ start limit [] c)
    (hpop : c.pending.popDue? target = none) (hle : c.clock ≤ target) :
    Playing c₀ start limit [] { c with clock := target } := by
  have hlt := Agenda.lt_of_popDue?_eq_none hpop
  exact ⟨h.of_parted (h.parted.congr rfl rfl rfl hle) rfl rfl rfl, h.slurred,
    Nat.le_trans h.started hle, fun q hq => Nat.le_of_lt (hlt q hq), h.owed.meets, h.owed.once,
    h.owed.held⟩

/-- An element has ended: nothing is owed that concerns a key. -/
theorem waiting (h : Playing c₀ start limit [] c) (hlimit : ∀ q ∈ c.pending.toList, limit < q.1) :
    Waiting c₀ true c := by
  refine ⟨h.toWithin, h.slurred, h.owed.timely, fun q hq => ?_⟩
  rw [Option.eq_none_iff_forall_ne_some]
  intro key hkey
  have hle := Action.le_of_meets hkey (h.owed.meets q hq)
  have hlt := hlimit q hq
  omega

end Playing

/-- The phrase begins or ends a slur. -/
theorem Waiting.slur {slurred : Bool} (h : Waiting c₀ slurred c) (slurred' : Bool) :
    Waiting c₀ slurred' { c with slurred := slurred' } :=
  ⟨h.of_parted (h.parted.congr rfl rfl rfl (Nat.le_refl _)) rfl rfl rfl, rfl, h.timely, h.idle⟩

theorem Waiting.aside {slurred : Bool} (h : Waiting c₀ slurred c) (ha : ChannelM.Aside c c') :
    Waiting c₀ slurred c' := by
  have hparted := h.parted.aside ha
  obtain ⟨track, controllers, dynamic, bend, rfl, -⟩ := ha
  exact ⟨h.of_parted hparted rfl rfl rfl, h.slurred, h.timely, h.idle⟩

/-- An element begins: strikes of distinct keys are owed. -/
theorem Waiting.ask {ticks duration offVelocity : Nat} {delta : Int} {keys : List Nat}
    (h : Waiting c₀ true c) (hkeys : keys.Nodup) (hle : duration ≤ ticks) :
    Playing c₀ c.clock (c.clock + ticks)
      (keys.map fun key => .play key delta duration offVelocity) c := by
  have hplay : ∀ q ∈ keys.map fun key => (c.clock, Action.play key delta duration offVelocity),
      ∃ key, q = (c.clock, .play key delta duration offVelocity) := by
    intro q hq
    obtain ⟨key, -, rfl⟩ := List.mem_map.1 hq
    exact ⟨key, rfl⟩
  have howing : c.owing (keys.map fun key => .play key delta duration offVelocity) =
      (keys.map fun key => (c.clock, .play key delta duration offVelocity)) ++
        c.pending.toList := by
    unfold owing
    rw [List.map_map]
    rfl
  refine ⟨h.toWithin, h.slurred, Nat.le_refl _, ?_⟩
  rw [howing]
  refine ⟨List.forall_mem_append.2 ⟨fun q hq => ?_, h.timely⟩,
    List.forall_mem_append.2 ⟨fun q hq => ?_, fun q hq =>
      Action.meets_of_noteKey?_eq_none (h.idle q hq)⟩, ?_, fun t k v hm => ?_⟩
  · obtain ⟨key, rfl⟩ := hplay q hq
    exact Nat.le_refl _
  · obtain ⟨key, rfl⟩ := hplay q hq
    exact Nat.add_le_add_left hle _
  · unfold noteKeys
    rw [List.filterMap_append, List.filterMap_eq_nil_iff.2 h.idle, List.append_nil,
      List.filterMap_map]
    show (keys.filterMap some).Nodup
    rwa [List.filterMap_some]
  · rcases List.mem_append.1 hm with hm | hm
    · obtain ⟨key, heq⟩ := hplay _ hm
      cases heq
    · cases h.idle _ hm

end Channel

end MidiScore
