import MidiScore.Proofs.Channel.Achieves
import MidiScore.Proofs.Channel.Ledger
import MidiScore.Proofs.Channel.Timeline

/-!
# Channels that can do what they promised

A promise is checked only when it falls due, so it could fail an operation that has nothing to do
with it. A channel is `Solvent` if its clock and all due ticks fit a signed word and all that it has
promised can be sent. Then what falls due does not fail (`achieves_advance`, `spends_flush`), and
the channel stays solvent if it promises nothing else.
-/

namespace MidiScore

/-- The action can be done on the tick on which it is due, and what it promises then is due soon
enough. -/
def Action.Payable (tick : Nat) : Action → Prop
  | noteOff key velocity => key ≤ 127 ∧ velocity ≤ 127
  | play key delta duration offVelocity =>
    key ≤ 127 ∧ delta.natAbs ≤ 127 ∧ offVelocity ≤ 127 ∧ tick + duration < 1 <<< 63
  | turnKnob number value => number ≤ 127 ∧ value ≤ 127
  | pressPedal number | releasePedal number => number ≤ 127
  | bend value => value ≤ bendMax
  | setDynamic _ | resetBend => True

/-- A strike that is not much louder or softer than the dynamic has a velocity. -/
theorem Dynamic.exists_louder? (d : Dynamic) {delta : Int} (h : delta.natAbs ≤ 127) :
    ∃ velocity, d.louder? delta = some velocity := by
  have hd := d.velocity_le
  refine ⟨_, congrArg (Option.map clampVelocity) (Bounded.int?_eq_some_iff.2 ⟨?_, rfl⟩)⟩
  simp only [Nat.shiftLeft_eq]
  omega

theorem Dynamic.exists_softened? (d : Dynamic) {delta : Int} (h : delta.natAbs ≤ 127) :
    ∃ velocity, d.softened? delta = some velocity := by
  have hd := d.velocity_le
  have hloudness : Bounded.int? 32 (d.velocity + delta) = some (d.velocity + delta) := by
    refine Bounded.int?_eq_some_iff.2 ⟨?_, rfl⟩
    simp only [Nat.shiftLeft_eq]
    omega
  have hfall : Bounded.int? 32 (-(d.velocity + delta)) = some (-(d.velocity + delta)) := by
    refine Bounded.int?_eq_some_iff.2 ⟨?_, rfl⟩
    simp only [Nat.shiftLeft_eq]
    omega
  have hthird : ((-(d.velocity + delta) : Int).tdiv 3).natAbs ≤ 127 := by
    rw [Int.natAbs_tdiv]
    have hle : (-(d.velocity + delta) : Int).natAbs ≤ 254 := by omega
    exact Nat.le_trans (Nat.div_le_div_right hle) (by decide)
  obtain ⟨velocity, hv⟩ := d.exists_louder? hthird
  exact ⟨max velocity 1, by simp only [softened?, hloudness, hfall, hv, bind, Option.bind, pure]⟩

namespace Channel

/-- At the tick `now` all that the channel has promised can be done when it falls due. -/
structure Solvent (timing : Timing) (now : Nat) (c : Channel) : Prop where
  sendable : c.Sendable
  consistent : c.Consistent
  paced : c.Paced
  timing_eq : c.timing = timing
  clock_eq : c.clock = now
  now_lt : now < 1 <<< 63
  payable : ∀ p ∈ c.pending.toList, p.1 < 1 <<< 63 ∧ p.2.Payable p.1

variable {timing : Timing} {now : Nat} {c c' : Channel}

namespace Solvent

theorem change {now' : Nat} (h : Solvent timing now c) (op : Operation) (hchange : Change op c c')
    (hop : ∀ t, op ≠ .replaceTrack t) (htiming : c'.timing = c.timing) (hclock : c'.clock = now')
    (hlt : now' < 1 <<< 63)
    (hpayable : ∀ p ∈ c'.pending.toList, p.1 < 1 <<< 63 ∧ p.2.Payable p.1) :
    Solvent timing now' c' where
  sendable := h.sendable.change hchange
  consistent := h.consistent.change hchange
  paced := h.paced.change (fun t ht => absurd ht (hop t)) hchange
  timing_eq := htiming.trans h.timing_eq
  clock_eq := hclock
  now_lt := hlt
  payable := hpayable

/-- What neither moves the clock nor promises anything. -/
theorem keep (h : Solvent timing now c) (op : Operation) (hchange : Change op c c')
    (hop : ∀ t, op ≠ .replaceTrack t) (htiming : c'.timing = c.timing)
    (hclock : c'.clock = c.clock) (hpending : c'.pending = c.pending) : Solvent timing now c' := by
  refine h.change op hchange hop htiming (hclock.trans h.clock_eq) h.now_lt ?_
  rw [hpending]
  exact h.payable

theorem promise {tick : Nat} {a : Action} (h : Solvent timing now c) (hge : now ≤ tick)
    (hlt : tick < 1 <<< 63) (ha : a.Payable tick) :
    Solvent timing now { c with pending := c.pending.push tick a } := by
  have hdue : c.clock ≤ tick := h.clock_eq ▸ hge
  refine h.change .flush (.promise a hdue) nofun rfl h.clock_eq h.now_lt ?_
  rintro ⟨u, b⟩ hp
  rcases Agenda.mem_toList_push.1 hp with ⟨rfl, rfl⟩ | hp
  · exact ⟨hlt, ha⟩
  · exact h.payable _ hp

/-- The bucket that is taken out is payable at its tick. -/
theorem pop {target tick : Nat} {actions : List Action} {rest : Agenda Action}
    (h : Solvent timing now c) (hpop : c.pending.popDue? target = some (tick, actions, rest)) :
    (∀ a ∈ actions, a.Payable tick) ∧
      Solvent timing tick { c with pending := rest, clock := max c.clock tick } := by
  have hlist := Agenda.toList_of_popDue? hpop
  have hpayable := h.payable
  rw [hlist] at hpayable
  obtain ⟨hbucket, hrest⟩ := List.forall_mem_append.1 hpayable
  obtain ⟨a, ha⟩ := List.exists_mem_of_ne_nil _ (Agenda.ne_nil_of_popDue? hpop)
  have hmax := (h.consistent.pop hpop).1
  refine ⟨fun a ha => (hbucket _ (List.mem_map_of_mem ha)).2, ?_⟩
  exact h.change .flush (.take hpop) nofun rfl hmax
    (hbucket _ (List.mem_map_of_mem ha)).1 hrest

theorem lastDue_lt {last : Nat} (h : Solvent timing now c)
    (hlast : c.pending.lastDue? = some last) : last < 1 <<< 63 := by
  obtain ⟨a, ha⟩ := Agenda.exists_of_lastDue? hlast
  exact (h.payable _ ha).1

theorem wait {target : Nat} (h : Solvent timing now c) (hidle : c.pending.popDue? target = none)
    (hle : now ≤ target) (hlt : target < 1 <<< 63) :
    Solvent timing target { c with clock := target } := by
  have hle' : c.clock ≤ target := h.clock_eq ▸ hle
  exact h.change .flush (.wait hidle hle') nofun rfl rfl hlt h.payable

end Solvent

/-- A channel in its first state has promised nothing. -/
theorem solvent_fresh {n : Nat} (percussion : Bool) (timing : Timing) (hn : n ≤ 15) :
    Solvent timing 0 { track := { channel := n }, percussion, timing } where
  sendable := sendable_of_fresh percussion timing hn
  consistent := consistent_of_fresh (fun _ _ => Nat.zero_le _) rfl
  paced := .of_written_eq_nil rfl
  timing_eq := rfl
  clock_eq := rfl
  now_lt := by decide
  payable := nofun

theorem mem_written_of_get? {t : Track} {handle : Nat} {e : Event} (h : t.get? handle = some e) :
    e ∈ t.written := by
  obtain ⟨xs, ys, hw, -⟩ := Track.exists_written_erase h
  rw [hw]
  exact List.mem_append_right _ List.mem_cons_self

/-- Looking for the release that a strike joins succeeds if the releases lie early enough. -/
theorem exists_joinedRelease? {key : Nat} (hkey : key ≤ 127)
    (hearly : ∀ e ∈ c.track.written, e.tick < 1 <<< 63) :
    ∃ found, c.joinedRelease? key = .ok found := by
  unfold joinedRelease?
  split
  · exact ⟨_, rfl⟩
  · rw [if_neg (by omega)]
    split
    · exact ⟨_, rfl⟩
    · split
      · exact ⟨_, rfl⟩
      · next handle tick hfound =>
        obtain ⟨handle', -, hmap⟩ := Option.bind_eq_some_iff.1 hfound
        obtain ⟨e, hget, he⟩ := Option.map_eq_some_iff.1 hmap
        cases he
        have hfits : e.tick + 1 < 1 <<< 64 := by
          have hlt := hearly e (mem_written_of_get? hget)
          simp only [Nat.shiftLeft_eq] at hlt ⊢
          omega
        rw [Bounded.nat?_of_lt hfits]
        exact ⟨_, rfl⟩

end Channel

namespace ChannelM

open Channel

variable {timing : Timing} {now : Nat} {key velocity number value duration offVelocity : Nat}
  {delta : Int}

/-- From a solvent channel, `m` succeeds and leaves one. -/
abbrev Affords {α : Type} (timing : Timing) (now : Nat) (m : ChannelM α) : Prop :=
  Achieves (Solvent timing now) m fun _ => Solvent timing now

/-- From a solvent channel, `m` succeeds and leaves one, on whatever tick. -/
abbrev Spends {α : Type} (timing : Timing) (now : Nat) (m : ChannelM α) : Prop :=
  Achieves (Solvent timing now) m fun _ c => ∃ later, Solvent timing later c

theorem Affords.spends {α : Type} {m : ChannelM α} (h : Affords timing now m) :
    Spends timing now m :=
  h.weaken fun _ _ hc => ⟨now, hc⟩

theorem Spends.map {α β : Type} {m : ChannelM α} {g : α → β} (h : Spends timing now m) :
    Spends timing now (g <$> m) := by
  intro c hc
  obtain ⟨a, c', hrun, hc'⟩ := h c hc
  refine ⟨g a, c', ?_, hc'⟩
  simp only [Functor.map, EStateM.map, hrun]

theorem Spends.acknowledge {m : ChannelM Unit} (h : Spends timing now m) :
    Spends timing now (acknowledge m) := by
  intro c hc
  obtain ⟨u, c', hrun, hc'⟩ := h c hc
  exact ⟨.done, c', bind_of_ok hrun, hc'⟩

/-! ## Keys -/

theorem affords_noteOn (hkey : key ≤ 127) (hv : velocity ≤ 127) :
    Affords timing now (noteOn key velocity) := by
  intro c hc
  have hvalid : (Message.noteOn c.number key velocity).validate = .ok () :=
    Message.validate_noteOn.2 ⟨hc.sendable.number_le, hkey, hv⟩
  exact ⟨(), c.struck key velocity, send_modify hvalid c _,
    hc.keep .flush (.strike hvalid) nofun rfl rfl rfl⟩

theorem affords_noteOff (hkey : key ≤ 127) (hv : velocity ≤ 127) :
    Affords timing now (noteOff key velocity) := by
  intro c hc
  have hvalid : (Message.noteOff c.number key velocity).validate = .ok () :=
    Message.validate_noteOff.2 ⟨hc.sendable.number_le, hkey, hv⟩
  have hrun : ∃ u c', noteOff key velocity c = .ok u c' :=
    ⟨_, _, bind_of_ok (check_of_valid hvalid c)⟩
  obtain ⟨u, c', hrun⟩ := hrun
  obtain ⟨-, rfl⟩ := eq_of_noteOff hrun
  exact ⟨u, _, hrun, hc.keep .flush (.release hvalid) nofun rfl rfl rfl⟩

theorem achieves_attackVelocity (hkey : key ≤ 127) (hdelta : delta.natAbs ≤ 127) :
    Achieves (Solvent timing now) (attackVelocity key delta)
      fun v c => v ≤ 127 ∧ Solvent timing now c := by
  intro c hc
  have hearly : ∀ e ∈ c.track.written, e.tick < 1 <<< 63 := fun e he =>
    Nat.lt_of_le_of_lt (hc.paced.tick_le e he) (hc.clock_eq ▸ hc.now_lt)
  obtain ⟨found, hfound⟩ := exists_joinedRelease? hkey hearly
  cases found with
  | some handle =>
    obtain ⟨v, hv⟩ := c.dynamic.exists_softened? hdelta
    have hrun : attackVelocity key delta c = ofOption (c.dynamic.softened? delta) _ :=
      bind_of_ok (retractRelease_of_joined hfound)
    rw [hv] at hrun
    exact ⟨v, c.takenBack key handle, hrun, Dynamic.softened?_le hv,
      hc.keep .flush (.takeBack hfound) nofun rfl rfl rfl⟩
  | none =>
    obtain ⟨v, hv⟩ := c.dynamic.exists_louder? hdelta
    have hrun : attackVelocity key delta c = ofOption (c.dynamic.louder? delta) c :=
      bind_of_ok (retractRelease_of_apart hfound)
    rw [hv] at hrun
    exact ⟨v, c, hrun, Dynamic.louder?_le hv, hc⟩

/-- A promise for the end of a duration is due then, if that is soon enough. -/
theorem affords_after {a : Action} (ha : a.Payable (now + duration))
    (hlt : now + duration < 1 <<< 63) : Affords timing now (after duration a) := by
  have hd : duration < 1 <<< 63 := Nat.lt_of_le_of_lt (Nat.le_add_left ..) hlt
  have hword : now + duration < 1 <<< 64 := Nat.lt_trans hlt (by decide)
  refine achieves_get_bind fun c hc => achieves_ofOption_bind (b := now + duration) ?_ ?_
  · rw [signed_of_lt hd, hc.clock_eq]
    split
    · congr 1
      omega
    · rw [Int.toNat_natCast]
      exact Bounded.nat?_of_lt hword
  · exact achieves_modify fun c hc => hc.promise (Nat.le_add_right ..) hlt ha

theorem affords_strike (hkey : key ≤ 127) (hdelta : delta.natAbs ≤ 127)
    (hoff : offVelocity ≤ 127) (hlt : now + duration < 1 <<< 63) :
    Affords timing now (strike key delta duration offVelocity) := by
  refine (achieves_attackVelocity hkey hdelta).bind fun v => .of_fact fun hv => ?_
  have ha : (Action.noteOff key offVelocity).Payable (now + duration) := ⟨hkey, hoff⟩
  exact (affords_noteOn hkey hv).bind fun _ => affords_after ha hlt

/-! ## Settings -/

theorem affords_setController (hnumber : number ≤ 127) (hvalue : value ≤ 127) :
    Affords timing now (setController number value) := by
  intro c hc
  have hvalid : (Message.controlChange c.number number value).validate = .ok () :=
    Message.validate_controlChange.2 ⟨hc.sendable.number_le, hnumber, hvalue⟩
  exact ⟨(), _, send_modify hvalid c _, hc.keep .flush (.control hvalid) nofun rfl rfl rfl⟩

theorem affords_setBend (hvalue : value ≤ bendMax) : Affords timing now (setBend value) := by
  intro c hc
  have hvalid : (Message.pitchBend c.number value).validate = .ok () :=
    Message.validate_pitchBend.2 ⟨hvalue, hc.sendable.number_le⟩
  exact ⟨(), _, send_modify hvalid c _, hc.keep .flush (.bend hvalid) nofun rfl rfl rfl⟩

theorem affords_setDynamic (dynamic : Dynamic) : Affords timing now (setDynamic dynamic) :=
  achieves_modify fun c hc =>
    hc.keep .flush (.adjust dynamic c.octave c.transposition) nofun rfl rfl rfl

theorem affords_setOctave (octave : Int) : Affords timing now (setOctave octave) :=
  achieves_modify fun c hc =>
    hc.keep .flush (.adjust c.dynamic octave c.transposition) nofun rfl rfl rfl

theorem affords_setTransposition (semitones : Int) :
    Affords timing now (setTransposition semitones) :=
  achieves_modify fun c hc =>
    hc.keep .flush (.adjust c.dynamic c.octave semitones) nofun rfl rfl rfl

theorem affords_setSlurred (slurred : Bool) : Affords timing now (setSlurred slurred) :=
  achieves_modify fun _ hc =>
    hc.keep (.setSlurred slurred) (.slur slurred id) nofun rfl rfl rfl

/-- An instrument in range is sent behind any bank in range. -/
theorem exists_setInstrument {c : Channel} {program : Nat} {bank : Option Nat}
    (hc : Solvent timing now c) (hprogram : program ≤ 127)
    (hbank : ∀ b, bank = some b → b ≤ 127) :
    ∃ c', setInstrument program { c with bank } = .ok () c' ∧ Solvent timing now c' := by
  have hn := hc.sendable.number_le
  have hrun := setInstrument_eq (c := { c with bank }) hn hprogram hbank
  have hchange : Change .flush c _ := (addition_setInstrument c hn hprogram hbank).change
  rw [leaves_of_ok hrun] at hchange
  refine ⟨_, hrun, ?_⟩
  rw [emitAll_eq] at hchange ⊢
  exact hc.keep .flush hchange nofun rfl rfl rfl

theorem affords_setInstrument {program : Nat} (hprogram : program ≤ 127) :
    Affords timing now (setInstrument program) := by
  intro c hc
  obtain ⟨c', hrun, hc'⟩ := exists_setInstrument hc hprogram hc.sendable.bank_le
  exact ⟨(), c', hrun, hc'⟩

/-- The instrument that is sent again is in range because it was sent before. -/
theorem affords_setBank {bank : Nat} (hbank : bank ≤ 127) : Affords timing now (setBank bank) := by
  intro c hc
  have hvalid : (Message.controlChange c.number Controller.bankLow bank).validate = .ok () :=
    Message.validate_controlChange.2 ⟨hc.sendable.number_le, by decide, hbank⟩
  have hprogram : c.instrument.getD 0 ≤ 127 := by
    cases hinstrument : c.instrument with
    | none => exact Nat.zero_le _
    | some program => exact hc.sendable.instrument_le program hinstrument
  have hsome : ∀ b, some bank = some b → b ≤ 127 := by
    rintro _ ⟨⟩
    exact hbank
  obtain ⟨c', hrun, hc'⟩ := exists_setInstrument hc hprogram hsome
  refine ⟨(), c', ?_, hc'⟩
  unfold setBank
  rw [get_bind, bind_of_ok (check_of_valid hvalid c)]
  exact hrun

theorem affords_setMuted (muted : Bool) : Affords timing now (setMuted muted) := by
  have hcut : Affords timing now cutSound := by
    intro c hc
    have hvalid : (Message.controlChange c.number Controller.allSoundsOff 0).validate = .ok () :=
      Message.validate_controlChange.2 ⟨hc.sendable.number_le, by decide, by decide⟩
    exact ⟨(), _, cutSound_eq hc.sendable.number_le,
      hc.keep (.setMuted muted) (.cut rfl hvalid) nofun rfl rfl rfl⟩
  have hset : Affords timing now (modify fun c => { c with muted }) :=
    achieves_modify fun _ hc => hc.keep (.setMuted muted) (.mute rfl) nofun rfl rfl rfl
  refine achieves_get_bind fun c _ => ?_
  split
  · exact hcut.bind fun _ => hset
  · exact hset

/-! ## The clock -/

/-- What is payable does not fail when it is due. -/
theorem affords_run {a : Action} (ha : a.Payable now) : Affords timing now (run a) := by
  cases a with
  | noteOff key velocity => exact affords_noteOff ha.1 ha.2
  | play key delta duration offVelocity => exact affords_strike ha.1 ha.2.1 ha.2.2.1 ha.2.2.2
  | setDynamic dynamic => exact affords_setDynamic dynamic
  | turnKnob number value => exact affords_setController ha.1 ha.2
  | pressPedal number => exact affords_setController ha (by decide)
  | releasePedal number => exact affords_setController ha (by decide)
  | bend value => exact affords_setBend ha
  | resetBend => exact affords_setBend (by decide)

theorem affords_runAll {as : List Action} (has : ∀ a ∈ as, a.Payable now) :
    Affords timing now (runAll as) := by
  induction as with
  | nil => exact achieves_pure fun _ => id
  | cons a rest ih =>
    obtain ⟨ha, hrest⟩ := List.forall_mem_cons.1 has
    exact (affords_run ha).bind fun _ => ih hrest

theorem achieves_drain {target : Nat} (hle : now ≤ target) (hlt : target < 1 <<< 63) :
    Achieves (Solvent timing now) (Channel.drain target) fun _ => Solvent timing target := by
  intro c hc
  fun_induction Channel.drain target c generalizing now with
  | case1 c hpop => exact ⟨target, _, rfl, hc.wait hpop hle hlt⟩
  | case2 c tick actions rest hpop u c₁ hrun ih =>
    obtain ⟨hpayable, hpopped⟩ := hc.pop hpop
    obtain ⟨u', c₁', hrun', h₁⟩ := affords_runAll hpayable _ hpopped
    rw [hrun] at hrun'
    cases hrun'
    exact ih (Agenda.le_of_popDue? hpop) h₁
  | case3 c tick actions rest hpop e c₁ hrun =>
    obtain ⟨hpayable, hpopped⟩ := hc.pop hpop
    obtain ⟨u', c₁', hrun', h₁⟩ := affords_runAll hpayable _ hpopped
    rw [hrun] at hrun'
    cases hrun'

theorem achieves_advance {ticks : Nat} (hlt : now + ticks < 1 <<< 63) :
    Achieves (Solvent timing now) (advance ticks) fun _ => Solvent timing (now + ticks) := by
  have hword : now + ticks < 1 <<< 64 := Nat.lt_trans hlt (by decide)
  refine achieves_get_bind fun c hc => achieves_ofOption_bind (b := now + ticks) ?_ ?_
  · rw [hc.clock_eq]
    exact Bounded.nat?_of_lt hword
  · exact achieves_drain (Nat.le_add_right ..) hlt

theorem achieves_advanceBeat {b : Beat} (hlt : now + timing.ticksInBeat b < 1 <<< 63) :
    Achieves (Solvent timing now) (advanceBeat b)
      fun _ => Solvent timing (now + timing.ticksInBeat b) := by
  refine achieves_get_bind fun c hc => ?_
  rw [hc.timing_eq]
  exact achieves_advance hlt

theorem spends_leapTo {tick : Nat} (hlt : tick < 1 <<< 63) :
    Spends timing now (leapTo tick) := by
  refine achieves_get_bind fun c hc => ?_
  have hnow := hc.now_lt
  rw [hc.clock_eq]
  exact (achieves_advance (by omega)).weaken fun _ _ hc' => ⟨_, hc'⟩

/-- All that a solvent channel has promised can be done. -/
theorem spends_flush : Spends timing now flush := by
  intro c hc
  show ∃ t c', Channel.flush c = .ok t c' ∧ _
  fun_induction Channel.flush c generalizing now with
  | case1 c hlast => exact ⟨c.clock, c, rfl, now, hc⟩
  | case2 c last hlast t c₁ hrun ih =>
    obtain ⟨t', c₁', hrun', later, h₁⟩ := spends_leapTo (hc.lastDue_lt hlast) c hc
    rw [hrun] at hrun'
    cases hrun'
    exact ih h₁
  | case3 c last hlast e c₁ hrun =>
    obtain ⟨t', c₁', hrun', later, h₁⟩ := spends_leapTo (hc.lastDue_lt hlast) c hc
    rw [hrun] at hrun'
    cases hrun'

end ChannelM

end MidiScore
