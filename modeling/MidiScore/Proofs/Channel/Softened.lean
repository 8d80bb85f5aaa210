import MidiScore.Proofs.Channel.Confined
import MidiScore.Proofs.Channel.Strikes

/-!
# The note-ons of strikes

Every note-on that a run writes is that of one of its strikes, with the velocity of the strike
(`Track.NotesOf`, `chronicle_notesOf`). A strike that takes a release back is softened. If it is not
asked to be softer than the dynamic, it is audible and no louder than the dynamic (`Track.TellsOf`);
and as long as no strike is promised that is asked to, none is made (`chronicle_insists`).
-/

namespace MidiScore

/-- A softened strike that is not asked to be softer than the dynamic is audible and no louder than
the dynamic. -/
theorem Dynamic.softened?_bounds {d : Dynamic} {delta : Int} {velocity : Nat} (hdelta : 0 ≤ delta)
    (h : d.softened? delta = some velocity) : 1 ≤ velocity ∧ velocity ≤ max 1 d.velocity := by
  unfold softened? at h
  obtain ⟨loudness, hloudness, h⟩ := Option.bind_eq_some_iff.1 h
  obtain ⟨fall, hfall, h⟩ := Option.bind_eq_some_iff.1 h
  obtain ⟨soft, hsoft, h⟩ := Option.bind_eq_some_iff.1 h
  obtain ⟨-, rfl⟩ := Bounded.int?_eq_some_iff.1 hloudness
  obtain ⟨-, rfl⟩ := Bounded.int?_eq_some_iff.1 hfall
  unfold louder? at hsoft
  obtain ⟨sum, hsum, rfl⟩ := Option.map_eq_some_iff.1 hsoft
  obtain ⟨-, rfl⟩ := Bounded.int?_eq_some_iff.1 hsum
  cases h
  have hfall : (-(d.velocity + delta : Int)).tdiv 3 = -((d.velocity + delta) / 3) := by
    rw [Int.neg_tdiv, Int.tdiv_eq_ediv_of_nonneg (by omega)]
  unfold clampVelocity
  rw [hfall]
  omega

/-- The note-on that a strike writes. -/
def Strike.note (s : Strike) (velocity : Nat) : Event :=
  ⟨s.before.clock, .noteOn s.before.number s.key velocity⟩

/-- The strike takes the last release of its key back. -/
def Strike.Joins (s : Strike) : Prop :=
  ∃ handle, s.before.joinedRelease? s.key = .ok (some handle)

/-- The velocity of a strike: soft if it takes the last release of its key back. -/
def Strike.velocity? (s : Strike) : Option Nat :=
  match s.before.joinedRelease? s.key with
  | .ok (some _) => s.before.dynamic.softened? s.delta
  | .ok none => s.before.dynamic.louder? s.delta
  | .error _ => none

/-- Every note-on under a handle from `base` on was written by one of the strikes. -/
def Track.NotesOf (strikes : List Strike) (base : Nat) (t : Track) : Prop :=
  ∀ handle e, base ≤ handle → t.get? handle = some e → e.message.isNoteOn →
    ∃ s ∈ strikes, ∃ velocity, s.velocity? = some velocity ∧
      s.before.track.nextHandle = handle ∧ e = s.note velocity

/-- Every note-on under a handle from `base` on was written by one of the strikes. If that strike
took a release back, the note-on is audible and no louder than the dynamic. -/
def Track.TellsOf (strikes : List Strike) (base : Nat) (t : Track) : Prop :=
  ∀ handle e, base ≤ handle → t.get? handle = some e → e.message.isNoteOn →
    ∃ s ∈ strikes, ∃ velocity, s.before.track.nextHandle = handle ∧ e = s.note velocity ∧
      (s.Joins → 1 ≤ velocity ∧ velocity ≤ max 1 s.before.dynamic.velocity)

open Channel ChannelM

namespace Track.NotesOf

variable {strikes : List Strike} {base : Nat} {t : Track} {c c' : Channel}

theorem start (t : Track) : t.NotesOf [] t.nextHandle := fun _ _ hbase he _ =>
  absurd (Track.lt_of_get? he) (Nat.not_lt_of_le hbase)

theorem mono {more : List Strike} (h : t.NotesOf strikes base) (hsub : strikes ⊆ more) :
    t.NotesOf more base := by
  intro handle e hbase he hon
  obtain ⟨s, hs, hwrote⟩ := h handle e hbase he hon
  exact ⟨s, hsub hs, hwrote⟩

theorem erase (h : t.NotesOf strikes base) (pulled : Nat) :
    (t.erase pulled).NotesOf strikes base := by
  intro handle e hbase he hon
  rw [Track.get?_erase] at he
  split at he
  · cases he
  · exact h handle e hbase he hon

theorem write {m : Message} (h : c.track.NotesOf strikes base) (hm : m.isNoteOn = false) :
    (c.write m).track.NotesOf strikes base := by
  intro handle e hbase he hon
  rcases of_get?_write he with ⟨-, rfl⟩ | ⟨-, he⟩
  · rw [hm] at hon
    cases hon
  · exact h handle e hbase he hon

theorem aside (h : c.track.NotesOf strikes base) (ha : Aside c c') :
    c'.track.NotesOf strikes base := by
  obtain ⟨track, controllers, dynamic, bend, rfl, rfl | ⟨m, hon, -, rfl⟩⟩ := ha
  · exact h
  · exact h.write hon

theorem released (h : c.track.NotesOf strikes base) (key velocity : Nat) :
    (c.released key velocity).track.NotesOf strikes base := by
  show (c.emit (.noteOff c.number key velocity)).track.NotesOf strikes base
  unfold Channel.emit
  split
  · exact h
  · exact h.write rfl

/-- The note-on of a strike is that of the strike. -/
theorem struck {s : Strike} {velocity : Nat} (h : c.track.NotesOf strikes base)
    (hvelocity : s.velocity? = some velocity)
    (hnext : c.track.nextHandle = s.before.track.nextHandle)
    (hnumber : c.number = s.before.number) (hclock : c.clock = s.before.clock) :
    (c.struck s.key velocity).track.NotesOf (strikes ++ [s]) base := by
  have hold := h.mono (List.subset_append_left strikes [s])
  show (c.emit (.noteOn c.number s.key velocity)).track.NotesOf _ base
  unfold Channel.emit
  split
  · exact hold
  · intro handle e hbase he hon
    rcases of_get?_write he with ⟨rfl, rfl⟩ | ⟨-, he⟩
    · refine ⟨s, by simp, velocity, hvelocity, hnext.symm, ?_⟩
      rw [hnumber, hclock]
      rfl
    · exact hold handle e hbase he hon

/-- Strikes that are no softer than the dynamic are softened by no more than to the dynamic. -/
theorem tellsOf (h : t.NotesOf strikes base) (hloud : ∀ s ∈ strikes, 0 ≤ s.delta) :
    t.TellsOf strikes base := by
  intro handle e hbase he hon
  obtain ⟨s, hs, velocity, hvelocity, hhandle, hnote⟩ := h handle e hbase he hon
  refine ⟨s, hs, velocity, hhandle, hnote, fun ⟨release, hj⟩ => ?_⟩
  unfold Strike.velocity? at hvelocity
  rw [hj] at hvelocity
  exact Dynamic.softened?_bounds (hloud s hs) hvelocity

end Track.NotesOf

/-- The strikes so far were no softer than the dynamic, and no strike is due or promised that is. -/
structure Channel.Insists (due : List Action) (past : List Strike) (c : Channel) : Prop where
  due : ∀ a ∈ due, a.Loud
  pending : ∀ q ∈ c.pending.toList, q.2.Loud
  past : ∀ s ∈ past, 0 ≤ s.delta

theorem Channel.Insists.push {due : List Action} {past : List Strike} {c c' : Channel} {tick : Nat}
    {a : Action} (h : Insists due past c) (ha : a.Loud)
    (hp : c'.pending = c.pending.push tick a) : Insists due past c' := by
  refine ⟨h.due, ?_, h.past⟩
  rintro ⟨u, b⟩ hq
  rw [hp] at hq
  rcases Agenda.mem_toList_push.1 hq with ⟨-, rfl⟩ | hq
  · exact ha
  · exact h.pending _ hq

namespace ChannelM

variable {base : Nat} {due : List Action} {past : List Strike}

/-! ## Strikes and what they write -/

theorem notesOf_strike {c c' : Channel} {key duration offVelocity : Nat} {delta : Int}
    (h : c.track.NotesOf past base)
    (hstrike : strike key delta duration offVelocity c = .ok () c') :
    c'.track.NotesOf (past ++ [⟨c, key, delta⟩]) base := by
  obtain ⟨velocity, c₁, tick, hcases, -, -, -, rfl⟩ := of_strike hstrike
  rcases hcases with ⟨handle, hj, rfl, hsoft⟩ | ⟨hj, rfl, hloud⟩
  · refine Track.NotesOf.struck (s := ⟨c, key, delta⟩) (h.erase handle) ?_
      (Track.nextHandle_erase ..) rfl rfl
    unfold Strike.velocity?
    rwa [hj]
  · refine Track.NotesOf.struck (s := ⟨c₁, key, delta⟩) h ?_ rfl rfl rfl
    unfold Strike.velocity?
    rwa [hj]

theorem notesOf_run {a : Action} {c c' : Channel} (h : c.track.NotesOf past base)
    (hrun : run a c = .ok () c') : c'.track.NotesOf (past ++ a.strikes c) base := by
  have haside : a.noteKey? = none → c'.track.NotesOf (past ++ []) base := fun hnone => by
    rw [List.append_nil]
    exact h.aside (aside_of_run hnone hrun)
  cases a with
  | noteOff key velocity =>
    obtain ⟨-, rfl⟩ := eq_of_noteOff hrun
    show Track.NotesOf (past ++ []) base _
    rw [List.append_nil]
    exact h.released key velocity
  | play key delta duration offVelocity => exact notesOf_strike h hrun
  | _ => exact haside rfl

/-- Whatever is played writes the note-ons of its strikes. -/
theorem chronicle_notesOf : Chronicle fun _ past c => c.track.NotesOf past base where
  pop _ h := h
  run h hrun := notesOf_run h hrun
  rest _ _ h := h
  strike key delta duration offVelocity _ _ _ _ _ h hstrike := notesOf_strike h hstrike
  later delta a past _ c u c' h hlater := by
    obtain ⟨tick, -, -, rfl⟩ := of_later hlater
    exact h
  setController _ _ _ _ _ _ h hset := h.aside (aside_of_setController hset)
  setSlurred slurred past := ensures_modify fun _ h => h

/-! ## Strikes that are promised -/

theorem insists_run {a : Action} {c c' : Channel} (h : Insists (a :: due) past c)
    (hrun : run a c = .ok () c') : Insists due (past ++ a.strikes c) c' := by
  obtain ⟨ha, hdue⟩ := List.forall_mem_cons.1 h.due
  have hpast : ∀ s ∈ past ++ a.strikes c, 0 ≤ s.delta := by
    refine List.forall_mem_append.2 ⟨h.past, ?_⟩
    cases a with
    | play key delta duration offVelocity => exact List.forall_mem_singleton.2 ha
    | _ => exact List.forall_mem_nil _
  have hc : Insists due (past ++ a.strikes c) c := ⟨hdue, h.pending, hpast⟩
  rcases pending_of_run hrun with hp | ⟨tick, key, velocity, -, hp⟩
  · exact ⟨hdue, hp ▸ h.pending, hpast⟩
  · exact hc.push (a := .noteOff key velocity) trivial hp

/-- What is played promises no strikes that are softer than the dynamic. -/
theorem chronicle_insists : Chronicle Insists where
  pop hpop h := by
    have hloud := h.pending
    rw [Agenda.toList_of_popDue? hpop] at hloud
    obtain ⟨hactions, hrest⟩ := List.forall_mem_append.1 hloud
    exact ⟨fun a ha => hactions _ (List.mem_map_of_mem ha), hrest, h.past⟩
  run h hrun := insists_run h hrun
  rest _ _ h := ⟨h.due, h.pending, h.past⟩
  strike key delta duration offVelocity hdelta past c u c' h hstrike := by
    have hplay : (Action.play key delta duration offVelocity).Loud := hdelta
    exact insists_run ⟨List.forall_mem_singleton.2 hplay, h.pending, h.past⟩ hstrike
  later delta a past ha c u c' h hlater := by
    obtain ⟨tick, -, -, rfl⟩ := of_later hlater
    exact h.push ha rfl
  setController number value past c u c' h hset := by
    rw [eq_of_setController hset]
    exact ⟨h.due, h.pending, h.past⟩
  setSlurred slurred past := ensures_modify fun _ h => ⟨h.due, h.pending, h.past⟩

end ChannelM

end MidiScore
