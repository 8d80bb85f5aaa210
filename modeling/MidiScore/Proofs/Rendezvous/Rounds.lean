import Mathlib.Logic.Relation
import MidiScore.Proofs.Rendezvous.Basic

/-!
# Rounds of a rendezvous

An assembly is a rendezvous with all who come to it, and with what each came and went with. Its
steps are those of members and others in any order, and a member that waits may wake whenever it
likes. In a reachable assembly every member has come as often as there were meetings, or once more
if it sits: so a meeting cannot end while one who waits still has to leave the last
(`Assembly.InRound`).
-/

namespace MidiScore

/-- A rendezvous and all who come to it. -/
structure Assembly where
  link : Rendezvous
  /-- The generation whose end one waits for while it is inside. -/
  inside : Nat → Option Nat := fun _ => none
  /-- The times with which each came, in order. -/
  calls : Nat → List Nat := fun _ => []
  /-- The times with which each member went on, in order. -/
  returns : Nat → List Nat := fun _ => []

namespace Assembly

section Notes

variable {α : Type} {notes : Nat → List α} {id j r : Nat} {x y : α}

/-- Adds an entry to the notes about one. -/
def note (notes : Nat → List α) (id : Nat) (x : α) : Nat → List α :=
  Function.update notes id (notes id ++ [x])

@[simp] theorem note_self (notes : Nat → List α) (id : Nat) (x : α) :
    note notes id x id = notes id ++ [x] :=
  Function.update_self ..

theorem note_of_ne (h : j ≠ id) : note notes id x j = notes j :=
  Function.update_of_ne h ..

theorem of_getElem?_note (h : (note notes id x j)[r]? = some y) :
    (notes j)[r]? = some y ∨ j = id ∧ r = (notes id).length ∧ y = x := by
  by_cases hj : j = id
  · subst hj
    rw [note_self, List.getElem?_append] at h
    split at h
    · exact .inl h
    · next hr =>
      have hr' := List.getElem?_eq_some_iff.1 h
      simp at hr'
      exact .inr ⟨rfl, by omega, hr'.2.symm⟩
  · rw [note_of_ne hj] at h
    exact .inl h

theorem getElem?_note_of_some (h : (notes j)[r]? = some y) :
    (note notes id x j)[r]? = some y := by
  by_cases hj : j = id
  · subst hj
    rw [note_self, List.getElem?_append_left (List.getElem?_eq_some_iff.1 h).1]
    exact h
  · rw [note_of_ne hj]
    exact h

end Notes

/-- One comes with a time, if it is not inside, or one that is inside wakes. -/
inductive Step (s : Assembly) : Assembly → Prop where
  | pass {id time : Nat} {link : Rendezvous} (outside : s.inside id = none)
      (arrival : s.link.arrive id time = (.stranger, link)) : Step s { s with link }
  | wait {id time generation : Nat} {link : Rendezvous} (outside : s.inside id = none)
      (arrival : s.link.arrive id time = (.waiting generation, link)) :
      Step s { s with
        link
        inside := Function.update s.inside id (some generation)
        calls := note s.calls id time }
  | release {id time joinTime : Nat} {link : Rendezvous} (outside : s.inside id = none)
      (arrival : s.link.arrive id time = (.released joinTime, link)) :
      Step s { s with
        link
        calls := note s.calls id time
        returns := note s.returns id joinTime }
  | wake {id generation joinTime : Nat} (waiting : s.inside id = some generation)
      (woken : s.link.wake? generation = some joinTime) :
      Step s { s with
        inside := Function.update s.inside id none
        returns := note s.returns id joinTime }
  /-- It wakes for nothing and waits on. -/
  | doze {id generation : Nat} (waiting : s.inside id = some generation)
      (asleep : s.link.wake? generation = none) : Step s s

/-- Those who come step in any order. -/
abbrev Steps : Assembly → Assembly → Prop :=
  Relation.ReflTransGen Step

/-! ## The calls and returns of one -/

/-- Each went on as often as it came, or once less while it is inside. -/
def Paired (s : Assembly) : Prop :=
  ∀ id, (s.calls id).length = (s.returns id).length + if (s.inside id).isSome then 1 else 0

theorem Paired.step {s s' : Assembly} (h : s.Paired) (hs : Step s s') : s'.Paired := by
  intro j
  have hj := h j
  cases hs with
  | pass | doze => exact hj
  | @wait id _ _ _ outside =>
    by_cases hid : j = id
    · subst hid
      simp_all
    · simpa [note_of_ne hid, Function.update_of_ne hid] using hj
  | @release id _ _ _ outside =>
    by_cases hid : j = id
    · subst hid
      simp_all
    · simpa [note_of_ne hid] using hj
  | @wake id _ _ waiting =>
    by_cases hid : j = id
    · subst hid
      simp_all
    · simpa [note_of_ne hid, Function.update_of_ne hid] using hj

/-! ## What a meeting is about -/

/-- The times with which the members came for the `r`-th time. -/
def times (s : Assembly) (r : Nat) : Set Nat :=
  {t | ∃ m ∈ s.link.members, (s.calls m)[r]? = some t}

/-- Where the member of a seat stands after `n` meetings. -/
inductive Stance (s : Assembly) (n : Nat) (seat : Seat) : Prop where
  | away (arrived : seat.arrived = false) (outside : s.inside seat.member = none)
      (calls : (s.calls seat.member).length = n)
  | seated (arrived : seat.arrived = true)
      (waiting : s.inside seat.member = some s.link.generation)
      (calls : (s.calls seat.member).length = n + 1)
      (time : (s.calls seat.member)[n]? = some seat.time)
  /-- The meeting is over and it has not woken yet. -/
  | leaving {generation : Nat} (arrived : seat.arrived = false)
      (waiting : s.inside seat.member = some generation)
      (ended : generation + 1 = s.link.generation)
      (calls : (s.calls seat.member).length = n)

/-- Who is not concerned by a step keeps its stance. -/
theorem Stance.frame {s s' : Assembly} {n : Nat} {seat : Seat} (h : s.Stance n seat)
    (hin : s'.inside seat.member = s.inside seat.member)
    (hcalls : s'.calls seat.member = s.calls seat.member)
    (hgen : s'.link.generation = s.link.generation) : s'.Stance n seat := by
  cases h with
  | away arrived outside calls => exact .away arrived (hin ▸ outside) (hcalls ▸ calls)
  | seated arrived waiting calls time =>
    exact .seated arrived (by rw [hin, hgen]; exact waiting) (hcalls ▸ calls) (hcalls ▸ time)
  | leaving arrived waiting ended calls =>
    exact .leaving arrived (hin ▸ waiting) (hgen ▸ ended) (hcalls ▸ calls)

/-- What holds between two steps after `n` meetings. -/
structure InRound (s : Assembly) (n : Nat) : Prop where
  paired : s.Paired
  stance : ∀ seat ∈ s.link.seats, s.Stance n seat
  waitsForOne : ∃ seat ∈ s.link.seats, seat.arrived = false
  joinTime : ∀ r, n = r + 1 → IsGreatest (s.times r) s.link.joinTime
  returns : ∀ id r t, (s.returns id)[r]? = some t → r < n ∧ IsGreatest (s.times r) t
  stranger : ∀ id, id ∉ s.link.members → s.inside id = none ∧ s.calls id = []

namespace InRound

variable {s s' : Assembly} {n id time joinTime generation : Nat} {link : Rendezvous}

theorem le_length_calls (h : s.InRound n) {m : Nat} (hm : m ∈ s.link.members) :
    n ≤ (s.calls m).length := by
  obtain ⟨seat, hseat, rfl⟩ := Rendezvous.mem_members.1 hm
  cases h.stance seat hseat with
  | away _ _ calls => omega
  | seated _ _ calls => omega
  | leaving _ _ _ calls => omega

/-- A member that is outside has been at every meeting and at no other. -/
theorem length_calls (h : s.InRound n) {m : Nat} (hm : m ∈ s.link.members)
    (outside : s.inside m = none) : (s.calls m).length = n := by
  obtain ⟨seat, hseat, rfl⟩ := Rendezvous.mem_members.1 hm
  cases h.stance seat hseat with
  | away _ _ calls => exact calls
  | seated _ waiting => simp [outside] at waiting
  | leaving _ waiting => simp [outside] at waiting

/-- A call at the next meeting changes nothing about those before. -/
theorem times_note (hmem : s'.link.members = s.link.members)
    (hcalls : s'.calls = note s.calls id time) (hlen : (s.calls id).length = n) {r : Nat}
    (hr : r ≠ n) : s'.times r = s.times r := by
  have heq : ∀ m, (s'.calls m)[r]? = (s.calls m)[r]? := by
    intro m
    rw [hcalls]
    by_cases hm : m = id
    · subst hm
      rw [note_self, List.getElem?_append]
      split
      · rfl
      · rw [List.getElem?_eq_none (by simp; omega), List.getElem?_eq_none (by omega)]
    · rw [note_of_ne hm]
  unfold times
  simp only [hmem, heq]

theorem wait (h : s.InRound n) (outside : s.inside id = none)
    (arrival : s.link.arrive id time = (.waiting generation, link))
    (hs : s' = { s with
      link
      inside := Function.update s.inside id (some generation)
      calls := note s.calls id time }) (paired : s'.Paired) : s'.InRound n := by
  obtain ⟨hid, rfl, rfl, hone⟩ := Rendezvous.of_arrive_waiting arrival
  have hlen := h.length_calls hid outside
  have hmem : s'.link.members = s.link.members := by
    rw [hs]
    exact Rendezvous.members_sit ..
  have htimes : ∀ r, r ≠ n → s'.times r = s.times r := fun r hr =>
    times_note hmem (by rw [hs]) hlen hr
  refine ⟨paired, ?_, ?_, ?_, ?_, ?_⟩
  · intro seat hseat
    rw [hs] at hseat
    rcases Rendezvous.mem_sit hseat with ⟨hm, harr, htime⟩ | ⟨hm, hseat⟩
    · refine .seated harr ?_ ?_ ?_
      · simp [hs, hm]
      · simp [hs, hm, hlen]
      · simp [hs, hm, htime, ← hlen]
    · refine (h.stance seat hseat).frame ?_ ?_ ?_
      · rw [hs]
        exact Function.update_of_ne hm ..
      · rw [hs]
        exact note_of_ne hm
      · rw [hs]
  · rw [hs]
    exact hone
  · intro r hr
    rw [htimes r (by omega), hs]
    exact h.joinTime r hr
  · intro j r t ht
    obtain ⟨hr, hgreat⟩ := h.returns j r t (by rw [hs] at ht; exact ht)
    rw [htimes r (by omega)]
    exact ⟨hr, hgreat⟩
  · intro j hj
    rw [hmem] at hj
    have hne : j ≠ id := by
      rintro rfl
      exact hj hid
    rw [hs]
    exact ⟨(Function.update_of_ne hne ..).trans (h.stranger j hj).1,
      (note_of_ne hne).trans (h.stranger j hj).2⟩

/-- A member that waits for the meeting to come has been called for it. -/
theorem length_calls_of_held (h : s.InRound n) {m : Nat} (hm : m ∈ s.link.members)
    (waiting : s.inside m = some s.link.generation) : (s.calls m).length = n + 1 := by
  obtain ⟨seat, hseat, rfl⟩ := Rendezvous.mem_members.1 hm
  cases h.stance seat hseat with
  | away _ outside => simp [outside] at waiting
  | seated _ _ calls => exact calls
  | leaving _ waits ended =>
    have := Option.some.inj (waits.symm.trans waiting)
    omega

/-- There is a member for whom the meeting to come waits. -/
theorem exists_missing (h : s.InRound n) : ∃ m ∈ s.link.members, (s.calls m).length = n := by
  obtain ⟨seat, hseat, harr⟩ := h.waitsForOne
  refine ⟨seat.member, Rendezvous.mem_members.2 ⟨seat, hseat, rfl⟩, ?_⟩
  cases h.stance seat hseat with
  | away _ _ calls => exact calls
  | seated arrived => simp [arrived] at harr
  | leaving _ _ _ calls => exact calls

/-- When the last member comes all others wait for this meeting. -/
theorem inside_of_released (h : s.InRound n)
    (arrival : s.link.arrive id time = (.released joinTime, link)) {m : Nat}
    (hm : m ∈ s.link.members) (hne : m ≠ id) : s.inside m = some s.link.generation := by
  obtain ⟨-, hall, -⟩ := Rendezvous.of_arrive_released arrival
  obtain ⟨seat, hseat, rfl⟩ := Rendezvous.mem_members.1 hm
  have harr := hall seat (Rendezvous.mem_sit_of_ne hseat hne)
  cases h.stance seat hseat with
  | away arrived => simp [arrived] at harr
  | seated _ waiting => exact waiting
  | leaving arrived => simp [arrived] at harr

/-- The last member to come brings the latest time of all to the meeting. -/
theorem isGreatest_times (h : s.InRound n) (outside : s.inside id = none)
    (hid : id ∈ s.link.members)
    (hall : ∀ seat ∈ Rendezvous.sit id time s.link.seats, seat.arrived = true)
    (hmem : s'.link.members = s.link.members) (hcalls : s'.calls = note s.calls id time) :
    IsGreatest (s'.times n) (Rendezvous.latest (Rendezvous.sit id time s.link.seats)) := by
  have hlen := h.length_calls hid outside
  have htime : ∀ seat ∈ Rendezvous.sit id time s.link.seats,
      (s'.calls seat.member)[n]? = some seat.time := by
    intro seat hseat
    rw [hcalls]
    rcases Rendezvous.mem_sit hseat with ⟨hm, -, htime⟩ | ⟨hm, hold⟩
    · simp [hm, htime, ← hlen]
    · rw [note_of_ne hm]
      have harr := hall seat hseat
      cases h.stance seat hold with
      | away arrived => simp [arrived] at harr
      | seated _ _ _ time => exact time
      | leaving arrived => simp [arrived] at harr
  have hmembers := Rendezvous.members_sit id time s.link.seats
  have hset : s'.times n = {t | ∃ seat ∈ Rendezvous.sit id time s.link.seats, seat.time = t} := by
    ext t
    constructor
    · rintro ⟨m, hm, ht⟩
      rw [hmem, Rendezvous.members, ← hmembers] at hm
      obtain ⟨seat, hseat, rfl⟩ := List.mem_map.1 hm
      exact ⟨seat, hseat, Option.some.inj ((htime seat hseat).symm.trans ht)⟩
    · rintro ⟨seat, hseat, rfl⟩
      refine ⟨seat.member, ?_, htime seat hseat⟩
      rw [hmem, Rendezvous.members, ← hmembers]
      exact List.mem_map_of_mem hseat
  rw [hset]
  apply Rendezvous.isGreatest_latest
  intro hnil
  rw [hnil] at hmembers
  rw [Rendezvous.members, ← hmembers] at hid
  cases hid

theorem release (h : s.InRound n) (outside : s.inside id = none)
    (arrival : s.link.arrive id time = (.released joinTime, link))
    (hs : s' = { s with
      link
      calls := note s.calls id time
      returns := note s.returns id joinTime }) (paired : s'.Paired) : s'.InRound (n + 1) := by
  obtain ⟨hid, hall, rfl, rfl⟩ := Rendezvous.of_arrive_released arrival
  have hlen := h.length_calls hid outside
  have hmem : s'.link.members = s.link.members := by
    rw [hs]
    exact (Rendezvous.members_clear _).trans (Rendezvous.members_sit ..)
  have htimes : ∀ r, r ≠ n → s'.times r = s.times r := fun r hr =>
    times_note hmem (by rw [hs]) hlen hr
  have hgreat := h.isGreatest_times outside hid hall hmem (by rw [hs])
  refine ⟨paired, ?_, ?_, ?_, ?_, ?_⟩
  · intro seat hseat
    rw [hs] at hseat
    obtain ⟨harr, seat₀, hseat₀, hm₀⟩ := Rendezvous.mem_clear hseat
    rcases Rendezvous.mem_sit hseat₀ with ⟨hm, -⟩ | ⟨hm, hold⟩
    · rw [hm₀] at hm
      refine .away harr ?_ ?_
      · rw [hs, hm]
        exact outside
      · simp [hs, hm, hlen]
    · have harr₀ := hall seat₀ hseat₀
      rw [hm₀] at hm
      cases h.stance seat₀ hold with
      | away arrived => simp [arrived] at harr₀
      | seated _ waiting calls =>
        rw [hm₀] at waiting calls
        refine .leaving harr (by rw [hs]; exact waiting) (by rw [hs]) ?_
        rw [hs]
        exact (congrArg List.length (note_of_ne hm)).trans calls
      | leaving arrived => simp [arrived] at harr₀
  · rw [← hmem] at hid
    obtain ⟨seat, hseat, -⟩ := Rendezvous.mem_members.1 hid
    refine ⟨seat, hseat, ?_⟩
    rw [hs] at hseat
    exact (Rendezvous.mem_clear hseat).1
  · intro r hr
    cases hr
    rw [hs] at hgreat ⊢
    exact hgreat
  · intro j r t ht
    rw [hs] at ht
    rcases of_getElem?_note ht with hold | ⟨-, hr, rfl⟩
    · obtain ⟨hr, hold⟩ := h.returns j r t hold
      rw [htimes r (by omega)]
      exact ⟨by omega, hold⟩
    · have hpair := h.paired id
      have : r = n := by simp_all
      subst this
      exact ⟨by omega, hgreat⟩
  · intro j hj
    rw [hmem] at hj
    have hne : j ≠ id := by
      rintro rfl
      exact hj hid
    rw [hs]
    exact ⟨(h.stranger j hj).1, (note_of_ne hne).trans (h.stranger j hj).2⟩

theorem wake (h : s.InRound n) (waiting : s.inside id = some generation)
    (woken : s.link.wake? generation = some joinTime)
    (hs : s' = { s with
      inside := Function.update s.inside id none
      returns := note s.returns id joinTime }) (paired : s'.Paired) : s'.InRound n := by
  obtain ⟨hgen, rfl⟩ := Rendezvous.of_wake? woken
  have hid : id ∈ s.link.members := by
    by_contra hno
    rw [(h.stranger id hno).1] at waiting
    cases waiting
  -- the meeting that it waits for is over, so it has been at the last one
  have hleft : ∀ seat ∈ s.link.seats, seat.member = id →
      seat.arrived = false ∧ (s.calls id).length = n := by
    rintro seat hseat rfl
    cases h.stance seat hseat with
    | away _ outside => simp [outside] at waiting
    | seated _ waits =>
      rw [waits] at waiting
      exact absurd (Option.some.inj waiting) hgen
    | leaving arrived _ _ calls => exact ⟨arrived, calls⟩
  refine ⟨paired, ?_, ?_, ?_, ?_, ?_⟩
  · intro seat hseat
    rw [hs] at hseat
    by_cases hm : seat.member = id
    · obtain ⟨harr, hlen⟩ := hleft seat hseat hm
      refine .away harr ?_ ?_
      · simp [hs, hm]
      · rw [hs, hm]
        exact hlen
    · refine (h.stance seat hseat).frame ?_ ?_ ?_
      · rw [hs]
        exact Function.update_of_ne hm ..
      · rw [hs]
      · rw [hs]
  · rw [hs]
    exact h.waitsForOne
  · rw [hs]
    exact h.joinTime
  · intro j r t ht
    rw [hs] at ht ⊢
    rcases of_getElem?_note ht with hold | ⟨-, hr, rfl⟩
    · exact h.returns j r t hold
    · obtain ⟨seat, hseat, hm⟩ := Rendezvous.mem_members.1 hid
      have hlen := (hleft seat hseat hm).2
      have hpair := h.paired id
      rw [waiting] at hpair
      simp at hpair
      exact ⟨by omega, h.joinTime r (by omega)⟩
  · intro j hj
    rw [hs] at hj ⊢
    have hne : j ≠ id := by
      rintro rfl
      exact hj hid
    exact ⟨(Function.update_of_ne hne ..).trans (h.stranger j hj).1, (h.stranger j hj).2⟩

/-- A step leads into the same round or into the next. -/
theorem step (h : s.InRound n) (hs : Step s s') : s'.InRound n ∨ s'.InRound (n + 1) := by
  have paired := h.paired.step hs
  cases hs with
  | pass outside arrival =>
    obtain ⟨-, rfl⟩ := Rendezvous.of_arrive_stranger arrival
    exact .inl h
  | wait outside arrival => exact .inl (h.wait outside arrival rfl paired)
  | release outside arrival => exact .inr (h.release outside arrival rfl paired)
  | wake waiting woken => exact .inl (h.wake waiting woken rfl paired)
  | doze => exact .inl h

end InRound

theorem inRound_start {link : Rendezvous} (idle : link.IsIdle) : InRound { link } 0 := by
  refine ⟨fun _ => rfl, fun seat hseat => .away (idle.2 seat hseat) rfl rfl, ?_, ?_, ?_, ?_⟩
  · obtain ⟨seat, hseat⟩ := List.exists_mem_of_ne_nil _ idle.1
    exact ⟨seat, hseat, idle.2 seat hseat⟩
  · intro r hr
    cases hr
  · intro id r t ht
    cases ht
  · exact fun _ _ => ⟨rfl, rfl⟩

variable {s s' : Assembly}

theorem InRound.steps {n : Nat} (h : s.InRound n) (hs : Steps s s') : ∃ n', s'.InRound n' := by
  induction hs with
  | refl => exact ⟨n, h⟩
  | tail _ hstep ih =>
    obtain ⟨n', h'⟩ := ih
    rcases h'.step hstep with h' | h'
    · exact ⟨_, h'⟩
    · exact ⟨_, h'⟩

theorem members_step (hs : Step s s') : s'.link.members = s.link.members := by
  cases hs with
  | pass _ arrival =>
    obtain ⟨-, rfl⟩ := Rendezvous.of_arrive_stranger arrival
    rfl
  | wait _ arrival =>
    obtain ⟨-, -, rfl, -⟩ := Rendezvous.of_arrive_waiting arrival
    exact Rendezvous.members_sit ..
  | release _ arrival =>
    obtain ⟨-, -, -, rfl⟩ := Rendezvous.of_arrive_released arrival
    exact (Rendezvous.members_clear _).trans (Rendezvous.members_sit ..)
  | wake => rfl
  | doze => rfl

theorem members_steps (hs : Steps s s') : s'.link.members = s.link.members := by
  induction hs with
  | refl => rfl
  | tail _ hstep ih => exact (members_step hstep).trans ih

end Assembly

end MidiScore
