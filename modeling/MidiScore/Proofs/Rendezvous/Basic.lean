import Mathlib.Order.Bounds.Basic
import Mathlib.Tactic.Common
import MidiScore.Rendezvous

/-!
# Seats and arrivals

What the operations of a rendezvous do to its seats: which members there are, who sits, and what
each kind of arrival says about the rendezvous before and after it.
-/

namespace MidiScore.Rendezvous

variable {r r' : Rendezvous} {id time : Nat}

theorem mem_members {r : Rendezvous} {m : Nat} :
    m ∈ r.members ↔ ∃ seat ∈ r.seats, seat.member = m := by
  simp [members]

theorem members_sit (id time : Nat) (seats : List Seat) :
    (sit id time seats).map (·.member) = seats.map (·.member) := by
  unfold sit
  rw [List.map_map]
  refine List.map_congr_left fun seat _ => ?_
  show (if seat.member = id then _ else seat).member = seat.member
  split <;> rfl

theorem members_clear (seats : List Seat) :
    (clear seats).map (·.member) = seats.map (·.member) := by
  unfold clear
  rw [List.map_map]
  rfl

theorem mem_sit {seat : Seat} {seats : List Seat} (h : seat ∈ sit id time seats) :
    (seat.member = id ∧ seat.arrived = true ∧ seat.time = time) ∨
      seat.member ≠ id ∧ seat ∈ seats := by
  obtain ⟨seat₀, hmem, rfl⟩ := List.mem_map.1 h
  by_cases hid : seat₀.member = id
  · rw [if_pos hid]
    exact .inl ⟨hid, rfl, rfl⟩
  · rw [if_neg hid]
    exact .inr ⟨hid, hmem⟩

theorem mem_sit_of_ne {seat : Seat} {seats : List Seat} (h : seat ∈ seats)
    (hne : seat.member ≠ id) : seat ∈ sit id time seats := by
  refine List.mem_map.2 ⟨seat, h, ?_⟩
  rw [if_neg hne]

theorem mem_clear {seat : Seat} {seats : List Seat} (h : seat ∈ clear seats) :
    seat.arrived = false ∧ ∃ seat₀ ∈ seats, seat₀.member = seat.member := by
  obtain ⟨seat₀, hmem, rfl⟩ := List.mem_map.1 h
  exact ⟨rfl, seat₀, hmem, rfl⟩

theorem max?_eq_some_latest {seats : List Seat} (h : seats ≠ []) :
    (seats.map (·.time)).max? = some (latest seats) := by
  obtain ⟨seat, rest, rfl⟩ := List.exists_cons_of_ne_nil h
  show some _ = some (List.foldl max (max 0 seat.time) (rest.map (·.time)))
  rw [Nat.zero_max]

/-- The latest time is that of a seat, and no seat has a later one. -/
theorem isGreatest_latest {seats : List Seat} (h : seats ≠ []) :
    IsGreatest {t | ∃ seat ∈ seats, seat.time = t} (latest seats) := by
  obtain ⟨hmem, hle⟩ := List.max?_eq_some_iff.1 (max?_eq_some_latest h)
  refine ⟨List.mem_map.1 hmem, ?_⟩
  rintro t ⟨seat, hseat, rfl⟩
  exact hle _ (List.mem_map_of_mem hseat)

theorem of_arrive_stranger (h : r.arrive id time = (.stranger, r')) :
    id ∉ r.members ∧ r' = r := by
  unfold arrive at h
  split at h
  · dsimp only at h
    split at h <;> cases h
  · next hno =>
    cases h
    exact ⟨by simpa [isMember] using hno, rfl⟩

theorem of_arrive_waiting {generation : Nat} (h : r.arrive id time = (.waiting generation, r')) :
    id ∈ r.members ∧ generation = r.generation ∧ r' = { r with seats := sit id time r.seats } ∧
      ∃ seat ∈ r'.seats, seat.arrived = false := by
  unfold arrive at h
  split at h
  · next hid =>
    dsimp only at h
    split at h
    · cases h
    · next hall =>
      cases h
      refine ⟨by simpa [isMember] using hid, rfl, rfl, ?_⟩
      simpa using hall
  · cases h

theorem of_arrive_released {joinTime : Nat} (h : r.arrive id time = (.released joinTime, r')) :
    id ∈ r.members ∧ (∀ seat ∈ sit id time r.seats, seat.arrived = true) ∧
      joinTime = latest (sit id time r.seats) ∧
      r' = { seats := clear (sit id time r.seats), generation := r.generation + 1, joinTime } := by
  unfold arrive at h
  split at h
  · next hid =>
    dsimp only at h
    split at h
    · next hall =>
      cases h
      exact ⟨by simpa [isMember] using hid, by simpa using hall, rfl, rfl⟩
    · cases h
  · cases h

theorem of_wake? {generation t : Nat} (h : r.wake? generation = some t) :
    r.generation ≠ generation ∧ t = r.joinTime := by
  unfold wake? at h
  split at h
  · cases h
  · next hne =>
    cases h
    exact ⟨hne, rfl⟩

theorem wake?_eq_none_iff {generation : Nat} :
    r.wake? generation = none ↔ r.generation = generation := by
  unfold wake?
  split
  · next h => exact ⟨fun _ => h, fun _ => rfl⟩
  · next h => exact ⟨nofun, fun heq => absurd heq h⟩

/-- Nobody has come since the last meeting, as at a new rendezvous. -/
def IsIdle (r : Rendezvous) : Prop :=
  r.seats ≠ [] ∧ ∀ seat ∈ r.seats, seat.arrived = false

/-! ## The members -/

theorem mem_insertMember {m : Nat} {l : List Nat} : m ∈ insertMember id l ↔ m = id ∨ m ∈ l := by
  induction l with
  | nil => simp [insertMember]
  | cons x rest ih =>
    unfold insertMember
    split
    · simp
    · split
      · next _ hx => simp [hx]
      · rw [List.mem_cons, ih, List.mem_cons]
        tauto

/-- An ascending list stays ascending. -/
theorem pairwise_insertMember {l : List Nat} (h : l.Pairwise (· < ·)) :
    (insertMember id l).Pairwise (· < ·) := by
  induction l with
  | nil => simp [insertMember]
  | cons x rest ih =>
    obtain ⟨hx, hrest⟩ := List.pairwise_cons.1 h
    unfold insertMember
    split
    · next hlt =>
      refine List.pairwise_cons.2 ⟨fun y hy => ?_, h⟩
      rcases List.mem_cons.1 hy with rfl | hy
      · exact hlt
      · exact Nat.lt_trans hlt (hx y hy)
    · split
      · exact h
      · next hlt hne =>
        refine List.pairwise_cons.2 ⟨fun y hy => ?_, ih hrest⟩
        rcases mem_insertMember.1 hy with rfl | hy
        · omega
        · exact hx y hy

theorem mem_foldr_insertMember {m : Nat} {ids : List Nat} :
    m ∈ ids.foldr insertMember [] ↔ m ∈ ids := by
  induction ids with
  | nil => simp
  | cons x rest ih => rw [List.foldr_cons, mem_insertMember, ih, List.mem_cons]

theorem nodup_foldr_insertMember (ids : List Nat) : (ids.foldr insertMember []).Nodup := by
  have h : (ids.foldr insertMember []).Pairwise (· < ·) := by
    induction ids with
    | nil => exact .nil
    | cons x rest ih => exact pairwise_insertMember ih
  exact h.imp Nat.ne_of_lt

/-- A new rendezvous is idle and has a seat for each of its members. -/
theorem of_ofMembers {ids : List Nat} (h : ofMembers ids = .ok r) :
    r.IsIdle ∧ r.members.Nodup ∧ ∀ m, m ∈ r.members ↔ m ∈ ids := by
  unfold ofMembers at h
  dsimp only at h
  split at h
  · next htwo =>
    cases h
    have hmembers : members { seats := (ids.foldr insertMember []).map fun member => { member } } =
        ids.foldr insertMember [] := by
      show ((ids.foldr insertMember []).map fun member => ({ member } : Seat)).map _ = _
      rw [List.map_map]
      exact List.map_id _
    rw [hmembers]
    refine ⟨⟨?_, ?_⟩, nodup_foldr_insertMember ids, fun m => mem_foldr_insertMember⟩
    · intro hnil
      rw [List.map_eq_nil_iff] at hnil
      rw [hnil] at htwo
      exact absurd htwo (by decide)
    · intro seat hseat
      obtain ⟨m, -, rfl⟩ := List.mem_map.1 hseat
      rfl
  · cases h

end MidiScore.Rendezvous
