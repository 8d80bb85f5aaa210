import MidiScore.Number.Total

/-!
# Agendas

An agenda holds items by the tick on which they fall due. Items of one tick stand in a bucket, in
the order in which they were pushed; buckets stand in the order of their ticks, and none is empty.
Seen as a list (`Agenda.toList`) an agenda is sorted by tick, with ties in the order of arrival.
-/

namespace MidiScore

/-- Items by due tick, in buckets. -/
structure Agenda (α : Type) where
  buckets : List (Nat × List α) := []
  sorted : buckets.Pairwise (fun a b => a.1 < b.1) := by simp
  filled : ∀ b ∈ buckets, b.2 ≠ [] := by simp
deriving DecidableEq

namespace Agenda

variable {α : Type}

/-- The agenda on which nothing is due. -/
def empty : Agenda α where

/-- Adds items at the end of the bucket of tick `t`. -/
def addTo (t : Nat) (xs : List α) : List (Nat × List α) → List (Nat × List α)
  | [] => [(t, xs)]
  | (u, ys) :: rest =>
    if t < u then (t, xs) :: (u, ys) :: rest
    else if t = u then (u, ys ++ xs) :: rest
    else (u, ys) :: addTo t xs rest

theorem tick_of_mem_addTo {t : Nat} {xs : List α} {l : List (Nat × List α)} {b : Nat × List α}
    (h : b ∈ addTo t xs l) : b.1 = t ∨ ∃ a ∈ l, a.1 = b.1 := by
  induction l with
  | nil => simp_all [addTo]
  | cons a rest ih =>
    obtain ⟨u, ys⟩ := a
    simp only [addTo] at h
    split at h
    · rcases List.mem_cons.1 h with rfl | h
      · exact .inl rfl
      · exact .inr ⟨b, h, rfl⟩
    · split at h
      · rcases List.mem_cons.1 h with rfl | h
        · exact .inr ⟨(u, ys), by simp, rfl⟩
        · exact .inr ⟨b, by simp [h], rfl⟩
      · rcases List.mem_cons.1 h with rfl | h
        · exact .inr ⟨(u, ys), by simp, rfl⟩
        · rcases ih h with h | ⟨a, ha, e⟩
          · exact .inl h
          · exact .inr ⟨a, by simp [ha], e⟩

theorem sorted_addTo {t : Nat} {xs : List α} {l : List (Nat × List α)}
    (h : l.Pairwise (fun a b => a.1 < b.1)) : (addTo t xs l).Pairwise (fun a b => a.1 < b.1) := by
  induction l with
  | nil => simp [addTo]
  | cons a rest ih =>
    obtain ⟨u, ys⟩ := a
    obtain ⟨hu, hrest⟩ := List.pairwise_cons.1 h
    simp only [addTo]
    split
    · next htu =>
      refine List.pairwise_cons.2 ⟨fun b hb => ?_, h⟩
      rcases List.mem_cons.1 hb with rfl | hb
      · exact htu
      · exact Nat.lt_trans htu (hu b hb)
    · split
      · exact List.pairwise_cons.2 ⟨hu, hrest⟩
      · refine List.pairwise_cons.2 ⟨fun b hb => ?_, ih hrest⟩
        rcases tick_of_mem_addTo hb with e | ⟨c, hc, e⟩
        · simp only at e ⊢
          omega
        · have := hu c hc
          simp only at this ⊢
          omega

theorem filled_addTo {t : Nat} {xs : List α} {l : List (Nat × List α)} (hxs : xs ≠ [])
    (h : ∀ b ∈ l, b.2 ≠ []) : ∀ b ∈ addTo t xs l, b.2 ≠ [] := by
  induction l with
  | nil => simp [addTo, hxs]
  | cons a rest ih =>
    obtain ⟨u, ys⟩ := a
    intro b hb
    simp only [addTo] at hb
    split at hb
    · rcases List.mem_cons.1 hb with rfl | hb
      · exact hxs
      · exact h b hb
    · split at hb
      · rcases List.mem_cons.1 hb with rfl | hb
        · simp [hxs]
        · exact h b (by simp [hb])
      · rcases List.mem_cons.1 hb with rfl | hb
        · exact h _ (by simp)
        · exact ih (fun c hc => h c (by simp [hc])) b hb

/-- Adds an item behind those already due on tick `t`. -/
def push (q : Agenda α) (t : Nat) (x : α) : Agenda α where
  buckets := addTo t [x] q.buckets
  sorted := sorted_addTo q.sorted
  filled := filled_addTo (by simp) q.filled

/-- The tick of the first bucket. -/
def nextDue? (q : Agenda α) : Option Nat :=
  q.buckets.head?.map (·.1)

/-- The tick of the last bucket. -/
def lastDue? (q : Agenda α) : Option Nat :=
  q.buckets.getLast?.map (·.1)

/-- Takes out the first bucket if it is due by tick `limit`: its tick, its items and the rest of the
agenda. -/
def popDue? (q : Agenda α) (limit : Nat) : Option (Nat × List α × Agenda α) :=
  match h : q.buckets with
  | [] => none
  | (t, xs) :: rest =>
    if t ≤ limit then
      some (t, xs, {
        buckets := rest
        sorted := (List.pairwise_cons.1 (h ▸ q.sorted)).2
        filled := fun b hb => q.filled b (by simp [h, hb]) })
    else none

/-- The buckets with every tick lowered by `elapsed`, but not below zero. -/
def lower (elapsed : Nat) (l : List (Nat × List α)) : List (Nat × List α) :=
  l.foldl (fun m b => addTo (b.1 - elapsed) b.2 m) []

theorem sorted_lower (elapsed : Nat) (l : List (Nat × List α)) :
    (lower elapsed l).Pairwise (fun a b => a.1 < b.1) := by
  suffices h : ∀ m : List (Nat × List α), m.Pairwise (fun a b => a.1 < b.1) →
      (l.foldl (fun m b => addTo (b.1 - elapsed) b.2 m) m).Pairwise (fun a b => a.1 < b.1) from
    h [] .nil
  induction l with
  | nil => exact fun _ hm => hm
  | cons b rest ih => exact fun m hm => ih _ (sorted_addTo hm)

theorem filled_lower (elapsed : Nat) (l : List (Nat × List α)) (h : ∀ b ∈ l, b.2 ≠ []) :
    ∀ b ∈ lower elapsed l, b.2 ≠ [] := by
  suffices h : ∀ m : List (Nat × List α), (∀ b ∈ m, b.2 ≠ []) →
      ∀ b ∈ l.foldl (fun m b => addTo (b.1 - elapsed) b.2 m) m, b.2 ≠ [] from h [] (by simp)
  induction l with
  | nil => exact fun _ hm => hm
  | cons a rest ih =>
    exact fun m hm => ih (fun b hb => h b (by simp [hb])) _ (filled_addTo (h a (by simp)) hm)

/-- Brings every item forward by `elapsed` ticks. Items that would fall before tick zero are due on
tick zero. -/
def rebase (q : Agenda α) (elapsed : Nat) : Agenda α where
  buckets := lower elapsed q.buckets
  sorted := sorted_lower elapsed q.buckets
  filled := filled_lower elapsed q.buckets q.filled

/-- The items with their ticks, in the order in which they fall due. -/
def toList (q : Agenda α) : List (Nat × α) :=
  q.buckets.flatMap fun b => b.2.map (b.1, ·)

/-- Whether nothing is due any more. -/
def isEmpty (q : Agenda α) : Bool :=
  q.buckets.isEmpty

/-- The number of items. -/
def size (q : Agenda α) : Nat :=
  q.toList.length

/-- The sum of a weight over all items. -/
def weigh (w : α → Nat) (q : Agenda α) : Nat :=
  total (q.buckets.map fun b => total (b.2.map w))

/-! ## Weights -/

theorem total_addTo (w : α → Nat) (t : Nat) (xs : List α) (l : List (Nat × List α)) :
    total ((addTo t xs l).map fun b => total (b.2.map w)) =
      total (xs.map w) + total (l.map fun b => total (b.2.map w)) := by
  induction l with
  | nil => simp [addTo]
  | cons a rest ih =>
    obtain ⟨u, ys⟩ := a
    simp only [addTo]
    split
    · simp
    · split
      · simp only [List.map_cons, List.map_append, total_cons, total_append]
        omega
      · simp only [List.map_cons, total_cons, ih]
        omega

theorem weigh_push (w : α → Nat) (q : Agenda α) (t : Nat) (x : α) :
    (q.push t x).weigh w = w x + q.weigh w := by
  simp [push, weigh, total_addTo]

theorem weigh_of_popDue? {w : α → Nat} {q rest : Agenda α} {limit t : Nat} {xs : List α}
    (h : q.popDue? limit = some (t, xs, rest)) :
    q.weigh w = total (xs.map w) + rest.weigh w := by
  unfold popDue? at h
  split at h
  · cases h
  · next hb =>
    split at h
    · cases h
      simp [weigh, hb]
    · cases h

theorem ne_nil_of_popDue? {q rest : Agenda α} {limit t : Nat} {xs : List α}
    (h : q.popDue? limit = some (t, xs, rest)) : xs ≠ [] := by
  unfold popDue? at h
  split at h
  · cases h
  · next hb =>
    split at h
    · cases h
      exact q.filled (t, xs) (by simp [hb])
    · cases h

/-- An agenda with a last due tick has a bucket due by that tick. -/
theorem popDue?_isSome_of_lastDue? {q : Agenda α} {last limit : Nat} (h : q.lastDue? = some last)
    (hl : last ≤ limit) : (q.popDue? limit).isSome := by
  have hs := q.sorted
  unfold lastDue? at h
  unfold popDue?
  split
  · next hb => simp [hb] at h
  · next t xs rest hb =>
    have ht : t ≤ last := by
      cases hr : rest.getLast? with
      | none =>
        rw [hb, List.getLast?_cons, hr] at h
        simp_all
      | some b =>
        rw [hb, List.getLast?_cons, hr] at h
        simp only [Option.getD_some, Option.map_some, Option.some.injEq] at h
        rw [hb] at hs
        have := (List.pairwise_cons.1 hs).1 b (List.mem_of_getLast? hr)
        simp only at this
        omega
    simp [Nat.le_trans ht hl]

end Agenda

end MidiScore
