import Mathlib.Data.List.Sort
import MidiScore.Proofs.Channel.Score

/-!
# The slurs of a phrase

A slur of a phrase is a maximal run of slurred elements. It begins where an element is slurred and
the one before it is not, and ends where the one behind it is not. So the places where the elements
change between slurred and not are, in order, the beginnings of the slurs and the places behind them
(`slurChanges_eq`).
-/

namespace MidiScore.Phrase

variable (p : Phrase) {i j k : Nat}

/-- Whether element `i` is slurred. -/
def slurredAt (i : Nat) : Bool :=
  (p.element? i).any (·.2.slurred)

/-- Whether the element before element `i` is slurred. There is none before the first one. -/
def slurredBefore : Nat → Bool
  | 0 => false
  | i + 1 => p.slurredAt i

/-- The elements from `i` to `j` are slurred, but neither the one before them nor the one behind
them. -/
structure IsSlur (i j : Nat) : Prop where
  le : i ≤ j
  lt : j < p.size
  slurred : ∀ k < j + 1, i ≤ k → p.slurredAt k
  first : p.slurredBefore i = false
  last : j + 1 < p.size → p.slurredAt (j + 1) = false

instance : Decidable (p.IsSlur i j) :=
  decidable_of_iff
    (i ≤ j ∧ j < p.size ∧ (∀ k < j + 1, i ≤ k → p.slurredAt k) ∧ p.slurredBefore i = false ∧
      (j + 1 < p.size → p.slurredAt (j + 1) = false))
    ⟨fun ⟨h₁, h₂, h₃, h₄, h₅⟩ => ⟨h₁, h₂, h₃, h₄, h₅⟩,
      fun ⟨h₁, h₂, h₃, h₄, h₅⟩ => ⟨h₁, h₂, h₃, h₄, h₅⟩⟩

/-- The slurs of the phrase, in order, each with its first and its last element. -/
def slurs : List (Nat × Nat) :=
  (List.range p.size).flatMap fun i =>
    ((List.range p.size).filter fun j => p.IsSlur i j).map (i, ·)

/-- The elements that are slurred while the one before is not, or the other way round. -/
def slurChanges : List Nat :=
  (List.range p.size).filter fun k => p.slurredAt k ≠ p.slurredBefore k

/-- Where a slur begins and, unless it ends with the phrase, where the element behind it stands. -/
def slurEdges (slur : Nat × Nat) : List (Nat × Bool) :=
  (slur.1, true) :: if slur.2 + 1 < p.size then [(slur.2 + 1, false)] else []

variable {p}

theorem mem_slurs : (i, j) ∈ p.slurs ↔ p.IsSlur i j := by
  unfold slurs
  simp only [List.mem_flatMap, List.mem_range, List.mem_map, List.mem_filter, Prod.mk.injEq,
    decide_eq_true_eq]
  constructor
  · rintro ⟨i', -, j', ⟨-, h⟩, rfl, rfl⟩
    exact h
  · intro h
    exact ⟨i, Nat.lt_of_le_of_lt h.le h.lt, j, ⟨h.lt, h⟩, rfl, rfl⟩

namespace IsSlur

variable {i' j' : Nat}

/-- Two slurs that begin together are one. -/
theorem unique (h : p.IsSlur i j) (h' : p.IsSlur i j') : j = j' := by
  have hle : ∀ {j j'}, p.IsSlur i j → p.IsSlur i j' → j' ≤ j := by
    intro j j' h h'
    refine Nat.le_of_not_lt fun hlt => ?_
    have hon := h'.slurred (j + 1) (by omega) (Nat.le_succ_of_le h.le)
    rw [h.last (Nat.lt_of_le_of_lt hlt h'.lt)] at hon
    cases hon
  exact Nat.le_antisymm (hle h' h) (hle h h')

/-- A slur that begins later begins behind the element that follows the earlier one. -/
theorem apart (h : p.IsSlur i j) (h' : p.IsSlur i' j') (hlt : i < i') : j + 1 < i' := by
  obtain ⟨k, rfl⟩ := Nat.exists_eq_add_one_of_ne_zero (Nat.ne_zero_of_lt hlt)
  refine Nat.lt_of_not_le fun hle => ?_
  have hon := h.slurred k (by omega) (Nat.le_of_lt_succ hlt)
  have hoff : p.slurredAt k = false := h'.first
  rw [hoff] at hon
  cases hon

end IsSlur

/-- A slurred element stands in a slur that goes on to its end. -/
theorem exists_last (hk : k < p.size) (hslurred : p.slurredAt k) :
    ∃ j, k ≤ j ∧ j < p.size ∧ (∀ m < j + 1, k ≤ m → p.slurredAt m) ∧
      (j + 1 < p.size → p.slurredAt (j + 1) = false) := by
  induction hn : p.size - k generalizing k with
  | zero => omega
  | succ n ih =>
    by_cases hnext : k + 1 < p.size ∧ p.slurredAt (k + 1)
    · obtain ⟨j, hle, hlt, hall, hlast⟩ := ih hnext.1 hnext.2 (by omega)
      refine ⟨j, by omega, hlt, fun m hm hkm => ?_, hlast⟩
      rcases Nat.eq_or_lt_of_le hkm with rfl | hkm
      · exact hslurred
      · exact hall m hm hkm
    · refine ⟨k, Nat.le_refl k, hk, fun m hm hkm => ?_, fun hlt => ?_⟩
      · obtain rfl : m = k := by omega
        exact hslurred
      · exact Bool.eq_false_iff.2 fun hon => hnext ⟨hlt, hon⟩

/-- A slurred element stands in a slur that has begun somewhere. -/
theorem exists_first (hslurred : p.slurredAt k) :
    ∃ i, i ≤ k ∧ (∀ m < k + 1, i ≤ m → p.slurredAt m) ∧ p.slurredBefore i = false := by
  induction k with
  | zero =>
    refine ⟨0, Nat.le_refl 0, fun m hm _ => ?_, rfl⟩
    obtain rfl : m = 0 := by omega
    exact hslurred
  | succ k ih =>
    cases hbefore : p.slurredAt k with
    | true =>
      obtain ⟨i, hle, hall, hfirst⟩ := ih hbefore
      refine ⟨i, by omega, fun m hm him => ?_, hfirst⟩
      rcases Nat.eq_or_lt_of_le (Nat.le_of_lt_succ hm) with rfl | hlt
      · exact hslurred
      · exact hall m hlt him
    | false =>
      refine ⟨k + 1, Nat.le_refl _, fun m hm him => ?_, hbefore⟩
      obtain rfl : m = k + 1 := by omega
      exact hslurred

theorem mem_slurEdges {b : Bool} :
    (k, b) ∈ p.slurs.flatMap p.slurEdges ↔
      k < p.size ∧ p.slurredAt k = b ∧ p.slurredAt k ≠ p.slurredBefore k := by
  rw [List.mem_flatMap]
  constructor
  · rintro ⟨⟨i, j⟩, hslur, hk⟩
    have h := mem_slurs.1 hslur
    rcases List.mem_cons.1 hk with hk | hk
    · cases hk
      have hon := h.slurred i (Nat.lt_succ_of_le h.le) (Nat.le_refl i)
      refine ⟨Nat.lt_of_le_of_lt h.le h.lt, hon, ?_⟩
      rw [hon, h.first]
      exact Bool.noConfusion
    · split at hk
      · next hlt =>
        cases List.mem_singleton.1 hk
        have hoff := h.last hlt
        have hon : p.slurredBefore (j + 1) = true := h.slurred j (Nat.lt_succ_self j) h.le
        refine ⟨hlt, hoff, ?_⟩
        rw [hoff, hon]
        exact Bool.noConfusion
      · cases hk
  · rintro ⟨hk, rfl, hne⟩
    cases hon : p.slurredAt k with
    | true =>
      obtain ⟨j, hle, hlt, hall, hlast⟩ := exists_last hk hon
      have hfirst : p.slurredBefore k = false :=
        Bool.eq_false_iff.2 fun hb => hne (hon.trans hb.symm)
      exact ⟨(k, j), mem_slurs.2 ⟨hle, hlt, hall, hfirst, hlast⟩, List.mem_cons_self⟩
    | false =>
      cases k with
      | zero => exact absurd hon hne
      | succ j =>
        have hbefore : p.slurredAt j = true := by
          rw [hon] at hne
          exact Bool.eq_true_of_not_eq_false fun hb => hne hb.symm
        obtain ⟨i, hle, hall, hfirst⟩ := exists_first hbefore
        refine ⟨(i, j), mem_slurs.2 ⟨hle, by omega, hall, hfirst, fun _ => hon⟩, ?_⟩
        unfold slurEdges
        rw [if_pos hk]
        exact .tail _ (.head _)

/-- Slurs are listed in order, and at least one element lies between two of them. -/
theorem pairwise_slurs (p : Phrase) : p.slurs.Pairwise fun r r' => r.2 + 1 < r'.1 := by
  have hmem : ∀ {i : Nat} {r : Nat × Nat},
      r ∈ ((List.range p.size).filter fun j => p.IsSlur i j).map (i, ·) →
        r.1 = i ∧ p.IsSlur i r.2 := by
    intro i r hr
    obtain ⟨j, hj, rfl⟩ := List.mem_map.1 hr
    exact ⟨rfl, by simpa using (List.mem_filter.1 hj).2⟩
  refine List.pairwise_flatMap.2 ⟨fun i _ => List.pairwise_map.2 ?_, ?_⟩
  · refine (List.pairwise_lt_range.filter _).imp_of_mem fun {j j'} hj hj' hlt => ?_
    have h := (hmem (List.mem_map_of_mem hj)).2.unique (hmem (List.mem_map_of_mem hj')).2
    exact absurd h (Nat.ne_of_lt hlt)
  · refine List.pairwise_lt_range.imp fun hlt r hr r' hr' => ?_
    obtain ⟨rfl, h⟩ := hmem hr
    obtain ⟨rfl, h'⟩ := hmem hr'
    exact h.apart h' hlt

theorem pairwise_slurEdges (p : Phrase) :
    (p.slurs.flatMap p.slurEdges).Pairwise fun e e' => e.1 < e'.1 := by
  have hlast : ∀ {r : Nat × Nat} {e : Nat × Bool}, e ∈ p.slurEdges r →
      e.1 = r.1 ∨ e.1 = r.2 + 1 := by
    intro r e he
    rcases List.mem_cons.1 he with rfl | he
    · exact .inl rfl
    · split at he
      · cases List.mem_singleton.1 he
        exact .inr rfl
      · cases he
  refine List.pairwise_flatMap.2 ⟨fun r hr => ?_, ?_⟩
  · have hle := (mem_slurs.1 hr).le
    unfold slurEdges
    split
    · exact List.pairwise_pair.2 (Nat.lt_succ_of_le hle)
    · exact List.pairwise_singleton ..
  · refine p.pairwise_slurs.imp_of_mem fun {r r'} hr hr' hlt e he e' he' => ?_
    have hle := (mem_slurs.1 hr).le
    have hle' := (mem_slurs.1 hr').le
    rcases hlast he with he | he <;> rcases hlast he' with he' | he' <;> omega

/-- The places where the elements change between slurred and not are those where a slur begins and
those behind a slur. -/
theorem slurChanges_eq (p : Phrase) :
    p.slurChanges.map (fun k => (k, p.slurredAt k)) = p.slurs.flatMap p.slurEdges := by
  have hirrefl : Std.Irrefl fun e e' : Nat × Bool => e.1 < e'.1 := ⟨fun _ => Nat.lt_irrefl _⟩
  have hantisymm : Std.Antisymm fun e e' : Nat × Bool => e.1 < e'.1 :=
    ⟨fun _ _ h h' => absurd h' (Nat.lt_asymm h)⟩
  have hsorted : (p.slurChanges.map fun k => (k, p.slurredAt k)).Pairwise fun e e' => e.1 < e'.1 :=
    List.pairwise_map.2 (List.pairwise_lt_range.filter _)
  refine hsorted.eq_of_mem_iff p.pairwise_slurEdges fun ⟨k, b⟩ => ?_
  rw [mem_slurEdges]
  unfold slurChanges
  simp only [List.mem_map, List.mem_filter, List.mem_range, Prod.mk.injEq, decide_eq_true_eq]
  constructor
  · rintro ⟨k', ⟨hlt, hne⟩, rfl, rfl⟩
    exact ⟨hlt, rfl, hne⟩
  · rintro ⟨hlt, rfl, hne⟩
    exact ⟨k, ⟨hlt, hne⟩, rfl, rfl⟩

end MidiScore.Phrase
