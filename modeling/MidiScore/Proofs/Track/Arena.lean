/-!
# Arenas

An arena hands out a key for everything that is put into it, and never the same key twice. It may
use the room of what was taken out again, and it lists what it holds in an order of its own. In
`Arena.cells` a key names a cell and says how often the cell had been used before, so that a key of
what was taken out does not find what came into its cell later.
-/

namespace MidiScore

/-- A store that hands out a fresh key for everything that is put into it. -/
structure Arena (Key α : Type) where
  State : Type
  empty : State
  insert : State → α → Key × State
  remove : State → Key → State
  get? : State → Key → Option α
  /-- All that the arena holds, in any order. -/
  values : State → List α
  /-- The key was handed out before. -/
  Issued : State → Key → Prop
  fresh (s : State) (a : α) : ¬ Issued s (insert s a).1
  issued_insert (s : State) (a : α) (k : Key) :
    Issued (insert s a).2 k ↔ k = (insert s a).1 ∨ Issued s k
  issued_remove (s : State) (k k' : Key) : Issued (remove s k) k' ↔ Issued s k'
  get?_insert_self (s : State) (a : α) : get? (insert s a).2 (insert s a).1 = some a
  get?_insert_of_ne {s : State} {a : α} {k : Key} :
    k ≠ (insert s a).1 → get? (insert s a).2 k = get? s k
  get?_remove_self (s : State) (k : Key) : get? (remove s k) k = none
  get?_remove_of_ne {s : State} {k k' : Key} : k' ≠ k → get? (remove s k) k' = get? s k'
  values_empty : values empty = []
  values_insert (s : State) (a : α) : (values (insert s a).2).Perm (a :: values s)
  values_remove {s : State} {k : Key} {a : α} :
    get? s k = some a → (a :: values (remove s k)).Perm (values s)
  remove_of_none {s : State} {k : Key} : get? s k = none → remove s k = s

/-- Room for one value, and how often it was used before. -/
structure Cell (α : Type) where
  uses : Nat
  value? : Option α

namespace Cells

variable {α : Type}

/-- Puts a value into the first cell that is free, or into a new one. -/
def insert : List (Cell α) → α → (Nat × Nat) × List (Cell α)
  | [], a => ((0, 0), [⟨0, some a⟩])
  | ⟨uses, none⟩ :: rest, a => ((0, uses + 1), ⟨uses + 1, some a⟩ :: rest)
  | ⟨uses, some b⟩ :: rest, a =>
    let ((i, n), rest) := insert rest a
    ((i + 1, n), ⟨uses, some b⟩ :: rest)

/-- Frees the cell that a key names, if it was not used again since. -/
def remove : List (Cell α) → Nat × Nat → List (Cell α)
  | [], _ => []
  | cell :: rest, (0, n) => if cell.uses = n then ⟨cell.uses, none⟩ :: rest else cell :: rest
  | cell :: rest, (i + 1, n) => cell :: remove rest (i, n)

/-- The value under a key. -/
def get? : List (Cell α) → Nat × Nat → Option α
  | [], _ => none
  | cell :: _, (0, n) => if cell.uses = n then cell.value? else none
  | _ :: rest, (i + 1, n) => get? rest (i, n)

/-- The values cell by cell. -/
def values (cells : List (Cell α)) : List α :=
  cells.filterMap (·.value?)

/-- The cell was used as often as the key says. -/
def Issued : List (Cell α) → Nat × Nat → Prop
  | [], _ => False
  | cell :: _, (0, n) => n ≤ cell.uses
  | _ :: rest, (i + 1, n) => Issued rest (i, n)

theorem fresh (cells : List (Cell α)) (a : α) : ¬ Issued cells (insert cells a).1 := by
  induction cells with
  | nil => exact id
  | cons cell rest ih =>
    obtain ⟨uses, _ | b⟩ := cell
    · exact Nat.not_succ_le_self uses
    · exact ih

theorem issued_insert (cells : List (Cell α)) (a : α) (k : Nat × Nat) :
    Issued (insert cells a).2 k ↔ k = (insert cells a).1 ∨ Issued cells k := by
  induction cells generalizing k with
  | nil =>
    obtain ⟨_ | i, n⟩ := k <;> simp [insert, Issued]
  | cons cell rest ih =>
    obtain ⟨uses, _ | b⟩ := cell
    · obtain ⟨_ | i, n⟩ := k
      · simp only [insert, Issued, Prod.mk.injEq, true_and]
        omega
      · simp [insert, Issued]
    · obtain ⟨_ | i, n⟩ := k
      · simp [insert, Issued]
      · simpa [insert, Issued, Prod.ext_iff] using ih (i, n)

theorem issued_remove (cells : List (Cell α)) (k k' : Nat × Nat) :
    Issued (remove cells k) k' ↔ Issued cells k' := by
  induction cells generalizing k k' with
  | nil => exact .rfl
  | cons cell rest ih =>
    obtain ⟨_ | i, n⟩ := k
    · unfold remove
      obtain ⟨_ | j, m⟩ := k' <;> split <;> exact .rfl
    · obtain ⟨_ | j, m⟩ := k'
      · exact .rfl
      · exact ih (i, n) (j, m)

theorem get?_insert_self (cells : List (Cell α)) (a : α) :
    get? (insert cells a).2 (insert cells a).1 = some a := by
  induction cells with
  | nil => rfl
  | cons cell rest ih =>
    obtain ⟨uses, _ | b⟩ := cell
    · simp [insert, get?]
    · exact ih

theorem get?_insert_of_ne {cells : List (Cell α)} {a : α} {k : Nat × Nat}
    (h : k ≠ (insert cells a).1) : get? (insert cells a).2 k = get? cells k := by
  induction cells generalizing k with
  | nil =>
    obtain ⟨_ | i, n⟩ := k
    · simp only [insert, ne_eq, Prod.mk.injEq, true_and] at h
      simp [insert, get?, Ne.symm h]
    · rfl
  | cons cell rest ih =>
    obtain ⟨uses, _ | b⟩ := cell
    · obtain ⟨_ | i, n⟩ := k
      · simp only [insert, ne_eq, Prod.mk.injEq, true_and] at h
        simp [insert, get?, Ne.symm h]
      · rfl
    · obtain ⟨_ | i, n⟩ := k
      · rfl
      · exact ih fun he => h (by simp [insert, ← he])

theorem get?_remove_self (cells : List (Cell α)) (k : Nat × Nat) :
    get? (remove cells k) k = none := by
  induction cells generalizing k with
  | nil => rfl
  | cons cell rest ih =>
    obtain ⟨_ | i, n⟩ := k
    · unfold remove
      by_cases h : cell.uses = n
      · simp [get?, h]
      · simp [get?, h]
    · exact ih (i, n)

theorem get?_remove_of_ne {cells : List (Cell α)} {k k' : Nat × Nat} (h : k' ≠ k) :
    get? (remove cells k) k' = get? cells k' := by
  induction cells generalizing k k' with
  | nil => rfl
  | cons cell rest ih =>
    obtain ⟨_ | i, n⟩ := k
    · unfold remove
      obtain ⟨_ | j, m⟩ := k'
      · have hne : n ≠ m := fun he => h (by rw [he])
        split
        · next hn => simp [get?, hn, hne]
        · rfl
      · split <;> rfl
    · obtain ⟨_ | j, m⟩ := k'
      · rfl
      · exact ih fun he => h (by simpa using he)

theorem values_insert (cells : List (Cell α)) (a : α) :
    (values (insert cells a).2).Perm (a :: values cells) := by
  induction cells with
  | nil => exact .refl _
  | cons cell rest ih =>
    obtain ⟨uses, _ | b⟩ := cell
    · exact .refl _
    · exact (ih.cons b).trans (.swap a b _)

theorem values_remove {cells : List (Cell α)} {k : Nat × Nat} {a : α}
    (h : get? cells k = some a) : (a :: values (remove cells k)).Perm (values cells) := by
  induction cells generalizing k with
  | nil => cases h
  | cons cell rest ih =>
    obtain ⟨_ | i, n⟩ := k
    · obtain ⟨uses, value⟩ := cell
      simp only [get?] at h
      split at h
      · next hn =>
        subst h
        simp [remove, hn, values]
      · cases h
    · obtain ⟨uses, _ | b⟩ := cell
      · exact ih h
      · exact (List.Perm.swap b a _).trans ((ih h).cons b)

theorem remove_of_none {cells : List (Cell α)} {k : Nat × Nat} (h : get? cells k = none) :
    remove cells k = cells := by
  induction cells generalizing k with
  | nil => rfl
  | cons cell rest ih =>
    obtain ⟨_ | i, n⟩ := k
    · obtain ⟨uses, value⟩ := cell
      simp only [get?] at h
      unfold remove
      split at h
      · next hn => simp [hn, h]
      · next hn => simp [hn]
    · exact congrArg (cell :: ·) (ih h)

end Cells

/-- The arena of cells that are used again. A key is the place of a cell and how often the cell was
used before. -/
def Arena.cells (α : Type) : Arena (Nat × Nat) α where
  State := List (Cell α)
  empty := []
  insert := Cells.insert
  remove := Cells.remove
  get? := Cells.get?
  values := Cells.values
  Issued := Cells.Issued
  fresh := Cells.fresh
  issued_insert := Cells.issued_insert
  issued_remove := Cells.issued_remove
  get?_insert_self := Cells.get?_insert_self
  get?_insert_of_ne := Cells.get?_insert_of_ne
  get?_remove_self := Cells.get?_remove_self
  get?_remove_of_ne := Cells.get?_remove_of_ne
  values_empty := rfl
  values_insert := Cells.values_insert
  values_remove := Cells.values_remove
  remove_of_none := Cells.remove_of_none

end MidiScore
