import MidiScore.Channel.Basic
import MidiScore.Proofs.Music.ChordSymbol
import MidiScore.Proofs.Music.Pitch

/-!
# The key that a moved pitch comes to

A key that is moved by semitones or octaves comes to the key of its class that is nearest to where
the move would bring it (`NearestKey`): on the keyboard to just that number, and otherwise into the
octave at that end. Folding forgets by how much a move has gone too far, so that moves do not add
up, but the pitch class goes on by the semitones of all of them (`exists_moveAll_key`). A melodic
channel moves a pitch twice, by its octave and by its transposition, and so both hold of the keys
that sound (`nearestKey_of_move`).
-/

namespace MidiScore

namespace Pitch

/-- How a pitch is moved. -/
inductive Move where
  | semitones (amount : Int)
  | octaves (amount : Int)

namespace Move

/-- The number that the move is given with. -/
def amount : Move → Int
  | semitones n => n
  | octaves n => n

/-- The semitones from a pitch to where the move would bring it. -/
def distance : Move → Int
  | semitones n => n
  | octaves n => n * 12

/-- The number of the move fits a signed word of 32 bits. -/
def FitsWord (m : Move) : Prop :=
  (Bounded.int? 32 m.amount).isSome

instance (m : Move) : Decidable m.FitsWord :=
  inferInstanceAs (Decidable (_ = true))

theorem FitsWord.mem {m : Move} (h : m.FitsWord) :
    -2147483648 ≤ m.amount ∧ m.amount < 2147483648 := by
  obtain ⟨n, hn⟩ := Option.isSome_iff_exists.1 h
  have hword : ((1 <<< (32 - 1) : Nat) : Int) = 2147483648 := by decide
  have hmem := (Bounded.int?_eq_some_iff.1 hn).1
  rwa [hword] at hmem

end Move

end Pitch

/-- Among the keys whose numbers differ from `n` by whole octaves, `k` is nearer to `n` than all
others. -/
structure NearestKey (n : Int) (k : Nat) : Prop where
  lt : k < 128
  sameClass : (k : Int) % 12 = n % 12
  nearest : ∀ j : Nat, j < 128 → (j : Int) % 12 = n % 12 → j ≠ k → (k - n).natAbs < (j - n).natAbs

namespace NearestKey

variable {n : Int} {k : Nat}

theorem of_fold (n : Int) : NearestKey n (Pitch.fold n).toNat := by
  have hmem := Pitch.fold_mem n
  have hclass := Pitch.fold_emod n
  refine ⟨by omega, by omega, ?_⟩
  intro j hj hsame hne
  unfold Pitch.fold at *
  by_cases hover : 127 < n
  · rw [if_pos hover] at *
    omega
  · rw [if_neg hover] at *
    by_cases hunder : n < 0
    · rw [if_pos hunder] at *
      omega
    · rw [if_neg hunder] at *
      omega

/-- On the keyboard the nearest key is the number itself. -/
theorem eq_of_mem (h : NearestKey n k) (hn : 0 ≤ n ∧ n ≤ 127) : (k : Int) = n := by
  by_contra hne
  have := h.nearest n.toNat (by omega) (by omega) (by omega)
  omega

/-- Past the top of the keyboard the nearest key is in the highest octave. -/
theorem le_of_lt (h : NearestKey n k) (hn : 127 < n) : 116 ≤ k := by
  by_contra hlow
  have hclass := h.sameClass
  have := h.nearest (k + 12) (by omega) (by omega) (by omega)
  omega

/-- Below the bottom of the keyboard it is in the lowest octave. -/
theorem lt_of_neg (h : NearestKey n k) (hn : n < 0) : k < 12 := by
  by_contra hhigh
  have hclass := h.sameClass
  have hlt := h.lt
  have := h.nearest (k - 12) (by omega) (by omega) (by omega)
  omega

end NearestKey

namespace Pitch

/-- Moves a pitch. -/
def move (p : Pitch) : Move → Pitch
  | .semitones n => p.transpose n
  | .octaves n => p.shiftOctave n

/-- Moves a pitch, counting in words of 64 bits. -/
def moveInWords? (p : Pitch) : Move → Option Pitch
  | .semitones n => Chord.moveWithin? p n
  | .octaves n => do
    let semitones ← Bounded.int? 64 (n * 12)
    Chord.moveWithin? p semitones

/-- Moves a pitch time after time. -/
def moveAll (p : Pitch) (moves : List Move) : Pitch :=
  moves.foldl move p

@[simp] theorem move_rest (m : Move) : rest.move m = rest := by
  cases m <;> rfl

/-- A key comes to the key that is nearest to where the move would bring it. -/
theorem exists_move_key (n : Fin 128) (m : Move) :
    ∃ k : Fin 128, (key n).move m = key k ∧ NearestKey (n + m.distance) k := by
  have h := NearestKey.of_fold (n + m.distance)
  refine ⟨⟨_, h.lt⟩, ?_, h⟩
  cases m <;> rfl

theorem moveAll_rest (moves : List Move) : rest.moveAll moves = rest := by
  unfold moveAll
  induction moves with
  | nil => rfl
  | cons m moves ih => rw [List.foldl_cons, move_rest, ih]

/-- However often a key is moved, its class moves by the semitones of all moves. -/
theorem exists_moveAll_key (n : Fin 128) (moves : List Move) :
    ∃ k : Fin 128, (key n).moveAll moves = key k ∧
      (k : Int) % 12 = (n + (moves.map Move.distance).sum) % 12 := by
  unfold moveAll
  induction moves generalizing n with
  | nil => exact ⟨n, rfl, by simp⟩
  | cons m moves ih =>
    obtain ⟨j, hj, hnear⟩ := exists_move_key n m
    obtain ⟨k, hk, hclass⟩ := ih j
    have hfirst := hnear.sameClass
    refine ⟨k, by rw [List.foldl_cons, hj, hk], ?_⟩
    rw [List.map_cons, List.sum_cons]
    omega

/-- Moving by a number from a word of 32 bits outgrows no word of 64. -/
theorem moveInWords?_eq {m : Move} (h : m.FitsWord) (p : Pitch) :
    p.moveInWords? m = some (p.move m) := by
  have hmem := h.mem
  cases m with
  | semitones n =>
    exact Chord.moveWithin?_eq (by simp only [Move.amount] at hmem; omega) p
  | octaves n =>
    simp only [Move.amount] at hmem
    simp only [moveInWords?, Chord.int?_of_far (n := n * 12) (by omega), Option.bind_eq_bind,
      Option.bind_some]
    exact Chord.moveWithin?_eq (by omega) p

theorem foldlM_moveInWords? {moves : List Move} (h : ∀ m ∈ moves, m.FitsWord) (p : Pitch) :
    moves.foldlM moveInWords? p = some (p.moveAll moves) := by
  induction moves generalizing p with
  | nil => rfl
  | cons m moves ih =>
    obtain ⟨hm, hmoves⟩ := List.forall_mem_cons.1 h
    rw [List.foldlM_cons, moveInWords?_eq hm]
    exact ih hmoves _

end Pitch

namespace Channel

/-- The moves that a channel makes with a pitch before it sounds. -/
def moves (c : Channel) : List Pitch.Move :=
  [.octaves c.octave, .semitones c.transposition]

theorem soundingKey_eq {c : Channel} (h : c.percussion = false) (p : Pitch) :
    c.soundingKey p = (p.moveAll c.moves).number? := by
  unfold soundingKey
  rw [h]
  rfl

end Channel

/-- While their numbers fit words of 32 bits, a move brings a key to the nearest key of the class,
a row of moves brings it to the class that lies as far off as they go together, and none of them
moves a rest. Nothing outgrows a word of 64 bits on the way, nor the table of pitches. The same
holds of the two moves of a melodic channel, where the octave does not count for the class. -/
theorem nearestKey_of_move {n : Fin 128} {m : Pitch.Move} {moves : List Pitch.Move} {c : Channel}
    (hm : m.FitsWord) (hmoves : ∀ m ∈ moves, m.FitsWord) (hc : ∀ m ∈ c.moves, m.FitsWord)
    (hmelodic : c.percussion = false) :
    (∃ k : Fin 128, (Pitch.key n).move m = .key k ∧ (Pitch.key n).moveInWords? m = some (.key k) ∧
      NearestKey (n + m.distance) k ∧
      (0 ≤ n + m.distance ∧ n + m.distance ≤ 127 → (k : Int) = n + m.distance) ∧
      (127 < n + m.distance → 116 ≤ k.val) ∧ (n + m.distance < 0 → k.val < 12)) ∧
    (∃ k : Fin 128, (Pitch.key n).moveAll moves = .key k ∧
      moves.foldlM Pitch.moveInWords? (.key n) = some (.key k) ∧
      (k : Int) % 12 = (n + (moves.map Pitch.Move.distance).sum) % 12) ∧
    (∃ k : Fin 128, c.soundingKey (.key n) = some k.val ∧
      c.moves.foldlM Pitch.moveInWords? (.key n) = some (.key k) ∧
      (k : Int) % 12 = (n + c.transposition) % 12) ∧
    Pitch.rest.moveAll moves = .rest ∧ moves.foldlM Pitch.moveInWords? .rest = some .rest ∧
    c.soundingKey .rest = none := by
  refine ⟨?_, ?_, ?_, Pitch.moveAll_rest moves, ?_, ?_⟩
  · obtain ⟨k, hk, hnear⟩ := Pitch.exists_move_key n m
    refine ⟨k, hk, ?_, hnear, hnear.eq_of_mem, hnear.le_of_lt, hnear.lt_of_neg⟩
    rw [Pitch.moveInWords?_eq hm, hk]
  · obtain ⟨k, hk, hclass⟩ := Pitch.exists_moveAll_key n moves
    refine ⟨k, hk, ?_, hclass⟩
    rw [Pitch.foldlM_moveInWords? hmoves, hk]
  · obtain ⟨k, hk, hclass⟩ := Pitch.exists_moveAll_key n c.moves
    refine ⟨k, ?_, ?_, ?_⟩
    · rw [Channel.soundingKey_eq hmelodic, hk]
      rfl
    · rw [Pitch.foldlM_moveInWords? hc, hk]
    · simp only [Channel.moves, Pitch.Move.distance, List.map_cons, List.map_nil, List.sum_cons,
        List.sum_nil] at hclass
      omega
  · rw [Pitch.foldlM_moveInWords? hmoves, Pitch.moveAll_rest]
  · rw [Channel.soundingKey_eq hmelodic, Pitch.moveAll_rest]
    rfl

/-- The farthest moves of all, and a channel that takes both of them. -/
theorem nearestKey_of_move_farthest :
    let n : Fin 128 := 67
    let m : Pitch.Move := .octaves (-2147483648)
    let moves : List Pitch.Move := [.semitones 2147483647, .octaves (-2147483648), .semitones 70]
    let c : Channel :=
      { track := { channel := 0 }, octave := 2147483647, transposition := -2147483648 }
    m.FitsWord ∧ (∀ m ∈ moves, m.FitsWord) ∧ (∀ m ∈ c.moves, m.FitsWord) ∧ c.percussion = false ∧
      (∃ k : Fin 128, (Pitch.key n).move m = .key k ∧ NearestKey (67 - 25769803776) k ∧
        k.val < 12) ∧
      (∃ k : Fin 128, (Pitch.key n).moveAll moves = .key k ∧
        (k : Int) % 12 = (67 + (2147483647 - 25769803776 + 70)) % 12) ∧
      (∃ k : Fin 128, c.soundingKey (.key n) = some k.val ∧
        (k : Int) % 12 = (67 - 2147483648) % 12) ∧
      Pitch.rest.moveAll moves = .rest ∧ c.soundingKey .rest = none := by
  intro n m moves c
  have hm : m.FitsWord := by decide
  have hmoves : ∀ m ∈ moves, m.FitsWord := by decide
  have hc : ∀ m ∈ c.moves, m.FitsWord := by decide
  obtain ⟨⟨k, hk, -, hnear, -, -, hlow⟩, ⟨j, hj, -, hclass⟩, ⟨i, hi, -, hsounds⟩, hrest, -,
    hmute⟩ := nearestKey_of_move (n := n) (c := c) hm hmoves hc rfl
  exact ⟨hm, hmoves, hc, rfl, ⟨k, hk, hnear, hlow (by decide)⟩, ⟨j, hj, hclass⟩, ⟨i, hi, hsounds⟩,
    hrest, hmute⟩

/-- The key above the highest C is moved up and down again: it comes back an octave lower. -/
example : ((Pitch.key 121).moveAll [.octaves 1, .octaves (-1)]).number? = some 109 := by decide

end MidiScore
