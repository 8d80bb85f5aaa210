import MidiScore.Proofs.Music.Cycle
import MidiScore.Proofs.Music.Pitch
import Mathlib.Data.List.Basic

/-!
# Inversions of chords

An inversion of a chord starts at one of its logical indices and is indexed by all integers again.
Places and turns of indices add up, so a tone of an inversion is a tone of the chord moved by
octaves in two steps (`get?_inversion`). Folding at the ends of the keyboard comes between the steps
and may change the octave, but never the pitch class; where no tone is folded, inversions add up
(`invert?_invert?`).
-/

namespace MidiScore

namespace Chord

variable {c : Chord} {n m : Int}

/-- As many tones as the chord has, starting at logical index `n`. -/
def inversion (c : Chord) (n : Int) : Chord :=
  ⟨(List.range c.size).filterMap fun (j : Nat) => c.get? (n + j)⟩

/-- No tone of the inversion at `n` leaves the keyboard before it is folded. -/
def Unfolded (c : Chord) (n : Int) : Prop :=
  ∀ j < c.size, ∀ p ∈ c.tones[cyclePlace (n + j) c.size]?, p.Stays (cycleTurns (n + j) c.size)

instance (c : Chord) (n : Int) : Decidable (c.Unfolded n) :=
  inferInstanceAs (Decidable (∀ j < c.size, ∀ p ∈ c.tones[cyclePlace (n + j) c.size]?, p.Stays _))

theorem size_pos (hc : c.tones ≠ []) : 0 < c.size :=
  List.length_pos_iff.2 hc

theorem invert?_eq (h : (Bounded.int? 32 (n + c.size)).isSome) :
    c.invert? n = some (c.inversion n) := by
  obtain ⟨_, h⟩ := Option.isSome_iff_exists.1 h
  unfold invert?
  rw [h]
  rfl

/-! ## The tones of an inversion -/

theorem isSome_get? (hc : c.tones ≠ []) (i : Int) : (c.get? i).isSome := by
  have hlt : cyclePlace i c.size < c.tones.length := cyclePlace_lt i (size_pos hc)
  unfold get?
  rw [List.getElem?_eq_getElem hlt]
  rfl

theorem map_some_tones_inversion (hc : c.tones ≠ []) (n : Int) :
    (c.inversion n).tones.map some = (List.range c.size).map fun (j : Nat) => c.get? (n + j) := by
  choose tone htone using fun i => Option.isSome_iff_exists.1 (isSome_get? hc i)
  simp only [inversion, htone]
  rw [List.filterMap_eq_map' (f := fun j : Nat => tone (n + j)), List.map_map]
  rfl

theorem size_inversion (hc : c.tones ≠ []) (n : Int) : (c.inversion n).size = c.size := by
  have h := congrArg List.length (map_some_tones_inversion hc n)
  rwa [List.length_map, List.length_map, List.length_range] at h

theorem getElem?_tones_inversion (hc : c.tones ≠ []) (n : Int) {j : Nat} (hj : j < c.size) :
    (c.inversion n).tones[j]? = c.get? (n + j) := by
  have h := congrArg (·[j]?) (map_some_tones_inversion hc n)
  simp only [List.getElem?_map, List.getElem?_range hj, Option.map_some] at h
  obtain ⟨p, hp, hget⟩ := Option.map_eq_some_iff.1 h
  rw [hp, hget]

theorem tones_inversion_ne_nil (hc : c.tones ≠ []) (n : Int) : (c.inversion n).tones ≠ [] := by
  have hpos := size_pos hc
  rw [← size_inversion hc n] at hpos
  exact List.length_pos_iff.1 hpos

/-- Chords of one size are compared tone by tone. -/
theorem map_tones_ext {d e : Chord} {size : Nat} {V : Type} (f : Pitch → V) (hd : d.size = size)
    (he : e.size = size) (h : ∀ j < size, d.tones[j]?.map f = e.tones[j]?.map f) :
    d.tones.map f = e.tones.map f := by
  refine List.ext_getElem? fun j => ?_
  rw [List.getElem?_map, List.getElem?_map]
  by_cases hj : j < size
  · exact h j hj
  · have hout : ∀ {x : Chord}, x.size = size → x.tones[j]? = none := fun hx =>
      List.getElem?_eq_none (by unfold Chord.size at hx; omega)
    rw [hout hd, hout he]

/-- A tone of an inversion is the tone of the chord at the sum of the indices, moved first by the
turns that the inversion takes and then by those of the index into it. -/
theorem get?_inversion (hc : c.tones ≠ []) (n i : Int) :
    (c.inversion n).get? i = c.tones[cyclePlace (n + i) c.size]?.map fun p =>
      (p.shiftOctave (cycleTurns (n + cyclePlace i c.size) c.size)).shiftOctave
        (cycleTurns i c.size) := by
  have hpos := size_pos hc
  unfold get?
  rw [size_inversion hc, getElem?_tones_inversion hc n (cyclePlace_lt i hpos)]
  unfold get?
  rw [cyclePlace_add n i hpos, Option.map_map]
  rfl

theorem class?_get? (c : Chord) (i : Int) :
    (c.get? i).map Pitch.class? = c.tones[cyclePlace i c.size]?.map Pitch.class? := by
  unfold get?
  rw [Option.map_map]
  exact congrFun (congrArg Option.map (funext fun p => p.class?_shiftOctave _)) _

/-- An inversion that folds nothing is indexed as the chord is, that much further on. -/
theorem get?_inversion_of_unfolded (hc : c.tones ≠ []) (h : c.Unfolded n) (i : Int) :
    (c.inversion n).get? i = c.get? (n + i) := by
  have hpos := size_pos hc
  have hplace := cyclePlace_add n i hpos
  rw [get?_inversion hc]
  unfold get?
  refine Option.map_congr fun p hp => ?_
  rw [← hplace] at hp
  rw [Pitch.shiftOctave_shiftOctave (h _ (cyclePlace_lt i hpos) p hp), cycleTurns_add n i hpos]

theorem inversion_mul_size (hc : c.tones ≠ []) (k : Int) :
    c.inversion (k * c.size) = c.shiftOctave k := by
  have hsize : (c.shiftOctave k).size = c.size := List.length_map _
  have htones := map_tones_ext id (size_inversion hc (k * c.size)) hsize fun j hj => by
    rw [getElem?_tones_inversion hc _ hj]
    unfold get? shiftOctave
    rw [cyclePlace_mul_add k hj, cycleTurns_mul_add k hj, List.getElem?_map]
  rw [List.map_id, List.map_id] at htones
  exact congrArg Chord.mk htones

theorem inversion_zero (hc : c.tones ≠ []) : c.inversion 0 = c := by
  have h := inversion_mul_size hc 0
  rw [Int.zero_mul] at h
  rw [h]
  unfold shiftOctave
  simp

theorem class?_inversion_inversion (hc : c.tones ≠ []) (n m : Int) :
    ((c.inversion n).inversion m).tones.map Pitch.class? =
      (c.inversion (n + m)).tones.map Pitch.class? := by
  have hd := tones_inversion_ne_nil hc n
  have hsize := size_inversion hc n
  refine map_tones_ext Pitch.class? ((size_inversion hd m).trans hsize) (size_inversion hc _) ?_
  intro j hj
  rw [getElem?_tones_inversion hd m (hsize ▸ hj), getElem?_tones_inversion hc _ hj,
    get?_inversion hc, class?_get?, Option.map_map, Int.add_assoc]
  refine Option.map_congr fun p _ => ?_
  rw [Function.comp_apply, Pitch.class?_shiftOctave, Pitch.class?_shiftOctave]

theorem inversion_inversion (hc : c.tones ≠ []) (h : c.Unfolded n) (m : Int) :
    (c.inversion n).inversion m = c.inversion (n + m) := by
  have hd := tones_inversion_ne_nil hc n
  have hsize := size_inversion hc n
  have htones := map_tones_ext id ((size_inversion hd m).trans hsize) (size_inversion hc (n + m)) ?_
  · rw [List.map_id, List.map_id] at htones
    exact congrArg Chord.mk htones
  · intro j hj
    rw [getElem?_tones_inversion hd m (hsize ▸ hj), getElem?_tones_inversion hc _ hj,
      get?_inversion_of_unfolded hc h, Int.add_assoc]

/-! ## Inverting twice -/

/-- While the indices fit their words, an inversion lists the tones from its index on, whole turns
are octaves, and inverting twice gives the pitch classes of inverting once by the sum. If the first
inversion folds nothing it gives the same chord, and the first is indexed as the chord is, further
on; what the second folds, the sum folds as well. -/
theorem invert?_invert? (hc : c.tones ≠ []) (hn : (Bounded.int? 32 (n + c.size)).isSome)
    (hm : (Bounded.int? 32 (m + c.size)).isSome)
    (hnm : (Bounded.int? 32 (n + m + c.size)).isSome) :
    ∃ d e f, c.invert? n = some d ∧ d.invert? m = some e ∧ c.invert? (n + m) = some f ∧
      (d.size = c.size ∧ ∀ j < c.size, d.tones[j]? = c.get? (n + j)) ∧
      (n = 0 → d = c) ∧ (∀ k, n = k * c.size → d = c.shiftOctave k) ∧
      e.tones.map Pitch.class? = f.tones.map Pitch.class? ∧
      (c.Unfolded n → e = f ∧ ∀ i, d.get? i = c.get? (n + i)) := by
  have hsize := size_inversion hc n
  refine ⟨c.inversion n, (c.inversion n).inversion m, c.inversion (n + m), invert?_eq hn,
    invert?_eq (by rwa [hsize]), invert?_eq hnm, ?_⟩
  refine ⟨⟨hsize, fun j => getElem?_tones_inversion hc n⟩, ?_, ?_, ?_, fun hu => ⟨?_, ?_⟩⟩
  · rintro rfl
    exact inversion_zero hc
  · rintro k rfl
    exact inversion_mul_size hc k
  · exact class?_inversion_inversion hc n m
  · exact inversion_inversion hc hu m
  · exact get?_inversion_of_unfolded hc hu

theorem invert?_invert?_gapped :
    let c : Chord := ⟨[.key 60, .rest, .key 67]⟩
    c.tones ≠ [] ∧ (Bounded.int? 32 (4 + c.size)).isSome ∧ (Bounded.int? 32 (-2 + c.size)).isSome ∧
      (Bounded.int? 32 (4 + -2 + c.size)).isSome ∧ c.Unfolded 4 ∧
      ∃ d e f, c.invert? 4 = some d ∧ d.invert? (-2) = some e ∧ c.invert? (4 + -2) = some f ∧
        d.size = 3 ∧ d.tones[1]? = c.get? (4 + 1) ∧ e = f ∧ d.get? (-5) = c.get? (4 + -5) := by
  intro c
  have hc : c.tones ≠ [] := by decide
  have hn : (Bounded.int? 32 (4 + c.size)).isSome := by decide
  have hm : (Bounded.int? 32 (-2 + c.size)).isSome := by decide
  have hnm : (Bounded.int? 32 (4 + -2 + c.size)).isSome := by decide
  have hu : c.Unfolded 4 := by decide
  obtain ⟨d, e, f, hd, he, hf, ⟨hsize, htones⟩, -, -, -, hsum⟩ := invert?_invert? hc hn hm hnm
  exact ⟨hc, hn, hm, hnm, hu, d, e, f, hd, he, hf, hsize, htones 1 (by decide), (hsum hu).1,
    (hsum hu).2 (-5)⟩

/-- A key that is folded on the way up comes back an octave lower. -/
example : ((⟨[.key 120]⟩ : Chord).invert? 1).bind (·.invert? (-1)) = some ⟨[.key 108]⟩ := by decide

end Chord

end MidiScore
