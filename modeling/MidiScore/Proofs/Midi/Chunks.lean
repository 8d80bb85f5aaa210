import Mathlib.Algebra.Group.Nat.Defs
import Mathlib.Tactic.Common
import MidiScore.Midi.File.Chunk
import MidiScore.Midi.File.Writer

/-!
# The chunks of a written file

A file that was written splits into the chunks it was put together from: a header and then the data
of its tracks (`layout_fileBytes`). The length of a chunk has four bytes, so this holds as long as
the data of each track is shorter than `2 ^ 32` bytes.
-/

namespace MidiScore.MidiFile

theorem ofBigEndian_append_singleton (bs : List UInt8) (b : UInt8) :
    ofBigEndian (bs ++ [b]) = ofBigEndian bs * 256 + b.toNat := by
  simp [ofBigEndian]

/-- The last bytes of a number spell its remainder. -/
theorem ofBigEndian_bigEndian (n width : Nat) :
    ofBigEndian (bigEndian n width) = n % 256 ^ width := by
  induction width generalizing n with
  | zero => simp [bigEndian, ofBigEndian, Nat.mod_one]
  | succ width ih =>
    have hpow : 256 ^ (width + 1) = 256 * 256 ^ width := Nat.pow_succ'
    rw [bigEndian, ofBigEndian_append_singleton, ih, UInt8.toNat_ofNat', hpow, Nat.mod_mul]
    omega

theorem length_bigEndian (n width : Nat) : (bigEndian n width).length = width := by
  induction width generalizing n with
  | zero => rfl
  | succ width ih => rw [bigEndian, List.length_append, ih, List.length_singleton]

theorem exists_of_length_eq_four {bs : List UInt8} (h : bs.length = 4) :
    ∃ a b c d, bs = [a, b, c, d] := by
  match bs, h with
  | [a, b, c, d], _ => exact ⟨a, b, c, d, rfl⟩

/-- A chunk is split off the bytes that follow it. -/
theorem splitChunk?_chunk (id : List UInt8) {data : List UInt8} (hid : id.length = 4)
    (hdata : data.length < 2 ^ 32) (rest : List UInt8) :
    splitChunk? (chunk id data ++ rest) = some (id, data, rest) := by
  obtain ⟨a, b, c, d, rfl⟩ := exists_of_length_eq_four hid
  obtain ⟨l₃, l₂, l₁, l₀, hl⟩ := exists_of_length_eq_four (length_bigEndian data.length 4)
  have hlength : ofBigEndian [l₃, l₂, l₁, l₀] = data.length := by
    rw [← hl, ofBigEndian_bigEndian]
    omega
  unfold chunk
  rw [hl]
  simp only [List.cons_append, List.nil_append, splitChunk?, hlength,
    List.take_left, List.drop_left]

theorem chunk_append_ne_nil (id data rest : List UInt8) :
    (chunk id data ++ rest).isEmpty = false := by
  simp [chunk, bigEndian]

theorem ascii_header : ascii "MThd" = headerId := by decide +kernel

theorem ascii_track : ascii "MTrk" = trackId := by decide +kernel

theorem chunks_nil : chunks [] = [] := by
  rw [chunks]
  rfl

theorem chunks_track {data : List UInt8} (hdata : data.length < 2 ^ 32) (rest : List UInt8) :
    chunks (chunk trackId data ++ rest) = .track data :: chunks rest := by
  have hsplit := splitChunk?_chunk trackId rfl hdata rest
  rw [chunks, chunk_append_ne_nil, if_neg (by decide)]
  split
  · next h => rw [hsplit] at h; cases h
  · next h =>
    rw [hsplit] at h
    cases h
    rw [if_neg (by rw [ascii_header]; decide), if_pos ascii_track.symm]

/-- The division of a header that counts ticks. -/
theorem headerOf_bigEndian {ppqn : Nat} (hppqn : ppqn < 0x8000) (tracks : Nat) :
    headerOf (bigEndian 1 2 ++ bigEndian tracks 2 ++ bigEndian ppqn 2) =
      .header (.ticks ppqn) := by
  have hhigh : (UInt8.ofNat (ppqn / 256)).toNat = ppqn / 256 := by
    rw [UInt8.toNat_ofNat']
    omega
  have hlow : (UInt8.ofNat ppqn).toNat = ppqn % 256 := UInt8.toNat_ofNat'
  have hformat : ofBigEndian [UInt8.ofNat (1 / 256), UInt8.ofNat 1] ≤ 2 := by decide
  simp only [bigEndian, List.nil_append, List.cons_append, headerOf]
  rw [if_pos hformat, Chunk.ofDivision, hhigh, hlow, if_pos (by omega)]
  congr 2
  omega

theorem chunks_header {ppqn : Nat} (hppqn : ppqn < 0x8000) (tracks : Nat) (rest : List UInt8) :
    chunks (header ppqn tracks ++ rest) = .header (.ticks ppqn) :: chunks rest := by
  have hlength : (bigEndian 1 2 ++ bigEndian tracks 2 ++ bigEndian ppqn 2).length < 2 ^ 32 := by
    simp [length_bigEndian]
  have hsplit := splitChunk?_chunk headerId rfl hlength rest
  unfold header
  rw [chunks, chunk_append_ne_nil, if_neg (by decide)]
  split
  · next h => rw [hsplit] at h; cases h
  · next h =>
    rw [hsplit] at h
    cases h
    rw [if_pos ascii_header.symm, headerOf_bigEndian hppqn]

theorem chunks_tracks {tracks : List (List UInt8)} (h : ∀ data ∈ tracks, data.length < 2 ^ 32) :
    chunks (tracks.flatMap (chunk trackId)) = tracks.map .track := by
  induction tracks with
  | nil => exact chunks_nil
  | cons data rest ih =>
    rw [List.flatMap_cons, chunks_track (h data List.mem_cons_self),
      ih fun d hd => h d (List.mem_cons_of_mem _ hd), List.map_cons]

/-- A written file is laid out as it was written. -/
theorem layout_fileBytes {ppqn : Nat} (hppqn : ppqn < 0x8000)
    {tracks : List (List (Nat × Message))}
    (h : ∀ t ∈ tracks, (trackBytes none t).length < 2 ^ 32) :
    layout (fileBytes ppqn tracks) = .ok (.ticks ppqn, tracks.map (trackBytes none)) := by
  have hchunks : chunks (fileBytes ppqn tracks) =
      .header (.ticks ppqn) :: (tracks.map (trackBytes none)).map .track := by
    unfold fileBytes
    rw [chunks_header hppqn, ← chunks_tracks, List.flatMap_map]
    rintro data hdata
    obtain ⟨t, ht, rfl⟩ := List.mem_map.1 hdata
    exact h t ht
  have hfit : ((tracks.map (trackBytes none)).map Chunk.track).contains .overflow = false := by
    simp
  unfold layout
  rw [hchunks]
  simp only [hfit, Bool.false_eq_true, if_false, List.filterMap_map, Function.comp_def,
    List.filterMap_eq_map']

/-- A written file is not wrapped in another. -/
theorem unwrap_fileBytes (ppqn : Nat) (tracks : List (List (Nat × Message))) :
    unwrap (fileBytes ppqn tracks) = .ok (fileBytes ppqn tracks) := by
  have hid : (fileBytes ppqn tracks).take 4 = headerId := rfl
  unfold unwrap
  rw [hid, if_neg (by decide +kernel), if_pos ascii_header.symm]

end MidiScore.MidiFile
