import Mathlib.Data.List.TakeWhile
import Mathlib.Data.Nat.Digits.Defs
import Mathlib.Data.Set.Subsingleton
import MidiScore.Music.Chord.Symbol

/-!
# The grammar of chord symbols

A chord symbol is a letter, accidentals, the name of a quality and, if it is to be moved, a sign
with digits: its `Spelling`. The signs occur in names as well, and so does the flat. Two rules make
the spelling of a symbol unique (`Spelling.eq_of_text`): accidentals go on as long as they can, and
what follows them is the name of a quality if it is one. A symbol is read as a chord exactly if it
has such a spelling (`ofSymbol?_eq_some_iff`).

Texts are kept in bytes and cut at offsets, and numbers are kept in words. Reading a symbol in that
way (`readBytes?`) never cuts a character in two and never outgrows a word.
-/

namespace MidiScore.Chord

/-! ## Spellings -/

/-- The letters of chord symbols with their keys in the octave of middle C. -/
def naturals : List (Char × Pitch) :=
  [('C', .c), ('D', .d), ('E', .e), ('F', .f), ('G', .g), ('A', .a), ('B', .b)]

/-- Whether a quality has this name. -/
def IsQuality (name : List Char) : Prop :=
  ∃ q ∈ qualities, q.1.toList = name

/-- The parts of a chord symbol. -/
structure Spelling where
  letter : Char
  accidentals : List Char
  quality : List Char
  /-- A sign and digits. -/
  shift : Option (Char × List Char)

namespace Spelling

/-- What follows the accidentals. -/
def suffix (p : Spelling) : List Char :=
  p.quality ++ p.shift.elim [] fun (sign, digits) => sign :: digits

/-- The characters of the symbol. -/
def text (p : Spelling) : List Char :=
  p.letter :: (p.accidentals ++ p.suffix)

/-- The number that decimal digits spell. -/
def number (digits : List Char) : Nat :=
  Nat.ofDigits 10 (digits.reverse.map fun c => c.toNat - '0'.toNat)

/-- A sign with digits, which spell a number that a signed word of 32 bits can hold. -/
structure IsShift (sign : Char) (digits : List Char) : Prop where
  sign : sign = '+' ∨ sign = '-'
  ne_nil : digits ≠ []
  decimal : ∀ c ∈ digits, '0' ≤ c ∧ c ≤ '9'
  fits : number digits ≤ 2147483647

/-- The parts are what they should be, and the accidentals cannot go on. There is a shift only if
what follows the accidentals is no quality as it stands. -/
structure Proper (p : Spelling) : Prop where
  letter : ∃ natural, (p.letter, natural) ∈ naturals
  accidentals : ∀ c ∈ p.accidentals, c = '#' ∨ c = 'b'
  longest : ∀ c ∈ p.suffix.head?, c ≠ '#' ∧ c ≠ 'b'
  quality : IsQuality p.quality
  shift : ∀ sign digits, p.shift = some (sign, digits) →
    IsShift sign digits ∧ ¬IsQuality p.suffix

/-- The root: each accidental in turn moves the pitch by a semitone. -/
def root (natural : Pitch) (accidentals : List Char) : Pitch :=
  accidentals.foldl (fun p c => p.transpose (if c = '#' then 1 else -1)) natural

/-- The octaves by which a sign with digits moves a chord. -/
def octaves (sign : Char) (digits : List Char) : Int :=
  if sign = '+' then number digits else -number digits

/-- The chord is that of the quality on the root, moved by the octaves of the shift. -/
def Names (p : Spelling) (c : Chord) : Prop :=
  ∃ natural semitones, (p.letter, natural) ∈ naturals ∧
    (String.ofList p.quality, semitones) ∈ qualities ∧
    c = match p.shift with
      | none => ofIntervals (root natural p.accidentals) semitones
      | some (sign, digits) =>
        (ofIntervals (root natural p.accidentals) semitones).shiftOctave (octaves sign digits)

end Spelling

open Spelling

/-! ## The parts of a symbol -/

section Parts

variable {name digits s : List Char} {sign : Char}

theorem ofLetter?_eq_some_iff {letter : Char} {natural : Pitch} :
    letter.isUpper ∧ Pitch.ofLetter? letter = some natural ↔ (letter, natural) ∈ naturals := by
  constructor
  · rintro ⟨hupper, hletter⟩
    have hsame : letter.toUpper = letter := by
      have hlast : letter.val ≤ 'Z'.val :=
        (of_decide_eq_true (p := 'A'.val ≤ letter.val ∧ letter.val ≤ 'Z'.val) hupper).2
      exact dif_neg fun h => absurd (UInt32.le_trans h.1 hlast) (by decide)
    unfold Pitch.ofLetter? at hletter
    rw [hsame] at hletter
    split at hletter <;> cases hletter <;> decide
  · intro h
    simp only [naturals, List.mem_cons, Prod.mk.injEq, List.not_mem_nil, or_false] at h
    rcases h with ⟨rfl, rfl⟩ | ⟨rfl, rfl⟩ | ⟨rfl, rfl⟩ | ⟨rfl, rfl⟩ | ⟨rfl, rfl⟩ | ⟨rfl, rfl⟩ |
      ⟨rfl, rfl⟩ <;> decide

theorem isAccidental_iff {c : Char} : isAccidental c ↔ c = '#' ∨ c = 'b' := by
  simp [isAccidental]

theorem isSign_iff {c : Char} : isSign c ↔ c = '+' ∨ c = '-' := by
  simp [isSign]

theorem foldl_accidental (natural : Pitch) (accidentals : List Char) :
    accidentals.foldl accidental natural = root natural accidentals := by
  have hstep : accidental = fun p c => p.transpose (if c = '#' then 1 else -1) := by
    funext p c
    unfold accidental
    split <;> rfl
  rw [hstep]
  rfl

/-- No quality hides another. -/
theorem quality?_of_mem : ∀ q ∈ qualities, quality? q.1.toList = some q.2 := by
  decide

theorem quality?_eq_some_iff {semitones : List Int} :
    quality? name = some semitones ↔ (String.ofList name, semitones) ∈ qualities := by
  constructor
  · intro h
    obtain ⟨q, hq, rfl⟩ := Option.map_eq_some_iff.1 h
    have hname : q.1.toList = name := by simpa using List.find?_some hq
    rw [← hname, String.ofList_toList]
    exact List.mem_of_find?_eq_some hq
  · intro h
    simpa using quality?_of_mem _ h

theorem quality?_eq_none_iff : quality? name = none ↔ ¬IsQuality name := by
  simp [quality?, IsQuality]

theorem digitsValue_eq (digits : List Char) : digitsValue digits = number digits := by
  unfold digitsValue number
  rw [Nat.ofDigits_eq_foldr, List.foldl_eq_foldr_reverse, List.foldr_map]
  congr 1
  funext c n
  simp [Nat.add_comm]

theorem isDigit_iff {c : Char} : c.isDigit ↔ '0' ≤ c ∧ c ≤ '9' := by
  simp [Char.isDigit, Char.le_def]

/-- A number without a sign is held by a signed word if it is not too great. -/
theorem int?_natCast {n : Nat} {m : Int} :
    Bounded.int? 32 n = some m ↔ n ≤ 2147483647 ∧ m = n := by
  rw [Bounded.int?_eq_some_iff]
  have hword : ((1 <<< (32 - 1) : Nat) : Int) = 2147483648 := by decide
  rw [hword]
  omega

theorem octaves?_eq_some_iff (hsign : isSign sign) {n : Int} :
    octaves? sign digits = some n ↔ IsShift sign digits ∧ n = octaves sign digits := by
  have hdecimal : digits.all Char.isDigit ↔ ∀ c ∈ digits, '0' ≤ c ∧ c ≤ '9' := by
    simp only [List.all_eq_true, isDigit_iff]
  have hvalue : ∀ m : Int, m = number digits →
      (if sign = '-' then -m else m) = octaves sign digits := by
    rintro _ rfl
    unfold octaves
    rcases isSign_iff.1 hsign with rfl | rfl <;> rfl
  unfold octaves?
  rw [digitsValue_eq]
  split
  · next hbad =>
    simp only [reduceCtorEq, false_iff, not_and]
    intro h
    simp [h.ne_nil, hdecimal.2 h.decimal] at hbad
  · next hgood =>
    simp only [Bool.or_eq_true, Bool.not_eq_true', not_or, Bool.not_eq_false,
      List.isEmpty_iff] at hgood
    rw [Option.map_eq_some_iff]
    constructor
    · rintro ⟨m, hm, rfl⟩
      obtain ⟨hfits, hm⟩ := int?_natCast.1 hm
      exact ⟨⟨isSign_iff.1 hsign, hgood.1, hdecimal.1 hgood.2, hfits⟩, hvalue m hm⟩
    · rintro ⟨h, rfl⟩
      exact ⟨number digits, int?_natCast.2 ⟨h.fits, rfl⟩, hvalue _ rfl⟩

/-! ### Where a symbol is divided -/

/-- A list is divided where a property first fails. -/
theorem divided_iff {α : Type} {p : α → Bool} {l xs ys : List α} :
    l.takeWhile p = xs ∧ l.dropWhile p = ys ↔
      l = xs ++ ys ∧ (∀ x ∈ xs, p x) ∧ ∀ y ∈ ys.head?, ¬p y := by
  constructor
  · rintro ⟨rfl, rfl⟩
    refine ⟨List.takeWhile_append_dropWhile.symm, fun x => List.mem_takeWhile_imp, fun y hy => ?_⟩
    have hhead := List.head?_dropWhile_not p l
    rw [Option.mem_def.1 hy] at hhead
    simpa using hhead
  · rintro ⟨rfl, hxs, hys⟩
    rw [List.takeWhile_append_of_pos hxs, List.dropWhile_append_of_pos hxs]
    cases ys with
    | nil => simp
    | cons y rest =>
      have hy : ¬p y := hys y rfl
      simp [hy]

/-- The last sign is the one behind which there is no other. -/
theorem splitLastSign?_eq_some_iff :
    splitLastSign? s = some (name, sign, digits) ↔
      s = name ++ sign :: digits ∧ isSign sign ∧ ∀ c ∈ digits, ¬isSign c := by
  have hsides : splitLastSign? s = some (name, sign, digits) ↔
      s.reverse.takeWhile (!isSign ·) = digits.reverse ∧
        s.reverse.dropWhile (!isSign ·) = sign :: name.reverse := by
    unfold splitLastSign?
    cases s.reverse.dropWhile (!isSign ·) with
    | nil => simp
    | cons c before =>
      simp only [Option.some.injEq, Prod.mk.injEq, List.cons.injEq, List.reverse_eq_iff]
      tauto
  rw [hsides, divided_iff]
  have htext : s.reverse = digits.reverse ++ sign :: name.reverse ↔ s = name ++ sign :: digits := by
    rw [List.reverse_eq_iff]
    simp
  rw [htext]
  simp only [List.mem_reverse, List.head?_cons, Option.mem_def, Option.some.injEq, forall_eq']
  simp
  tauto

end Parts

/-! ## The grammar -/

theorem isQuality_iff {name : List Char} :
    IsQuality name ↔ ∃ semitones, (String.ofList name, semitones) ∈ qualities := by
  constructor
  · rintro ⟨q, hq, rfl⟩
    exact ⟨q.2, by simpa using hq⟩
  · rintro ⟨semitones, h⟩
    exact ⟨_, h, by simp⟩

theorem Spelling.IsShift.isSign_sign {sign : Char} {digits : List Char} (h : IsShift sign digits) :
    isSign sign :=
  isSign_iff.2 h.sign

/-- No digit is a sign. -/
theorem Spelling.IsShift.not_isSign {sign : Char} {digits : List Char} (h : IsShift sign digits) :
    ∀ c ∈ digits, ¬isSign c := by
  intro c hc hsign
  obtain ⟨hlow, hhigh⟩ := h.decimal c hc
  rcases isSign_iff.1 hsign with rfl | rfl
  · exact absurd hlow (by decide)
  · exact absurd hlow (by decide)

/-- The sign of a shift is the last one of a suffix. -/
theorem Spelling.IsShift.splitLastSign? {name digits : List Char} {sign : Char}
    (h : IsShift sign digits) :
    Chord.splitLastSign? (name ++ sign :: digits) = some (name, sign, digits) :=
  splitLastSign?_eq_some_iff.2 ⟨rfl, h.isSign_sign, h.not_isSign⟩

theorem ofSuffix?_eq_some_iff {root : Pitch} {s : List Char} {c : Chord} :
    ofSuffix? root s = some c ↔
      (∃ semitones, (String.ofList s, semitones) ∈ qualities ∧ c = ofIntervals root semitones) ∨
      ∃ name sign digits semitones, s = name ++ sign :: digits ∧ ¬IsQuality s ∧
        IsShift sign digits ∧ (String.ofList name, semitones) ∈ qualities ∧
        c = (ofIntervals root semitones).shiftOctave (octaves sign digits) := by
  unfold ofSuffix?
  cases hs : quality? s with
  | some semitones =>
    have hmem := quality?_eq_some_iff.1 hs
    have hquality : IsQuality s := isQuality_iff.2 ⟨semitones, hmem⟩
    constructor
    · rintro h
      exact .inl ⟨semitones, hmem, (Option.some.inj h).symm⟩
    · rintro (⟨semitones', hmem', rfl⟩ | ⟨_, _, _, _, _, hnone, _⟩)
      · rw [quality?_eq_some_iff.2 hmem'] at hs
        rw [Option.some.inj hs]
      · exact absurd hquality hnone
  | none =>
    have hnone := quality?_eq_none_iff.1 hs
    constructor
    · intro h
      simp only [Option.bind_eq_bind, Option.bind_eq_some_iff, Option.pure_def,
        Option.some.injEq, Prod.exists] at h
      obtain ⟨name, sign, digits, hsplit, n, hoctaves, semitones, hname, rfl⟩ := h
      obtain ⟨rfl, hsign, -⟩ := splitLastSign?_eq_some_iff.1 hsplit
      obtain ⟨hshift, rfl⟩ := (octaves?_eq_some_iff hsign).1 hoctaves
      exact .inr ⟨name, sign, digits, semitones, rfl, hnone, hshift, quality?_eq_some_iff.1 hname,
        rfl⟩
    · rintro (⟨semitones, hmem, rfl⟩ | ⟨name, sign, digits, semitones, rfl, -, hshift, hmem, rfl⟩)
      · exact absurd (isQuality_iff.2 ⟨semitones, hmem⟩) hnone
      · simp [hshift.splitLastSign?, (octaves?_eq_some_iff hshift.isSign_sign).2 ⟨hshift, rfl⟩,
          quality?_eq_some_iff.2 hmem]

/-- The accidentals of a spelling are where a symbol is divided. -/
theorem Spelling.Proper.divided {p : Spelling} (h : p.Proper) :
    (p.accidentals ++ p.suffix).takeWhile isAccidental = p.accidentals ∧
      (p.accidentals ++ p.suffix).dropWhile isAccidental = p.suffix := by
  refine divided_iff.2 ⟨rfl, fun c hc => isAccidental_iff.2 (h.accidentals c hc), fun c hc => ?_⟩
  rw [isAccidental_iff]
  exact not_or.2 (h.longest c hc)

/-- A spelling is read as the chord it names. -/
theorem ofSymbol?_of_names {s : String} {p : Spelling} {c : Chord} (h : p.Proper)
    (hs : s.toList = p.text) (hc : p.Names c) : ofSymbol? s = some c := by
  obtain ⟨natural, semitones, hletter, hquality, rfl⟩ := hc
  obtain ⟨hupper, hnatural⟩ := ofLetter?_eq_some_iff.2 hletter
  have hsuffix : ofSuffix? (root natural p.accidentals) p.suffix =
      some (match p.shift with
        | none => ofIntervals (root natural p.accidentals) semitones
        | some (sign, digits) => (ofIntervals (root natural p.accidentals) semitones).shiftOctave
            (octaves sign digits)) := by
    rw [ofSuffix?_eq_some_iff]
    cases hshift : p.shift with
    | none =>
      have htext : p.suffix = p.quality := by simp [suffix, hshift]
      exact .inl ⟨semitones, by rwa [htext], rfl⟩
    | some shift =>
      obtain ⟨sign, digits⟩ := shift
      obtain ⟨hisShift, hnot⟩ := h.shift sign digits hshift
      have htext : p.suffix = p.quality ++ sign :: digits := by simp [suffix, hshift]
      exact .inr ⟨p.quality, sign, digits, semitones, htext, hnot, hisShift, hquality, rfl⟩
  unfold ofSymbol?
  rw [hs]
  unfold text
  simp only [hupper, hnatural, h.divided, foldl_accidental, hsuffix, guard_true,
    Option.pure_def, Option.bind_eq_bind, Option.bind_some]

/-- A symbol that is read as a chord has a spelling that names it. -/
theorem exists_spelling_of_ofSymbol? {s : String} {c : Chord} (h : ofSymbol? s = some c) :
    ∃ p : Spelling, p.Proper ∧ s.toList = p.text ∧ p.Names c := by
  unfold ofSymbol? at h
  cases hs : s.toList with
  | nil => simp [hs] at h
  | cons letter rest =>
    simp only [hs, Option.bind_eq_bind, Option.bind_eq_some_iff, Option.guard_eq_some'] at h
    obtain ⟨_, hupper, natural, hnatural, h⟩ := h
    have hletter := ofLetter?_eq_some_iff.1 ⟨hupper, hnatural⟩
    obtain ⟨hrest, haccidentals, hlongest⟩ :=
      (divided_iff (p := isAccidental) (l := rest)).1 ⟨rfl, rfl⟩
    rw [foldl_accidental] at h
    generalize rest.takeWhile isAccidental = accidentals at *
    generalize rest.dropWhile isAccidental = suffix at *
    subst hrest
    have hhead : ∀ c ∈ suffix.head?, c ≠ '#' ∧ c ≠ 'b' := fun c hc =>
      not_or.1 (isAccidental_iff.not.1 (hlongest c hc))
    have hall : ∀ c ∈ accidentals, c = '#' ∨ c = 'b' := fun c hc =>
      isAccidental_iff.1 (haccidentals c hc)
    rcases ofSuffix?_eq_some_iff.1 h with ⟨semitones, hmem, rfl⟩ |
      ⟨name, sign, digits, semitones, rfl, hnot, hshift, hmem, rfl⟩
    · refine ⟨⟨letter, accidentals, suffix, none⟩, ⟨⟨natural, hletter⟩, hall, ?_, ?_, nofun⟩, ?_,
        natural, semitones, hletter, hmem, rfl⟩
      · simpa [Spelling.suffix] using hhead
      · exact isQuality_iff.2 ⟨semitones, hmem⟩
      · simp [Spelling.text, Spelling.suffix]
    · refine ⟨⟨letter, accidentals, name, some (sign, digits)⟩,
        ⟨⟨natural, hletter⟩, hall, ?_, ?_, ?_⟩, ?_, natural, semitones, hletter, hmem, rfl⟩
      · simpa [Spelling.suffix] using hhead
      · exact isQuality_iff.2 ⟨semitones, hmem⟩
      · rintro _ _ ⟨⟩
        exact ⟨hshift, hnot⟩
      · simp [Spelling.text, Spelling.suffix]

/-- A text has one spelling at most. -/
theorem Spelling.eq_of_text {p q : Spelling} (hp : p.Proper) (hq : q.Proper)
    (htext : p.text = q.text) : p = q := by
  obtain ⟨hletter, hrest⟩ := List.cons.inj htext
  have haccidentals : p.accidentals = q.accidentals := by
    rw [← hp.divided.1, hrest, hq.divided.1]
  have hsuffix : p.suffix = q.suffix := by
    rw [← hp.divided.2, hrest, hq.divided.2]
  have hparts : p.quality = q.quality ∧ p.shift = q.shift := by
    cases hps : p.shift with
    | none =>
      have hpq : p.suffix = p.quality := by simp [suffix, hps]
      cases hqs : q.shift with
      | none =>
        have hqq : q.suffix = q.quality := by simp [suffix, hqs]
        exact ⟨by rw [← hpq, hsuffix, hqq], rfl⟩
      | some shift =>
        refine absurd ?_ (hq.shift shift.1 shift.2 hqs).2
        rw [← hsuffix, hpq]
        exact hp.quality
    | some shift =>
      obtain ⟨hpshift, hnot⟩ := hp.shift shift.1 shift.2 hps
      have hpq : p.suffix = p.quality ++ shift.1 :: shift.2 := by simp [suffix, hps]
      cases hqs : q.shift with
      | none =>
        have hqq : q.suffix = q.quality := by simp [suffix, hqs]
        refine absurd ?_ hnot
        rw [hsuffix, hqq]
        exact hq.quality
      | some shift' =>
        obtain ⟨hqshift, -⟩ := hq.shift shift'.1 shift'.2 hqs
        have hqq : q.suffix = q.quality ++ shift'.1 :: shift'.2 := by simp [suffix, hqs]
        have hsplit : Chord.splitLastSign? p.suffix = some (p.quality, shift.1, shift.2) := by
          rw [hpq]
          exact hpshift.splitLastSign?
        rw [hsuffix, hqq, hqshift.splitLastSign?] at hsplit
        simp only [Option.some.injEq, Prod.mk.injEq] at hsplit
        obtain ⟨hname, hsign, hdigits⟩ := hsplit
        exact ⟨hname.symm, congrArg some (Prod.ext hsign.symm hdigits.symm)⟩
  cases p
  cases q
  simp only [mk.injEq]
  exact ⟨hletter, haccidentals, hparts⟩

/-! ## Bytes and words -/

/-- The bytes of a text. -/
def bytes (l : List Char) : Nat :=
  (l.map Char.utf8Size).sum

/-- Cuts a text at an offset of bytes, which must not lie inside a character or past the end. -/
def cutAt? : Nat → List Char → Option (List Char × List Char)
  | 0, l => some ([], l)
  | _ + 1, [] => none
  | n + 1, c :: l =>
    if c.utf8Size ≤ n + 1 then
      (cutAt? (n + 1 - c.utf8Size) l).map fun (before, after) => (c :: before, after)
    else none

/-- The offset of the last sign of a text that begins at an offset. -/
def lastSign? : Nat → List Char → Option Nat
  | _, [] => none
  | start, c :: l =>
    (lastSign? (start + c.utf8Size) l).or (if isSign c then some start else none)

/-- The key to which a number folds, counting in words of 64 bits. -/
def foldWithin? (n : Int) : Option Int :=
  if 127 < n then do
    let past ← Bounded.int? 64 (127 - n)
    Bounded.int? 64 (127 - past % 12)
  else if n < 0 then some (n % 12)
  else some n

/-- Moves a pitch by semitones, counting in words of 64 bits. The key it comes to must be in the
table of pitches. -/
def moveWithin? : Pitch → Int → Option Pitch
  | .rest, _ => some .rest
  | .key n, semitones => do
    let moved ← Bounded.int? 64 (n + semitones)
    let folded ← foldWithin? moved
    if h : 0 ≤ folded ∧ folded < 128 then some (.key ⟨folded.toNat, by omega⟩) else none

/-- The octaves that a text beginning with a sign spells, in words of 32 bits: there are none to
read, or the sign is cut or a word outgrown. -/
def readOctaves? (shift : List Char) : Option (Option Int) :=
  match cutAt? 1 shift with
  | none => none
  | some (_, digits) =>
    if digits.isEmpty || !digits.all Char.isDigit then some none
    else
      match Bounded.int? 32 (digitsValue digits) with
      | none => some none
      | some magnitude =>
        (if shift.head? = some '-' then Bounded.int? 32 (-magnitude) else some magnitude).map some

/-- The chord of a quality on a root, in words of 64 bits. -/
def stackWithin? (root : Pitch) (semitones : List Int) : Option Chord :=
  (semitones.mapM (moveWithin? root)).map Chord.mk

/-- The chord moved by octaves, in words of 64 bits. -/
def shiftWithin? (c : Chord) (octaves : Int) : Option Chord := do
  let semitones ← Bounded.int? 64 (octaves * 12)
  let tones ← c.tones.mapM (moveWithin? · semitones)
  return ⟨tones⟩

/-- What a suffix makes of a root: the chord if it is read as one, and nothing at all if a text is
cut inside a character or a word is outgrown. -/
def readSuffix? (root : Pitch) (s : List Char) : Option (Option Chord) :=
  match quality? s with
  | some semitones => (stackWithin? root semitones).map some
  | none =>
    match lastSign? 0 s with
    | none => some none
    | some split => do
      let (name, shift) ← cutAt? split s
      match ← readOctaves? shift, quality? name with
      | some octaves, some semitones => do
        let chord ← stackWithin? root semitones
        (shiftWithin? chord octaves).map some
      | _, _ => return none

/-- What is read of a symbol whose text is cut at offsets of bytes and whose numbers are kept in
words. -/
def readBytes? (symbol : String) : Option (Option Chord) :=
  match symbol.toList with
  | [] => some none
  | letter :: s =>
    if letter.isUpper then
      match Pitch.ofLetter? letter with
      | none => some none
      | some natural => do
        let root ← (s.takeWhile isAccidental).foldlM
          (fun p c => moveWithin? p (if c = '#' then 1 else -1)) natural
        readSuffix? root (s.dropWhile isAccidental)
    else some none

/-! ### Offsets are boundaries -/

section Offsets

variable {name digits s : List Char} {sign : Char}

@[simp]
theorem bytes_cons (c : Char) (l : List Char) : bytes (c :: l) = c.utf8Size + bytes l := by
  simp [bytes]

/-- A text is cut in two at the bytes of what comes first. -/
theorem cutAt?_bytes (before after : List Char) :
    cutAt? (bytes before) (before ++ after) = some (before, after) := by
  induction before with
  | nil => simp [bytes, cutAt?]
  | cons c before ih =>
    obtain ⟨n, hn⟩ : ∃ n, bytes (c :: before) = n + 1 := by
      have hpos := c.utf8Size_pos
      exact ⟨bytes (c :: before) - 1, by rw [bytes_cons]; omega⟩
    have hrest : n + 1 - c.utf8Size = bytes before := by
      rw [bytes_cons] at hn
      omega
    have hfits : c.utf8Size ≤ n + 1 := by
      rw [bytes_cons] at hn
      omega
    rw [hn, List.cons_append, cutAt?, if_pos hfits, hrest, ih]
    rfl

theorem utf8Size_of_isSign (h : isSign sign) : sign.utf8Size = 1 := by
  rcases isSign_iff.1 h with rfl | rfl <;> decide

theorem lastSign?_eq_none (h : ∀ c ∈ s, ¬isSign c) (start : Nat) : lastSign? start s = none := by
  induction s generalizing start with
  | nil => rfl
  | cons c s ih =>
    obtain ⟨hc, hs⟩ := List.forall_mem_cons.1 h
    rw [lastSign?, ih hs, if_neg hc]
    rfl

/-- The last sign stands behind the bytes of the name before it. -/
theorem lastSign?_append (hsign : isSign sign) (hdigits : ∀ c ∈ digits, ¬isSign c) (start : Nat) :
    lastSign? start (name ++ sign :: digits) = some (start + bytes name) := by
  induction name generalizing start with
  | nil =>
    rw [List.nil_append, lastSign?, lastSign?_eq_none hdigits, if_pos hsign]
    rfl
  | cons c name ih =>
    rw [List.cons_append, lastSign?, ih, bytes_cons, Nat.add_assoc]
    rfl

theorem not_isSign_of_splitLastSign? (h : splitLastSign? s = none) : ∀ c ∈ s, ¬isSign c := by
  have hall : s.reverse.dropWhile (!isSign ·) = [] := by
    unfold splitLastSign? at h
    split at h
    · assumption
    · cases h
  simpa [List.dropWhile_eq_nil_iff] using hall

end Offsets

/-! ### Words are wide enough -/

/-- A number far within a word of 64 bits is held by it. -/
theorem int?_of_far {n : Int} (h : -(2 ^ 62) ≤ n ∧ n ≤ 2 ^ 62) :
    Bounded.int? 64 n = some n := by
  rw [Bounded.int?_eq_some_iff]
  have hword : ((1 <<< (64 - 1) : Nat) : Int) = 2 ^ 63 := by decide
  rw [hword]
  omega

/-- A number without a sign is held with a minus by the word that holds it. -/
theorem int?_neg_natCast {n : Nat} (h : n ≤ 2147483647) :
    Bounded.int? 32 (-(n : Int)) = some (-(n : Int)) := by
  rw [Bounded.int?_eq_some_iff]
  have hword : ((1 <<< (32 - 1) : Nat) : Int) = 2147483648 := by decide
  rw [hword]
  omega

theorem foldWithin?_eq {n : Int} (h : -(2 ^ 61) ≤ n ∧ n ≤ 2 ^ 61) :
    foldWithin? n = some (Pitch.fold n) := by
  have hpast := int?_of_far (n := 127 - n) (by omega)
  have hfolded := int?_of_far (n := 127 - (127 - n) % 12) (by omega)
  unfold foldWithin? Pitch.fold
  split
  · simp only [hpast, hfolded, Option.bind_eq_bind, Option.bind_some]
  · split <;> rfl

theorem moveWithin?_eq {semitones : Int} (h : -(2 ^ 60) ≤ semitones ∧ semitones ≤ 2 ^ 60)
    (p : Pitch) : moveWithin? p semitones = some (p.transpose semitones) := by
  cases p with
  | rest => rfl
  | key n =>
    have hn := n.isLt
    have hmem := Pitch.fold_mem (n + semitones)
    simp only [moveWithin?, int?_of_far (n := n + semitones) (by omega),
      foldWithin?_eq (n := n + semitones) (by omega), Option.bind_eq_bind, Option.bind_some]
    rw [dif_pos (by omega)]
    rfl

theorem mapM_moveWithin? {semitones : Int} (h : -(2 ^ 60) ≤ semitones ∧ semitones ≤ 2 ^ 60)
    (tones : List Pitch) :
    tones.mapM (moveWithin? · semitones) = some (tones.map (·.transpose semitones)) := by
  induction tones with
  | nil => rfl
  | cons p tones ih =>
    rw [List.mapM_cons, moveWithin?_eq h, ih]
    rfl

/-- The semitones of a quality are few. -/
theorem stackWithin?_eq {name : String} {semitones : List Int}
    (h : (name, semitones) ∈ qualities) (root : Pitch) :
    stackWithin? root semitones = some (ofIntervals root semitones) := by
  have hfew : ∀ q ∈ qualities, ∀ n ∈ q.2, -(2 ^ 60) ≤ n ∧ n ≤ (2 ^ 60 : Int) := by
    decide
  have hmoved : ∀ l : List Int, (∀ n ∈ l, -(2 ^ 60) ≤ n ∧ n ≤ (2 ^ 60 : Int)) →
      l.mapM (moveWithin? root) = some (l.map root.transpose) := by
    intro l hl
    induction l with
    | nil => rfl
    | cons n l ih =>
      obtain ⟨hn, hrest⟩ := List.forall_mem_cons.1 hl
      rw [List.mapM_cons, moveWithin?_eq hn, ih hrest]
      rfl
  rw [stackWithin?, hmoved semitones (hfew _ h)]
  rfl

/-- A number of octaves from a word of 32 bits moves a chord within words of 64. -/
theorem shiftWithin?_eq {octaves : Int} (h : -2147483648 ≤ octaves ∧ octaves ≤ 2147483647)
    (c : Chord) : shiftWithin? c octaves = some (c.shiftOctave octaves) := by
  have hfar : -(2 ^ 60) ≤ octaves * 12 ∧ octaves * 12 ≤ (2 ^ 60 : Int) := by omega
  rw [shiftWithin?, int?_of_far (by omega), Option.bind_eq_bind, Option.bind_some,
    mapM_moveWithin? hfar]
  rfl

theorem foldlM_moveWithin? (natural : Pitch) (accidentals : List Char) :
    accidentals.foldlM (fun p c => moveWithin? p (if c = '#' then 1 else -1)) natural =
      some (accidentals.foldl accidental natural) := by
  rw [foldl_accidental]
  unfold root
  induction accidentals generalizing natural with
  | nil => rfl
  | cons c accidentals ih =>
    rw [List.foldlM_cons, moveWithin?_eq (by split <;> omega)]
    exact ih _

/-! ### Nothing is cut or outgrown -/

theorem readOctaves?_eq {sign : Char} (hsign : isSign sign) (digits : List Char) :
    readOctaves? (sign :: digits) = some (octaves? sign digits) := by
  have hcut : cutAt? 1 (sign :: digits) = some ([sign], digits) := by
    have hbytes : bytes [sign] = 1 := by simp [bytes, utf8Size_of_isSign hsign]
    rw [← hbytes]
    exact cutAt?_bytes [sign] digits
  unfold readOctaves? octaves?
  rw [hcut]
  simp only [List.head?_cons, Option.some.injEq]
  split
  · rfl
  · cases hvalue : Bounded.int? 32 (digitsValue digits) with
    | none => rfl
    | some n =>
      obtain ⟨hfits, rfl⟩ := int?_natCast.1 hvalue
      simp only [int?_neg_natCast hfits]
      split <;> rfl

theorem octaves?_mem {sign : Char} (hsign : isSign sign) {digits : List Char} {n : Int}
    (h : octaves? sign digits = some n) : -2147483648 ≤ n ∧ n ≤ 2147483647 := by
  obtain ⟨hshift, rfl⟩ := (octaves?_eq_some_iff hsign).1 h
  have hfits := hshift.fits
  unfold octaves
  split <;> omega

theorem readSuffix?_eq (root : Pitch) (s : List Char) :
    readSuffix? root s = some (ofSuffix? root s) := by
  unfold readSuffix? ofSuffix?
  cases hs : quality? s with
  | some semitones =>
    simp only [stackWithin?_eq (quality?_eq_some_iff.1 hs), Option.map_some]
  | none =>
    cases hsplit : splitLastSign? s with
    | none =>
      simp only [lastSign?_eq_none (not_isSign_of_splitLastSign? hsplit), Option.bind_eq_bind,
        Option.bind_none]
    | some parts =>
      obtain ⟨name, sign, digits⟩ := parts
      obtain ⟨rfl, hsign, hdigits⟩ := splitLastSign?_eq_some_iff.1 hsplit
      simp only [lastSign?_append hsign hdigits, Nat.zero_add, cutAt?_bytes, readOctaves?_eq hsign,
        Option.bind_eq_bind, Option.bind_some]
      cases hoctaves : octaves? sign digits with
      | none => simp
      | some n =>
        cases hname : quality? name with
        | none => simp
        | some semitones =>
          simp [stackWithin?_eq (quality?_eq_some_iff.1 hname),
            shiftWithin?_eq (octaves?_mem hsign hoctaves)]

theorem readBytes?_eq (symbol : String) : readBytes? symbol = some (ofSymbol? symbol) := by
  unfold readBytes? ofSymbol?
  cases symbol.toList with
  | nil => rfl
  | cons letter s =>
    simp only [foldlM_moveWithin?, readSuffix?_eq, Option.bind_eq_bind, Option.bind_some]
    by_cases hupper : letter.isUpper
    · cases hletter : Pitch.ofLetter? letter with
      | none => simp [hupper]
      | some natural => simp [hupper]
    · simp [hupper]

/-! ## The law of chord symbols -/

/-- A symbol is read as a chord exactly if it has a spelling that names the chord, and it has one
spelling at most: a plus and a seven behind a letter are the quality, two pluses and a seven the
augmented triad seven octaves up. However a text is made up, reading it cuts no character and
outgrows no word. -/
theorem ofSymbol?_eq_some_iff :
    (∀ s c, ofSymbol? s = some c ↔
      ∃ p : Spelling, p.Proper ∧ s.toList = p.text ∧ p.Names c) ∧
    (∀ text, {p : Spelling | p.Proper ∧ p.text = text}.Subsingleton) ∧
    ofSymbol? "C+7" = some (ofIntervals (.key 60) [0, 4, 8, 10]) ∧
    ofSymbol? "C++7" = some ((ofIntervals (.key 60) [0, 4, 8]).shiftOctave 7) ∧
    ∀ s, readBytes? s = some (ofSymbol? s) := by
  refine ⟨fun s c => ⟨exists_spelling_of_ofSymbol?, ?_⟩, ?_, by decide, by decide, readBytes?_eq⟩
  · rintro ⟨p, hp, hs, hc⟩
    exact ofSymbol?_of_names hp hs hc
  · rintro text p ⟨hp, htext⟩ q ⟨hq, rfl⟩
    exact Spelling.eq_of_text hp hq htext

end MidiScore.Chord
