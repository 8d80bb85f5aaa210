import Mathlib
import MidiScore.Midi.GeneralMidi

/-!
# Names that are spelt alike

Texts that are read side by side, by letters and digits, are found alike exactly when they have the
same spelling (`spelledAlike_iff`), which is when one becomes the other by changes of its spaces,
marks and case (`restyled_iff`). No two instruments share their spelling, nor do two drums. The
first entry of a table that is spelt like a name is thus the only one (`place?_eq_some_iff`), and
both tables are searched by spelling and by nothing else (`finds_by_spelling`).
-/

namespace MidiScore.GeneralMidi

/-- The ASCII letters and digits of a text, in lower case. -/
def spelling (text : List Char) : List Char :=
  (text.filter Char.isAlphanum).map Char.toLower

@[simp] theorem spelling_append (s t : List Char) :
    spelling (s ++ t) = spelling s ++ spelling t := by
  simp [spelling]

theorem spelling_cons_of_alphanum {c : Char} (h : c.isAlphanum = true) (text : List Char) :
    spelling (c :: text) = c.toLower :: spelling text := by
  simp [spelling, h]

theorem spelling_cons_of_not_alphanum {c : Char} (h : c.isAlphanum = false) (text : List Char) :
    spelling (c :: text) = spelling text := by
  simp [spelling, h]

/-! ### Reading two texts side by side -/

/-- What is read next of a text is what its spelling begins with. -/
theorem spelling_eq_next (text : List Char) :
    spelling text = (nextAlphanum? text).elim [] fun next => next.1 :: spelling next.2 := by
  fun_induction nextAlphanum? text with
  | case1 => rfl
  | case2 c text hc => exact spelling_cons_of_alphanum hc text
  | case3 c text hc ih => rw [spelling_cons_of_not_alphanum (by simpa using hc), ih]

/-- Two texts that are read side by side agree up to their ends exactly when they have the same
spelling. -/
theorem spelledAlike_iff (s t : List Char) : spelledAlike s t = true ↔ spelling s = spelling t := by
  fun_induction spelledAlike s t with
  | case1 s t hs ht => simp [spelling_eq_next s, spelling_eq_next t, hs, ht]
  | case2 s t c restS d restT hs ht ih =>
    rw [spelling_eq_next s, spelling_eq_next t, hs, ht]
    simp [ih]
  | case3 s t hneither hnotBoth =>
    -- One text has ended and the other has not.
    rw [spelling_eq_next s, spelling_eq_next t]
    cases hs : nextAlphanum? s with
    | none =>
      cases ht : nextAlphanum? t with
      | none => exact (hneither hs ht).elim
      | some next => simp
    | some next =>
      cases ht : nextAlphanum? t with
      | none => simp
      | some next' => exact (hnotBoth _ _ _ _ hs ht).elim

/-! ### Changes that leave the spelling alone -/

theorem isAlphanum_toLower (c : Char) : c.toLower.isAlphanum = c.isAlphanum := by
  by_cases h : c.isUpper
  · simp [Char.isAlphanum, Char.isAlpha, h]
  · rw [Char.toLower_eq_of_not_isUpper h]

/-- A change of a text that is no matter of spelling. -/
inductive Restyle : List Char → List Char → Prop where
  /-- A space or a mark is put in, which is neither a letter nor a digit. -/
  | insert (before after : List Char) {c : Char} (h : c.isAlphanum = false) :
      Restyle (before ++ after) (before ++ c :: after)
  /-- A letter changes its case. -/
  | recase (before after : List Char) {c d : Char} (h : c.toLower = d.toLower) :
      Restyle (before ++ c :: after) (before ++ d :: after)

/-- Texts that become each other by such changes, made or taken back one after another. -/
def Restyled : List Char → List Char → Prop :=
  Relation.EqvGen Restyle

theorem Restyle.spelling_eq {s t : List Char} (h : Restyle s t) : spelling s = spelling t := by
  cases h with
  | insert before after hc =>
    rw [spelling_append, spelling_append, spelling_cons_of_not_alphanum hc]
  | @recase before after c d hcd =>
    have hsame : c.isAlphanum = d.isAlphanum := by
      rw [← isAlphanum_toLower c, hcd, isAlphanum_toLower]
    rw [spelling_append, spelling_append]
    cases hd : d.isAlphanum with
    | true => rw [spelling_cons_of_alphanum (hsame.trans hd), spelling_cons_of_alphanum hd, hcd]
    | false =>
      rw [spelling_cons_of_not_alphanum (hsame.trans hd), spelling_cons_of_not_alphanum hd]

theorem Restyle.cons {s t : List Char} (c : Char) (h : Restyle s t) :
    Restyle (c :: s) (c :: t) := by
  cases h with
  | insert before after hd => exact .insert (c :: before) after hd
  | recase before after hde => exact .recase (c :: before) after hde

namespace Restyled

theorem spelling_eq {s t : List Char} (h : Restyled s t) : spelling s = spelling t := by
  induction h with
  | rel _ _ h => exact h.spelling_eq
  | refl _ => rfl
  | symm _ _ _ ih => exact ih.symm
  | trans _ _ _ _ _ ih₁ ih₂ => exact ih₁.trans ih₂

theorem cons {s t : List Char} (c : Char) (h : Restyled s t) : Restyled (c :: s) (c :: t) := by
  induction h with
  | rel _ _ h => exact .rel _ _ (h.cons c)
  | refl _ => exact .refl _
  | symm _ _ _ ih => exact .symm _ _ ih
  | trans _ _ _ _ _ ih₁ ih₂ => exact .trans _ _ _ ih₁ ih₂

/-- Every text becomes its own spelling. -/
theorem to_spelling (text : List Char) : Restyled text (spelling text) := by
  induction text with
  | nil => exact .refl _
  | cons c text ih =>
    cases hc : c.isAlphanum with
    | true =>
      rw [spelling_cons_of_alphanum hc]
      have hcase : Restyle (c :: text) (c.toLower :: text) :=
        .recase [] text (Char.toLower_toLower_eq_toLower c).symm
      exact .trans _ _ _ (.rel _ _ hcase) (ih.cons _)
    | false =>
      rw [spelling_cons_of_not_alphanum hc]
      have hmark : Restyle text (c :: text) := .insert [] text hc
      exact .trans _ _ _ (.symm _ _ (.rel _ _ hmark)) ih

end Restyled

/-- Other spaces, other marks and another case are all that texts of the same spelling differ in. -/
theorem restyled_iff (s t : List Char) : Restyled s t ↔ spelling s = spelling t := by
  refine ⟨Restyled.spelling_eq, fun h => ?_⟩
  have hs := Restyled.to_spelling s
  rw [h] at hs
  exact .trans _ _ _ hs (.symm _ _ (Restyled.to_spelling t))

/-! ### Tables of names -/

section Tables

variable {names : List String} {name : String} {i : Nat}

theorem place?_eq_none_iff :
    place? names name = none ↔ ∀ entry ∈ names, spelling name.toList ≠ spelling entry.toList := by
  unfold place?
  rw [List.findIdx?_eq_none_iff]
  refine forall₂_congr fun entry _ => ?_
  rw [← Bool.not_eq_true, spelledAlike_iff, eq_comm]

/-- Entries that are spelt alike are the same one. -/
theorem eq_of_spelling_eq (hnodup : (names.map (spelling ·.toList)).Nodup) {j : Nat}
    {d e : String} (hi : names[i]? = some d) (hj : names[j]? = some e)
    (h : spelling d.toList = spelling e.toList) : i = j := by
  have hlt : i < (names.map (spelling ·.toList)).length := by
    simpa using (List.getElem?_eq_some_iff.1 hi).1
  refine (List.getElem?_inj hlt hnodup).1 ?_
  simp [hi, hj, h]

/-- Where no two entries are spelt alike, the first that is spelt like a name is any that is. -/
theorem place?_eq_some_iff (hnodup : (names.map (spelling ·.toList)).Nodup) :
    place? names name = some i ↔
      ∃ entry ∈ names[i]?, spelling name.toList = spelling entry.toList := by
  unfold place?
  rw [List.findIdx?_eq_some_iff_getElem]
  constructor
  · rintro ⟨hi, halike, -⟩
    exact ⟨names[i], List.getElem?_eq_getElem hi, ((spelledAlike_iff _ _).1 halike).symm⟩
  · rintro ⟨entry, hentry, halike⟩
    obtain ⟨hi, rfl⟩ := List.getElem?_eq_some_iff.1 hentry
    refine ⟨hi, (spelledAlike_iff _ _).2 halike.symm, fun j hj hearlier => ?_⟩
    have hsame := (spelledAlike_iff _ _).1 hearlier
    have hij := eq_of_spelling_eq hnodup hentry
      (List.getElem?_eq_getElem (Nat.lt_trans hj hi)) (halike.symm.trans hsame.symm)
    omega

end Tables

/-- `find` looks names up in a table whose entries are numbered from `first` on. -/
structure FindsBySpelling (names : List String) (first : Nat) (find : String → Option Nat) :
    Prop where
  /-- An entry is found by the names that have its spelling. -/
  eq_some_iff : ∀ name i, find name = some (first + i) ↔
    ∃ entry ∈ names[i]?, spelling name.toList = spelling entry.toList
  /-- A name that is spelt like no entry finds none. -/
  eq_none_iff : ∀ name, find name = none ↔
    ∀ entry ∈ names, spelling name.toList ≠ spelling entry.toList
  /-- What is found is a number of the table and fits a data byte. -/
  bounds : ∀ name number, find name = some number → first ≤ number ∧ number < 128
  /-- A name is spelt like one entry at most. -/
  unique : ∀ (name : String) (i j : Nat),
    (∃ d ∈ names[i]?, spelling name.toList = spelling d.toList) →
    (∃ e ∈ names[j]?, spelling name.toList = spelling e.toList) → i = j
  /-- An entry is found by itself with other spaces, marks and case, and by nothing else. -/
  restyled : ∀ (name : String) (i : Nat), ∀ entry ∈ names[i]?,
    (find name = some (first + i) ↔ Restyled name.toList entry.toList)
  /-- A name that is spelt like the beginning of an entry, or that goes on after it, finds the entry
  only if nothing is missing and nothing is left over. -/
  whole : ∀ (name : String) (i : Nat), ∀ entry ∈ names[i]?,
    spelling name.toList <+: spelling entry.toList ∨
      spelling entry.toList <+: spelling name.toList →
    (find name = some (first + i) ↔
      (spelling name.toList).length = (spelling entry.toList).length)

theorem FindsBySpelling.of_nodup {names : List String} {first : Nat} {find : String → Option Nat}
    (hfind : ∀ name, find name = (place? names name).map (first + ·))
    (hnodup : (names.map (spelling ·.toList)).Nodup) (hlength : first + names.length ≤ 128) :
    FindsBySpelling names first find := by
  have hsome : ∀ name i, find name = some (first + i) ↔
      ∃ entry ∈ names[i]?, spelling name.toList = spelling entry.toList := by
    intro name i
    rw [hfind, ← place?_eq_some_iff hnodup]
    simp
  have hentry : ∀ name i, ∀ entry ∈ names[i]?, (find name = some (first + i) ↔
      spelling name.toList = spelling entry.toList) := by
    intro name i entry hi
    rw [hsome, Option.mem_def.1 hi]
    simp
  refine ⟨hsome, ?_, ?_, ?_, ?_, ?_⟩
  · intro name
    rw [hfind, Option.map_eq_none_iff, place?_eq_none_iff]
  · intro name number hnumber
    rw [hfind, Option.map_eq_some_iff] at hnumber
    obtain ⟨i, hi, rfl⟩ := hnumber
    obtain ⟨entry, hentry, -⟩ := (place?_eq_some_iff hnodup).1 hi
    have := (List.getElem?_eq_some_iff.1 hentry).1
    omega
  · rintro name i j ⟨d, hd, hlikeD⟩ ⟨e, he, hlikeE⟩
    exact eq_of_spelling_eq hnodup hd he (hlikeD.symm.trans hlikeE)
  · intro name i entry hi
    rw [hentry name i entry hi, restyled_iff]
  · intro name i entry hi hpart
    rw [hentry name i entry hi]
    refine ⟨congrArg List.length, fun hlength => ?_⟩
    rcases hpart with hbegins | hgoesOn
    · exact hbegins.eq_of_length hlength
    · exact (hgoesOn.eq_of_length hlength.symm).symm

/-- No two instruments are spelt alike. -/
theorem nodup_spelling_programs : (programs.map (spelling ·.toList)).Nodup := by
  decide +kernel

/-- No two drums are spelt alike. -/
theorem nodup_spelling_drums : (drums.map (spelling ·.toList)).Nodup := by
  decide +kernel

/-- Instruments and drums are found by their spelling alone: whatever the spaces, the marks and the
case, and never by a part of it. -/
theorem finds_by_spelling :
    FindsBySpelling programs 0 program? ∧ FindsBySpelling drums firstDrumKey drumKey? := by
  constructor
  · refine .of_nodup (fun name => ?_) nodup_spelling_programs (by decide +kernel)
    simp [program?]
  · exact .of_nodup (fun name => rfl) nodup_spelling_drums (by decide +kernel)

/-- The acoustic bass is an instrument, and only the beginning of a drum. -/
example : drumKey? "acoustic_BASS" = none ∧ drumKey? "(acoustic bass) Drum" = some 35 := by
  decide +kernel

end MidiScore.GeneralMidi
