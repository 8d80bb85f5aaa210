import Mathlib.Tactic.Common
import MidiScore.Proofs.Track
import MidiScore.Controller

/-!
# Keys that sound in a track

A key sounds after some events if its last strike among them was silenced neither by a release of
the key nor by a message that cuts all sound. Events after which no key sounds are `Settled`: each
strike is followed by something that silences its key.
-/

namespace MidiScore

/-- Whether a message strikes a key. -/
def Message.strikes (key : Nat) : Message → Bool
  | noteOn _ struck _ => struck = key
  | _ => false

/-- Whether a message silences a key: it releases the key or cuts all sound. -/
def Message.silences (key : Nat) : Message → Bool
  | noteOff _ released _ => released = key
  | controlChange _ number _ => number = Controller.allSoundsOff
  | _ => false

/-- Every strike of a key is followed by an event that silences the key. -/
def Settled (events : List Event) : Prop :=
  ∀ before e after key, events = before ++ e :: after → e.message.strikes key →
    ∃ e' ∈ after, e'.message.silences key

/-- A key still sounds after these events. -/
def Sounding (key : Nat) : List Event → Prop
  | [] => False
  | e :: rest =>
    (e.message.strikes key ∧ ∀ e' ∈ rest, ¬ e'.message.silences key) ∨ Sounding key rest

variable {key : Nat} {e : Event} {xs ys : List Event}

theorem not_silences_of_strikes {m : Message} (h : m.strikes key) : ¬ m.silences key := by
  cases m <;> simp [Message.strikes, Message.silences] at *

theorem settled_of_not_sounding (h : ∀ key, ¬ Sounding key xs) : Settled xs := by
  intro before e after key hxs he
  by_contra hno
  refine h key ?_
  rw [hxs]
  clear hxs h
  induction before with
  | nil => exact .inl ⟨he, fun e' he' hs => hno ⟨e', he', hs⟩⟩
  | cons b rest ih => exact .inr ih

theorem sounding_append_singleton :
    Sounding key (xs ++ [e]) ↔
      e.message.strikes key ∨ (¬ e.message.silences key ∧ Sounding key xs) := by
  induction xs with
  | nil => simp [Sounding]
  | cons x rest ih =>
    simp only [List.cons_append, Sounding, ih, List.mem_append, List.mem_singleton]
    constructor
    · rintro (⟨hx, hno⟩ | he | ⟨he, hs⟩)
      · exact .inr ⟨hno e (.inr rfl), .inl ⟨hx, fun e' he' => hno e' (.inl he')⟩⟩
      · exact .inl he
      · exact .inr ⟨he, .inr hs⟩
    · rintro (he | ⟨he, ⟨hx, hno⟩ | hs⟩)
      · exact .inr (.inl he)
      · refine .inl ⟨hx, ?_⟩
        rintro e' (he' | rfl)
        · exact hno e' he'
        · exact he
      · exact .inr (.inr ⟨he, hs⟩)

/-- Leaving out an event lets no key sound but those that it silenced. -/
theorem Sounding.insert (h : Sounding key (xs ++ ys)) (he : ¬ e.message.silences key) :
    Sounding key (xs ++ e :: ys) := by
  induction xs with
  | nil => exact .inr h
  | cons x rest ih =>
    rcases h with ⟨hx, hno⟩ | hs
    · refine .inl ⟨hx, fun e' he' => ?_⟩
      rcases List.mem_append.1 he' with he' | he'
      · exact hno e' (List.mem_append_left _ he')
      · rcases List.mem_cons.1 he' with rfl | he'
        · exact he
        · exact hno e' (List.mem_append_right _ he')
    · exact .inr (ih hs)

end MidiScore
