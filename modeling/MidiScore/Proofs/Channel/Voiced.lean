import MidiScore.Proofs.Channel.Sendable

/-!
# What a channel writes

Nothing is checked when an action is promised; a message is checked when it is sent. So a track that
was empty at first holds voice messages of its own channel and nothing else, and every number in
them is in range, whatever numbers the operations were given and whichever of them failed
(`voiced_of_reachableFresh`).
-/

namespace MidiScore

/-- A voice message for channel `n`, with every other number within its seven bits, or its fourteen
in a bend. -/
def Message.VoiceOn (n : Nat) : Message → Prop
  | noteOn ch key vel | noteOff ch key vel => ch = n ∧ key ≤ 127 ∧ vel ≤ 127
  | controlChange ch num val => ch = n ∧ num ≤ 127 ∧ val ≤ 127
  | programChange ch prog => ch = n ∧ prog ≤ 127
  | pitchBend ch val => ch = n ∧ val ≤ 16383
  | metaEvent _ => False

/-- A message that is accepted is in range, and it is a voice message if it is for a channel. -/
theorem Message.voiceOn_of_validate {m : Message} {n : Nat} (hv : m.validate = .ok ())
    (hn : m.channel? = some n) : m.VoiceOn n := by
  cases m with
  | noteOn ch key vel => exact ⟨Option.some.inj hn, (validate_noteOn.1 hv).2⟩
  | noteOff ch key vel => exact ⟨Option.some.inj hn, (validate_noteOff.1 hv).2⟩
  | controlChange ch num val => exact ⟨Option.some.inj hn, (validate_controlChange.1 hv).2⟩
  | programChange ch prog => exact ⟨Option.some.inj hn, (validate_programChange.1 hv).2⟩
  | pitchBend ch val => exact ⟨Option.some.inj hn, (validate_pitchBend.1 hv).1⟩
  | metaEvent event => cases hn

namespace Channel

/-- The track holds voice messages of the channel, in range. -/
def Voiced (c : Channel) : Prop :=
  ∀ e ∈ c.track.written, e.message.VoiceOn c.number

variable {op : Operation} {c c' : Channel}

namespace Voiced

theorem of_written_eq_nil (h : c.track.written = []) : Voiced c := by
  intro e he
  rw [h] at he
  cases he

theorem speaks (h : Voiced c) (hs : Speaks op c c') : Voiced c' := by
  intro e he
  rw [hs.number_eq]
  obtain ⟨⟨messages, ht, hsends, -⟩, -⟩ := hs
  rw [ht, written_said] at he
  rcases List.mem_append.1 he with he | he
  · exact h e he
  · obtain ⟨m, hm, rfl⟩ := List.mem_map.1 he
    obtain ⟨hv, hchannel⟩ := hsends m hm
    exact Message.voiceOn_of_validate hv hchannel

theorem change (h : Voiced c) (hfresh : ∀ t, op = .replaceTrack t → t.written = [])
    (hchange : Change op c c') : Voiced c' := by
  rcases hchange.track_cases with hs | ⟨key, handle, -, rfl⟩ | ⟨track, rfl, -, rfl⟩
  · exact h.speaks hs
  · exact fun e he => h e ((c.track.written_erase_sublist handle).mem he)
  · exact .of_written_eq_nil (hfresh track rfl)

end Voiced

/-- Whatever was asked of a channel whose track was empty at first, as were the tracks that replaced
it, what stands in its track are voice messages of its own MIDI channel with numbers in range. What
it remembers of its instrument, its bank and its bend is in range as well, and there is an
instrument if there is a bank. -/
theorem voiced_of_reachableFresh (c : Channel) (h : c.ReachableFresh) :
    c.number ≤ 15 ∧
    (∀ e ∈ c.track.events, e.message.VoiceOn c.number) ∧
    (∀ program, c.instrument = some program → program ≤ 127) ∧
    (∀ bank, c.bank = some bank → bank ≤ 127) ∧
    c.bend ≤ 16383 ∧
    (c.bank.isSome → c.instrument.isSome) := by
  have hsendable := sendable_of_reachable h.reachable
  have hvoiced : Voiced c := h.induction (fun _ _ _ hw => .of_written_eq_nil hw)
    fun hfresh hchange hc => hc.change hfresh hchange
  exact ⟨hsendable.number_le, fun e he => hvoiced e (Track.mem_events.1 he),
    hsendable.instrument_le, hsendable.bank_le, hsendable.bend_le, hsendable.instrument_isSome⟩

/-- Numbers out of range, given to operations and to actions: settings that are refused, a strike
louder than any, and actions that fail when they fall due. -/
def recklessRun : List Operation :=
  [.setBank 5, .setBank 200, .setInstrument 128, .setBend 20000, .setBend 16383,
   .setController 7 128, .setOctave 4, .playNote .b 1000 50 96, .playNote .c (-1000) 50 200,
   .later 10 (.noteOff 300 0), .later 20 (.play 60 5 30 255), .later 30 (.turnKnob 200 5),
   .later 40 (.bend 70000), .advance 15, .advance 15, .advance 15, .advance 15,
   .replaceTrack { channel := 3 }, .setSlurred true, .advance 100, .playNote .d 0 1 128, .flush]

/-- The channel after `recklessRun`. -/
def reckless : Channel :=
  ({ track := { channel := 3 } } : Channel).performAll recklessRun

theorem reachableFresh_reckless : reckless.ReachableFresh := by
  refine ⟨{ channel := 3 }, false, .standard, _, recklessRun, rfl, fun t ht => ?_, rfl, rfl⟩
  obtain rfl : t = { channel := 3 } := by simpa [recklessRun] using ht
  rfl

theorem voiced_of_reachableFresh_reckless :
    reckless.ReachableFresh ∧ reckless.number = 3 ∧ reckless.number ≤ 15 ∧
      (∀ e ∈ reckless.track.events, e.message.VoiceOn reckless.number) ∧
      (∀ program, reckless.instrument = some program → program ≤ 127) ∧
      (∀ bank, reckless.bank = some bank → bank ≤ 127) ∧
      reckless.bend ≤ 16383 ∧ (reckless.bank.isSome → reckless.instrument.isSome) :=
  ⟨reachableFresh_reckless, by decide +kernel,
    voiced_of_reachableFresh reckless reachableFresh_reckless⟩

end Channel

end MidiScore
