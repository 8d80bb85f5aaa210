import MidiScore.Proofs.Channel.Reachable

/-!
# What a channel remembers can be sent

A setting is sent before it is remembered, and a user bank is remembered together with an
instrument. So what a reachable channel remembers lies within the range of its message
(`sendable_of_reachable`), and sending it again does not fail.
-/

namespace MidiScore

/-- Whatever value a controller takes over, it stands at one that can be sent. -/
theorem Controller.value_set_le {controller : Controller} {value : Nat} (h : value ≤ 127) :
    (controller.set value).value ≤ 127 := by
  cases controller with
  | knob number old => exact h
  | pedal number down =>
    show (if _ then 127 else 0) ≤ 127
    split <;> decide

theorem Controller.value_fresh_le (number : Nat) : (fresh number).value ≤ 127 := by
  unfold fresh
  split
  · exact Nat.zero_le _
  · show 64 ≤ 127
    decide

namespace Channel

/-- What the channel remembers of its settings, and the number it sends them on. -/
def memory (c : Channel) :
    Nat × Option Nat × Option Nat × Nat × Vector Controller 128 :=
  (c.number, c.instrument, c.bank, c.bend, c.controllers)

theorem aloof_memory : ChannelM.Aloof memory where
  write _ _ := rfl
  erase _ _ := rfl
  notes _ _ := rfl
  releases _ _ := rfl
  pending _ _ := rfl

/-- What the channel remembers of its settings can be sent. -/
structure Sendable (c : Channel) : Prop where
  number_le : c.number ≤ 15
  instrument_le : ∀ program, c.instrument = some program → program ≤ 127
  bank_le : ∀ bank, c.bank = some bank → bank ≤ 127
  instrument_isSome : c.bank.isSome → c.instrument.isSome
  bend_le : c.bend ≤ bendMax
  controllerValue_le : ∀ number, c.controllerValue number ≤ 127

variable {op : Operation} {c c' : Channel}

theorem controllerValue_setController_le (hc : ∀ n, c.controllerValue n ≤ 127) {number value : Nat}
    (hv : value ≤ 127) (n : Nat) :
    { c with
      controllers := c.controllers.setIfInBounds number ((c.controller number).set value)
    }.controllerValue n ≤ 127 := by
  unfold controllerValue
  rw [controller_setController]
  split
  · exact Controller.value_set_le hv
  · exact hc n

theorem memory_emitAll (c : Channel) (l : List Message) : (c.emitAll l).memory = c.memory := by
  induction l generalizing c with
  | nil => rfl
  | cons m rest ih => exact (ih (c.emit m)).trans (aloof_memory.emit c m)

/-! ## Changes keep what is remembered sendable -/

theorem Sendable.change (h : Sendable c) (hchange : Change op c c') : Sendable c' := by
  have hn : c'.number ≤ 15 := hchange.number_eq ▸ h.number_le
  cases hchange with
  | control valid =>
    obtain ⟨-, -, hv⟩ := Message.validate_controlChange.1 valid
    exact ⟨hn, h.instrument_le, h.bank_le, h.instrument_isSome, h.bend_le,
      controllerValue_setController_le h.controllerValue_le hv⟩
  | bend valid =>
    obtain ⟨hb, -⟩ := Message.validate_pitchBend.1 valid
    exact ⟨hn, h.instrument_le, h.bank_le, h.instrument_isSome, hb, h.controllerValue_le⟩
  | @program program bank valid =>
    refine ⟨hn, ?_, ?_, fun _ => rfl, h.bend_le, h.controllerValue_le⟩
    · rintro _ ⟨⟩
      exact (Message.validate_programChange.1 (valid _ List.mem_concat_self)).2
    · rintro b rfl
      have hlow := valid (.controlChange c.number Controller.bankLow b)
        (List.mem_append_left _ (.tail _ (.head _)))
      exact (Message.validate_controlChange.1 hlow).2.2
  | bank held valid =>
    refine ⟨hn, h.instrument_le, ?_, fun _ => held, h.bend_le, h.controllerValue_le⟩
    rintro _ ⟨⟩
    exact (Message.validate_controlChange.1 valid).2.2
  | _ =>
    exact ⟨hn, h.instrument_le, h.bank_le, h.instrument_isSome, h.bend_le, h.controllerValue_le⟩

theorem sendable_of_fresh {track : Track} (percussion : Bool) (timing : Timing)
    (hn : track.channel ≤ 15) : Sendable { track, percussion, timing } := by
  have hbend : bendCenter ≤ bendMax := by decide
  refine ⟨hn, nofun, nofun, nofun, hbend, fun n => ?_⟩
  unfold controllerValue controller
  rw [Vector.getElem?_ofFn]
  split
  · exact Controller.value_fresh_le n
  · exact Controller.value_fresh_le n

/-- What a reachable channel remembers can be sent. -/
theorem sendable_of_reachable {c : Channel} (h : c.Reachable) : Sendable c :=
  h.induction (fun _ percussion timing => sendable_of_fresh percussion timing)
    fun hchange hc => hc.change hchange

end Channel

end MidiScore
