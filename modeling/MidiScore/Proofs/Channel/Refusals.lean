import MidiScore.Proofs.Channel.Shifted

/-!
# A setting that fails changes nothing

A setting may send several messages and remember several values. The one that it is given is checked
before anything is changed, and what it sends besides comes from the channel itself, where all that
is remembered can be sent. So a setting fails only for what it is given, and a reachable channel
is left as it was (`fails_iff_of_setting`).
-/

namespace MidiScore

/-- The operation sets the instrument, the bank, the bend, a controller, the mute or the track. -/
def Operation.isSetting : Operation → Bool
  | setInstrument _ | setBank _ | setMuted _ | setBend _ | resetBend | setController .. |
    pressPedal _ | releasePedal _ | replaceTrack _ => true
  | _ => false

/-- What a setting of the channel `c` is given is within the range of its message. A new track has
to be for the MIDI channel of the old one. -/
def Operation.Fits (c : Channel) : Operation → Prop
  | setInstrument program => program ≤ 127
  | setBank bank => bank ≤ 127
  | setBend bend => bend ≤ 16383
  | setController number value => number ≤ 127 ∧ value ≤ 127
  | pressPedal number | releasePedal number => number ≤ 127
  | replaceTrack track => track.channel = c.number
  | _ => True

namespace ChannelM

open Channel

variable {α β : Type} {p : Prop} {m : ChannelM α} {c : Channel}

/-- On the channel `c` the operation fails exactly if `p` does not hold, and then it leaves `c` as
it was. -/
structure FailsUnless (p : Prop) (m : ChannelM α) (c : Channel) : Prop where
  fails_iff : (∃ cause c', m c = .error cause c') ↔ ¬ p
  unchanged : ∀ cause c', m c = .error cause c' → c' = c

namespace FailsUnless

theorem of_ok {a : α} {c' : Channel} (hp : p) (h : m c = .ok a c') : FailsUnless p m c := by
  constructor
  · simp [h, hp]
  · simp [h]

theorem of_error {cause : Failure} (hp : ¬ p) (h : m c = .error cause c) : FailsUnless p m c := by
  constructor
  · simp [h, hp]
  · intro cause' c' h'
    rw [h] at h'
    cases h'
    rfl

/-- Where it fails, the channel is still there. -/
theorem eq_error (h : FailsUnless p m c) (hp : ¬ p) : ∃ cause, m c = .error cause c := by
  obtain ⟨cause, c', hm⟩ := h.fails_iff.2 hp
  cases h.unchanged cause c' hm
  exact ⟨cause, hm⟩

theorem map (h : FailsUnless p m c) (f : α → β) : FailsUnless p (f <$> m) c := by
  by_cases hp : p
  · cases hm : m c with
    | ok a c' => exact of_ok hp (bind_of_ok hm)
    | error cause c' => exact absurd hp (h.fails_iff.1 ⟨cause, c', hm⟩)
  · obtain ⟨cause, hm⟩ := h.eq_error hp
    exact of_error hp (bind_of_error hm)

theorem acknowledge {m : ChannelM Unit} (h : FailsUnless p m c) :
    FailsUnless p (acknowledge m) c :=
  h.map fun _ => Reply.done

/-- A message is checked before anything is done. -/
theorem of_message {msg : Message} (hvalid : msg.validate = .ok () ↔ p)
    (hok : msg.validate = .ok () → ∃ a c', m c = .ok a c')
    (herror : ∀ cause, msg.validate = .error cause → m c = .error (.refused msg cause) c) :
    FailsUnless p m c := by
  cases hv : msg.validate with
  | ok u =>
    obtain ⟨a, c', hm⟩ := hok hv
    exact of_ok (hvalid.1 hv) hm
  | error cause => exact of_error (fun hp => by simp [hvalid.2 hp] at hv) (herror cause hv)

end FailsUnless

/-- A message is sent before it is remembered. -/
theorem failsUnless_send {msg : Message} (hvalid : msg.validate = .ok () ↔ p)
    (f : Channel → Channel) : FailsUnless p (do send msg; modify f : ChannelM Unit) c :=
  .of_message hvalid (fun hv => ⟨_, _, send_modify hv c f⟩)
    fun _ hv => bind_of_error (bind_of_error (check_of_invalid hv c))

theorem FailsUnless.get_bind {f : Channel → ChannelM α} (h : FailsUnless p (f c) c) :
    FailsUnless p (get >>= f) c :=
  ⟨h.fails_iff, h.unchanged⟩

theorem failsUnless_setBend (hn : c.number ≤ 15) (bend : Nat) :
    FailsUnless (bend ≤ 16383) (setBend bend) c := by
  have hvalid : (Message.pitchBend c.number bend).validate = .ok () ↔ bend ≤ 16383 :=
    Message.validate_pitchBend.trans (and_iff_left hn)
  exact .get_bind (failsUnless_send hvalid _)

theorem failsUnless_setController (hn : c.number ≤ 15) (number value : Nat) :
    FailsUnless (number ≤ 127 ∧ value ≤ 127) (setController number value) c := by
  have hvalid : (Message.controlChange c.number number value).validate = .ok () ↔
      number ≤ 127 ∧ value ≤ 127 :=
    Message.validate_controlChange.trans (and_iff_right hn)
  exact .get_bind (failsUnless_send hvalid _)

/-- A pedal is set to a value that a controller can take. -/
theorem failsUnless_pedal (hn : c.number ≤ 15) (number : Nat) {value : Nat} (hv : value ≤ 127) :
    FailsUnless (number ≤ 127) (setController number value) c := by
  have h := failsUnless_setController hn number value
  rwa [and_iff_left hv] at h

theorem failsUnless_setInstrument (hc : Sendable c) (program : Nat) :
    FailsUnless (program ≤ 127) (setInstrument program) c := by
  have hvalid : (Message.programChange c.number program).validate = .ok () ↔ program ≤ 127 :=
    Message.validate_programChange.trans (and_iff_right hc.number_le)
  refine .get_bind (.of_message hvalid (fun hv => ?_) fun _ hv => ?_)
  · exact ⟨_, _, setInstrument_eq hc.number_le (hvalid.1 hv) hc.bank_le⟩
  · exact bind_of_error (check_of_invalid hv c)

/-- A bank in range can be sent, and the instrument that is remembered as well. -/
theorem failsUnless_setBank (hc : Sendable c) (bank : Nat) :
    FailsUnless (bank ≤ 127) (setBank bank) c := by
  have hvalid : (Message.controlChange c.number Controller.bankLow bank).validate = .ok () ↔
      bank ≤ 127 :=
    Message.validate_controlChange.trans
      ⟨fun h => h.2.2, fun hb => ⟨hc.number_le, by decide, hb⟩⟩
  have hprogram : c.instrument.getD 0 ≤ 127 := by
    cases hi : c.instrument with
    | none => exact Nat.zero_le _
    | some program => exact hc.instrument_le program hi
  refine .get_bind (.of_message hvalid (fun hv => ?_) fun _ hv => ?_)
  · have hset := setInstrument_eq (c := { c with bank := some bank }) hc.number_le hprogram
      fun b hb => Option.some.inj hb ▸ hvalid.1 hv
    exact ⟨_, _, (bind_of_ok (check_of_valid hv c)).trans hset⟩
  · exact bind_of_error (check_of_invalid hv c)

/-- Muting never fails. -/
theorem setMuted_eq_ok (hn : c.number ≤ 15) (muted : Bool) :
    ∃ c', setMuted muted c = .ok ⟨⟩ c' := by
  unfold setMuted
  rw [get_bind]
  split
  · exact ⟨_, bind_of_ok (cutSound_eq hn)⟩
  · exact ⟨_, rfl⟩

theorem failsUnless_replaceTrack (hc : Sendable c) (track : Track) :
    FailsUnless (track.channel = c.number) (replaceTrack track) c := by
  by_cases hn : track.channel = c.number
  · exact .of_ok hn (replaceTrack_of_sendable hc hn)
  · exact .of_error hn (replaceTrack_of_ne hn)

theorem failsUnless_perform (hc : Sendable c) {op : Operation} (hop : op.isSetting) :
    FailsUnless (op.Fits c) op.perform c := by
  have hn := hc.number_le
  cases op with
  | setInstrument program => exact (failsUnless_setInstrument hc program).acknowledge
  | setBank bank => exact (failsUnless_setBank hc bank).acknowledge
  | setMuted muted =>
    obtain ⟨c', hrun⟩ := setMuted_eq_ok hn muted
    exact (FailsUnless.of_ok trivial hrun).acknowledge
  | setBend bend => exact (failsUnless_setBend hn bend).acknowledge
  | resetBend =>
    have h := failsUnless_setBend hn bendCenter
    rw [eq_true (by decide : bendCenter ≤ 16383)] at h
    exact h.acknowledge
  | setController number value => exact (failsUnless_setController hn number value).acknowledge
  | pressPedal number => exact (failsUnless_pedal hn number (by decide)).acknowledge
  | releasePedal number => exact (failsUnless_pedal hn number (by decide)).acknowledge
  | replaceTrack track => exact (failsUnless_replaceTrack hc track).map _
  | _ => cases hop

/-- Of a reachable channel, a setting fails exactly if what it is given is out of range, and then
the whole channel is left as it was. So does a knob that is turned when its time comes. Muting never
fails. -/
theorem failsUnless_of_reachable (hc : c.Reachable) :
    (∀ op : Operation, op.isSetting → FailsUnless (op.Fits c) op.perform c) ∧
    (∀ number value,
      FailsUnless (number ≤ 127 ∧ value ≤ 127) (run (.turnKnob number value)) c) ∧
    ∀ muted, ∃ c', setMuted muted c = .ok ⟨⟩ c' := by
  have hsend := sendable_of_reachable hc
  exact ⟨fun op hop => failsUnless_perform hsend hop, failsUnless_setController hsend.number_le,
    setMuted_eq_ok hsend.number_le⟩

/-- A bank, an instrument, a bend, a held key and a knob that waits to be turned. -/
def furnishedRun : List Operation :=
  [.setInstrument 5, .setBank 7, .setBend 9000, .playNote .c 0 480 96, .advance 10,
   .setController 72 20, .later 40 (.turnKnob 72 64), .setMuted true]

/-- The channel after `furnishedRun`. -/
def furnished : Channel :=
  ({ track := { channel := 3 } } : Channel).performAll furnishedRun

theorem failsUnless_of_reachable_furnished :
    furnished.Reachable ∧
      (∃ cause, (Operation.setBank 128).perform furnished = .error cause furnished) ∧
      (∃ cause, (Operation.replaceTrack { channel := 4 }).perform furnished =
        .error cause furnished) ∧
      (∃ cause, run (.turnKnob 72 128) furnished = .error cause furnished) ∧
      ∃ c', setMuted true furnished = .ok ⟨⟩ c' := by
  have hreach : furnished.Reachable :=
    ⟨{ channel := 3 }, false, .standard, _, furnishedRun, rfl, rfl⟩
  obtain ⟨hsettings, hknobs, hmutes⟩ := failsUnless_of_reachable hreach
  have hbank : ¬ (Operation.setBank 128).Fits furnished := by
    show ¬ 128 ≤ 127
    decide
  have htrack : ¬ (Operation.replaceTrack { channel := 4 }).Fits furnished := by
    show ¬ 4 = furnished.number
    decide +kernel
  exact ⟨hreach, (hsettings _ rfl).eq_error hbank, (hsettings _ rfl).eq_error htrack,
    (hknobs 72 128).eq_error (by decide), hmutes true⟩

end ChannelM

end MidiScore
