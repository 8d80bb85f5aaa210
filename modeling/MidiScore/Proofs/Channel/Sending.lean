import MidiScore.Proofs.Channel.Keys
import MidiScore.Proofs.Channel.Replacement

/-!
# Messages that are sent one after the other

Messages that can be sent are written one behind the other (`emitAll_of_not_muted`), or dropped if
the channel is muted. An instrument is sent behind the bank (`setInstrument_eq`), and nothing is
sent or remembered when a message cannot be sent (`leaves_check_bind`).
-/

namespace MidiScore

namespace Channel

variable {c : Channel}

/-- Sends messages one after the other, unless the channel is muted. -/
def emitAll (c : Channel) (messages : List Message) : Channel :=
  messages.foldl emit c

theorem emitAll_append (c : Channel) (l l' : List Message) :
    c.emitAll (l ++ l') = (c.emitAll l).emitAll l' :=
  List.foldl_append

theorem emitAll_of_muted (h : c.muted = true) (l : List Message) : c.emitAll l = c := by
  induction l with
  | nil => rfl
  | cons m rest ih =>
    show (c.emit m).emitAll rest = c
    rwa [show c.emit m = c from if_pos h]

/-- The track with messages written at the current tick. -/
def said (c : Channel) (messages : List Message) : Track :=
  ⟨c.number, c.track.log ++ (messages.map fun m => some ⟨c.clock, m⟩).toArray⟩

theorem said_nil (c : Channel) : c.said [] = c.track := by
  simp [said, number]

theorem written_said (c : Channel) (messages : List Message) :
    (c.said messages).written = c.track.written ++ messages.map (Event.mk c.clock) := by
  simp [said, Track.written]

theorem track_write (c : Channel) (m : Message) : (c.write m).track = c.said [m] := by
  simp [said, write, Track.push, number]

theorem emitAll_of_not_muted (h : c.muted = false) (l : List Message) :
    c.emitAll l = { c with track := c.said l } := by
  induction l generalizing c with
  | nil => rw [said_nil, emitAll, List.foldl_nil]
  | cons m rest ih =>
    show (c.emit m).emitAll rest = _
    rw [emit_of_not_muted h, ih (c := c.write m) h]
    simp [said, write, Track.push, number]

/-- Sending messages changes at most the track. -/
theorem emitAll_eq (c : Channel) (l : List Message) :
    c.emitAll l = { c with track := (c.emitAll l).track } := by
  by_cases h : c.muted
  · rw [emitAll_of_muted h]
  · rw [emitAll_of_not_muted (by simpa using h)]

theorem number_emit (c : Channel) (m : Message) : (c.emit m).number = c.number := by
  unfold emit
  split <;> rfl

theorem track_emitAll (c : Channel) (l : List Message) :
    (c.emitAll l).track = c.said (if c.muted then [] else l) := by
  cases hm : c.muted with
  | true => rw [emitAll_of_muted hm, if_pos rfl, said_nil]
  | false => rw [emitAll_of_not_muted hm, if_neg Bool.false_ne_true]

/-- The messages for the user bank of a channel, if it is set. -/
def bankMessages (c : Channel) : List Message :=
  match c.bank with
  | some bank =>
    [.controlChange c.number Controller.bankHigh 121,
      .controlChange c.number Controller.bankLow bank]
  | none => []

theorem exists_of_mem_bankMessages {m : Message} (h : m ∈ c.bankMessages) :
    ∃ number value, m = .controlChange c.number number value := by
  unfold bankMessages at h
  split at h
  · simp only [List.mem_cons, List.not_mem_nil, or_false] at h
    rcases h with rfl | rfl <;> exact ⟨_, _, rfl⟩
  · cases h

end Channel

namespace ChannelM

open Channel

variable {c : Channel}

/-- A message that can be sent is written or dropped before anything else changes. -/
theorem send_modify {m : Message} (hm : m.validate = .ok ()) (c : Channel)
    (f : Channel → Channel) : (do send m; modify f : ChannelM Unit) c =
      .ok ⟨⟩ (f { c with track := (c.emit m).track }) := by
  rw [bind_of_ok (send_of_valid hm c), emit_eq]
  rfl

theorem forM_send {α : Type} {f : α → Message} {l : List α}
    (h : ∀ a ∈ l, (f a).validate = .ok ()) (c : Channel) :
    l.forM (fun a => send (f a)) c = .ok ⟨⟩ (c.emitAll (l.map f)) := by
  induction l generalizing c with
  | nil => rfl
  | cons a rest ih =>
    obtain ⟨ha, hrest⟩ := List.forall_mem_cons.1 h
    show (send (f a) >>= fun _ => rest.forM fun a => send (f a)) c = _
    rw [bind_of_ok (send_of_valid ha c)]
    exact ih hrest _

theorem sendBank_eq {bank : Nat} (hn : c.number ≤ 15) (hb : bank ≤ 127) :
    sendBank bank c = .ok () (c.emitAll [.controlChange c.number Controller.bankHigh 121,
      .controlChange c.number Controller.bankLow bank]) := by
  have hhigh : (Message.controlChange c.number Controller.bankHigh 121).validate = .ok () :=
    Message.validate_controlChange.2 ⟨hn, by decide, by decide⟩
  have hlow : (Message.controlChange c.number Controller.bankLow bank).validate = .ok () :=
    Message.validate_controlChange.2 ⟨hn, by decide, hb⟩
  unfold sendBank
  rw [get_bind, bind_of_ok (check_of_valid hhigh c), bind_of_ok (check_of_valid hlow c),
    bind_of_ok (send_of_valid hhigh c)]
  exact send_of_valid hlow _

/-- An instrument in range is sent behind the bank, and remembered. -/
theorem setInstrument_eq {program : Nat} (hn : c.number ≤ 15) (hp : program ≤ 127)
    (hb : ∀ bank, c.bank = some bank → bank ≤ 127) :
    setInstrument program c = .ok ()
      { c.emitAll (c.bankMessages ++ [.programChange c.number program]) with
        instrument := some program } := by
  have hprogram : (Message.programChange c.number program).validate = .ok () :=
    Message.validate_programChange.2 ⟨hn, hp⟩
  have hsend : ∀ c' : Channel, (do
      send (.programChange c.number program)
      modify fun c => { c with instrument := some program } : ChannelM Unit) c' =
        .ok () { c'.emit (.programChange c.number program) with instrument := some program } :=
    fun c' => bind_of_ok (send_of_valid hprogram c')
  unfold setInstrument
  rw [get_bind, bind_of_ok (check_of_valid hprogram c)]
  unfold bankMessages
  cases hbank : c.bank with
  | none => exact hsend c
  | some bank =>
    dsimp only
    rw [bind_of_ok (sendBank_eq hn (hb bank hbank)), emitAll_append]
    exact hsend _

/-- A bank that cannot be sent changes nothing. -/
theorem sendBank_of_invalid {c : Channel} {bank : Nat} (hn : c.number ≤ 15) (hb : ¬ bank ≤ 127) :
    ∃ e, sendBank bank c = .error e c := by
  have hhigh : (Message.controlChange c.number Controller.bankHigh 121).validate = .ok () :=
    Message.validate_controlChange.2 ⟨hn, by decide, by decide⟩
  unfold sendBank
  rw [get_bind, bind_of_ok (check_of_valid hhigh c)]
  cases hv : (Message.controlChange c.number Controller.bankLow bank).validate with
  | ok u => exact absurd (Message.validate_controlChange.1 hv).2.2 hb
  | error e => exact ⟨_, bind_of_error (check_of_invalid hv c)⟩

theorem validate_of_mem_bankMessages {c : Channel} {m : Message} (hn : c.number ≤ 15)
    (hb : ∀ bank, c.bank = some bank → bank ≤ 127) (hm : m ∈ c.bankMessages) :
    m.validate = .ok () := by
  unfold bankMessages at hm
  cases hbank : c.bank with
  | none =>
    rw [hbank] at hm
    cases hm
  | some bank =>
    rw [hbank] at hm
    simp only [List.mem_cons, List.not_mem_nil, or_false] at hm
    rcases hm with rfl | rfl
    · exact Message.validate_controlChange.2 ⟨hn, by decide, by decide⟩
    · exact Message.validate_controlChange.2 ⟨hn, by decide, hb bank hbank⟩

/-- What follows a check is done only if the message is valid. -/
theorem leaves_check_bind {α : Type} {P : Channel → Prop} {msg : Message} {f : Unit → ChannelM α}
    (h : msg.validate = .ok () → P ((f ()).leaves c)) (hc : P c) :
    P ((check msg >>= f).leaves c) := by
  cases hv : msg.validate with
  | ok u =>
    rw [leaves_bind_of_ok f (check_of_valid hv c)]
    exact h hv
  | error e => rwa [leaves_bind_of_error f (check_of_invalid hv c)]

/-- Once a message was sent, its numbers are known to be in range. -/
theorem leaves_send_bind {α : Type} {P : Channel → Prop} {msg : Message} {f : Unit → ChannelM α}
    (h : msg.validate = .ok () → P ((f ()).leaves (c.emit msg))) (hc : P c) :
    P ((send msg >>= f).leaves c) := by
  cases hv : msg.validate with
  | ok u =>
    rw [leaves_bind_of_ok f (send_of_valid hv c)]
    exact h hv
  | error e =>
    have hsend : send msg c = .error (.refused msg e) c := bind_of_error (check_of_invalid hv c)
    rwa [leaves_bind_of_error f hsend]

end ChannelM

end MidiScore
