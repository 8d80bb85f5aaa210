import MidiScore.Channel.Replacement
import MidiScore.Proofs.Channel.Ensures

/-!
# A replacement, step by step

To replace the track of a channel is to move the channel to the new track, with its clock and its
agenda brought back to zero, and then to write again what a listener must know (`reassert`). A track
for another MIDI channel is refused and nothing is changed.
-/

namespace MidiScore

/-- The channel moved to another track: its clock starts again, what is pending comes forward with
it, and no release is recorded. -/
def Channel.movedTo (c : Channel) (track : Track) : Channel :=
  { c with
    track
    clock := 0
    pending := c.pending.rebase c.clock
    releases := .replicate 128 none }

namespace ChannelM

/-- Writes again what a listener must know of `c`. -/
def reassert (c : Channel) : ChannelM Unit := do
  c.instrument.forM setInstrument
  (if c.bend ≠ bendCenter then setBend c.bend else pure ())
  (if c.muted then cutSound else pure ())
  restrike

theorem replaceTrack_eq (track : Track) :
    replaceTrack track = (do
      let c ← get
      if track.channel ≠ c.number then
        throw (.value (.range .replacementChannel track.channel))
      else do
        set (c.movedTo track)
        reassert c
        return c.track) := by
  unfold replaceTrack reassert
  refine congrArg (get >>= ·) (funext fun c => ?_)
  by_cases hn : track.channel ≠ c.number
  · rw [if_pos hn, if_pos hn]
    rfl
  · rw [if_neg hn, if_neg hn]
    simp only [bind_assoc]
    refine congrArg (set (c.movedTo track) >>= ·) (funext fun _ => ?_)
    cases c.instrument <;> by_cases hb : c.bend ≠ bendCenter <;> by_cases hm : c.muted
    all_goals simp [hb, hm]

section Replace

variable {track : Track} {c : Channel}

/-- A track for another MIDI channel is refused. -/
theorem replaceTrack_of_ne (h : track.channel ≠ c.number) :
    replaceTrack track c = .error (.value (.range .replacementChannel track.channel)) c := by
  rw [replaceTrack_eq]
  show (if _ then _ else _ : ChannelM Track) c = _
  rw [if_pos h]
  rfl

theorem replaceTrack_of_eq (h : track.channel = c.number) :
    replaceTrack track c = (reassert c >>= fun _ => pure c.track) (c.movedTo track) := by
  rw [replaceTrack_eq]
  show (if _ then _ else _ : ChannelM Track) c = _
  rw [if_neg fun hne => hne h]
  rfl

/-- All sound of a channel can be cut. -/
theorem cutSound_eq (h : c.number ≤ 15) :
    cutSound c = .ok () (c.write (.controlChange c.number Controller.allSoundsOff 0)) := by
  have hvalid : (Message.controlChange c.number Controller.allSoundsOff 0).validate = .ok () :=
    Message.validate_controlChange.2 ⟨h, by decide, by decide⟩
  exact bind_of_ok (check_of_valid hvalid c)

end Replace

end ChannelM

end MidiScore
