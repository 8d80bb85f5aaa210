import MidiScore.Channel.Performance
import MidiScore.Channel.Replacement

/-!
# Operations as data

Everything that can be done to a channel is listed in `Operation`, so that a run of a channel is a
list of operations. `Operation.perform` is what each of them does.
-/

namespace MidiScore

/-- Something to do to a channel. -/
inductive Operation where
  | advance (ticks : Nat)
  | advanceBeat (beat : Beat)
  | leapTo (tick : Nat)
  | later (delta : Int) (action : Action)
  | laterBeat (beat : Beat) (action : Action)
  | flush
  | follow (directive : Directive)
  | playNote (pitch : Pitch) (delta : Int) (duration offVelocity : Nat)
  | setDynamic (dynamic : Dynamic)
  | setOctave (octaves : Int)
  | setTransposition (semitones : Int)
  | setSlurred (slurred : Bool)
  | setInstrument (program : Nat)
  | setBank (bank : Nat)
  | setMuted (muted : Bool)
  | setBend (bend : Nat)
  | resetBend
  | setController (number value : Nat)
  | pressPedal (number : Nat)
  | releasePedal (number : Nat)
  | replaceTrack (track : Track)
  | playPhrase (phrase : Phrase)
  | playSound (sound : Sound) (beat : Beat)
  | playRamp (ramp : Ramp)

/-- What an operation answers. -/
inductive Reply where
  | done
  /-- A tick, or a number of ticks. -/
  | ticks (n : Nat)
  /-- A track that was replaced. -/
  | track (t : Track)
deriving DecidableEq

/-- Answers that an operation is done. -/
def acknowledge (m : ChannelM Unit) : ChannelM Reply := do
  m
  return .done

/-- Does what an operation says. -/
def Operation.perform : Operation → ChannelM Reply
  | advance ticks => .ticks <$> ChannelM.advance ticks
  | advanceBeat beat => .ticks <$> ChannelM.advanceBeat beat
  | leapTo tick => .ticks <$> ChannelM.leapTo tick
  | later delta action => acknowledge <| ChannelM.later delta action
  | laterBeat beat action => acknowledge do
    ChannelM.after ((← get).timing.ticksInBeat beat) action
  | flush => .ticks <$> ChannelM.flush
  | follow directive => .ticks <$> ChannelM.follow directive
  | playNote pitch delta duration offVelocity =>
    acknowledge <| ChannelM.playNote pitch delta duration offVelocity
  | setDynamic dynamic => acknowledge <| ChannelM.setDynamic dynamic
  | setOctave octaves => acknowledge <| ChannelM.setOctave octaves
  | setTransposition semitones => acknowledge <| ChannelM.setTransposition semitones
  | setSlurred slurred => acknowledge <| ChannelM.setSlurred slurred
  | setInstrument program => acknowledge <| ChannelM.setInstrument program
  | setBank bank => acknowledge <| ChannelM.setBank bank
  | setMuted muted => acknowledge <| ChannelM.setMuted muted
  | setBend bend => acknowledge <| ChannelM.setBend bend
  | resetBend => acknowledge <| ChannelM.setBend bendCenter
  | setController number value => acknowledge <| ChannelM.setController number value
  | pressPedal number => acknowledge <| ChannelM.pressPedal number
  | releasePedal number => acknowledge <| ChannelM.releasePedal number
  | replaceTrack track => .track <$> ChannelM.replaceTrack track
  | playPhrase phrase => .ticks <$> ChannelM.playPhrase phrase
  | playSound sound beat => acknowledge <| ChannelM.playSound sound beat
  | playRamp ramp => acknowledge <| ChannelM.playRamp ramp

/-- Performs operations one after the other, going on after one that fails. -/
def Channel.performAll (c : Channel) (ops : List Operation) : Channel :=
  ops.foldl (fun c op => op.perform.leaves c) c

end MidiScore
