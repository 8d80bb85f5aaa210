import MidiScore.Channel.Operation
import MidiScore.Midi.GeneralMidi

/-!
# Statements and blocks

A statement is one thing that a block does to its channel, or a meeting with other blocks. A block
is a named list of statements, each with its place in the source, that is played on a channel of its
own.
-/

namespace MidiScore

/-- A place in the source. -/
structure Location where
  line : Nat := 0
  column : Nat := 0
deriving DecidableEq, Repr

/-- The text of a place. -/
def Location.text (l : Location) : String :=
  s!"{l.line}:{l.column}"

/-- One thing that a block does. -/
inductive Statement where
  | playPhrase (phrase : Phrase)
  | rest (beat : Beat)
  | setDynamic (dynamic : Dynamic)
  | playRamp (ramp : Ramp)
  | setInstrument (program : Nat)
  | setBank (bank : Nat)
  | setOctave (octaves : Int)
  | setTransposition (semitones : Int)
  | setMuted (muted : Bool)
  | turnKnob (controller value : Nat)
  | pressPedal (controller : Nat)
  | releasePedal (controller : Nat)
  | setBend (value : Nat)
  | follow (directive : Directive)
  /-- Wait for the members of a link of the composition, and go on together with them. -/
  | meet (link : Nat)

namespace Statement

/-- The statement that sets an instrument by its name. -/
def ofInstrument? (name : String) : Option Statement :=
  (GeneralMidi.program? name).map setInstrument

/-- What a statement does to the channel of its block. A meeting concerns other blocks too and is no
such operation. -/
def operation? : Statement → Option Operation
  | playPhrase phrase => some (.playPhrase phrase)
  | rest beat => some (.advanceBeat beat)
  | setDynamic dynamic => some (.setDynamic dynamic)
  | playRamp ramp => some (.playRamp ramp)
  | setInstrument program => some (.setInstrument program)
  | setBank bank => some (.setBank bank)
  | setOctave octaves => some (.setOctave octaves)
  | setTransposition semitones => some (.setTransposition semitones)
  | setMuted muted => some (.setMuted muted)
  | turnKnob controller value => some (.setController controller value)
  | pressPedal controller => some (.pressPedal controller)
  | releasePedal controller => some (.releasePedal controller)
  | setBend value => some (.setBend value)
  | follow directive => some (.follow directive)
  | meet _ => none

end Statement

/-- A statement with its place in the source. -/
structure Located where
  location : Location
  statement : Statement

/-- A named list of statements that is played on a channel of its own. -/
structure Block where
  name : String
  percussion : Bool := false
  /-- When each pass through the statements may start, and how many passes there are. -/
  directive : Option Directive := none
  statements : List Located := []

namespace Block

/-- Adds a statement at a place. -/
def pushAt (b : Block) (location : Location) (statement : Statement) : Block :=
  { b with statements := b.statements ++ [⟨location, statement⟩] }

/-- The line after the last statement, or the first one. -/
def nextLine (b : Block) : Nat :=
  match b.statements.getLast? with
  | some last => last.location.line + 1
  | none => 1

/-- Adds a statement on the line after the last one, unless the line number outgrows 32 bits. -/
def push? (b : Block) (statement : Statement) : Option Block :=
  (Bounded.nat? 32 b.nextLine).map fun line => b.pushAt ⟨line, 1⟩ statement

/-- Whether a worker can carry the name of the block: no character of it is the zero character. -/
def isNamable (b : Block) : Bool :=
  b.name.toList.all (· ≠ '\x00')

/-- The number of passes through the statements, or none if there is no bound. -/
def passes? (b : Block) : Option Nat :=
  match b.directive with
  | some directive => directive.passes
  | none => some 1

end Block

end MidiScore
