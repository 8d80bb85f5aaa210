import MidiScore.Composition.Compile
import MidiScore.Demo
import MidiScore.Number.Numeral
import MidiScore.Text.Blank

/-!
# The command line

The program writes the demonstration piece to a file, at the tempo and in the time signature that
its arguments ask for. What it does is the pure function `CommandLine.run` of its arguments.
-/

namespace MidiScore.CommandLine

/-- Why the program stops without writing a file. -/
inductive Refusal where
  | tempo (text : String) (cause : NumeralError)
  /-- A time signature without a stroke. -/
  | signatureForm (text : String)
  | signatureNumber (cause : NumeralError)
  | timing (cause : ValueError)
  | rendering (file : String) (cause : CompileError)
deriving DecidableEq

/-- What is refused. -/
def Refusal.headline : Refusal → String
  | tempo text _ => s!"bad tempo '{text}'"
  | signatureForm text => s!"time signature '{text}' should look like 3/4"
  | signatureNumber cause => cause.message
  | timing cause => cause.message
  | rendering file _ => s!"failed to render {file}"

/-- Why it is refused, where the headline does not say so. -/
def Refusal.cause? : Refusal → Option String
  | tempo _ cause => some cause.message
  | rendering _ cause => some cause.message
  | _ => none

/-- The report of a refusal. -/
def Refusal.report (r : Refusal) : String :=
  let cause := match r.cause? with
    | some text => s!"\nCaused by:\n    {text}\n"
    | none => ""
  s!"Error: {r.headline}\n" ++ cause

/-- What a run of the program leaves behind. -/
structure Outcome where
  code : Nat
  output : String := ""
  complaint : String := ""
  /-- The files that it writes, by their paths. -/
  files : List (String × List UInt8) := []
deriving DecidableEq

/-- The steps of a path, between its strokes. -/
def pathSteps : List Char → List (List Char)
  | [] => [[]]
  | c :: rest =>
    if c = '/' then [] :: pathSteps rest
    else
      match pathSteps rest with
      | [] => [[c]]
      | step :: steps => (c :: step) :: steps

/-- The name of the file at a path in the working directory, if it is there. Empty steps and steps
that are a dot lead nowhere. -/
def entryName? (path : String) : Option String :=
  match path.toList with
  | '/' :: _ => none
  | steps =>
    match (pathSteps steps).filter fun step => step ≠ [] ∧ step ≠ ['.'] with
    | [name] => if name = ['.', '.'] then none else some (.ofList name)
    | _ => none

/-- The files that a run leaves in the working directory, by their names. -/
def Outcome.entries (o : Outcome) : List (String × List UInt8) :=
  o.files.filterMap fun (path, bytes) => (entryName? path).map fun name => (name, bytes)

example : entryName? "./out.mid" = some "out.mid" := by decide

/-- The argument after the first one that is `name`. -/
def flag? (args : List String) (name : String) : Option String :=
  (args.findIdx? (· = name)).bind fun i => args[i + 1]?

/-- The first argument that names a MIDI file, or a file of the program's own choice. -/
def outputFile (args : List String) : String :=
  (args.find? fun a => ".mid".toList.isSuffixOf a.toList).getD "demo.mid"

/-- Reads a numerator and a denominator with a stroke between them. -/
def readSignature (text : String) : Except Refusal (Nat × Nat) :=
  match text.toList.span (· ≠ '/') with
  | (_, []) => .error (.signatureForm text)
  | (above, _ :: below) =>
    match Numeral.read 8 (Blank.trim above), Numeral.read 8 (Blank.trim below) with
    | .error cause, _ => .error (.signatureNumber cause)
    | _, .error cause => .error (.signatureNumber cause)
    | .ok numerator, .ok denominator => .ok (numerator, denominator)

/-- Reads the tempo. -/
def readTempo (text : String) : Except Refusal Nat :=
  (Numeral.read 32 text.toList).mapError (.tempo text)

/-- The timing that the arguments ask for. The tempo is looked at first. -/
def readTiming (args : List String) : Except Refusal Timing := do
  let bpm ← match flag? args "--tempo" with
    | some text => readTempo text
    | none => .ok 120
  let (numerator, denominator) ← match flag? args "--time-sig" with
    | some text => readSignature text
    | none => .ok (4, 4)
  (Timing.make numerator denominator bpm Timing.defaultPpqn).mapError .timing

/-- The demonstration piece under a timing. -/
def renderDemo (timing : Timing) : Except CompileError (Sequence × List UInt8) := do
  (← Demo.composition).render { timing }

/-- The line that a successful run prints. -/
def summary (s : Sequence) (file : String) : String :=
  s!"Wrote {s.tracks.length} tracks ({s.endTick} ticks) to {file}\n"

/-- What a run without a refusal leaves behind. -/
def attempt (args : List String) : Except Refusal Outcome := do
  let file := outputFile args
  let timing ← readTiming args
  let (sequence, bytes) ← (renderDemo timing).mapError (.rendering file)
  return { code := 0, output := summary sequence file, files := [(file, bytes)] }

/-- What a run of the program with the given arguments leaves behind. -/
def run (args : List String) : Outcome :=
  match attempt args with
  | .ok outcome => outcome
  | .error refusal => { code := 1, complaint := refusal.report }

end MidiScore.CommandLine
