import MidiScore.Composition.Basic
import MidiScore.Music.Chord.Symbol

/-!
# A demonstration piece

A lead, a bass and drums play two bars, meet, and close on a chord.
-/

namespace MidiScore.Demo

/-- A phrase of single keys, each with its articulation. -/
def phraseOf (sounds : List Sound) (beats : List Beat) : Statement :=
  .playPhrase { melody := ⟨sounds⟩, rhythm := ⟨beats⟩ }

/-- The chord of a symbol, sounded. -/
def chordOf (symbol : String) (octaves : Int) (articulation : Articulation) : List Sound :=
  (Chord.ofSymbol? symbol).toList.map fun c => ⟨.chord (c.shiftOctave octaves), articulation⟩

/-- The statements of a block, one a line. -/
def blockOf (name : String) (percussion : Bool) (statements : List Statement) : Block where
  name
  percussion
  statements := statements.zipIdx.map fun (s, i) => ⟨⟨i + 1, 1⟩, s⟩

/-- The melody of the lead. -/
def opening : List Sound :=
  [⟨.pitch .c, .accent⟩, ⟨.pitch .e, .plain⟩, ⟨.pitch .g, .staccato⟩, ⟨.pitch .g, .staccato⟩,
   ⟨.pitch .a, .tenuto⟩, ⟨.pitch .g, .plain⟩, ⟨.pitch .e, .marcato⟩,
   ⟨.pitch (Pitch.c.shiftOctave 1), .gliscando⟩]

/-- The rhythm of the lead. -/
def openingRhythm : List Beat :=
  [.quarter, .quarter, .eighth, .eighth, Beat.quarter.withSlur true, Beat.quarter.withSlur true,
   Beat.quarter.dot 1, .eighth]

def lead : Block :=
  blockOf "lead" false <|
    (Statement.ofInstrument? "Electric Piano 1").toList ++
      [.playRamp { kind := .crescendo, start := .p, stop := .f, duration := .whole },
       phraseOf opening openingRhythm]

def bass : Block :=
  let progression := ["C", "Am", "F", "G7"].flatMap (chordOf · (-1) .gliscando)
  blockOf "bass" false <|
    (Statement.ofInstrument? "Acoustic Bass").toList ++
      [.setDynamic .mp, phraseOf progression [.half]]

def drums : Block :=
  let strike (name : String) : List Sound :=
    (GeneralMidi.drumKey? name).toList.filterMap fun n =>
      (Pitch.ofNumber n).toOption.map fun p => { playable := .pitch p }
  let hat := strike "Closed Hi-Hat"
  let bar := phraseOf (strike "Bass Drum" ++ hat ++ hat ++ hat) [.quarter]
  blockOf "drums" true [bar, bar]

/-- The last chord of a block. -/
def close (symbol : String) (b : Block) : Block :=
  b.pushAt ⟨13, 1⟩ (phraseOf (chordOf symbol 0 .tenuto) [.whole])

/-- The whole piece. -/
def composition : Except CompileError Composition := do
  let c ← ({ blocks := [lead, bass, drums] } : Composition).sync [0, 1, 2] ⟨12, 1⟩
  return { c with
    blocks := (c.blocks.modify 0 (close "Cmaj7+1")).modify 1 (close "C-1") }

end MidiScore.Demo
