/-!
# General MIDI names

The instruments by program number and the drums by key. Names are compared by their letters and
digits alone, in either case, so spacing and punctuation do not matter.
-/

namespace MidiScore.GeneralMidi

/-- The instruments, in the order of their program numbers. -/
def programs : List String :=
  ["Acoustic Grand Piano", "Bright Acoustic Piano", "Electric Grand Piano", "Honky-tonk Piano",
   "Electric Piano 1", "Electric Piano 2", "Harpsichord", "Clavinet", "Celesta", "Glockenspiel",
   "Music Box", "Vibraphone", "Marimba", "Xylophone", "Tubular Bells", "Dulcimer",
   "Drawbar Organ", "Percussive Organ", "Rock Organ", "Church Organ", "Reed Organ", "Accordion",
   "Harmonica", "Tango Accordion", "Acoustic Guitar Nylon", "Acoustic Guitar Steel",
   "Electric Guitar Jazz", "Electric Guitar Clean", "Electric Guitar Muted", "Overdriven Guitar",
   "Distortion Guitar", "Guitar Harmonics", "Acoustic Bass", "Electric Bass Finger",
   "Electric Bass Pick", "Fretless Bass", "Slap Bass 1", "Slap Bass 2", "Synth Bass 1",
   "Synth Bass 2", "Violin", "Viola", "Cello", "Contrabass", "Tremolo Strings",
   "Pizzicato Strings", "Orchestral Harp", "Timpani", "String Ensemble 1", "String Ensemble 2",
   "Synth Strings 1", "Synth Strings 2", "Choir Aahs", "Voice Oohs", "Synth Voice",
   "Orchestra Hit", "Trumpet", "Trombone", "Tuba", "Muted Trumpet", "French Horn",
   "Brass Section", "Synth Brass 1", "Synth Brass 2", "Soprano Sax", "Alto Sax", "Tenor Sax",
   "Baritone Sax", "Oboe", "English Horn", "Bassoon", "Clarinet", "Piccolo", "Flute", "Recorder",
   "Pan Flute", "Blown Bottle", "Shakuhachi", "Whistle", "Ocarina", "Lead 1 Square",
   "Lead 2 Sawtooth", "Lead 3 Calliope", "Lead 4 Chiff", "Lead 5 Charang", "Lead 6 Voice",
   "Lead 7 Fifths", "Lead 8 Bass And Lead", "Pad 1 New Age", "Pad 2 Warm", "Pad 3 Polysynth",
   "Pad 4 Choir", "Pad 5 Bowed", "Pad 6 Metallic", "Pad 7 Halo", "Pad 8 Sweep", "FX 1 Rain",
   "FX 2 Soundtrack", "FX 3 Crystal", "FX 4 Atmosphere", "FX 5 Brightness", "FX 6 Goblins",
   "FX 7 Echoes", "FX 8 Sci-fi", "Sitar", "Banjo", "Shamisen", "Koto", "Kalimba", "Bagpipe",
   "Fiddle", "Shanai", "Tinkle Bell", "Agogo", "Steel Drums", "Woodblock", "Taiko Drum",
   "Melodic Tom", "Synth Drum", "Reverse Cymbal", "Guitar Fret Noise", "Breath Noise",
   "Seashore", "Bird Tweet", "Telephone Ring", "Helicopter", "Applause", "Gunshot"]

/-- The key of the first drum. -/
def firstDrumKey : Nat := 35

/-- The drums, in the order of their keys. -/
def drums : List String :=
  ["Acoustic Bass Drum", "Bass Drum", "Side Stick", "Acoustic Snare", "Hand Clap",
   "Electric Snare", "Low Floor Tom", "Closed Hi-Hat", "High Floor Tom", "Pedal Hi-Hat",
   "Low Tom", "Open Hi-Hat", "Low Mid Tom", "Hi Mid Tom", "Crash Cymbal 1", "High Tom",
   "Ride Cymbal 1", "Chinese Cymbal", "Ride Bell", "Tambourine", "Splash Cymbal", "Cowbell",
   "Crash Cymbal 2", "Vibraslap", "Ride Cymbal 2", "Hi Bongo", "Low Bongo", "Mute Hi Conga",
   "Open Hi Conga", "Low Conga", "High Timbale", "Low Timbale", "High Agogo", "Low Agogo",
   "Cabasa", "Maracas", "Short Whistle", "Long Whistle", "Short Guiro", "Long Guiro", "Claves",
   "Hi Wood Block", "Low Wood Block", "Mute Cuica", "Open Cuica", "Mute Triangle",
   "Open Triangle"]

/-- The next letter or digit of a text, in lower case, and the text behind it. -/
def nextAlphanum? : List Char → Option (Char × List Char)
  | [] => none
  | c :: text => if c.isAlphanum then some (c.toLower, text) else nextAlphanum? text

theorem length_lt_of_nextAlphanum? {text rest : List Char} {c : Char}
    (h : nextAlphanum? text = some (c, rest)) : rest.length < text.length := by
  fun_induction nextAlphanum? text with
  | case1 => simp at h
  | case2 d text hd =>
    obtain ⟨-, rfl⟩ : d.toLower = c ∧ text = rest := by simpa using h
    exact Nat.lt_succ_self _
  | case3 d text hd ih => exact Nat.lt_succ_of_lt (ih h)

/-- Whether two texts are spelt alike. They are read side by side, by letters and digits, until both
have ended or the next ones differ. -/
def spelledAlike (s t : List Char) : Bool :=
  match _ : nextAlphanum? s, nextAlphanum? t with
  | none, none => true
  | some (c, restS), some (d, restT) => c = d && spelledAlike restS restT
  | _, _ => false
termination_by s.length
decreasing_by exact length_lt_of_nextAlphanum? (by assumption)

/-- The place of the first name that is spelt like `name`. -/
def place? (names : List String) (name : String) : Option Nat :=
  names.findIdx? (spelledAlike ·.toList name.toList)

/-- The program number of an instrument. -/
def program? (name : String) : Option Nat :=
  place? programs name

/-- The instrument with a program number. -/
def programName? (program : Nat) : Option String :=
  programs[program]?

/-- The key of a drum. -/
def drumKey? (name : String) : Option Nat :=
  (place? drums name).map (firstDrumKey + ·)

/-- The drum on a key. -/
def drumName? (key : Nat) : Option String :=
  if firstDrumKey ≤ key then drums[key - firstDrumKey]? else none

end MidiScore.GeneralMidi
