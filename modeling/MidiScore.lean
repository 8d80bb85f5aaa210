import MidiScore.Agenda
import MidiScore.Channel.Basic
import MidiScore.Channel.Clock
import MidiScore.Channel.Keys
import MidiScore.Channel.Operation
import MidiScore.Channel.Performance
import MidiScore.Channel.Replacement
import MidiScore.Channel.Settings
import MidiScore.Channel.Workload
import MidiScore.CommandLine
import MidiScore.Composition.Basic
import MidiScore.Composition.Block
import MidiScore.Composition.ChannelPool
import MidiScore.Composition.Compile
import MidiScore.Composition.Ensemble
import MidiScore.Composition.Error
import MidiScore.Composition.Settling
import MidiScore.Composition.Worker
import MidiScore.Controller
import MidiScore.Demo
import MidiScore.Main
import MidiScore.Midi.File.Basic
import MidiScore.Midi.File.Chunk
import MidiScore.Midi.File.Quantity
import MidiScore.Midi.File.Reader
import MidiScore.Midi.File.Writer
import MidiScore.Midi.GeneralMidi
import MidiScore.Midi.Message
import MidiScore.Music.Beat
import MidiScore.Music.Chord
import MidiScore.Music.Chord.Symbol
import MidiScore.Music.Dynamic
import MidiScore.Music.Pitch
import MidiScore.Music.Sound
import MidiScore.Music.Timing
import MidiScore.Music.ValueError
import MidiScore.Number.Binary64
import MidiScore.Number.Bounded
import MidiScore.Number.Decimal
import MidiScore.Number.Numeral
import MidiScore.Number.Total
import MidiScore.Rendezvous
import MidiScore.Sequence
import MidiScore.Text.Blank
import MidiScore.Text.CharClass
import MidiScore.Text.DefaultIgnorable
import MidiScore.Text.GraphemeExtend
import MidiScore.Text.Quoted
import MidiScore.Text.Unprintable
import MidiScore.Track
import MidiScore.Proofs.Agenda
import MidiScore.Proofs.Track
import MidiScore.Proofs.Channel.Ensures
import MidiScore.Proofs.Channel.Fixes
import MidiScore.Proofs.Channel.Sounding
import MidiScore.Proofs.Channel.Release
import MidiScore.Proofs.Channel.Flush
import MidiScore.Proofs.Rendezvous.Basic
import MidiScore.Proofs.Rendezvous.Rounds
import MidiScore.Proofs.Rendezvous.Agreement
import MidiScore.Proofs.Composition.Steps
import MidiScore.Proofs.Composition.Release
import MidiScore.Proofs.Composition.Meetings
import MidiScore.Proofs.Composition.Plan
import MidiScore.Proofs.Composition.Order
import MidiScore.Proofs.Composition.Build
import MidiScore.Proofs.Composition.Progress
import MidiScore.Proofs.Composition.Rehearsal
import MidiScore.Proofs.Composition.Submission
import MidiScore.Proofs.Composition.Reference
import MidiScore.Proofs.Composition.Schedule
import MidiScore.Proofs.Midi.Chunks
import MidiScore.Proofs.Midi.Quantity
import MidiScore.Proofs.Midi.TrackData
import MidiScore.Proofs.Midi.RoundTrip
import MidiScore.Proofs.Channel.Keys
import MidiScore.Proofs.Channel.Lasts
import MidiScore.Proofs.Channel.Reachable
import MidiScore.Proofs.Channel.Ignores
import MidiScore.Proofs.Channel.Scheduler
import MidiScore.Proofs.Channel.Granularity
import MidiScore.Proofs.Channel.Secures
import MidiScore.Proofs.Channel.Replacement
import MidiScore.Proofs.Channel.Mirrors
import MidiScore.Proofs.Channel.Muffled
import MidiScore.Proofs.Channel.Sendable
import MidiScore.Proofs.Channel.Shifted
import MidiScore.Proofs.Channel.Score
import MidiScore.Proofs.Channel.Ledger
import MidiScore.Proofs.Channel.Scored
import MidiScore.Proofs.Channel.Kept
import MidiScore.Proofs.Channel.Parted
import MidiScore.Proofs.Channel.Softened
import MidiScore.Proofs.Channel.Legato
import MidiScore.Proofs.Channel.Changes
import MidiScore.Proofs.Channel.Timeline
import MidiScore.Proofs.Channel.Muted
import MidiScore.Proofs.Channel.Voiced
import MidiScore.Proofs.Channel.Recorded
import MidiScore.Proofs.Channel.Additions
import MidiScore.Proofs.Channel.Interrupted
import MidiScore.Proofs.Channel.Smoothed
import MidiScore.Proofs.Channel.Heard
import MidiScore.Proofs.Channel.Achieves
import MidiScore.Proofs.Channel.Solvent
import MidiScore.Proofs.Channel.Figures
import MidiScore.Proofs.Composition.Statements
import MidiScore.Proofs.Composition.Offences
import MidiScore.Proofs.Channel.Refusals
import MidiScore.Proofs.Channel.Horizon
import MidiScore.Proofs.Channel.Pedal
import MidiScore.Proofs.Channel.Knobs
import MidiScore.Proofs.Music.ChordSymbol
import MidiScore.Proofs.Composition.Channels
import MidiScore.Proofs.Channel.Alignment
import MidiScore.Proofs.Composition.Passes
import MidiScore.Proofs.Channel.Percussion
import MidiScore.Proofs.Music.Pitch
import MidiScore.Proofs.Music.Cycle
import MidiScore.Proofs.Music.Melody
import MidiScore.Proofs.Music.Inversion
import MidiScore.Proofs.Midi.Reading
import MidiScore.Proofs.Channel.Octaves
import MidiScore.Proofs.Number.Rounding
import MidiScore.Proofs.Number.Arithmetic
import MidiScore.Proofs.Number.Shown
import MidiScore.Proofs.Music.Ramp
import MidiScore.Proofs.Channel.Ramp
import MidiScore.Proofs.Midi.PrefixCode
import MidiScore.Proofs.Agenda.Roster
import MidiScore.Proofs.Track.Arena
import MidiScore.Proofs.Channel.Transposition
import MidiScore.Proofs.Track.Retraction
import MidiScore.Proofs.Track.Archive
import MidiScore.Proofs.Midi.Names
