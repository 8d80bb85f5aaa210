import MidiScore.Composition.Error

/-!
# Workers

A worker plays one block on a channel of its own. It goes through the statements once for each pass,
and settles what is still pending after the last one. Only at a meeting does it depend on others:
there it waits until the generation of the link has changed.
-/

namespace MidiScore

/-- Where a worker stands. -/
inductive Phase where
  /-- It can go on. -/
  | ready
  /-- It waits at its current statement until the generation of the link is no longer this one. -/
  | waiting (link generation : Nat)
  | finished
  | failed (cause : CompileError)
deriving DecidableEq

/-- A block that is being played. -/
structure Worker where
  block : Block
  /-- The output of the block, which is also the number of its slot in the sequence. -/
  output : Nat
  channel : Channel
  /-- The passes that have not begun. -/
  passesLeft : Nat
  /-- What is left of the pass that has begun. -/
  todo : List Located := []
  phase : Phase := .ready

namespace Worker

/-- A worker that is to play a block on a fresh track of a MIDI channel. -/
def start (block : Block) (output number : Nat) (timing : Timing) : Worker :=
  { block, output
    channel := { track := { channel := number }, percussion := block.percussion, timing }
    passesLeft := block.passes?.getD 0
    phase :=
      if block.passes?.isSome then .ready else .failed (.unboundedRepeat block.name) }

/-- Whether the worker has finished. -/
def isFinished (w : Worker) : Bool :=
  w.phase = .finished

/-- Whether the worker waits for others. -/
def isWaiting (w : Worker) : Bool :=
  match w.phase with
  | .waiting .. => true
  | _ => false

/-- Why the worker failed, if it did. -/
def failure? (w : Worker) : Option CompileError :=
  match w.phase with
  | .failed cause => some cause
  | _ => none

/-- What an overflow or another failure is to the composition. -/
def explain (w : Worker) (other : Failure → CompileError) : Failure → CompileError
  | .overflow => .overflow w.block.name
  | cause => other cause

/-- The worker after something was done to its channel. A failure is explained by `other`, and ends
the worker; otherwise `next` goes on from the answer. -/
def act {α : Type} (w : Worker) (m : ChannelM α) (other : Failure → CompileError)
    (next : Worker → Worker) : Worker :=
  match m w.channel with
  | .ok _ channel => next { w with channel }
  | .error cause channel => { w with channel, phase := .failed (w.explain other cause) }

/-- The worker after its current statement `s` did `m` to its channel. -/
def runStatement {α : Type} (w : Worker) (s : Located) (rest : List Located) (m : ChannelM α) :
    Worker :=
  w.act m (.statement w.block.name s.location) fun w => { w with todo := rest, phase := .ready }

/-- The worker at the start of its next pass, of which `left` are left after it. -/
def beginPass (w : Worker) (left : Nat) : Worker :=
  let enter (w : Worker) : Worker := { w with passesLeft := left, todo := w.block.statements }
  match w.block.directive with
  | some directive => w.act (ChannelM.follow directive) .channel enter
  | none => enter w

/-- A bound on the number of steps that the worker has still to take. -/
def work (w : Worker) : Nat :=
  let ahead := w.passesLeft * (2 * w.block.statements.length + 1) + 2 * w.todo.length
  match w.phase with
  | .ready => ahead + 2
  | .waiting .. => ahead + 1
  | .finished | .failed _ => 0

end Worker

end MidiScore
