import MidiScore.Composition.Worker

/-!
# Ensembles

An ensemble is the workers of a compile with what they share: the links at which they meet and the
sequence to which they hand in their tracks. Workers step one at a time, and `Ensemble.step?` leaves
open which of those that can step does so.
-/

namespace MidiScore

/-- The workers of a compile and what they share. -/
structure Ensemble where
  workers : List Worker
  links : List Rendezvous
  sequence : Sequence

namespace Ensemble

/-- Worker `i`, which is `w`, comes to a link in its current statement `s`. A member that comes last
and one that is no member go on at once. -/
def meet (e : Ensemble) (i : Nat) (w : Worker) (s : Located) (rest : List Located) (link : Nat)
    (r : Rendezvous) : Ensemble :=
  let (arrival, r) := r.arrive w.output w.channel.clock
  let w := match arrival with
    | .stranger => { w with todo := rest }
    | .waiting generation => { w with phase := .waiting link generation }
    | .released joinTime => w.runStatement s rest (ChannelM.leapTo joinTime)
  { e with workers := e.workers.set i w, links := e.links.set link r }

/-- Worker `i`, which is `w`, settles its channel and hands in its track. -/
def finish (e : Ensemble) (i : Nat) (w : Worker) : Ensemble :=
  let w := w.act ChannelM.flush .channel fun w => { w with phase := .finished }
  if w.isFinished then
    match e.sequence.submit w.output w.channel.track with
    | .ok sequence => { e with workers := e.workers.set i w, sequence }
    | .error cause =>
      { e with workers := e.workers.set i { w with phase := .failed (.track cause) } }
  else { e with workers := e.workers.set i w }

/-- One step of worker `i`, which is `w`, if it can take one. -/
def stepWorker? (e : Ensemble) (i : Nat) (w : Worker) : Option Ensemble :=
  match w.phase, w.todo with
  | .ready, [] =>
    match w.passesLeft with
    | left + 1 => some { e with workers := e.workers.set i (w.beginPass left) }
    | 0 => some (e.finish i w)
  | .ready, s :: rest =>
    match s.statement with
    | .meet link => (e.links[link]?).map (e.meet i w s rest link)
    | statement => statement.operation?.map fun op =>
      { e with workers := e.workers.set i (w.runStatement s rest op.perform) }
  | .waiting link generation, s :: rest => do
    let joinTime ← (← e.links[link]?).wake? generation
    return { e with
      workers := e.workers.set i (w.runStatement s rest (ChannelM.leapTo joinTime)) }
  | .waiting .., [] | .finished, _ | .failed _, _ => none

/-- One step of worker `i`, if it can take one. -/
def step? (e : Ensemble) (i : Nat) : Option Ensemble :=
  (e.workers[i]?).bind (e.stepWorker? i)

end Ensemble

end MidiScore
