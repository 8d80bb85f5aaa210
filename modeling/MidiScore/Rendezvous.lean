/-!
# Rendezvous

A rendezvous is a meeting point for a fixed set of members, each of which comes with a time. Nobody
goes on before all have come, and then all go on with the latest of their times. The generation
counts the meetings: a member that waits has gone on once it changed. Then the rendezvous can be
used again.
-/

namespace MidiScore

/-- The place of a member: whether it has come, and with which time it last came. -/
structure Seat where
  member : Nat
  arrived : Bool := false
  time : Nat := 0
deriving DecidableEq, Repr

/-- A meeting point with a seat for each member, in ascending order. -/
structure Rendezvous where
  seats : List Seat
  /-- The number of meetings. A member that waits only asks whether it has changed, and at most one
  meeting passes meanwhile. So its width does not matter: a word of 64 bits would tell the same, and
  is not used up before 2 ^ 64 meetings. -/
  generation : Nat := 0
  /-- The time with which the members of the last meeting went on. -/
  joinTime : Nat := 0
deriving DecidableEq, Repr

/-- A rendezvous needs two members. -/
structure TooFewMembers where
  count : Nat
deriving DecidableEq, Repr

/-- The text of the error. -/
def TooFewMembers.message (e : TooFewMembers) : String :=
  s!"Sync needs at least 2 members, got {e.count}"

/-- What happens to one who comes to a rendezvous. -/
inductive Arrival where
  /-- It is no member and goes on as it is. -/
  | stranger
  /-- It waits until the generation is no longer this one. -/
  | waiting (generation : Nat)
  /-- It came last and goes on with the join time. -/
  | released (joinTime : Nat)
deriving DecidableEq, Repr

namespace Rendezvous

/-- Puts a member into an ascending list without repeats. -/
def insertMember (id : Nat) : List Nat → List Nat
  | [] => [id]
  | m :: rest =>
    if id < m then id :: m :: rest
    else if id = m then m :: rest
    else m :: insertMember id rest

/-- A rendezvous for the given members, each counted once. -/
def ofMembers (ids : List Nat) : Except TooFewMembers Rendezvous :=
  let members := ids.foldr insertMember []
  if 2 ≤ members.length then .ok { seats := members.map fun member => { member } }
  else .error ⟨members.length⟩

/-- The members, in ascending order. -/
def members (r : Rendezvous) : List Nat :=
  r.seats.map (·.member)

/-- Whether `id` is a member. -/
def isMember (r : Rendezvous) (id : Nat) : Bool :=
  r.members.contains id

/-- The seats after a member has come. -/
def sit (id time : Nat) (seats : List Seat) : List Seat :=
  seats.map fun s => if s.member = id then { s with arrived := true, time } else s

/-- The seats after all have gone on. -/
def clear (seats : List Seat) : List Seat :=
  seats.map fun s => { s with arrived := false }

/-- The latest time of any seat. -/
def latest (seats : List Seat) : Nat :=
  (seats.map (·.time)).foldl max 0

/-- One comes with its time. The last member to come releases them all. -/
def arrive (r : Rendezvous) (id time : Nat) : Arrival × Rendezvous :=
  if r.isMember id then
    let seats := sit id time r.seats
    if seats.all (·.arrived) then
      let joinTime := latest seats
      (.released joinTime, { seats := clear seats, generation := r.generation + 1, joinTime })
    else (.waiting r.generation, { r with seats })
  else (.stranger, r)

/-- The time with which one that waits for the end of a generation goes on, once it can. -/
def wake? (r : Rendezvous) (generation : Nat) : Option Nat :=
  if r.generation = generation then none else some r.joinTime

/-- The time with which one goes on, if it does and is a member. -/
def outcome? (r : Rendezvous) : Arrival → Option Nat
  | .stranger => none
  | .waiting generation => r.wake? generation
  | .released joinTime => some joinTime

/-- Several come in turn, each with its time. -/
def arriveAll (r : Rendezvous) : List (Nat × Nat) → List (Nat × Arrival) × Rendezvous
  | [] => ([], r)
  | (id, time) :: rest =>
    let (arrival, r₁) := r.arrive id time
    let (arrivals, r₂) := r₁.arriveAll rest
    ((id, arrival) :: arrivals, r₂)

/-- Several come in turn and go on together: the time with which each goes on. -/
def meet (r : Rendezvous) (arrivals : List (Nat × Nat)) : List (Nat × Option Nat) × Rendezvous :=
  let (arrived, r') := r.arriveAll arrivals
  (arrived.map fun (id, arrival) => (id, r'.outcome? arrival), r')

end Rendezvous

end MidiScore
