import MidiScore.Composition.Error

/-!
# Compositions

A composition is a list of blocks and the links at which they meet. A block drives the output of its
own number.
-/

namespace MidiScore

/-- The blocks of a piece and the links at which they meet. -/
structure Composition where
  blocks : List Block := []
  links : List Rendezvous := []

namespace Composition

/-- Adds a block and returns its output. -/
def addBlock (c : Composition) (b : Block) : Nat × Composition :=
  (c.blocks.length, { c with blocks := c.blocks ++ [b] })

/-- The block of an output. -/
def block? (c : Composition) (output : Nat) : Option Block :=
  c.blocks[output]?

/-- Replaces the block of an output. -/
def setBlock (c : Composition) (output : Nat) (b : Block) : Composition :=
  { c with blocks := c.blocks.set output b }

/-- The output of the first block with a name. -/
def outputOf? (c : Composition) (name : String) : Option Nat :=
  c.blocks.findIdx? (·.name = name)

/-- Adds a link and returns its number. -/
def addLink (c : Composition) (link : Rendezvous) : Nat × Composition :=
  (c.links.length, { c with links := c.links ++ [link] })

/-- Adds a statement at a place to the blocks of several outputs. -/
def pushEach (c : Composition) (outputs : List Nat) (location : Location) (s : Statement) :
    Composition :=
  outputs.foldl
    (fun c output => { c with blocks := c.blocks.modify output (·.pushAt location s) }) c

/-- Lets the blocks of several outputs meet after what they hold now. Each output needs a block: a
member without one would never come. -/
def sync (c : Composition) (outputs : List Nat) (location : Location) :
    Except CompileError Composition :=
  match outputs.find? (c.blocks.length ≤ ·) with
  | some missing => .error (.unknownOutput missing location)
  | none =>
    match Rendezvous.ofMembers outputs with
    | .error e => .error (.members e)
    | .ok link =>
      let (number, linked) := c.addLink link
      .ok (linked.pushEach link.members location (.meet number))

end Composition

end MidiScore
