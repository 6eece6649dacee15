import AssetCanvas.Entries
import AssetCanvas.Fault
import AssetCanvas.Json.Number
import AssetCanvas.Json.Spelling
import AssetCanvas.Random.Generator
import AssetCanvas.Random.Sha256

/-!
# Random sources

A `RandomSource` hands every node the generator it draws from.  In the shared mode that is
one generator for all nodes; in the other mode every node has a generator of its own, which
depends on the seed and the id of the node only.
-/

namespace AssetCanvas

/-- Whether nodes share one generator. -/
inductive RandomMode where
  | shared
  | perNode
  deriving DecidableEq, Repr

/-- The mode of a value. -/
def RandomMode.ofJson (v : Json) : Except Fault RandomMode :=
  match v with
  | .str "shared" => .ok .shared
  | .str "per_node" => .ok .perNode
  | other => do throw (.unknownRandomMode (← other.spelled))

/-- A source of random numbers. -/
structure RandomSource where
  seed : Int
  mode : RandomMode
  shared : Generator
  /-- The generators of the nodes that have drawn. -/
  nodes : List (String × Generator)

namespace RandomSource

/-- The part of a seed that generators use. -/
def word (seed : Int) : Nat := (seed % 0x100000000).toNat

/-- The source of a seed. -/
def new (seed : Int) (mode : RandomMode) : RandomSource :=
  ⟨seed, mode, .ofSeeds [word seed], []⟩

/-- The source of a seed and a mode as they were written. -/
def ofJson (seed mode : Json) : Except Fault RandomSource := do
  let mode ← RandomMode.ofJson mode
  return new (← seed.toInt) mode

/-- The first generator of a node in the mode with one for each. -/
def ownGenerator (seed : Int) (id : String) : Generator :=
  .ofSeeds [word seed, Sha256.textHash id]

/-- The generator of a node; the shared one without a node. -/
def generator (s : RandomSource) (node : Option String) : Generator :=
  match s.mode, node with
  | .perNode, some id => (Entries.find? s.nodes id).getD (ownGenerator s.seed id)
  | _, _ => s.shared

/-- The source after a node has drawn and left its generator as `g`. -/
def store (s : RandomSource) (node : Option String) (g : Generator) : RandomSource :=
  match s.mode, node with
  | .perNode, some id => { s with nodes := Entries.insert s.nodes id g }
  | _, _ => { s with shared := g }

/-- The node that an id of any kind names, where the mode tells nodes apart. -/
def nodeOf (s : RandomSource) (id : Json) : Except Fault (Option String) :=
  match s.mode, id with
  | .shared, _ => .ok none
  | .perNode, .null => .ok none
  | .perNode, .str name => .ok (some name)
  | .perNode, v => .error (if v.key?.isSome then .noSuchMember else .wrongKind)

/-- A float drawn for a node, and the source after it. -/
def draw (s : RandomSource) (node : Option String) : Float × RandomSource :=
  let (x, g) := (s.generator node).next
  (x, s.store node g)

end RandomSource

end AssetCanvas
