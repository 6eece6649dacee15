import Std.Data.HashMap
import AssetCanvas.Fault
import AssetCanvas.Number.Binary64

/-!
# Sampling at many points

`Sampling.sample` evaluates a function at a list of points.  The points of a preview often
form a lattice, on which few coordinates occur often: then the function is tabulated over the
lattice of the distinct coordinates of every axis, and each point is looked up.  Points that
spread over more than `Sampling.latticeFactor` times as many cells are evaluated one by one.
-/

namespace AssetCanvas

/-- A point, given by its coordinates. -/
abbrev Place := List Float

/-- A function on lists of places. -/
abbrev Sampler := List Place → Except Fault (List Float)

namespace Sampling

/-- The cells per point up to which a table is made. -/
def latticeFactor : Nat := 4

/-- The coordinates that occur in a column, by their rank; the first one of each rank. -/
abbrev Occurring := Std.HashMap UInt64 Float

/-- The coordinates that occur in a column. -/
def occurring (column : List Float) : Occurring :=
  column.foldl (fun seen x => seen.insertIfNew (Binary64.rank x) x) ∅

/-- The distinct coordinates along an axis in their order, and the index of each. -/
structure Axis where
  values : List Float
  index : Std.HashMap UInt64 Nat

/-- The indices of values by their rank. -/
def indices (values : List Float) : Std.HashMap UInt64 Nat :=
  Std.HashMap.ofList (values.zipIdx.map fun v => (Binary64.rank v.1, v.2))

/-- The axis of the coordinates that occur in a column. -/
def Axis.ofOccurring (seen : Occurring) : Axis :=
  let values := seen.values.mergeSort fun a b => Binary64.rank a ≤ Binary64.rank b
  ⟨values, indices values⟩

/-- The index of a coordinate on its axis. -/
def Axis.indexOf (axis : Axis) (x : Float) : Nat := axis.index.getD (Binary64.rank x) 0

/-- The columns of the first `dimension` coordinates of some places. -/
def columns (dimension : Nat) (places : List Place) : List (List Float) :=
  (List.range dimension).map fun k => places.map fun p => p.getD k 0.0

/-- The number of cells of the lattice of the coordinates that occur. -/
def cells (seen : List Occurring) : Nat := seen.foldl (fun n axis => n * axis.size) 1

/-- The places of the lattice of some axes; the first coordinate changes fastest. -/
def lattice : List (List Float) → List Place
  | [] => [[]]
  | values :: rest => (lattice rest).flatMap fun tail => values.map fun x => x :: tail

/-- The position of a place in the lattice of some axes. -/
def position : List Axis → Place → Nat
  | axis :: rest, x :: tail => axis.indexOf x + axis.values.length * position rest tail
  | _, _ => 0

/-- The values of a function at some places: `grid` gives them for the whole lattice of a
list of axes, `point` for a single place. -/
def sample (grid : List (List Float) → Except Fault (List Float))
    (point : Place → Except Fault Float) (dimension : Nat) : Sampler := fun places => do
  let seen := (columns dimension places).map occurring
  if cells seen ≤ latticeFactor * places.length then
    let axes := seen.map Axis.ofOccurring
    let table := (← grid (axes.map Axis.values)).toArray
    return places.map fun p => table.getD (position axes p) 0.0
  else
    places.mapM point

/-- The values of a function on the lattice of some axes, in the order of the lattice. -/
def tabulate (point : Place → Except Fault Float) (values : List (List Float)) :
    Except Fault (List Float) :=
  (lattice values).mapM point

end Sampling

end AssetCanvas
