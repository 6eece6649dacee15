import AssetCanvas.Preview.Columns
import AssetCanvas.Preview.Noise.Sampling
import AssetCanvas.Preview.Noise.Simplex.Plane
import AssetCanvas.Preview.Noise.Simplex.Space

/-!
# Simplex noise

`Simplex.sampler` samples the simplex noise of a seed at places of two or three coordinates,
which `Simplex.placesOf` takes from columns of coordinates.
-/

namespace AssetCanvas.Simplex

/-- The noise at a place of two or three coordinates; other places have none. -/
def atPlace (s : Shuffle) : Place → Except Fault Float
  | [x, y] => plane s x y
  | [x, y, z] => space s x y z
  | _ => .ok 0.0

/-- The noise of a seed at places of a dimension. -/
def sampler (seed : Int) (dimension : Nat) : Sampler :=
  let point := atPlace (.ofSeed seed)
  Sampling.sample (Sampling.tabulate point) point dimension

/-- The places of columns that have not the same length, as many as the first one has.  On a
lattice the columns have to agree; otherwise the first rows are taken. -/
def placesOfUneven (columns : List (List Float)) : Except Fault (List Place) :=
  let n := (columns.headD []).length
  let counts := columns.map fun column => (Sampling.occurring column).size
  if n = 0 then
    .ok []
  else if counts.foldl (· * ·) 1 ≤ Sampling.latticeFactor * n then
    match Columns.commonLength? (columns.map List.length) with
    | some m => if m = n then Columns.alignedRows columns else .error .unusableValue
    | none => .error .noSuchItem
  else if columns.all fun column => n ≤ column.length then
    .ok ((Columns.rows columns).take n)
  else
    .error .unusableValue

/-- The places of two or three columns of coordinates. -/
def placesOf (columns : List (List Float)) : Except Fault (List Place) :=
  if columns.length = 2 || columns.length = 3 then
    if columns.all fun column => column.length = (columns.headD []).length then
      .ok (Columns.rows columns)
    else
      placesOfUneven columns
  else
    .error .wrongKind

end AssetCanvas.Simplex
