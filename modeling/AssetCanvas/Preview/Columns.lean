import AssetCanvas.Json.Number
import AssetCanvas.Preview.Blend

/-!
# Columns of numbers

Operations on several columns go row by row.  A column with a single number goes with columns
of any length; otherwise the lengths have to agree.
-/

namespace AssetCanvas.Columns

/-- The length of the rows that some lengths of columns give; none if they do not agree. -/
def commonLength? (lengths : List Nat) : Option Nat :=
  match lengths.filter (· ≠ 1) with
  | [] => some 1
  | n :: rest => if rest.all (· = n) then some n else none

/-- A column as one of length `n`. -/
def stretch (n : Nat) : List Float → List Float
  | [x] => List.replicate n x
  | column => column

/-- The rows of some columns, as many as the shortest one has. -/
def rows : List (List Float) → List (List Float)
  | [] => []
  | [column] => column.map fun x => [x]
  | column :: rest => column.zipWith (· :: ·) (rows rest)

/-- The rows of some columns whose lengths agree. -/
def alignedRows (columns : List (List Float)) : Except Fault (List (List Float)) :=
  match commonLength? (columns.map List.length) with
  | some n => .ok (rows (columns.map (stretch n)))
  | none => .error .unusableValue

/-- A smooth extremum of two columns.  A width that is not positive stands for zero. -/
def blend (extremum : Float → Float → Float → Float) (a b : List Float) (width : Json) :
    Except Fault (List Float) := do
  let width ← width.number
  let pairs ← alignedRows [a, b]
  let width ← if width.le (.int 0) then pure 0.0 else width.toFloat
  return pairs.map fun row => extremum (row.getD 0 0.0) (row.getD 1 0.0) width

end AssetCanvas.Columns
