import AssetCanvas.Preview.Density.Arithmetic
import Mathlib

/-!
# Sums in lanes

The sum of a row of numbers is the sum of its numbers, `Summation.row_eq_sum`, wherever the order
does not matter.  For floats it does, `Summation.row_uneven`: a mean of eight densities or more at a
single point is another one than among several points.  Means of fewer densities are added in one
order, `Density.totals_eq`.
-/

namespace AssetCanvas

namespace Summation

variable {α : Type} [AddCommMonoid α]

/-- Lanes add every number once. -/
theorem inLanes_eq (a b c d e f g h : α) (xs : List α) :
  inLanes a b c d e f g h xs = [a, b, c, d, e, f, g, h].sum + xs.sum
  := by
  fun_induction inLanes with
  | case1 a b c d e f g h a' b' c' d' e' f' g' h' rest ih =>
    rw [ih]
    simp only [List.sum_cons, List.sum_nil, add_zero]
    abel
  | case2 a b c d e f g h rest =>
    have hfold : ∀ x, rest.foldl (· + ·) x = x + rest.sum := fun x => by
      rw [← List.sum_cons, List.sum_eq_foldl, List.foldl_cons, zero_add]
    rw [hfold]
    simp only [List.sum_cons, List.sum_nil, add_zero]
    abel

theorem inBlock_eq (xs : List α) : inBlock 0 xs = xs.sum
  := by
  fun_cases inBlock with
  | case1 a b c d e f g h rest =>
    rw [inLanes_eq, ← List.sum_append]
    rfl
  | case2 => rw [List.sum_eq_foldl]

theorem inHalves_eq (xs : List α) : inHalves 0 xs = xs.sum
  := by
  fun_induction inHalves with
  | case1 xs hlength => apply inBlock_eq
  | case2 xs hlength half ih ih' => rw [ih, ih', List.sum_take_add_sum_drop]

/-- A sum in lanes is a sum: only the order is another one. -/
theorem row_eq_sum (xs : List α) : row 0 xs = xs.sum
  := by
  rw [row]
  split
  · rw [List.sum_eq_foldl]
  · rw [inHalves_eq, zero_add]

/-- Numbers among which the small ones are lost if the great one comes first. -/
def uneven : List Float := [1e16, 1.0, 1.0, 1.0, 1.0, 1.0, 1.0, -1e16]

/-- The order of the sum matters. -/
theorem row_uneven : row 0.0 uneven ≠ uneven.foldl (· + ·) 0.0
  := by
  have hblock : inHalves 0.0 uneven = inBlock 0.0 uneven := by
    rw [inHalves, if_pos (by decide)]
  rw [row, if_neg (by decide), hblock]
  decide +kernel

end Summation

namespace Density

variable {ps : List Point}

/-- The values of functions at a single point are a row. -/
theorem totals_singleton (p : Point) (fs : List (Point → Float)) :
  totals [p] (fs.map fun f => [p].map f) = [Summation.row 0.0 (fs.map (· p))]
  := by
  simp only [totals, List.map_cons, List.map_nil, ← List.flatMap_def,
    ← List.map_eq_flatMap]

/-- Where there are several points, or few lists, lists are added one after the other. -/
theorem totals_eq {xss : List (List Float)} (h : xss.length < Summation.laneCount ∨ ps.length ≠ 1)
    (hxss : ∀ xs ∈ xss, xs.length = ps.length) :
  totals ps xss = xss.foldl (List.zipWith (· + ·)) (constant 0.0 ps)
  := by
  match ps with
  | [p] =>
    have hsums : ∀ (x : Float), xss.foldl (List.zipWith (· + ·)) [x]
        = [xss.flatten.foldl (· + ·) x] := by
      clear h
      induction xss with
      | nil => simp
      | cons xs rest ih =>
        obtain ⟨y, rfl⟩ := List.length_eq_one_iff.mp (hxss xs (by simp))
        intro x
        simp [ih fun ys hys => hxss ys (by simp [hys])]
    have hlength : xss.flatten.length < Summation.laneCount := by
      rw [List.length_flatten, List.map_congr_left (g := fun _ => 1) hxss]
      simpa using h
    rw [totals, Summation.row, if_pos hlength]
    exact (hsums 0.0).symm
  | [] => rfl
  | _ :: _ :: _ => rfl

end Density

end AssetCanvas
