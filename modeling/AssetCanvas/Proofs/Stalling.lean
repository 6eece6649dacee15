import AssetCanvas.Proofs.FloatOrder
import AssetCanvas.Proofs.Rows

/-!
# Lattices that do not end

A row that has a point brings the walk over a lattice nearer to its limit.  A walk over rows
without points ends where its coordinate comes to the end of the range, and the coordinate does
so unless a step is too small to move it, `Binary64.ends_iff`.  So a lattice has its points
exactly if its rows have points or no step stalls: `Lattice.positions?_ends_iff`.
-/

namespace AssetCanvas

namespace Binary64

variable {x y step : Float} {b : Int}

/-- Steps up to a coordinate. -/
theorem lt_of_add_lt (hstep : units step = some b) (hpos : 0 < b) (hfinite : b < ceiling)
    (h : x + step < y) :
  x < y
  := by
  obtain ⟨c, d, hc, hd, hlt⟩ := lt_iff.mp h
  cases hx : units x with
  | none =>
    rw [units_add_of_none hx] at hc
    cases hc
  | some a =>
    obtain ⟨c', hc', hle, -⟩ := exists_units_add hx hstep hpos hfinite
    obtain rfl := Option.some.inj (hc.symm.trans hc')
    exact lt_iff.mpr ⟨a, d, hx, hd, by omega⟩

/-- A coordinate that every step moves is raised by at least one unit each time. -/
theorem exists_units_iterate (hstep : units step = some b) (hpos : 0 < b) (hfinite : b < ceiling)
    (hmoves : ∀ k, (fun x => x + step)^[k] x + step ≠ (fun x => x + step)^[k] x) {a : Int}
    (hx : units x = some a) (k : Nat) :
  ∃ c, units ((fun x => x + step)^[k] x) = some c ∧ a + k ≤ c
  := by
  induction k with
  | zero => exact ⟨a, hx, by omega⟩
  | succ k ih =>
    obtain ⟨c, hc, hle⟩ := ih
    rw [Function.iterate_succ_apply']
    obtain hsame | ⟨d, hd, hlt⟩ := lt_or_eq_add hc hstep hpos hfinite
    · exact absurd hsame (hmoves k)
    · exact ⟨d, hd, by push_cast; omega⟩

/-- Steps from one coordinate come to another one exactly if none of them stalls before. -/
theorem ends_iff (hstep : units step = some b) (hpos : 0 < b) (hfinite : b < ceiling) :
  (∃ k, ¬ (fun x => x + step)^[k] x < y)
    ↔ ¬ ∃ k, (fun x => x + step)^[k] x < y
      ∧ (fun x => x + step)^[k] x + step = (fun x => x + step)^[k] x
  := by
  constructor
  · rintro ⟨k, hk⟩ ⟨j, hj, hstall⟩
    -- before the stall the coordinate is lower, and after it the same
    have hbefore : ∀ i, (fun x => x + step)^[i] x < y → ∀ l ≤ i, (fun x => x + step)^[l] x < y := by
      intro i hi l hle
      induction i, hle using Nat.le_induction with
      | base => exact hi
      | succ i hle ih =>
        rw [Function.iterate_succ_apply'] at hi
        exact ih (lt_of_add_lt hstep hpos hfinite hi)
    obtain hle | hle := Nat.le_total k j
    · exact hk (hbefore j hj k hle)
    · obtain ⟨n, rfl⟩ := Nat.exists_eq_add_of_le' hle
      rw [Function.iterate_add_apply, Function.iterate_fixed hstall] at hk
      exact hk hj
  · intro hmoves
    by_contra hnever
    push Not at hmoves hnever
    obtain ⟨a, c, ha, hc, hlt⟩ := lt_iff.mp (hnever 0)
    obtain ⟨d, hd, hle⟩ := exists_units_iterate hstep hpos hfinite
      (fun k => hmoves k (hnever k)) ha (c - a).toNat
    obtain ⟨d', c', hd', hc', hlt'⟩ := lt_iff.mp (hnever (c - a).toNat)
    obtain rfl := Option.some.inj (hd.symm.trans hd')
    obtain rfl := Option.some.inj (hc.symm.trans hc')
    omega

end Binary64

namespace Lattice

/-- The greater of a float and one. -/
def stepOf (spacing : Float) : Float := if spacing < 1.0 then 1.0 else spacing

theorem atLeastOne_float (spacing : Float) :
  atLeastOne (.float spacing) = .float (stepOf spacing)
  := by
  simp only [atLeastOne, Number.lt_float, stepOf]
  split <;> rfl

open Binary64 in
theorem exists_units_stepOf {spacing : Float} (h : spacing.isFinite) :
  ∃ b, units (stepOf spacing) = some b ∧ 0 < b ∧ b < ceiling
  := by
  have hzero : units 0.0 = some 0 := rfl
  have hlt : (0.0 : Float) < 1.0 := by decide +kernel
  obtain ⟨z, o, hz, ho, hpos⟩ := lt_iff.mp hlt
  obtain rfl := Option.some.inj (hzero.symm.trans hz)
  have hone : (1.0 : Float).isFinite := by decide +kernel
  obtain ⟨o', ho', hmost⟩ := exists_units_of_isFinite hone
  obtain rfl := Option.some.inj (ho.symm.trans ho')
  rw [stepOf]
  split
  next hlow => exact ⟨o, ho, hpos, hmost⟩
  next hhigh =>
    obtain ⟨a, ha, hfinite⟩ := exists_units_of_isFinite h
    refine ⟨a, ha, ?_, hfinite⟩
    by_contra hle
    exact hhigh (lt_iff.mpr ⟨a, o, ha, ho, by omega⟩)

/-- A lattice has its points exactly if its rows have points or no step along `x` stalls below the
end of the range. -/
theorem positions?_ends_iff (range : WorldRange) {spacing : Float} (jitter : Float) (limit : Int)
    (g : Generator) (hfinite : spacing.isFinite)
    (hpos : Number.le (.float spacing) (.int 0) = false) :
  (∃ drawn, positions? range (.float spacing) (.float jitter) (.int limit) g = .ok (some drawn))
    ↔ range.minZ < range.maxZ
      ∨ ¬ ∃ k, let x := (fun x => x + stepOf spacing)^[k] range.minX
        x < range.maxX ∧ x + stepOf spacing = x
  := by
  obtain ⟨b, hstep, hb, hceiling⟩ := exists_units_stepOf hfinite
  by_cases hz : range.minZ < range.maxZ
  · simp only [hz, true_or, iff_true]
    exact exists_positions?_of_lt range hz spacing jitter limit g
  · rw [← Binary64.ends_iff hstep hb hceiling]
    simp only [hz, false_or]
    simp only [positions?, points?, reach, Json.number, Json.number?, hpos, atLeastOne_float,
      Number.mul, Number.toFloat, Fault.ok_bind, Fault.pure_eq_ok, hz, if_false, Bool.false_eq_true]
    split
    next hx =>
      have hrows : ∀ (reach : Float) (drawn : List Position × Generator),
          Shape.rows ⟨range, stepOf spacing, reach⟩ #[] 1 range.minX g = some drawn
            ↔ drawn = ([], g) ∧ ∃ k, ¬ (fun x => x + stepOf spacing)^[k] range.minX < range.maxX :=
        fun reach drawn => rows_eq_some_of_empty ⟨range, stepOf spacing, reach⟩ hz Nat.one_pos
      simp only [Except.ok.injEq, hrows, exists_eq_left]
    next hx => exact iff_of_true ⟨_, rfl⟩ ⟨0, hx⟩

/-- With a step that is too small for its coordinates a lattice does not end. -/
theorem positions?_ends_iff_stalled :
  ¬ ∃ g drawn, positions? ⟨10000000000000000.0, 20000000000000000.0, 0.0, 0.0⟩ (.float 1.0)
    (.float 0.0) (.int 10) g = .ok (some drawn)
  := by
  rintro ⟨g, hdrawn⟩
  have hfinite : (1.0 : Float).isFinite := by decide +kernel
  have hpos : Number.le (.float 1.0) (.int 0) = false := by decide +kernel
  have hz : ¬ (0.0 : Float) < 0.0 := by decide +kernel
  have hstep : stepOf 1.0 = 1.0 := if_neg (by decide +kernel)
  rw [positions?_ends_iff ⟨10000000000000000.0, 20000000000000000.0, 0.0, 0.0⟩ 0.0 10 g hfinite
    hpos, hstep] at hdrawn
  obtain h | h := hdrawn
  · exact hz h
  · apply h
    use 0
    constructor
    · decide +kernel
    · apply Float.toBits_inj.mp
      decide +kernel

end Lattice

end AssetCanvas
