import AssetCanvas.Preview.Noise.Cellular
import AssetCanvas.Proofs.WholeFloats

/-!
# The cells around a place

Cellular noise visits a cell for every direction, `Cellular.neighbours_eq`, where a direction is a
step back, none or a step ahead along each coordinate, `Cellular.mem_directions`.  As long as the
coordinates are so small that the steps are exact, these are the cells that are at most one away
from the cell of the place, each of them once: `Cellular.Near.mem_neighbours_iff` and
`Cellular.Near.nodup_neighbours`.  `Cellular.surround_neighbours` puts this together.
-/

namespace AssetCanvas.Cellular

/-! ### Directions -/

/-- The directions of some dimensions: a step along each of them. -/
def directions : Nat → List (List Int)
  | 0 => [[]]
  | dimension + 1 => steps.flatMap fun step => (directions dimension).map (step :: ·)

theorem mem_steps {step : Int} : step ∈ steps ↔ step.natAbs ≤ 1
  := by
  simp only [steps, List.mem_cons, List.not_mem_nil, or_false]
  omega

theorem mem_directions {dimension : Nat} {d : List Int} :
  d ∈ directions dimension ↔ d.length = dimension ∧ ∀ step ∈ d, step.natAbs ≤ 1
  := by
  induction dimension generalizing d with
  | zero =>
    rw [directions, List.mem_singleton, List.length_eq_zero_iff]
    constructor
    · rintro rfl
      simp
    · exact And.left
  | succ dimension ih =>
    simp only [directions, List.mem_flatMap, List.mem_map, ih, mem_steps]
    constructor
    · rintro ⟨step, hstep, rest, ⟨rfl, hrest⟩, rfl⟩
      exact ⟨rfl, List.forall_mem_cons.mpr ⟨hstep, hrest⟩⟩
    · rintro ⟨hlength, hsteps⟩
      obtain ⟨step, rest, rfl⟩ := List.exists_cons_of_length_eq_add_one hlength
      rw [List.forall_mem_cons] at hsteps
      exact ⟨step, hsteps.1, rest, ⟨Nat.succ.inj hlength, hsteps.2⟩, rfl⟩

theorem nodup_directions (dimension : Nat) : (directions dimension).Nodup
  := by
  induction dimension with
  | zero => exact List.nodup_singleton []
  | succ dimension ih =>
    rw [directions, List.nodup_flatMap]
    constructor
    · intro step _
      exact ih.map fun _ _ h => (List.cons.inj h).2
    · have hsteps : steps.Nodup := by decide
      apply hsteps.imp
      intro step step' hne d hd hd'
      obtain ⟨_, -, rfl⟩ := List.mem_map.mp hd
      obtain ⟨_, -, heq⟩ := List.mem_map.mp hd'
      exact hne (List.cons.inj heq).1.symm

theorem length_directions (dimension : Nat) : (directions dimension).length = 3 ^ dimension
  := by
  induction dimension with
  | zero => rfl
  | succ dimension ih =>
    simp only [directions, steps, List.flatMap_cons, List.flatMap_nil, List.length_append,
      List.length_map, ih, List.length_nil]
    ring

/-- A cell is visited for every direction. -/
theorem neighbours_eq (p : Place) :
  neighbours p = (directions p.length).map (List.zipWith cellAt p)
  := by
  induction p with
  | nil => rfl
  | cons x rest ih =>
    rw [neighbours, List.length_cons, directions, List.map_flatMap, ih]
    simp only [List.map_map]
    rfl

/-! ### Near places -/

/-- Whether a cell is that of a place, and so near that the steps from it are exact. -/
def Near (p : Place) (cell : List Int) : Prop :=
  List.Forall₂ (fun x n => Binary64.floor? x = some n ∧ n.natAbs < 2 ^ 53) p cell

/-- A step from a cell of few bits is exact. -/
theorem cellAt_eq {x : Float} {n step : Int} (hx : Binary64.floor? x = some n)
    (hn : n.natAbs < 2 ^ 53) (hstep : step.natAbs ≤ 1) :
  cellAt x step = n + step
  := by
  have hsum : (n + step).natAbs ≤ 2 ^ 53 := by omega
  have hunits := Binary64.units_ofInt_add hn (by omega : step.natAbs < 2 ^ 53) hsum
  have htruncate :=
    Binary64.truncate?_of_units hunits (Binary64.representable_whole hsum).natAbs_lt
  have hrange : Binary64.leastInt64 ≤ n + step ∧ n + step < -Binary64.leastInt64 := by
    simp only [Binary64.leastInt64]
    omega
  simp only [cellAt, Binary64.wholeBelow, hx, Binary64.toInt64, htruncate, if_pos hrange]

/-- Steps are told apart by where they lead. -/
theorem eq_of_zipWith_add {cell d d' : List Int} (hd : d.length = cell.length)
    (hd' : d'.length = cell.length) (h : cell.zipWith (· + ·) d = cell.zipWith (· + ·) d') :
  d = d'
  := by
  induction cell generalizing d d' with
  | nil => rw [List.length_eq_zero_iff.mp hd, List.length_eq_zero_iff.mp hd']
  | cons n rest ih =>
    obtain ⟨step, ds, rfl⟩ := List.exists_cons_of_length_eq_add_one hd
    obtain ⟨step', ds', rfl⟩ := List.exists_cons_of_length_eq_add_one hd'
    rw [List.zipWith_cons_cons, List.zipWith_cons_cons, List.cons.injEq] at h
    rw [Int.add_left_cancel h.1, ih (Nat.succ.inj hd) (Nat.succ.inj hd') h.2]

namespace Near

variable {p : Place} {cell c : List Int}

theorem zipWith_cellAt (h : Near p cell) {d : List Int} (hd : ∀ step ∈ d, step.natAbs ≤ 1) :
  p.zipWith cellAt d = cell.zipWith (· + ·) d
  := by
  induction h generalizing d with
  | nil => rfl
  | cons hx _ ih =>
    cases d with
    | nil => rfl
    | cons step rest =>
      rw [List.forall_mem_cons] at hd
      rw [List.zipWith_cons_cons, List.zipWith_cons_cons, cellAt_eq hx.1 hx.2 hd.1, ih hd.2]

theorem neighbours_eq (h : Near p cell) :
  neighbours p = (directions p.length).map (cell.zipWith (· + ·))
  := by
  rw [Cellular.neighbours_eq]
  apply List.map_congr_left
  intro d hd
  apply h.zipWith_cellAt (mem_directions.mp hd).2

/-- The cells around a near place are those that are at most one away along every coordinate. -/
theorem mem_neighbours_iff (h : Near p cell) :
  c ∈ neighbours p ↔ List.Forall₂ (fun n n' => (n' - n).natAbs ≤ 1) cell c
  := by
  rw [h.neighbours_eq, h.length_eq]
  simp only [List.mem_map, mem_directions]
  clear h
  constructor
  · rintro ⟨d, ⟨hlength, hd⟩, rfl⟩
    induction cell generalizing d with
    | nil => exact .nil
    | cons n rest ih =>
      obtain ⟨step, rest', rfl⟩ := List.exists_cons_of_length_eq_add_one hlength
      rw [List.forall_mem_cons] at hd
      refine .cons ?_ (ih rest' (Nat.succ.inj hlength) hd.2)
      rw [add_sub_cancel_left]
      exact hd.1
  · intro hc
    induction hc with
    | nil => exact ⟨[], ⟨rfl, by simp⟩, rfl⟩
    | @cons n n' _ _ hn _ ih =>
      obtain ⟨d, ⟨hlength, hd⟩, rfl⟩ := ih
      refine ⟨(n' - n) :: d, ⟨congrArg (· + 1) hlength, List.forall_mem_cons.mpr ⟨hn, hd⟩⟩, ?_⟩
      rw [List.zipWith_cons_cons, add_sub_cancel]

/-- The cells around a near place are visited once. -/
theorem nodup_neighbours (h : Near p cell) : (neighbours p).Nodup
  := by
  rw [h.neighbours_eq, h.length_eq]
  apply List.Nodup.map_on _ (nodup_directions _)
  intro d hd d' hd' heq
  apply eq_of_zipWith_add (mem_directions.mp hd).1 (mem_directions.mp hd').1 heq

end Near

/-- Whether some cells are those around a place. -/
structure Surround (cells : List (List Int)) (p : Place) : Prop where
  /-- There is one for every direction, a step back, none or a step ahead along each coordinate. -/
  direction : ∃ directions : List (List Int), directions.Nodup
    ∧ (∀ d, d ∈ directions ↔ d.length = p.length ∧ ∀ step ∈ d, step = -1 ∨ step = 0 ∨ step = 1)
    ∧ cells = directions.map (p.zipWith cellAt)
  count : cells.length = 3 ^ p.length
  /-- Around a near place they are those that are at most one away along every coordinate, once. -/
  near : ∀ cell, Near p cell → cells.Nodup
    ∧ ∀ c, c ∈ cells ↔ List.Forall₂ (fun n n' => n' = n - 1 ∨ n' = n ∨ n' = n + 1) cell c

/-- The cells that are visited are those around a place. -/
theorem surround_neighbours (p : Place) : Surround (neighbours p) p
  where
  direction := by
    refine ⟨directions p.length, nodup_directions _, ?_, neighbours_eq p⟩
    intro d
    rw [mem_directions]
    simp only [← mem_steps, steps, List.mem_cons, List.not_mem_nil, or_false]
  count := by
    rw [neighbours_eq, List.length_map, length_directions]
  near cell h := by
    refine ⟨h.nodup_neighbours, fun c => ?_⟩
    have hstep : (fun n n' : Int => (n' - n).natAbs ≤ 1)
        = fun n n' => n' = n - 1 ∨ n' = n ∨ n' = n + 1 := by
      funext n n'
      rw [eq_iff_iff]
      omega
    rw [h.mem_neighbours_iff, hstep]

end AssetCanvas.Cellular
