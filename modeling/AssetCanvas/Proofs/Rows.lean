import AssetCanvas.Preview.Lattice
import AssetCanvas.Proofs.Fault
import Mathlib.Data.List.ProdSigma
import Mathlib.Logic.Function.Iterate
import Mathlib.Order.MinMax

/-!
# The rows of a lattice

The walk over the rows of a lattice gives the first places of a product of two axes,
`Lattice.Shape.places`, each moved by the next two draws of the generator, `Lattice.place`.  Rows
that have points end where the limit does, if not before, and rows without points give none if
they end: `Lattice.rows_eq_some`, `Lattice.rows_eq_some_of_empty`.  So `Lattice.positions` is
computed place by place, `Lattice.positions_eq`.
-/

namespace AssetCanvas

/-- A draw of a generator, counted from zero. -/
def Generator.stream (g : Generator) (k : Nat) : Float := ((Generator.step^[k]) g).next.1

theorem Generator.next_snd (g : Generator) : g.next.2 = g.step := rfl

theorem Generator.stream_step (g : Generator) (k : Nat) : g.step.stream k = g.stream (k + 1)
  := by
  rw [stream, stream, Function.iterate_succ_apply]

namespace Lattice

/-! ### Axes -/

/-- At most `n` coordinates from one on, up to an end. -/
def axis (step high : Float) : Nat → Float → List Float
  | 0, _ => []
  | n + 1, x => if x < high then x :: axis step high n (x + step) else []

theorem axis_succ_of_lt {step high x : Float} (h : x < high) (n : Nat) :
  axis step high (n + 1) x = x :: axis step high n (x + step)
  := if_pos h

theorem axis_of_not_lt {step high x : Float} (h : ¬ x < high) (n : Nat) :
  axis step high n x = []
  := by
  cases n with
  | zero => rfl
  | succ n => exact if_neg h

theorem take_axis {m n : Nat} (h : m ≤ n) (step high x : Float) :
  (axis step high n x).take m = axis step high m x
  := by
  induction m generalizing n x with
  | zero => rfl
  | succ m ih =>
    obtain ⟨n, rfl⟩ : ∃ k, n = k + 1 := ⟨n - 1, by omega⟩
    simp only [axis]
    split
    · rw [List.take_succ_cons, ih (by omega)]
    · rfl

section Products

variable {α β : Type}

/-- The first items of a product are those of the first items of its factors. -/
theorem take_product_take {m a b : Nat} (ha : m ≤ a) (hb : m ≤ b) (as : List α) (bs : List β) :
  ((as.take a) ×ˢ (bs.take b)).take m = (as ×ˢ bs).take m
  := by
  induction as generalizing a m with
  | nil => simp
  | cons first as ih =>
    cases a with
    | zero =>
      obtain rfl : m = 0 := by omega
      rfl
    | succ a =>
      have hrow : ((bs.take b).map fun other => (first, other)).take m
          = (bs.map fun other => (first, other)).take m := by
        rw [← List.map_take, ← List.map_take, List.take_take, min_eq_left hb]
      rw [List.take_succ_cons, List.product_cons, List.product_cons, List.take_append,
        List.take_append, hrow]
      congr 1
      -- what is left of the first items lies in the rows after the first
      by_cases hlong : m ≤ bs.length
      · have hnone : m - min b bs.length = 0 := by omega
        simp [hlong, hnone]
      · obtain rfl | hne := eq_or_ne bs []
        · simp
        · have hpos : 0 < bs.length := List.length_pos_iff.mpr hne
          rw [List.take_of_length_le (by omega : bs.length ≤ b), List.length_map]
          have := ih (m := m - bs.length) (a := a) (by omega) (by omega)
          rwa [List.take_of_length_le (by omega : bs.length ≤ b)] at this

end Products

/-- The first places of a lattice, at most `n`. -/
def Shape.places (shape : Shape) (n : Nat) : List (Float × Float) :=
  (axis shape.spacing shape.range.maxX n shape.range.minX
    ×ˢ axis shape.spacing shape.range.maxZ n shape.range.minZ).take n

theorem Shape.take_places (shape : Shape) {m n : Nat} (h : m ≤ n) :
  (shape.places n).take m = shape.places m
  := by
  simp only [places, ← take_axis h, List.take_take, min_eq_left h, take_product_take le_rfl le_rfl]

theorem Shape.places_eq_take (shape : Shape) {m n : Nat} (h : m ≤ n) :
  shape.places m
    = (axis shape.spacing shape.range.maxX n shape.range.minX
      ×ˢ axis shape.spacing shape.range.maxZ n shape.range.minZ).take m
  := by
  rw [← shape.take_places h, places, List.take_take, min_eq_left h]

/-- The first place does not depend on the spacing. -/
theorem Shape.places_one (range : WorldRange) (spacing spacing' reach : Float) :
  Shape.places ⟨range, spacing, reach⟩ 1 = Shape.places ⟨range, spacing', reach⟩ 1
  := rfl

/-! ### Places -/

/-- The points at some places, in their order. -/
def place (shape : Shape) : List (Float × Float) → Generator → List Position × Generator
  | [], g => ([], g)
  | (x, z) :: places, g =>
    let (p, g) := jittered shape x z g
    let (ps, g) := place shape places g
    (p :: ps, g)

theorem length_place (shape : Shape) (places : List (Float × Float)) (g : Generator) :
  (place shape places g).1.length = places.length
  := by
  induction places generalizing g with
  | nil => rfl
  | cons here places ih => simp only [place, List.length_cons, ih]

theorem place_append (shape : Shape) (places others : List (Float × Float)) (g : Generator) :
  place shape (places ++ others) g
    = ((place shape places g).1 ++ (place shape others (place shape places g).2).1,
      (place shape others (place shape places g).2).2)
  := by
  induction places generalizing g with
  | nil => rfl
  | cons here places ih => simp only [List.cons_append, place, ih]

/-- How far the points are moved depends on the reach only. -/
theorem place_congr {shape shape' : Shape} (h : shape.reach = shape'.reach)
    (places : List (Float × Float)) (g : Generator) :
  place shape places g = place shape' places g
  := by
  induction places generalizing g with
  | nil => rfl
  | cons here places ih => simp only [place, jittered, h, ih]

/-- The points at the first places are the first points. -/
theorem place_take (shape : Shape) (places : List (Float × Float)) (m : Nat) (g : Generator) :
  (place shape (places.take m) g).1 = (place shape places g).1.take m
  := by
  induction places generalizing m g with
  | nil => simp [place]
  | cons here places ih =>
    cases m with
    | zero => rfl
    | succ m => simp only [List.take_succ_cons, place, ih]

/-- With a reach a point takes two draws. -/
theorem jittered_of_pos {shape : Shape} (h : shape.reach > 0.0) (x z : Float) (g : Generator) :
  jittered shape x z g
    = (⟨x + (g.stream 0 * 2.0 - 1.0) * shape.reach, z + (g.stream 1 * 2.0 - 1.0) * shape.reach,
        1.0⟩, (Generator.step^[2]) g)
  := by
  simp only [jittered, displacement, if_pos h, Generator.stream, Function.iterate_succ,
    Function.iterate_zero, Function.comp, id, Generator.next_snd]

theorem place_of_pos (shape : Shape) (h : shape.reach > 0.0) (places : List (Float × Float))
    (g : Generator) :
  place shape places g
    = (places.mapIdx fun k here =>
        ⟨here.1 + (g.stream (2 * k) * 2.0 - 1.0) * shape.reach,
          here.2 + (g.stream (2 * k + 1) * 2.0 - 1.0) * shape.reach, 1.0⟩,
      (Generator.step^[2 * places.length]) g)
  := by
  induction places generalizing g with
  | nil => rfl
  | cons here places ih =>
    have hstream : ∀ k, ((Generator.step^[2]) g).stream k = g.stream (k + 2) := fun k => by
      rw [Function.iterate_succ_apply, Function.iterate_one, Generator.stream_step,
        Generator.stream_step]
    have hlength : 2 * (places.length + 1) = 2 * places.length + 2 := by omega
    simp only [place, jittered_of_pos h, ih, hstream, List.mapIdx_cons, List.length_cons, hlength,
      ← Function.iterate_add_apply, Nat.mul_add, Nat.mul_zero, Nat.zero_add, Nat.mul_one,
      Nat.add_right_comm _ 2 1]

theorem jittered_of_not_pos {shape : Shape} (h : ¬ shape.reach > 0.0) (x z : Float)
    (g : Generator) :
  jittered shape x z g = (⟨x + 0.0, z + 0.0, 1.0⟩, g)
  := by
  simp only [jittered, displacement, if_neg h]

/-- Without a reach the places do not move. -/
theorem place_of_not_pos (shape : Shape) (h : ¬ shape.reach > 0.0)
    (places : List (Float × Float)) (g : Generator) :
  place shape places g = (places.map fun here => ⟨here.1 + 0.0, here.2 + 0.0, 1.0⟩, g)
  := by
  induction places with
  | nil => rfl
  | cons here places ih => simp only [place, jittered_of_not_pos h, ih, List.map_cons]

/-! ### Rows -/

theorem row_eq (shape : Shape) (x : Float) (missing : Nat) (z : Float) (g : Generator) :
  row shape x missing z g
    = place shape ((axis shape.spacing shape.range.maxZ missing z).map fun z => (x, z)) g
  := by
  induction missing generalizing z g with
  | zero => rfl
  | succ missing ih =>
    simp only [row, axis]
    split
    · simp only [List.map_cons, place, ih]
    · rfl

/-- Rows that have points end, and list the first places from a coordinate on. -/
theorem rows_eq_some (shape : Shape) (h : shape.range.minZ < shape.range.maxZ)
    {missing a b : Nat} (hpos : 0 < missing) (ha : missing ≤ a) (hb : missing ≤ b)
    (listed : Array Position) (x : Float) (g : Generator) :
  shape.rows listed missing x g
    = let drawn := place shape ((axis shape.spacing shape.range.maxX a x
        ×ˢ axis shape.spacing shape.range.maxZ b shape.range.minZ).take missing) g
      some (listed.toList ++ drawn.1, drawn.2)
  := by
  induction missing using Nat.strong_induction_on generalizing a listed x g with
  | _ missing ih =>
    rw [Shape.rows]
    split
    next hx =>
      obtain ⟨a, rfl⟩ : ∃ k, a = k + 1 := ⟨a - 1, by omega⟩
      -- a row takes places of the column axis, at least one and no more than are missing
      generalize hcolumn : axis shape.spacing shape.range.maxZ b shape.range.minZ = column
      have hrow : axis shape.spacing shape.range.maxZ missing shape.range.minZ
          = column.take missing := by
        rw [← hcolumn, take_axis hb]
      have hne : 0 < column.length := by
        obtain ⟨b, rfl⟩ : ∃ k, b = k + 1 := ⟨b - 1, by omega⟩
        rw [← hcolumn, axis_succ_of_lt h]
        apply Nat.succ_pos
      simp only [row_eq, length_place, List.length_map, hrow, List.length_take,
        Array.toList_appendList]
      rw [axis_succ_of_lt hx, List.product_cons, List.take_append, ← List.map_take,
        List.length_map]
      split
      next hfull =>
        have hleft : missing - column.length = 0 := by omega
        rw [hleft, List.take_zero, List.append_nil]
      next hleft =>
        have hwhole : column.take missing = column := List.take_of_length_le (by omega)
        have hlength : min missing column.length = column.length := by omega
        rw [hwhole, hlength, ih (missing - column.length) (by omega) (a := a) (by omega)
          (by omega) (by omega), hcolumn, place_append, Array.toList_appendList]
        simp only [List.append_assoc]
    next hx =>
      rw [axis_of_not_lt hx]
      simp [place]

theorem row_empty {shape : Shape} (h : ¬ shape.range.minZ < shape.range.maxZ) (x : Float)
    (missing : Nat) (g : Generator) :
  row shape x missing shape.range.minZ g = ([], g)
  := by
  rw [row_eq, axis_of_not_lt h]
  rfl

/-- A row without points leaves as many missing as before. -/
theorem rows_of_empty {shape : Shape} (h : ¬ shape.range.minZ < shape.range.maxZ) {missing : Nat}
    (hpos : 0 < missing) (listed : Array Position) {x : Float} (hx : x < shape.range.maxX)
    (g : Generator) :
  shape.rows listed missing x g = shape.rows listed missing (x + shape.spacing) g
  := by
  rw [Shape.rows, if_pos hx, row_empty h]
  simp only [List.length_nil, Nat.not_le_of_gt hpos, if_false, Array.appendList_nil, Nat.sub_zero]

/-- Rows without points list none, and end where their coordinate comes to the end of the
range. -/
theorem rows_eq_some_of_empty (shape : Shape) (h : ¬ shape.range.minZ < shape.range.maxZ)
    {missing : Nat} (hpos : 0 < missing) {listed : Array Position} {x : Float} {g : Generator}
    {drawn : List Position × Generator} :
  shape.rows listed missing x g = some drawn
    ↔ drawn = (listed.toList, g) ∧ ∃ k, ¬ ((fun x => x + shape.spacing)^[k]) x < shape.range.maxX
  := by
  constructor
  · intro hrows
    refine Shape.rows.partial_correctness shape (fun listed missing x g drawn => 0 < missing →
      drawn = (listed.toList, g)
        ∧ ∃ k, ¬ ((fun x => x + shape.spacing)^[k]) x < shape.range.maxX)
      ?_ listed missing x g drawn hrows hpos
    intro rest ih listed missing x g drawn hdrawn hpos
    split at hdrawn
    next hx =>
      simp only [row_empty h, List.length_nil, Nat.not_le_of_gt hpos, if_false,
        Array.appendList_nil] at hdrawn
      obtain ⟨hnone, k, hk⟩ := ih _ _ _ _ _ hdrawn hpos
      exact ⟨hnone, k + 1, hk⟩
    next hx =>
      exact ⟨(Option.some.inj hdrawn).symm, 0, hx⟩
  · rintro ⟨rfl, k, hk⟩
    induction k generalizing x with
    | zero =>
      rw [Shape.rows]
      exact if_neg hk
    | succ k ih =>
      by_cases hx : x < shape.range.maxX
      · rw [rows_of_empty h hpos listed hx]
        exact ih hk
      · rw [Shape.rows]
        exact if_neg hx

/-! ### Limits -/

theorem capOf_int (n : Int) : capOf (.int n) = max 1 n.toNat := by rw [capOf]

theorem capOf_pos (limit : Number) : 0 < capOf limit
  := by
  cases limit with
  | int n => simp only [capOf]; omega
  | float x =>
    simp only [capOf]
    split
    · omega
    · split
      · decide
      · decide

theorem rows_eq_place (shape : Shape) (h : shape.range.minZ < shape.range.maxZ) (limit : Number)
    (g : Generator) :
  shape.rows #[] (capOf limit) shape.range.minX g
    = some (place shape (shape.places (capOf limit)) g)
  := rows_eq_some shape h (capOf_pos limit) le_rfl le_rfl #[] shape.range.minX g

/-- The points of a range that is not empty along `x`, place by place. -/
def points (range : WorldRange) (spacing : Number) (reach : Float) (limit : Json)
    (g : Generator) : Except Fault (List Position × Generator) := do
  if range.minZ < range.maxZ then
    let cap := capOf (← limit.number)
    let spacing ← if cap ≤ 1 then pure 0.0 else spacing.toFloat
    let shape : Shape := ⟨range, spacing, reach⟩
    return place shape (shape.places cap) g
  else
    let _ ← spacing.toFloat
    return ([], g)

theorem points_eq (range : WorldRange) (spacing : Number) (reach : Float) (limit : Json)
    (g : Generator) :
  (do return (← points? range spacing reach limit g).getD ([], g))
    = points range spacing reach limit g
  := by
  simp only [points?, points]
  split
  next h =>
    cases limit.number with
    | error e => rfl
    | ok limit =>
      have hrows : ∀ spacing, Shape.rows ⟨range, spacing, reach⟩ #[] (capOf limit) range.minX g
          = some (place ⟨range, spacing, reach⟩
            (Shape.places ⟨range, spacing, reach⟩ (capOf limit)) g) :=
        fun spacing => rows_eq_place ⟨range, spacing, reach⟩ h limit g
      simp only [Fault.ok_bind, hrows]
      split
      · rfl
      · cases spacing.toFloat <;> rfl
  next h =>
    cases spacing.toFloat with
    | error e => rfl
    | ok spacing =>
      simp only [Fault.ok_bind, Fault.pure_eq_ok]
      cases hrows : Shape.rows ⟨range, spacing, reach⟩ #[] 1 range.minX g with
      | none => rfl
      | some drawn =>
        obtain ⟨rfl, -⟩ := (rows_eq_some_of_empty ⟨range, spacing, reach⟩ h Nat.one_pos).mp hrows
        rfl

theorem positions_eq (range : WorldRange) (spacing jitter limit : Json) (g : Generator) :
  positions range spacing jitter limit g = (do
    let spacing ← spacing.number
    if spacing.le (.int 0) then
      return ([], g)
    else
      let spacing := atLeastOne spacing
      let reach ← reach (← jitter.number) spacing
      if range.minX < range.maxX then points range spacing reach limit g else return ([], g))
  := by
  simp only [positions, positions?]
  cases spacing.number with
  | error e => rfl
  | ok spacing =>
    simp only [Fault.ok_bind]
    split
    · rfl
    · cases jitter.number with
      | error e => rfl
      | ok jitter =>
        simp only [Fault.ok_bind]
        cases reach jitter (atLeastOne spacing) with
        | error e => rfl
        | ok reach =>
          simp only [Fault.ok_bind]
          split
          · apply points_eq
          · rfl

/-- A spacing that is a float stays one. -/
theorem exists_atLeastOne (spacing : Float) : ∃ x, atLeastOne (.float spacing) = .float x
  := by
  rw [atLeastOne]
  split <;> exact ⟨_, rfl⟩

/-- A lattice of floats ends if its rows have points. -/
theorem exists_positions?_of_lt (range : WorldRange) (h : range.minZ < range.maxZ)
    (spacing jitter : Float) (limit : Int) (g : Generator) :
  ∃ drawn, positions? range (.float spacing) (.float jitter) (.int limit) g = .ok (some drawn)
  := by
  obtain ⟨x, hx⟩ := exists_atLeastOne spacing
  have hrows : ∀ width reach, Shape.rows ⟨range, width, reach⟩ #[] (capOf (.int limit)) range.minX g
      = some _ := fun width reach => rows_eq_place ⟨range, width, reach⟩ h (.int limit) g
  simp only [positions?, points?, Lattice.reach, Json.number, Json.number?, hx, Number.mul,
    Number.toFloat, Fault.ok_bind, Fault.pure_eq_ok, h, hrows, if_true]
  split
  · exact ⟨_, rfl⟩
  · split
    · split <;> exact ⟨_, rfl⟩
    · exact ⟨_, rfl⟩

/-! ### The closed form -/

/-- What a range that is not empty along `x` gives, if its rows end, are the points at the first
places, with any step that is the spacing as a float. -/
theorem points?_eq_some {range : WorldRange} {spacing : Number} {reach : Float} {limit : Json}
    {l : Number} {g : Generator} {drawn : List Position × Generator} (hlimit : limit.number = .ok l)
    (h : points? range spacing reach limit g = .ok (some drawn)) {step : Float}
    (hstep : ∀ x, spacing.toFloat = .ok x → x = step) :
  drawn = place ⟨range, step, reach⟩ (Shape.places ⟨range, step, reach⟩ (capOf l)) g
  := by
  simp only [points?, hlimit, Fault.ok_bind] at h
  split at h
  next hz =>
    split at h
    next hcap =>
      have hone : capOf l = 1 := by
        have := capOf_pos l
        omega
      have hreach : (⟨range, 0.0, reach⟩ : Shape).reach = (⟨range, step, reach⟩ : Shape).reach :=
        rfl
      have hdrawn := Except.ok.inj h
      rw [rows_eq_place ⟨range, 0.0, reach⟩ hz] at hdrawn
      rw [← Option.some.inj hdrawn, hone, Shape.places_one range 0.0 step, place_congr hreach]
    next hcap =>
      obtain ⟨x, hx, hdrawn⟩ := Fault.bind_eq_ok_iff.mp h
      obtain rfl := hstep x hx
      have hdrawn := Except.ok.inj hdrawn
      rw [rows_eq_place ⟨range, x, reach⟩ hz] at hdrawn
      exact (Option.some.inj hdrawn).symm
  next hz =>
    obtain ⟨x, hx, hdrawn⟩ := Fault.bind_eq_ok_iff.mp h
    have hrows := Except.ok.inj hdrawn
    obtain ⟨rfl, -⟩ := (rows_eq_some_of_empty ⟨range, x, reach⟩ hz Nat.one_pos).mp hrows
    have hcolumn : axis step range.maxZ (capOf l) range.minZ = [] := axis_of_not_lt hz _
    simp [Shape.places, hcolumn, place]

theorem positions?_eq_some {range : WorldRange} {spacing jitter limit : Json} {s l : Number}
    {g : Generator} {drawn : List Position × Generator} (hspacing : spacing.number = .ok s)
    (hpos : s.le (.int 0) = false) (hlimit : limit.number = .ok l)
    (h : positions? range spacing jitter limit g = .ok (some drawn)) {step : Float}
    (hstep : ∀ x, (atLeastOne s).toFloat = .ok x → x = step) :
  ∃ j r, jitter.number = .ok j ∧ reach j (atLeastOne s) = .ok r
    ∧ drawn = place ⟨range, step, r⟩ (Shape.places ⟨range, step, r⟩ (capOf l)) g
  := by
  simp only [positions?, hspacing, hpos, Fault.ok_bind, Bool.false_eq_true, if_false] at h
  obtain ⟨j, hj, h⟩ := Fault.bind_eq_ok_iff.mp h
  obtain ⟨r, hr, h⟩ := Fault.bind_eq_ok_iff.mp h
  use j, r, hj, hr
  split at h
  next hx => exact points?_eq_some hlimit h hstep
  next hx =>
    have hrow : axis step range.maxX (capOf l) range.minX = [] := axis_of_not_lt hx _
    rw [← Option.some.inj (Except.ok.inj h)]
    simp [Shape.places, hrow, place]

/-- The closed form of a lattice that ends.  Its bases are the first pairs of the two axes, the
first one outermost; with a reach every base takes two draws in turn, and without one it stays
where it is. -/
theorem positions?_closed_form {range : WorldRange} {spacing jitter limit : Json} {s : Number}
    {cap : Int} {g g' : Generator} {ps : List Position} (hspacing : spacing.number = .ok s)
    (hpos : s.le (.int 0) = false) (hlimit : limit.number = .ok (.int cap))
    (h : positions? range spacing jitter limit g = .ok (some (ps, g'))) {step : Float}
    (hstep : ∀ x, (atLeastOne s).toFloat = .ok x → x = step) {n : Nat}
    (hn : max 1 cap.toNat ≤ n) :
  ∃ j r, jitter.number = .ok j ∧ reach j (atLeastOne s) = .ok r
    ∧ let bases := (axis step range.maxX n range.minX ×ˢ axis step range.maxZ n range.minZ).take
        (max 1 cap.toNat)
      (r > 0.0 →
        ps = bases.mapIdx (fun k base =>
          ⟨base.1 + (g.stream (2 * k) * 2.0 - 1.0) * r,
            base.2 + (g.stream (2 * k + 1) * 2.0 - 1.0) * r, 1.0⟩)
        ∧ g' = (Generator.step^[2 * ps.length]) g)
      ∧ (¬ r > 0.0 →
        ps = bases.map (fun base => ⟨base.1 + 0.0, base.2 + 0.0, 1.0⟩) ∧ g' = g)
  := by
  obtain ⟨j, r, hj, hr, hdrawn⟩ := positions?_eq_some hspacing hpos hlimit h hstep
  refine ⟨j, r, hj, hr, fun hreach => ?_, fun hreach => ?_⟩
  · rw [place_of_pos ⟨range, step, r⟩ hreach, capOf_int, Shape.places_eq_take _ hn] at hdrawn
    obtain ⟨rfl, rfl⟩ := Prod.mk.inj hdrawn
    simp only [List.length_mapIdx, and_self]
  · rw [place_of_not_pos ⟨range, step, r⟩ hreach, capOf_int, Shape.places_eq_take _ hn] at hdrawn
    exact Prod.mk.inj hdrawn

/-- Three places of a square, each with its two draws. -/
theorem positions?_closed_form_square :
  ∃ drawn, positions? ⟨0.0, 16.0, 0.0, 16.0⟩ (.float 8.0) (.float 1.0) (.int 3) ⟨1, 1⟩
      = .ok (some drawn)
    ∧ drawn.1.length = 3 ∧ drawn.2 = (Generator.step^[6]) ⟨1, 1⟩
  := by
  have hspacing : (Json.float 8.0).number = .ok (.float 8.0) := rfl
  have hlimit : (Json.int 3).number = .ok (.int 3) := rfl
  have hjitter : (Json.float 1.0).number = .ok (.float 1.0) := rfl
  have hpos : Number.le (.float 8.0) (.int 0) = false := by decide +kernel
  have hleast : atLeastOne (.float 8.0) = .float 8.0 := if_neg (by decide +kernel)
  have hstep : ∀ x, (atLeastOne (.float 8.0)).toFloat = .ok x → x = 8.0 := by
    rw [hleast]
    rintro x ⟨⟩
    rfl
  have hreach : (1.0 : Float) * 8.0 * 0.5 > 0.0 := by decide +kernel
  have hz : (0.0 : Float) < 16.0 := by decide +kernel
  have hbases : ((axis 8.0 16.0 3 0.0 ×ˢ axis 8.0 16.0 3 0.0).take 3).length = 3 := by
    decide +kernel
  obtain ⟨⟨ps, g'⟩, h⟩ := exists_positions?_of_lt ⟨0.0, 16.0, 0.0, 16.0⟩ hz 8.0 1.0 3 ⟨1, 1⟩
  obtain ⟨j, r, hj, hr, hform, -⟩ := positions?_closed_form hspacing hpos hlimit h hstep
    (le_refl 3)
  obtain rfl : .float 1.0 = j := Except.ok.inj (hjitter.symm.trans hj)
  obtain rfl : (1.0 : Float) * 8.0 * 0.5 = r := by
    rw [hleast] at hr
    exact Except.ok.inj hr
  obtain ⟨hps, hg'⟩ := hform hreach
  have hlength : ps.length = 3 := by
    rw [hps, List.length_mapIdx]
    exact hbases
  rw [hlength] at hg'
  exact ⟨_, h, hlength, hg'⟩

end Lattice

end AssetCanvas
