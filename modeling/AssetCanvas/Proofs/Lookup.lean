import AssetCanvas.Proofs.ExactValues
import AssetCanvas.Proofs.Tabulation

/-!
# Looking up on a lattice

A function that has the same value at equal places can be tabulated on the lattice of the
coordinates of some places: each place is found there up to the sign of zeros, and zeros are equal
as numbers.  So the samples at the places are the values there, whether they are looked up or not:
`Sampling.exists_sample` says so for any relation that equal places imply between values, and
`Sampling.sample_eq_map` for the two relations of being the same and of being equal as numbers.
-/

namespace AssetCanvas

open Binary64

namespace Sampling

/-! ### Tables -/

/-- Whether a function of axes gives the table of a function of places. -/
def Tabulates (grid : List (List Float) → Except Fault (List Float)) (f : Place → Float)
    (dimension : Nat) : Prop :=
  ∀ axes, axes.length = dimension → grid axes = .ok ((lattice axes).map f)

variable {grid : List (List Float) → Except Fault (List Float)} {f : Place → Float}

/-- The table of two axes has a row for every value of the second one. -/
theorem tabulates_two_iff :
  Tabulates grid f 2
    ↔ ∀ xs zs, grid [xs, zs] = .ok (zs.flatMap fun z => xs.map fun x => f [x, z])
  := by
  have htable : ∀ xs zs, (lattice [xs, zs]).map f
      = zs.flatMap fun z => xs.map fun x => f [x, z] := by
    intro xs zs
    simp [lattice, List.map_flatMap, List.flatMap_map, Function.comp_def]
  constructor
  · intro h xs zs
    rw [h [xs, zs] rfl, htable]
  · intro h axes haxes
    obtain ⟨xs, zs, rfl⟩ := List.length_eq_two.mp haxes
    rw [h, htable]

/-! ### Samples -/

/-- Whether two places have equal coordinates. -/
def SamePlace : Place → Place → Prop := List.Forall₂ fun x y => (x == y) = true

variable {dimension : Nat} {places : List Place}

/-- The samples of a tabulated function are its values at the places, up to any relation that holds
between the values at equal places. -/
theorem exists_sample {R : Float → Float → Prop} (hf : ∀ p q, SamePlace p q → R (f p) (f q))
    (hgrid : Tabulates grid f dimension) (hlength : ∀ p ∈ places, p.length = dimension)
    (hnumbers : ∀ p ∈ places, ∀ x ∈ p, x.isNaN = false) :
  ∃ values, sample grid (fun p => .ok (f p)) dimension places = .ok values
    ∧ List.Forall₂ R (places.map f) values
  := by
  have hsame : ∀ p ∈ places, ∀ q, List.Forall₂ Alike p q → SamePlace p q := by
    intro p hp q halike
    apply (Fault.forall₂_mem halike).imp
    rintro x y ⟨hx, -, hxy⟩
    exact hxy.beq (hnumbers p hp x hx)
  rw [sample_eq]
  split
  · rw [hgrid _ (by rw [List.length_map, length_axesOf]), Fault.ok_bind]
    refine ⟨_, rfl, ?_⟩
    rw [List.forall₂_map_left_iff, List.forall₂_map_right_iff, List.forall₂_same]
    intro p hp
    obtain ⟨q, hq, halike⟩ := exists_place_of_mem hp (hlength p hp)
    rw [Array.getD_eq_getD_getElem?, List.getElem?_toArray, List.getElem?_map, hq]
    exact hf p q (hsame p hp q halike)
  · use places.map f
    constructor
    · rw [Fault.mapM_eq_ok_iff, List.forall₂_map_right_iff, List.forall₂_same]
      intro p _
      rfl
    · rw [List.forall₂_map_left_iff, List.forall₂_map_right_iff, List.forall₂_same]
      intro p hp
      apply hf p p (hsame p hp p _)
      rw [List.forall₂_same]
      intro x _
      apply Alike.refl

/-- The samples of a tabulated function at places without NaN are its values at the places: the
same ones if it has the same value at equal places, and equal ones if it has equal values there. -/
theorem sample_eq_map (hgrid : Tabulates grid f dimension)
    (hlength : ∀ p ∈ places, p.length = dimension)
    (hnumbers : ∀ p ∈ places, ∀ x ∈ p, x.isNaN = false) :
  ((∀ p q, SamePlace p q → f p = f q) →
      sample grid (fun p => .ok (f p)) dimension places = .ok (places.map f))
    ∧ ((∀ p q, SamePlace p q → (f p == f q) = true) →
      ∃ values, sample grid (fun p => .ok (f p)) dimension places = .ok values
        ∧ List.Forall₂ (fun v w => (v == w) = true) (places.map f) values)
  := by
  constructor
  · intro hf
    obtain ⟨values, hvalues, hsame⟩ := exists_sample hf hgrid hlength hnumbers
    rw [List.forall₂_eq_eq_eq] at hsame
    rw [hvalues, hsame]
  · intro hf
    apply exists_sample hf hgrid hlength hnumbers

/-- One where the first coordinate is less than the second one, zero elsewhere. -/
def ascent : Place → Float
  | [x, z] => if x < z then 1.0 else 0.0
  | _ => 0.0

/-- The table of `ascent` on the lattice of two axes. -/
def ascents : List (List Float) → Except Fault (List Float)
  | [xs, zs] => .ok (zs.flatMap fun z => xs.map fun x => ascent [x, z])
  | _ => .error .wrongKind

theorem ascent_eq {p q : Place} (h : SamePlace p q) : ascent p = ascent q
  := by
  cases h with
  | nil => rfl
  | cons hx h =>
    cases h with
    | nil => rfl
    | cons hz h =>
      cases h with
      | cons _ _ => rfl
      | nil =>
        obtain ⟨a, hx, hx'⟩ := beq_iff_units.mp hx
        obtain ⟨b, hz, hz'⟩ := beq_iff_units.mp hz
        simp only [ascent]
        congr 1
        rw [lt_iff, lt_iff, hx, hx', hz, hz']

/-- Five places on a lattice of three values by two, with both zeros on either axis. -/
theorem sample_ascents :
  sample ascents (fun p => .ok (ascent p)) 2
      [[1.0, 0.0], [2.0, 0.0], [-0.0, 1.0], [0.0, 1.0], [2.0, -0.0]]
    = .ok [0.0, 0.0, 1.0, 1.0, 0.0]
  := by
  have hgrid : Tabulates ascents ascent 2 := tabulates_two_iff.mpr fun xs zs => rfl
  have hlength : ∀ p ∈ ([[1.0, 0.0], [2.0, 0.0], [-0.0, 1.0], [0.0, 1.0], [2.0, -0.0]] :
      List Place), p.length = 2 := by
    simp
  have hnumbers : ∀ p ∈ ([[1.0, 0.0], [2.0, 0.0], [-0.0, 1.0], [0.0, 1.0], [2.0, -0.0]] :
      List Place), ∀ x ∈ p, x.isNaN = false := by
    decide
  have hvalues : [[1.0, 0.0], [2.0, 0.0], [-0.0, 1.0], [0.0, 1.0], [2.0, -0.0]].map ascent
      = [0.0, 0.0, 1.0, 1.0, 0.0] := by
    decide
  rw [← hvalues]
  apply (sample_eq_map hgrid hlength hnumbers).1 fun p q => ascent_eq

end Sampling

end AssetCanvas
