import AssetCanvas.Preview.Noise.Cellular
import AssetCanvas.Preview.Noise.Fractal
import AssetCanvas.Proofs.SimplexZeros

/-!
# Tabulated noise

A noise is sampled at places or, where that is cheaper, on the lattice of their coordinates, and
looked up there by the ranks of the coordinates.  So the place that is looked up has the same
coordinates, up to the sign of zeros, and a function that does not tell the zeros apart has the same
value there: `Sampling.mapM_of_sample`.  So the values of a noise are those of a function of the
place, `Sampler.Pointwise`, and octaves of such a noise are again such a noise.
-/

namespace AssetCanvas

open Binary64

namespace Sampling

/-! ### Coordinates that occur -/

theorem values_eq (seen : Occurring) : seen.values = seen.toList.map Prod.snd
  := by
  change Std.DHashMap.Raw.values seen.inner.inner
    = (Std.DHashMap.Raw.Const.toList seen.inner.inner).map Prod.snd
  rw [Std.DHashMap.Internal.Raw.values_eq_values_toListModel,
    Std.DHashMap.Internal.Raw.Const.toList_eq_toListModel_map]
  generalize Std.DHashMap.Internal.toListModel seen.inner.inner.buckets = l
  induction l with
  | nil => rfl
  | cons entry rest ih =>
    rw [List.map_cons, List.map_cons, ← ih]
    rfl

/-- Whether coordinates are kept under their ranks. -/
def Ranked (seen : Occurring) : Prop := ∀ (k : UInt64) x, seen[k]? = some x → rank x = k

/-- The coordinates of a column are kept under their ranks, and those from before still are. -/
theorem ranked_foldl (column : List Float) {seen : Occurring} (h : Ranked seen) :
  Ranked (column.foldl (fun seen x => seen.insertIfNew (rank x) x) seen)
    ∧ (∀ k ∈ seen, k ∈ column.foldl (fun seen x => seen.insertIfNew (rank x) x) seen)
    ∧ ∀ x ∈ column, rank x ∈ column.foldl (fun seen x => seen.insertIfNew (rank x) x) seen
  := by
  induction column generalizing seen with
  | nil => exact ⟨h, fun k hk => hk, by simp⟩
  | cons x rest ih =>
    have hstep : Ranked (seen.insertIfNew (rank x) x) := by
      intro k y hy
      rw [Std.HashMap.getElem?_insertIfNew] at hy
      split at hy
      · next hnew =>
        rw [← Option.some.inj hy]
        simpa using hnew.1
      · apply h k y hy
    obtain ⟨hranked, hkept, hrest⟩ := ih hstep
    refine ⟨hranked, ?_, ?_⟩
    · intro k hk
      apply hkept
      rw [Std.HashMap.mem_insertIfNew]
      exact .inr hk
    · intro y hy
      rcases List.mem_cons.mp hy with rfl | hy
      · apply hkept
        rw [Std.HashMap.mem_insertIfNew]
        exact .inl (beq_self_eq_true _)
      · apply hrest y hy

theorem ranked_empty : Ranked ∅
  := by
  intro k x hx
  simp at hx

/-- Every coordinate of a column has its rank among the ones that occur. -/
theorem exists_mem_values {column : List Float} {x : Float} (h : x ∈ column) :
  ∃ y ∈ (occurring column).values, rank y = rank x
  := by
  obtain ⟨hranked, -, hmem⟩ := ranked_foldl column ranked_empty
  have hy := Std.HashMap.getElem?_eq_some_getElem (hmem x h)
  refine ⟨_, ?_, hranked _ _ hy⟩
  rw [values_eq, List.mem_map]
  exact ⟨_, Std.HashMap.mem_toList_iff_getElem?_eq_some.mpr hy, rfl⟩

/-- The coordinates that occur have different ranks. -/
theorem pairwise_values (column : List Float) :
  (occurring column).values.Pairwise fun x y => rank x ≠ rank y
  := by
  have hranked := (ranked_foldl column ranked_empty).1
  rw [values_eq, List.pairwise_map]
  apply (Std.HashMap.distinct_keys_toList (m := occurring column)).imp_of_mem
  rintro ⟨k, x⟩ ⟨k', y⟩ hx hy hne hsame
  rw [hranked _ _ (Std.HashMap.mem_toList_iff_getElem?_eq_some.mp hx),
    hranked _ _ (Std.HashMap.mem_toList_iff_getElem?_eq_some.mp hy)] at hsame
  simp [hsame] at hne

/-! ### Places on the lattice -/

/-- On an axis without equal ranks a coordinate has the index of the value with its rank. -/
theorem indexOf_eq {seen : Occurring}
    (hdistinct : (Axis.ofOccurring seen).values.Pairwise fun x y => rank x ≠ rank y) {i : Nat}
    {x y : Float} (hi : (Axis.ofOccurring seen).values[i]? = some y) (hrank : rank y = rank x) :
  (Axis.ofOccurring seen).indexOf x = i
  := by
  apply Std.HashMap.getD_ofList_of_mem (k := rank y) (by simp [hrank])
  · rw [List.pairwise_map]
    have hpairs := hdistinct
    rw [← List.zipIdx_map_fst 0 (Axis.ofOccurring seen).values, List.pairwise_map] at hpairs
    apply hpairs.imp
    intro a b hne
    simpa using hne
  · apply List.mem_map.mpr ⟨(y, i), List.mem_zipIdx_iff_getElem?.mpr hi, rfl⟩

/-- A coordinate of a column is found on the axis of the column, up to the sign of zeros. -/
theorem exists_coordinate {column : List Float} {x : Float} (h : x ∈ column) :
  ∃ y, (Axis.ofOccurring (occurring column)).values[
      (Axis.ofOccurring (occurring column)).indexOf x]? = some y ∧ Alike x y
  := by
  obtain ⟨y, hy, hrank⟩ := exists_mem_values h
  have hperm := List.mergeSort_perm (occurring column).values
    fun a b => decide (rank a ≤ rank b)
  have hdistinct : (Axis.ofOccurring (occurring column)).values.Pairwise
      fun x y => rank x ≠ rank y :=
    hperm.symm.pairwise (pairwise_values column) (fun h => h.symm)
  have hmem : y ∈ (Axis.ofOccurring (occurring column)).values := hperm.mem_iff.mpr hy
  obtain ⟨i, hi⟩ := List.mem_iff_getElem?.mp hmem
  have hindex : (Axis.ofOccurring (occurring column)).indexOf x = i
    := indexOf_eq hdistinct hi hrank
  rw [hindex]
  exact ⟨y, hi, (alike_of_rank hrank).symm⟩

/-- The place at a position of a lattice begins with the coordinate at the remainder. -/
theorem getElem?_flatMap {values : List Float} {i : Nat} {x : Float} (hx : values[i]? = some x)
    (tails : List Place) (k : Nat) :
  (tails.flatMap fun tail => values.map fun x => x :: tail)[i + values.length * k]?
    = tails[k]?.map (x :: ·)
  := by
  have hi : i < values.length := (List.getElem?_eq_some_iff.mp hx).1
  induction tails generalizing k with
  | nil => simp
  | cons tail rest ih =>
    cases k with
    | zero =>
      rw [Nat.mul_zero, Nat.add_zero, List.flatMap_cons, List.getElem?_append_left (by simpa),
        List.getElem?_map, hx]
      rfl
    | succ k =>
      have hindex : i + values.length * (k + 1) - values.length = i + values.length * k := by
        rw [Nat.mul_succ]
        omega
      rw [List.flatMap_cons, List.getElem?_append_right, List.length_map, hindex, ih k]
      · simp
      · rw [List.length_map, Nat.mul_succ]
        omega

/-- A place whose coordinates are found on some axes is found on their lattice. -/
theorem exists_place {axes : List Axis} {p : Place}
    (h : List.Forall₂ (fun axis x => ∃ y, axis.values[axis.indexOf x]? = some y ∧ Alike x y)
      axes p) :
  ∃ q, (lattice (axes.map Axis.values))[position axes p]? = some q ∧ List.Forall₂ Alike p q
  := by
  induction h with
  | nil => exact ⟨[], rfl, .nil⟩
  | @cons axis x axes p hx _ ih =>
    obtain ⟨y, hy, halike⟩ := hx
    obtain ⟨q, hq, hrest⟩ := ih
    refine ⟨y :: q, ?_, .cons halike hrest⟩
    rw [List.map_cons, lattice, position, getElem?_flatMap hy, hq]
    rfl

/-- The axes of the coordinates that occur in some places. -/
def axesOf (dimension : Nat) (places : List Place) : List Axis :=
  ((columns dimension places).map occurring).map Axis.ofOccurring

theorem length_axesOf (dimension : Nat) (places : List Place) :
  (axesOf dimension places).length = dimension
  := by
  simp [axesOf, columns]

/-- A place is found on the lattice of the coordinates that occur. -/
theorem exists_place_of_mem {dimension : Nat} {places : List Place} {p : Place} (hp : p ∈ places)
    (hlength : p.length = dimension) :
  ∃ q, (lattice ((axesOf dimension places).map Axis.values))[
      position (axesOf dimension places) p]? = some q ∧ List.Forall₂ Alike p q
  := by
  apply exists_place
  have hplace : (List.range dimension).map (fun k => p.getD k 0.0) = p := by
    apply List.ext_getElem
    · simp [hlength]
    · intro k _ hk
      simp [hk]
  rw [← hplace, axesOf, columns, List.map_map, List.map_map, List.forall₂_map_left_iff,
    List.forall₂_map_right_iff, List.forall₂_same]
  intro k _
  apply exists_coordinate
  exact List.mem_map_of_mem hp

/-! ### Samples -/

theorem sample_eq (grid : List (List Float) → Except Fault (List Float))
    (point : Place → Except Fault Float) (dimension : Nat) (places : List Place) :
  sample grid point dimension places
    = if cells ((columns dimension places).map occurring) ≤ latticeFactor * places.length then do
        let table ← grid ((axesOf dimension places).map Axis.values)
        return places.map fun p => table.toArray.getD (position (axesOf dimension places) p) 0.0
      else
        places.mapM point
  := rfl

/-- A function that does not tell the zeros apart has the same values where it is tabulated. -/
theorem mapM_of_sample {point : Place → Except Fault Float}
    (hpoint : ∀ p q, List.Forall₂ Alike p q → point p = point q) {dimension : Nat}
    {places : List Place} (hlength : ∀ p ∈ places, p.length = dimension) {values : List Float}
    (h : sample (tabulate point) point dimension places = .ok values) :
  places.mapM point = .ok values
  := by
  rw [sample_eq] at h
  split at h
  · obtain ⟨table, htable, hvalues⟩ := Fault.bind_eq_ok_iff.mp h
    rw [← Except.ok.inj hvalues, Fault.mapM_eq_ok_iff, List.forall₂_map_right_iff,
      List.forall₂_same]
    intro p hp
    obtain ⟨q, hq, halike⟩ := exists_place_of_mem hp (hlength p hp)
    obtain ⟨hlt, hget⟩ := List.getElem?_eq_some_iff.mp hq
    have hall := Fault.mapM_eq_ok_iff.mp htable
    have hlt' := hlt
    rw [hall.length_eq] at hlt'
    have hvalue := hall.get hlt hlt'
    rw [hpoint p q halike, ← hget, Array.getD_eq_getD_getElem?, List.getElem?_toArray,
      List.getElem?_eq_getElem hlt']
    exact hvalue
  · exact h

end Sampling

/-! ### Functions of the place -/

/-- Whether the values of a noise are those of a function of the place. -/
def Sampler.Pointwise (noise : Sampler) (dimension : Nat) : Prop :=
  ∃ f : Place → Float, ∀ places values, (∀ p ∈ places, p.length = dimension) →
    noise places = .ok values → values = places.map f

/-- The values of simplex noise are those at the single places, whether it is tabulated or not. -/
theorem Simplex.pointwise_sampler (seed : Int) (dimension : Nat) :
  Sampler.Pointwise (sampler seed dimension) dimension
  := by
  use fun p => (atPlace (.ofSeed seed) p).toOption.getD 0.0
  intro places values hlength h
  have hvalues := Sampling.mapM_of_sample (fun p q => atPlace_alike (.ofSeed seed)) hlength h
  have hsame : List.Forall₂ (fun p v => (atPlace (.ofSeed seed) p).toOption.getD 0.0 = id v)
      places values := by
    apply (Fault.mapM_eq_ok_iff.mp hvalues).imp
    intro p v hv
    rw [hv]
    rfl
  rw [Fault.map_eq_map_of_forall₂ hsame, List.map_id]

theorem Cellular.pointwise_sampler (seed : Int) (measure : Measure) (jitter : Float)
    (dimension : Nat) :
  Sampler.Pointwise (sampler seed measure jitter) dimension
  := by
  use atPlace (UInt64.ofInt seed) measure jitter
  intro places values _ h
  exact (Except.ok.inj h).symm

namespace Fractal

variable {noise : Sampler} {dimension : Nat}

/-- More octaves of a function of the place, added to one, are one. -/
theorem pointwise_accumulate (h : noise.Pointwise dimension) (f : Fractal)
    (reshape : Float → Float) (n : Nat) (frequency : Number) (amplitude : Float)
    (total : Place → Float) :
  ∃ g : Place → Float, ∀ places values, (∀ p ∈ places, p.length = dimension) →
    f.accumulate noise reshape places n frequency amplitude (places.map total) = .ok values →
    values = places.map g
  := by
  obtain ⟨value, hvalue⟩ := h
  induction n generalizing frequency amplitude total with
  | zero => exact ⟨total, fun places values _ h => (Except.ok.inj h).symm⟩
  | succ n ih =>
    by_cases hnumbers : ∃ factor next gain, frequency.toFloat = .ok factor
        ∧ frequency.mul f.lacunarity = .ok next ∧ f.gain.toFloat = .ok gain
    · obtain ⟨factor, next, gain, hfactor, hnext, hgain⟩ := hnumbers
      obtain ⟨g, hg⟩ := ih next (amplitude * gain)
        fun p => total p + reshape (value (scale factor p)) * amplitude
      use g
      intro places values hlength h
      simp only [accumulate, hfactor, hnext, hgain, Fault.ok_bind] at h
      obtain ⟨octave, hoctave, h⟩ := Fault.bind_eq_ok_iff.mp h
      have hscaled : ∀ p ∈ places.map (scale factor), p.length = dimension := by
        simpa [scale] using hlength
      rw [hvalue _ octave hscaled hoctave, List.map_map, List.zipWith_map,
        List.zipWith_self] at h
      exact hg places values hlength h
    · use total
      intro places values _ h
      obtain ⟨factor, hfactor, h⟩ := Fault.bind_eq_ok_iff.mp h
      obtain ⟨_, _, h⟩ := Fault.bind_eq_ok_iff.mp h
      obtain ⟨next, hnext, h⟩ := Fault.bind_eq_ok_iff.mp h
      obtain ⟨gain, hgain, _⟩ := Fault.bind_eq_ok_iff.mp h
      exact (hnumbers ⟨factor, next, gain, hfactor, hnext, hgain⟩).elim

theorem pointwise_sum (h : noise.Pointwise dimension) (f : Fractal) :
  Sampler.Pointwise (f.sum noise) dimension
  := pointwise_accumulate h f id f.octaves f.frequency 1.0 fun _ => 0.0

theorem pointwise_ridged (h : noise.Pointwise dimension) (f : Fractal) :
  Sampler.Pointwise (f.ridged noise) dimension
  := by
  obtain ⟨g, hg⟩ := pointwise_accumulate h f fold f.octaves f.frequency 1.0 fun _ => 0.0
  use fun p => g p * 2.0 - 1.0
  intro places values hlength hvalues
  obtain ⟨total, htotal, hvalues⟩ := Fault.bind_eq_ok_iff.mp hvalues
  rw [← Except.ok.inj hvalues, hg places total hlength htotal, List.map_map]
  rfl

end Fractal

end AssetCanvas
