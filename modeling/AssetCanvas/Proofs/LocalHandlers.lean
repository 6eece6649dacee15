import AssetCanvas.Proofs.Locality

/-!
# Local handlers

Every handler computes the densities point by point, as long as the curves of its node are steady,
and where it succeeds at some points it follows at others: `Density.local_handlerOf`.  Only simplex
noise can stand in the way, since it is tabulated on the lattice of the coordinates, and that may
reach out of bounds at other points: `Density.straysOf`.
-/

namespace AssetCanvas

open Requests

/-! ### Straying noise -/

/-- Whether simplex noise is sampled at an unbounded place for some places none of which is. -/
def Simplex.Strays (dimension : Nat) (places : List Place) : Prop :=
  Overflows dimension places ∧ ∀ p ∈ places, ¬ Unbounded p

/-- Where simplex noise is sampled without fail, the places are not unbounded. -/
theorem Simplex.not_unbounded {dimension : Nat} {places : List Place}
    (h : ¬ Overflows dimension places) (hlength : ∀ p ∈ places, p.length = dimension) {p : Place}
    (hp : p ∈ places) :
  ¬ Unbounded p
  := by
  obtain ⟨values, hvalues⟩ := (failsIf_sampler 0 dimension places).succeeds_iff.mpr h
  have hmapM := Sampling.mapM_of_sample (fun _ _ => atPlace_alike (.ofSeed 0)) hlength hvalues
  apply (failsIf_atPlace (.ofSeed 0) p).succeeds_iff.mp
  apply Fault.exists_mapM_iff.mp ⟨values, hmapM⟩ p hp

/-- Noise that fails at some of the places where it did not fail strays. -/
theorem Simplex.strays {dimension : Nat} {places places' : List Place}
    (h : ¬ Overflows dimension places) (h' : Overflows dimension places')
    (hlength : ∀ p ∈ places, p.length = dimension) (hsub : places' ⊆ places) :
  Strays dimension places'
  := ⟨h', fun _ hp => not_unbounded h hlength (hsub hp)⟩

/-- Whether simplex noise strays in one of several octaves. -/
def Fractal.Strays (octaves : Nat) (frequency lacunarity : Float) (dimension : Nat)
    (places : List Place) : Prop :=
  ∃ factor ∈ List.iterate (· * lacunarity) frequency octaves,
    Simplex.Strays dimension (places.map (scale factor))

/-- Octaves of noise that fail at some of the places where they did not fail stray. -/
theorem Fractal.strays {octaves : Nat} {frequency lacunarity : Float} {dimension : Nat}
    {places places' : List Place} (h : ¬ Overflows octaves frequency lacunarity dimension places)
    (h' : Overflows octaves frequency lacunarity dimension places')
    (hlength : ∀ p ∈ places, p.length = dimension) (hsub : places' ⊆ places) :
  Strays octaves frequency lacunarity dimension places'
  := by
  obtain ⟨factor, hfactor, hoverflows⟩ := h'
  use factor, hfactor
  apply Simplex.strays (fun hfails => h ⟨factor, hfactor, hfails⟩) hoverflows
  · simpa [scale] using hlength
  · exact List.map_subset _ hsub

namespace Density

open Scope

variable {type : String} {flaw : Flaw}

/-! ### Arithmetic -/

theorem local_constantOf (key : String) : (constantOf key).Local type flaw
  := by
  intro s ps ps' hs
  apply (follows_number _ _).map
  rintro x _ ⟨-, rfl⟩
  apply Along.of

theorem local_always (density : Float) : (always density).Local type flaw
  := fun _ _ _ _ => .pure (.of _)

theorem local_forward : forward.Local type flaw := fun _ _ _ _ => follows_input "Input" .refl

theorem local_imported : imported.Local type flaw
  := by
  intro s ps ps' hs
  apply follows_ite
  · apply local_forward s _ _ hs
  · apply local_constantOf "Value" s _ _ hs

theorem local_unary (f : Float → Float) : (unary f).Local type flaw
  := fun _ _ _ _ => (follows_input "Input" .refl).map fun _ _ h => h.map f

/-- Densities of the input that are changed with the number of a field. -/
theorem local_adjusted (key : String) (default : Float) (f : Float → Float → Float) :
  Handler.Local type (fun s points => do
      let values ← s.input "Input" points
      let x ← s.number key default
      return values.map (f x)) flaw
  := by
  intro s ps ps' hs
  apply (follows_input _ .refl).bind
  intro values values' hvalues
  apply (follows_number _ _).map
  rintro x _ ⟨-, rfl⟩
  apply hvalues.map

theorem local_signedPower : signedPower.Local type flaw
  := local_adjusted "Exponent" 2.0 fun exponent v => power v.abs exponent * sign v

theorem local_repeated : repeated.Local type flaw
  := local_adjusted "Count" 2.0 fun count v => v * if count > 1.0 then count else 1.0

theorem local_scaled : scaled.Local type flaw
  := local_adjusted "Value" 1.0 fun factor v => v * factor

theorem local_modulo : modulo.Local type flaw
  := by
  intro s ps ps' hs
  apply (follows_number _ _).bind
  rintro divisor _ ⟨-, rfl⟩
  split
  · exact (follows_input _ .refl).map fun _ _ h => h.map _
  · exact .pure (.of _)

theorem local_linear : linear.Local type flaw
  := by
  intro s ps ps' hs
  apply (follows_input _ .refl).bind
  intro values values' hvalues
  apply (follows_number _ _).bind
  rintro scale _ ⟨-, rfl⟩
  apply (follows_number _ _).map
  rintro offset _ ⟨-, rfl⟩
  apply hvalues.map

theorem local_clamped (low high : Float) (f : Float → Float) : (clamped low high f).Local type flaw
  := by
  intro s ps ps' hs
  apply (follows_number _ _).bind
  rintro low _ ⟨-, rfl⟩
  apply (follows_number _ _).bind
  rintro high _ ⟨-, rfl⟩
  apply (follows_input _ .refl).map
  intro values values' hvalues
  apply hvalues.map

theorem local_normalized : normalized.Local type flaw
  := by
  intro s ps ps' hs
  apply (follows_input _ .refl).bind
  intro values values' hvalues
  apply (follows_field _).bind
  rintro source _ ⟨-, rfl⟩
  apply (Follows.reread (interval source (-1.0) 1.0)).bind
  rintro ends _ ⟨-, rfl⟩
  apply (follows_field _).bind
  rintro target _ ⟨-, rfl⟩
  apply (Follows.reread (interval target 0.0 1.0)).map
  rintro ends' _ ⟨-, rfl⟩
  apply hvalues.map

theorem local_curved : curved.Local type flaw
  := by
  intro s ps ps' hs
  apply (follows_input _ .refl).bind
  intro values values' hvalues
  apply hs.follows_alongCurve _ hvalues

theorem local_splined : splined.Local "SplineFunction" flaw
  := by
  intro s ps ps' hs
  apply (follows_field _).bind
  rintro v _ ⟨hv, rfl⟩
  apply (Follows.reread (Curve.ofJson? v)).bind
  rintro curve _ ⟨hcurve, rfl⟩
  cases curve with
  | none => exact follows_input _ .refl
  | some c =>
    obtain ⟨f, hf⟩ := (hs.spline rfl v c hv hcurve).exists_values
    simp only [hf]
    exact (follows_input _ .refl).map fun _ _ h => h.map f

theorem local_binary (f : Float → Float → Float) (port port' : String) :
  (binary f port port').Local type flaw
  := by
  intro s ps ps' hs
  apply (follows_input _ .refl).bind
  intro values values' hvalues
  apply (follows_input _ .refl).map
  intro others others' hothers
  apply hvalues.zipWith hothers

theorem local_interpolated : interpolated.Local type flaw
  := by
  intro s ps ps' hs
  apply (follows_input _ .refl).bind
  intro starts starts' hstarts
  apply (follows_input _ .refl).bind
  intro ends ends' hends
  apply (follows_input _ .refl).map
  intro parts parts' hparts
  apply (hstarts.zip hends).zipWith hparts

theorem local_blended : blended.Local type flaw
  := by
  intro s ps ps' hs
  simp only [blended]
  apply (follows_input _ .refl).bind
  intro starts starts' hstarts
  apply (follows_input _ .refl).bind
  intro ends ends' hends
  apply follows_ite
  · apply (follows_input _ .refl).map
    intro parts parts' hparts
    apply (hstarts.zip hends).zipWith hparts
  · apply Follows.pure
    apply (hstarts.zip hends).zipWith (.of _)

theorem local_chosen (default : Float) : (chosen default).Local type flaw
  := by
  intro s ps ps' hs
  apply (follows_input _ .refl).bind
  intro condition condition' hcondition
  apply (follows_number _ _).bind
  rintro threshold _ ⟨-, rfl⟩
  apply (follows_input _ .refl).bind
  intro yes yes' hyes
  apply (follows_input _ .refl).map
  intro no no' hno
  apply hcondition.zipWith (hyes.zip hno)

theorem local_selected : selected.Local type flaw
  := by
  intro s ps ps' hs
  apply (follows_number _ _).bind
  rintro selector _ ⟨-, rfl⟩
  apply (Follows.reread (Number.floor selector)).bind
  rintro index _ ⟨-, rfl⟩
  exact follows_input _ .refl

theorem local_folded (f : Float → Float → Float) (start : Float) : (folded f start).Local type flaw
  := by
  intro s ps ps' hs
  apply (follows_indexedInputs .refl).map
  intro inputs inputs' hinputs
  exact Along.foldl hinputs f (.of _)

theorem local_reduced (f : Float → Float → Float) : (reduced f).Local type flaw
  := by
  intro s ps ps' hs
  apply (follows_indexedInputs .refl).map
  intro inputs inputs' hinputs
  apply Along.combined hinputs

theorem local_averaged : averaged.Local "AverageFunction" flaw
  := by
  intro s ps ps' hs
  apply (follows_indexedInputs .refl).attained.bind
  rintro inputs inputs' ⟨hinputs, answers, hanswers⟩
  have hports : inputs.length = s.indexedPorts.length :=
    (Fault.mapM_eq_ok_iff.mp hanswers).length_eq.symm
  have hlength := hinputs.length_eq
  have hempty : inputs'.isEmpty = inputs.isEmpty := by
    rw [Bool.eq_iff_iff, List.isEmpty_iff_length_eq_zero, List.isEmpty_iff_length_eq_zero, hlength]
  rw [hempty]
  split
  · exact .pure (.of _)
  · apply Follows.pure
    rw [← hlength]
    exact (Along.totals hinputs (hports ▸ hs.average rfl)).map _

theorem local_weightedSum : weightedSum.Local type flaw
  := by
  intro s ps ps' hs
  apply (follows_field _).bind
  rintro v _ ⟨-, rfl⟩
  have hports : ∀ replies, (s.answered replies).indexedPorts = s.indexedPorts := fun _ => rfl
  simp only [hports]
  apply Follows.map
  · apply Follows.mapM
    intro port _
    apply (follows_input _ .refl).bind
    intro values values' hvalues
    apply (Follows.reread (weightAt _ port.2)).map
    rintro w _ ⟨-, rfl⟩
    apply hvalues.map
  · intro terms terms' hterms
    exact Along.foldl hterms (· + ·) (.of _)

theorem local_smoothReduced (f : Float → Float → Float → Float) :
  (smoothReduced f).Local type flaw
  := by
  intro s ps ps' hs
  apply (follows_number _ _).bind
  rintro width _ ⟨-, rfl⟩
  apply (follows_indexedInputs .refl).map
  intro inputs inputs' hinputs
  apply Along.combined hinputs

theorem local_smoothClamped : smoothClamped.Local type flaw
  := by
  intro s ps ps' hs
  apply (follows_number _ _).bind
  rintro width _ ⟨-, rfl⟩
  apply (follows_input _ .refl).bind
  intro values values' hvalues
  apply (follows_number _ _).bind
  rintro low _ ⟨-, rfl⟩
  apply (follows_number _ _).map
  rintro high _ ⟨-, rfl⟩
  apply hvalues.map

theorem local_smoothBounded (f : Float → Float → Float → Float) (default : Float) :
  (smoothBounded f default).Local type flaw
  := by
  intro s ps ps' hs
  apply (follows_number _ _).bind
  rintro width _ ⟨-, rfl⟩
  apply (follows_input _ .refl).bind
  intro values values' hvalues
  apply (follows_number _ _).map
  rintro threshold _ ⟨-, rfl⟩
  apply hvalues.map

theorem local_arithmetic (flaw : Flaw) : ∀ entry ∈ arithmetic, entry.2.Local entry.1 flaw
  := by
  simp only [arithmetic, List.forall_mem_cons, List.not_mem_nil, false_imp_iff, forall_const,
    local_unary, local_forward, local_smoothClamped, local_smoothBounded, local_smoothReduced,
    local_constantOf, local_always, local_imported, local_folded, local_repeated,
    local_weightedSum, local_modulo, local_scaled, local_signedPower, local_binary, local_clamped,
    local_normalized, local_linear, local_chosen, local_interpolated, local_reduced,
    local_averaged, local_blended, local_selected, local_curved, local_splined, and_self]

/-! ### Places -/

theorem local_placed (f : Point → Float) : (placed f).Local type flaw
  := fun _ _ _ _ => .pure (.of f)

theorem local_axisDistance : axisDistance.Local type flaw
  := by
  intro s ps ps' hs
  apply (follows_field _).bind
  rintro v _ ⟨-, rfl⟩
  apply (Follows.reread v.spelled).map
  rintro axis _ ⟨-, rfl⟩
  apply Along.of

theorem local_fromPoint (f : Point → Point → Float) : (fromPoint f).Local type flaw
  := by
  intro s ps ps' hs
  apply (follows_field _).bind
  rintro v _ ⟨-, rfl⟩
  apply (Follows.reread v.coerceXYZ).map
  rintro center _ ⟨-, rfl⟩
  apply Along.of

theorem local_curvedDistance : curvedDistance.Local type flaw
  := fun _ _ _ hs => hs.follows_alongCurve _ (.of _)

theorem local_coordinates (flaw : Flaw) : ∀ entry ∈ coordinates, entry.2.Local entry.1 flaw
  := by
  simp only [coordinates, List.forall_mem_cons, List.not_mem_nil, false_imp_iff, forall_const,
    local_placed, local_axisDistance, local_fromPoint, local_curvedDistance, and_self]

/-! ### Noise -/

/-- The number of a field is the one that the field gives. -/
theorem Scope.given_of_number {s : Scope} {key : String} {default x : Float}
    (h : s.number key default = .ok x) :
  s.given key default = x
  := by
  cases hfields : s.fields with
  | obj fields =>
    simp only [number, field, hfields, Json.members, Fault.ok_bind, Fault.pure_eq_ok,
      Json.coerce_eq] at h
    split at h
    · cases h
    · rw [given, hfields]
      exact Except.ok.inj h
  | null | bool _ | int _ | float _ | str _ | arr _ =>
    rw [number, field, hfields] at h
    cases h

/-- The octaves of a node are those that its fields give. -/
theorem Scope.fractal_of_fractalOf {s : Scope} {octaves : Float} {f : Fractal}
    (h : fractalOf s octaves = .ok f) :
  s.fractal octaves = f
  := by
  simp only [fractalOf, octavesOf, bind_assoc, Fault.pure_eq_ok, Fault.ok_bind,
    Fault.bind_eq_ok_iff] at h
  obtain ⟨frequency, hfrequency, n, hn, count, hcount, lacunarity, hlacunarity, gain, hgain, h⟩ := h
  rw [← Except.ok.inj h, fractal, Scope.octaves, given_of_number hfrequency, given_of_number hn,
    given_of_number hlacunarity, given_of_number hgain]
  rw [Json.toInt] at hcount
  split at hcount
  · next htruncate => rw [htruncate, Option.getD_some, Except.ok.inj hcount]
  · cases hcount

/-- Where simplex noise strays for some points in octaves, with the frequency of a node. -/
def Flaw.strays (domain : Domain) (default : Float) : Flaw := fun s points =>
  Fractal.Strays (s.octaves default) (s.given "Frequency" 0.01) (s.given "Lacunarity" 2.0)
    domain.dimension (points.map domain.place)

/-- Where simplex noise with ridges strays for some points. -/
def Flaw.ridgeStrays (domain : Domain) : Flaw := fun s points =>
  Fractal.Strays (s.octaves 1.0) (s.given "Frequency" 0.01) 2.0 domain.dimension
    (points.map domain.place)

/-- Where simplex noise strays for some points as a warp samples it. -/
def Flaw.warpStrays (domain : Domain) : Flaw := fun s points =>
  Simplex.Strays domain.dimension (placesAt domain (s.given "Frequency" 0.01) points)

theorem Domain.length_place (domain : Domain) (p : Point) :
  (domain.place p).length = domain.dimension
  := by
  cases domain <;> rfl

theorem Domain.length_of_mem_map (domain : Domain) (points : List Point) :
  ∀ p ∈ points.map domain.place, p.length = domain.dimension
  := by
  simp [domain.length_place]

/-- A noise that is a function of the place is one of the point. -/
theorem follows_noise {K : Pairing (String × List Point) (List Float)} {noise : Sampler}
    {dimension : Nat} (h : noise.Pointwise dimension) {place : Point → Place}
    (hplace : ∀ p, (place p).length = dimension) {P : List Place → Prop}
    (hfails : ∀ places, Fault.FailsIf (noise places) (P places)) {flaw : Prop}
    {ps ps' : List Point} (hflaw : ¬ P (ps.map place) → P (ps'.map place) → flaw) :
  Follows K (Along ps ps') flaw (fun _ => noise (ps.map place)) (fun _ => noise (ps'.map place))
  := by
  obtain ⟨f, hf⟩ := h
  have hlength : ∀ qs : List Point, ∀ p ∈ qs.map place, p.length = dimension := by
    intro qs
    simp [hplace]
  apply Follows.read
  · intro values values' hvalues hvalues'
    rw [hf _ _ (hlength ps) hvalues, hf _ _ (hlength ps') hvalues', List.map_map, List.map_map]
    apply Along.of
  · intro values e hvalues he
    apply hflaw
    · exact (hfails _).succeeds_iff.mp ⟨values, hvalues⟩
    · exact (hfails _).fails_iff.mp ⟨e, he⟩

/-- The simplex noise of a node is that of a seed. -/
theorem exists_of_simplex {s : Scope} {domain : Domain} {noise : Sampler}
    (h : simplex s domain = .ok noise) :
  ∃ seed, noise = Simplex.sampler seed domain.dimension
  := by
  obtain ⟨seed, -, h⟩ := Fault.bind_eq_ok_iff.mp h
  exact ⟨seed, (Except.ok.inj h).symm⟩

/-- The octaves of simplex noise are a function of the point. -/
theorem follows_octaves (s : Scope) (octaves : Float) (seed : Int) (domain : Domain)
    (ps ps' : List Point) :
  Follows (s.sources ps ps') (Along ps ps') (ps' ⊆ ps → Flaw.strays domain octaves s ps')
    (fun _ => (s.fractal octaves).sum (Simplex.sampler seed domain.dimension)
      (ps.map domain.place))
    (fun _ => (s.fractal octaves).sum (Simplex.sampler seed domain.dimension)
      (ps'.map domain.place))
  := by
  apply follows_noise _ domain.length_place
  · apply Fractal.failsIf_sum _ _ _ _ (Simplex.failsIf_sampler _ _)
  · intro h h' hsub
    apply Fractal.strays h h' (domain.length_of_mem_map ps) (List.map_subset _ hsub)
  · apply Fractal.pointwise_sum (Simplex.pointwise_sampler seed domain.dimension)

theorem local_simplexNoise (domain : Domain) :
  (simplexNoise domain).Local type (.strays domain 1.0)
  := by
  intro s ps ps' hs
  apply (follows_fractalOf _).bind
  rintro f _ ⟨hf, rfl⟩
  obtain rfl := fractal_of_fractalOf hf
  apply (follows_simplex _).bind
  rintro noise _ ⟨hnoise, rfl⟩
  obtain ⟨seed, rfl⟩ := exists_of_simplex hnoise
  apply (follows_octaves s 1.0 seed domain ps ps').bind
  intro values values' hvalues
  apply follows_amplified hvalues

theorem local_ridgeNoise (domain : Domain) :
  (ridgeNoise domain).Local type (.ridgeStrays domain)
  := by
  intro s ps ps' hs
  apply (follows_fractalOf _).bind
  rintro f _ ⟨hf, rfl⟩
  obtain rfl := fractal_of_fractalOf hf
  apply (follows_simplex _).bind
  rintro noise _ ⟨hnoise, rfl⟩
  obtain ⟨seed, rfl⟩ := exists_of_simplex hnoise
  apply Follows.bind (R := Along ps ps')
  · apply follows_noise _ domain.length_place
    · apply Fractal.failsIf_ridged _ _ (Simplex.failsIf_sampler _ _)
    · intro h h' hsub
      apply Fractal.strays h h' (domain.length_of_mem_map ps) (List.map_subset _ hsub)
    · apply Fractal.pointwise_ridged (Simplex.pointwise_sampler seed domain.dimension)
  · intro values values' hvalues
    apply follows_amplified hvalues

theorem local_fractalNoise (domain : Domain) :
  (fractalNoise domain).Local type (.strays domain 4.0)
  := by
  intro s ps ps' hs
  apply (follows_fractalOf _).bind
  rintro f _ ⟨hf, rfl⟩
  obtain rfl := fractal_of_fractalOf hf
  apply (follows_simplex _).bind
  rintro noise _ ⟨hnoise, rfl⟩
  obtain ⟨seed, rfl⟩ := exists_of_simplex hnoise
  apply follows_octaves s 4.0 seed domain ps ps'

theorem local_cellularNoise (domain : Domain) : (cellularNoise domain).Local type flaw
  := by
  intro s ps ps' hs
  have hsampler : ∀ seed measure jitter places,
      Fault.FailsIf (Cellular.sampler seed measure jitter places) False :=
    fun _ _ _ _ => .of_ok rfl
  apply (follows_fractalOf _).bind
  rintro f _ ⟨hf, rfl⟩
  obtain rfl := fractal_of_fractalOf hf
  apply follows_noiseSeed.bind
  rintro seed _ ⟨-, rfl⟩
  apply follows_measureOf.bind
  rintro measure _ ⟨-, rfl⟩
  apply (follows_number _ _).bind
  rintro jitter _ ⟨-, rfl⟩
  apply Follows.bind (R := Along ps ps')
  · apply follows_noise _ domain.length_place
    · apply Fractal.failsIf_sum _ _ _ _ (hsampler seed measure jitter)
    · simp
    · apply Fractal.pointwise_sum (Cellular.pointwise_sampler seed measure jitter _)
  · intro values values' hvalues
    apply (follows_field _).bind
    rintro returned _ ⟨-, rfl⟩
    split
    · apply hs.follows_alongCurve _ hvalues
    · apply (follows_input _ .refl).map
      intro factors factors' hfactors
      apply hfactors.zipWith hvalues
    · exact .pure hvalues

/-! ### Warps -/

theorem local_atImages (move : Point → Point) : (atImages move).Local type flaw
  := fun _ _ _ _ => follows_input "Input" (.of move)

/-- Points that are moved by the number of a field. -/
theorem local_displaced (key : String) (default : Float) (move : Float → Point → Point) :
  Handler.Local type (fun s points => do
      let x ← s.number key default
      atImages (move x) s points) flaw
  := by
  intro s ps ps' hs
  apply (follows_number _ _).bind
  rintro x _ ⟨-, rfl⟩
  apply local_atImages (move x) s _ _ hs

theorem local_xOverride : xOverride.Local type flaw
  := local_displaced "OverrideX" 0.0 fun x p => { p with x }

theorem local_zOverride : zOverride.Local type flaw
  := local_displaced "OverrideZ" 0.0 fun z p => { p with z }

theorem local_twist : twist.Local type flaw := local_displaced "Angle" 0.0 twisted

theorem local_pinch : pinch.Local type flaw := local_displaced "Strength" 1.0 pinched

theorem local_yOverride : yOverride.Local type flaw
  := by
  intro s ps ps' hs
  apply (follows_numberOf _ _ _).bind
  rintro y _ ⟨-, rfl⟩
  apply local_atImages (fun p => { p with y }) s _ _ hs

theorem local_ySampled : ySampled.Local type flaw
  := by
  intro s ps ps' hs
  apply follows_ite
  · apply (follows_input _ .refl).bind
    intro heights heights' hheights
    exact follows_input _ (Along.refl.zipWith hheights _)
  · apply (follows_number _ _).bind
    rintro distance _ ⟨-, rfl⟩
    apply (follows_number _ _).bind
    rintro offset _ ⟨-, rfl⟩
    apply local_atImages (fun p => { p with y := sampledHeight distance offset p.y }) s _ _ hs

/-- The warp source is asked for at four places, or at six. -/
theorem local_gradientWarp : gradientWarp.Local type flaw
  := by
  intro s ps ps' hs
  simp only [gradientWarp]
  apply (follows_numberOf _ _ _).bind
  rintro factor _ ⟨-, rfl⟩
  apply (follows_number _ _).bind
  rintro reach _ ⟨-, rfl⟩
  apply (follows_field _).bind
  rintro (_ | (_ | _) | _ | _ | _ | _ | _) _ ⟨-, rfl⟩
  case bool.true =>
    apply (follows_number _ _).bind
    rintro height _ ⟨-, rfl⟩
    apply (follows_slope _ _ _).bind
    intro alongX alongX' halongX
    apply (follows_slope _ _ _).bind
    intro alongZ alongZ' halongZ
    exact follows_input _ (Along.refl.zipWith (halongX.zip halongZ) _)
  all_goals
    -- no height is read, and the gradient has a third part
    apply (Follows.reread (.ok 0.0)).bind
    rintro height _ ⟨-, rfl⟩
    apply (follows_slope _ _ _).bind
    intro alongX alongX' halongX
    apply (follows_slope _ _ _).bind
    intro alongZ alongZ' halongZ
    apply (follows_slope _ _ _).bind
    intro alongY alongY' halongY
    exact follows_input _ ((Along.refl.zipWith (halongX.zip halongZ) _).zipWith halongY _)

/-- The displacements by noise are a function of the point. -/
theorem follows_displacements (s : Scope) (domain : Domain) (seed : Int) (amplitude : Float)
    (ps ps' : List Point) :
  Follows (s.sources ps ps') (Along ps ps') (ps' ⊆ ps → Flaw.warpStrays domain s ps')
    (fun _ => displacements domain seed amplitude
      (placesAt domain (s.given "Frequency" 0.01) ps))
    (fun _ => displacements domain seed amplitude
      (placesAt domain (s.given "Frequency" 0.01) ps'))
  := by
  have hplace : ∀ p : Point, (domain.place ⟨p.x * s.given "Frequency" 0.01,
      p.y * s.given "Frequency" 0.01, p.z * s.given "Frequency" 0.01⟩).length
        = domain.dimension := fun p => domain.length_place _
  apply Follows.map (R := Along ps ps')
  · apply follows_noise (Simplex.pointwise_sampler seed _) hplace (Simplex.failsIf_sampler _ _)
    intro h h' hsub
    apply Simplex.strays h h' _ (List.map_subset _ hsub)
    simp [hplace]
  · intro values values' hvalues
    apply hvalues.map

theorem local_planeWarp : planeWarp.Local type (.warpStrays .plane)
  := by
  intro s ps ps' hs
  apply (follows_number _ _).bind
  rintro amplitude _ ⟨-, rfl⟩
  apply (follows_number _ _).bind
  rintro frequency _ ⟨hfrequency, rfl⟩
  obtain rfl := given_of_number hfrequency
  apply follows_noiseSeed.bind
  rintro seed _ ⟨-, rfl⟩
  apply (follows_displacements s .plane seed amplitude ps ps').bind
  intro wx wx' hwx
  apply (follows_displacements s .plane _ amplitude ps ps').bind
  intro wz wz' hwz
  exact follows_input _ (Along.refl.zipWith (hwx.zip hwz) _)

theorem local_spaceWarp : spaceWarp.Local type (.warpStrays .space)
  := by
  intro s ps ps' hs
  apply (follows_number _ _).bind
  rintro amplitude _ ⟨-, rfl⟩
  apply (follows_number _ _).bind
  rintro frequency _ ⟨hfrequency, rfl⟩
  obtain rfl := given_of_number hfrequency
  apply follows_noiseSeed.bind
  rintro seed _ ⟨-, rfl⟩
  apply (follows_displacements s .space seed amplitude ps ps').bind
  intro wx wx' hwx
  apply (follows_displacements s .space _ amplitude ps ps').bind
  intro wy wy' hwy
  apply (follows_displacements s .space _ amplitude ps ps').bind
  intro wz wz' hwz
  exact follows_input _ (Along.refl.zipWith (hwx.zip (hwy.zip hwz)) _)

/-! ### All types -/

/-- An unknown type hands on a source. -/
theorem local_unknown : unknown.Local type flaw
  := by
  intro s ps ps' hs
  have hports : ∀ replies, forwardedPorts.find? (s.answered replies).has
      = forwardedPorts.find? s.has := fun _ => rfl
  simp only [unknown, hports]
  cases forwardedPorts.find? s.has with
  | none => exact .pure (.of _)
  | some port => exact follows_input _ .refl

/-- Where the noise of the types can stray. -/
def strays : List (String × Flaw) :=
  [("SimplexNoise2D", .strays .plane 1.0), ("SimplexNoise3D", .strays .space 1.0),
    ("SimplexRidgeNoise2D", .ridgeStrays .plane), ("SimplexRidgeNoise3D", .ridgeStrays .space),
    ("FractalNoise2D", .strays .plane 4.0), ("FractalNoise3D", .strays .space 4.0),
    ("DomainWarp2D", .warpStrays .plane), ("DomainWarp3D", .warpStrays .space)]

/-- Where the noise of a type can stray; other types have none. -/
def straysOf (type : String) : Flaw := (Entries.find? strays type).getD .never

theorem local_noises : ∀ entry ∈ noises, entry.2.Local entry.1 (straysOf entry.1)
  := by
  simp only [noises, List.forall_mem_cons, List.not_mem_nil, false_imp_iff, forall_const, and_true]
  exact ⟨local_simplexNoise .plane, local_simplexNoise .space, local_ridgeNoise .plane,
    local_ridgeNoise .space, local_fractalNoise .plane, local_fractalNoise .space,
    local_cellularNoise .plane, local_cellularNoise .space⟩

theorem local_warps : ∀ entry ∈ warps, entry.2.Local entry.1 (straysOf entry.1)
  := by
  simp only [warps, List.forall_mem_cons, List.not_mem_nil, false_imp_iff, forall_const, and_true]
  exact ⟨local_xOverride, local_yOverride, local_zOverride, local_ySampled, local_gradientWarp,
    local_planeWarp, local_spaceWarp, local_twist, local_pinch⟩

/-- The handler of a type follows at some points what it does at others, as long as the curves of
the node are steady and its noise does not stray. -/
theorem local_handlerOf (type : String) : (handlerOf type).Local type (straysOf type)
  := by
  have hhandlers : ∀ entry ∈ handlers, entry.2.Local entry.1 (straysOf entry.1) := by
    simp only [handlers, List.forall_mem_append, List.forall_mem_map, local_always, implies_true,
      and_true]
    exact ⟨⟨⟨fun entry => local_arithmetic _ entry, fun entry => local_coordinates _ entry⟩,
      local_noises⟩, local_warps⟩
  rw [handlerOf]
  cases hfind : Entries.find? handlers type with
  | none => apply local_unknown
  | some handler =>
    exact hhandlers _ (Entries.entry_mem_of_find? hfind)

end Density

end AssetCanvas
