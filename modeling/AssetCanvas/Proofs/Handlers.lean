import AssetCanvas.Preview.Density
import AssetCanvas.Proofs.Entries
import AssetCanvas.Proofs.Fault
import AssetCanvas.Proofs.Ports

/-!
# What handlers depend on

A handler consults the fields and the seed of its scope, and the sources of some ports: named
ones, and the items of `Inputs`.  Two scopes agree, `Scope.Agrees`, if they are the same in this
respect.  Every type of node computes the same densities in scopes that agree:
`respects_handlerOf`.
-/

namespace AssetCanvas.Density

/-- Whether a port is no item of an array other than `Inputs`. -/
def Consulted (port : String) : Prop :=
  ∀ field index, port = Port.slot field index → field = "Inputs"

theorem consulted_of_name {port : String} (h : port.toList.getLast? ≠ some ']') : Consulted port
  := by
  rintro field index rfl
  exact (h (Port.getLast?_slot field index)).elim

theorem consulted_slot (index : Nat) : Consulted (Port.slot "Inputs" index)
  := by
  intro field index' h
  exact (Port.slot_inj.mp h).1.symm

namespace Scope

/-- Two scopes that hold the same for the eyes of handlers: the same fields, the same seed, and the
same densities and curves of the sources of the ports that are consulted. -/
structure Agrees (s s' : Scope) : Prop where
  fields : s.fields = s'.fields ∨ ∃ own own', s.fields = .obj own ∧ s'.fields = .obj own'
    ∧ ∀ key : String, Entries.find? own (.text key) = Entries.find? own' (.text key)
  seed : s.seed = s'.seed
  has : ∀ port, Consulted port → s.has port = s'.has port
  input : ∀ port, Consulted port → s.input port = s'.input port
  curve : ∀ port, Consulted port → s.curve? port = s'.curve? port
  indexed : s.indexedPorts = s'.indexedPorts

namespace Agrees

variable {s s' : Scope}

theorem field (h : s.Agrees s') (key : String) : s.field key = s'.field key
  := by
  rcases h.fields with hsame | ⟨own, own', hs, hs', hfind⟩
  · rw [Scope.field, Scope.field, hsame]
  · simp only [Scope.field, hs, hs', Json.members, Fault.ok_bind, Json.field, hfind]

theorem number (h : s.Agrees s') (key : String) (default : Float) :
  s.number key default = s'.number key default
  := by
  simp only [Scope.number, h.field]

theorem numberOf (h : s.Agrees s') (key older : String) (default : Float) :
  s.numberOf key older default = s'.numberOf key older default
  := by
  rcases h.fields with hsame | ⟨own, own', hs, hs', hfind⟩
  · simp only [Scope.numberOf, hsame, h.number]
  · have hcontains : Entries.contains own (.text key) = Entries.contains own' (.text key) := by
      rw [Entries.contains, Entries.contains, hfind]
    simp only [Scope.numberOf, hs, hs', Json.members, Fault.ok_bind, hcontains, h.number]

theorem has_of_name (h : s.Agrees s') {port : String} (hp : port.toList.getLast? ≠ some ']') :
  s.has port = s'.has port
  := h.has port (consulted_of_name hp)

theorem input_of_name (h : s.Agrees s') {port : String} (hp : port.toList.getLast? ≠ some ']') :
  s.input port = s'.input port
  := h.input port (consulted_of_name hp)

theorem input_slot (h : s.Agrees s') (index : Nat) :
  s.input (Port.slot "Inputs" index) = s'.input (Port.slot "Inputs" index)
  := h.input _ (consulted_slot index)

theorem alongCurve (h : s.Agrees s') {port : String} (hp : port.toList.getLast? ≠ some ']') :
  s.alongCurve port = s'.alongCurve port
  := by
  funext values
  rw [Scope.alongCurve, h.curve port (consulted_of_name hp), Scope.alongCurve]

/-- The indexed ports are items of `Inputs`. -/
theorem consulted_of_mem {port : String} (hp : port ∈ s.indexedPorts) : Consulted port
  := by
  obtain ⟨index, -, rfl⟩ := List.mem_map.mp (List.takeWhile_sublist _ |>.subset hp)
  apply consulted_slot

theorem indexedInputs (h : s.Agrees s') : s.indexedInputs = s'.indexedInputs
  := by
  funext points
  rw [Scope.indexedInputs, Scope.indexedInputs, ← h.indexed]
  apply Fault.mapM_congr
  intro port hp
  rw [h.input port (consulted_of_mem hp)]

end Agrees

end Scope

/-- Whether a handler computes the same densities in scopes that agree. -/
def Respects (handler : Handler) : Prop :=
  ∀ s s' : Scope, s.Agrees s' → handler s = handler s'

/-! ### Arithmetic -/

theorem respects_constantOf (key : String) : Respects (constantOf key)
  := by
  intro s s' h
  funext points
  simp only [constantOf, h.number]

theorem respects_always (density : Float) : Respects (always density) := fun _ _ _ => rfl

theorem respects_forward : Respects forward
  := by
  intro s s' h
  funext points
  simp (disch := decide) only [forward, h.input_of_name]

theorem respects_imported : Respects imported
  := by
  intro s s' h
  funext points
  simp (disch := decide) only [imported, h.has_of_name, respects_forward s s' h,
    respects_constantOf _ s s' h]

theorem respects_unary (f : Float → Float) : Respects (unary f)
  := by
  intro s s' h
  funext points
  simp (disch := decide) only [unary, h.input_of_name]

theorem respects_signedPower : Respects signedPower
  := by
  intro s s' h
  funext points
  simp (disch := decide) only [signedPower, h.input_of_name, h.number]

theorem respects_repeated : Respects repeated
  := by
  intro s s' h
  funext points
  simp (disch := decide) only [repeated, h.input_of_name, h.number]

theorem respects_modulo : Respects modulo
  := by
  intro s s' h
  funext points
  simp (disch := decide) only [modulo, h.input_of_name, h.number]

theorem respects_scaled : Respects scaled
  := by
  intro s s' h
  funext points
  simp (disch := decide) only [scaled, h.input_of_name, h.number]

theorem respects_linear : Respects linear
  := by
  intro s s' h
  funext points
  simp (disch := decide) only [linear, h.input_of_name, h.number]

theorem respects_clamped (low high : Float) (f : Float → Float) : Respects (clamped low high f)
  := by
  intro s s' h
  funext points
  simp (disch := decide) only [clamped, h.input_of_name, h.number]

theorem respects_normalized : Respects normalized
  := by
  intro s s' h
  funext points
  simp (disch := decide) only [normalized, h.input_of_name, h.field]

theorem respects_curved : Respects curved
  := by
  intro s s' h
  funext points
  simp (disch := decide) only [curved, h.input_of_name, h.alongCurve]

theorem respects_splined : Respects splined
  := by
  intro s s' h
  funext points
  simp (disch := decide) only [splined, h.input_of_name, h.field]

/-- The ports of a combination are names. -/
theorem respects_binary (f : Float → Float → Float) {port port' : String}
    (hp : port.toList.getLast? ≠ some ']') (hp' : port'.toList.getLast? ≠ some ']') :
  Respects (binary f port port')
  := by
  intro s s' h
  funext points
  simp only [binary, h.input_of_name hp, h.input_of_name hp']

theorem respects_interpolated : Respects interpolated
  := by
  intro s s' h
  funext points
  simp (disch := decide) only [interpolated, h.input_of_name]

theorem respects_blended : Respects blended
  := by
  intro s s' h
  funext points
  simp (disch := decide) only [blended, h.input_of_name, h.has_of_name]

theorem respects_chosen (default : Float) : Respects (chosen default)
  := by
  intro s s' h
  funext points
  simp (disch := decide) only [chosen, h.input_of_name, h.number]

theorem respects_selected : Respects selected
  := by
  intro s s' h
  funext points
  simp only [selected, h.input_slot, h.number]

theorem respects_folded (f : Float → Float → Float) (start : Float) : Respects (folded f start)
  := by
  intro s s' h
  funext points
  simp only [folded, h.indexedInputs]

theorem respects_reduced (f : Float → Float → Float) : Respects (reduced f)
  := by
  intro s s' h
  funext points
  simp only [reduced, h.indexedInputs]

theorem respects_averaged : Respects averaged
  := by
  intro s s' h
  funext points
  simp only [averaged, h.indexedInputs]

theorem respects_weightedSum : Respects weightedSum
  := by
  intro s s' h
  funext points
  have hterms : ∀ weights, s.indexedPorts.zipIdx.mapM (weighted s weights points)
      = s'.indexedPorts.zipIdx.mapM (weighted s' weights points) := by
    intro weights
    rw [← h.indexed]
    apply Fault.mapM_congr
    intro port hport
    have hconsulted := Scope.Agrees.consulted_of_mem (List.fst_mem_of_mem_zipIdx hport)
    rw [weighted, weighted, h.input port.1 hconsulted]
  simp only [weightedSum, h.field, hterms]

theorem respects_smoothReduced (f : Float → Float → Float → Float) : Respects (smoothReduced f)
  := by
  intro s s' h
  funext points
  simp only [smoothReduced, h.indexedInputs, h.number]

theorem respects_smoothClamped : Respects smoothClamped
  := by
  intro s s' h
  funext points
  simp (disch := decide) only [smoothClamped, h.input_of_name, h.number]

theorem respects_smoothBounded (f : Float → Float → Float → Float) (default : Float) :
  Respects (smoothBounded f default)
  := by
  intro s s' h
  funext points
  simp (disch := decide) only [smoothBounded, h.input_of_name, h.number]

theorem respects_arithmetic : ∀ entry ∈ arithmetic, Respects entry.2
  := by
  simp (disch := decide) only [arithmetic, List.forall_mem_cons, List.not_mem_nil, false_imp_iff,
    forall_const, respects_unary, respects_forward, respects_smoothClamped,
    respects_smoothBounded, respects_smoothReduced, respects_constantOf, respects_always,
    respects_imported, respects_folded, respects_repeated, respects_weightedSum, respects_modulo,
    respects_scaled, respects_signedPower, respects_binary, respects_clamped,
    respects_normalized, respects_linear, respects_chosen, respects_interpolated,
    respects_reduced, respects_averaged, respects_blended, respects_selected, respects_curved,
    respects_splined, and_self]

/-! ### Places -/

theorem respects_placed (f : Point → Float) : Respects (placed f) := fun _ _ _ => rfl

theorem respects_axisDistance : Respects axisDistance
  := by
  intro s s' h
  funext points
  simp only [axisDistance, h.field]

theorem respects_fromPoint (f : Point → Point → Float) : Respects (fromPoint f)
  := by
  intro s s' h
  funext points
  simp only [fromPoint, h.field]

theorem respects_curvedDistance : Respects curvedDistance
  := by
  intro s s' h
  funext points
  simp (disch := decide) only [curvedDistance, h.alongCurve]

theorem respects_coordinates : ∀ entry ∈ coordinates, Respects entry.2
  := by
  simp only [coordinates, List.forall_mem_cons, List.not_mem_nil, false_imp_iff, forall_const,
    respects_placed, respects_axisDistance, respects_fromPoint, respects_curvedDistance, and_self]

/-! ### Noise -/

section Noise

variable {s s' : Scope} (h : s.Agrees s')

include h

theorem fractalOf_congr (octaves : Float) : fractalOf s octaves = fractalOf s' octaves
  := by
  simp only [fractalOf, octavesOf, h.number]

theorem noiseSeed_congr : noiseSeed s = noiseSeed s'
  := by
  simp only [noiseSeed, h.field, h.seed]

theorem simplex_congr (domain : Domain) : simplex s domain = simplex s' domain
  := by
  simp only [simplex, noiseSeed_congr h]

theorem amplified_congr (values : List Float) : amplified s values = amplified s' values
  := by
  simp only [amplified, h.number]

theorem measureOf_congr : measureOf s = measureOf s'
  := by
  simp only [measureOf, h.field]

end Noise

theorem respects_simplexNoise (domain : Domain) : Respects (simplexNoise domain)
  := by
  intro s s' h
  funext points
  simp only [simplexNoise, fractalOf_congr h, simplex_congr h, amplified_congr h]

theorem respects_ridgeNoise (domain : Domain) : Respects (ridgeNoise domain)
  := by
  intro s s' h
  funext points
  simp only [ridgeNoise, fractalOf_congr h, simplex_congr h, amplified_congr h]

theorem respects_fractalNoise (domain : Domain) : Respects (fractalNoise domain)
  := by
  intro s s' h
  funext points
  simp only [fractalNoise, fractalOf_congr h, simplex_congr h]

theorem respects_cellularNoise (domain : Domain) : Respects (cellularNoise domain)
  := by
  intro s s' h
  funext points
  simp (disch := decide) only [cellularNoise, fractalOf_congr h, noiseSeed_congr h,
    measureOf_congr h, h.number, h.field, h.alongCurve, h.input_of_name]

theorem respects_noises : ∀ entry ∈ noises, Respects entry.2
  := by
  simp only [noises, List.forall_mem_cons, List.not_mem_nil, false_imp_iff, forall_const,
    respects_simplexNoise, respects_ridgeNoise, respects_fractalNoise, respects_cellularNoise,
    and_self]

/-! ### Warps -/

theorem respects_atImages (move : Point → Point) : Respects (atImages move)
  := by
  intro s s' h
  funext points
  simp (disch := decide) only [atImages, h.input_of_name]

theorem respects_xOverride : Respects xOverride
  := by
  intro s s' h
  funext points
  simp only [xOverride, h.number, respects_atImages _ s s' h]

theorem respects_yOverride : Respects yOverride
  := by
  intro s s' h
  funext points
  simp only [yOverride, h.numberOf, respects_atImages _ s s' h]

theorem respects_zOverride : Respects zOverride
  := by
  intro s s' h
  funext points
  simp only [zOverride, h.number, respects_atImages _ s s' h]

theorem respects_ySampled : Respects ySampled
  := by
  intro s s' h
  funext points
  simp (disch := decide) only [ySampled, h.has_of_name, h.input_of_name, h.number,
    respects_atImages _ s s' h]

theorem respects_gradientWarp : Respects gradientWarp
  := by
  intro s s' h
  funext points
  simp (disch := decide) only [gradientWarp, slope, h.numberOf, h.number, h.field,
    h.input_of_name]

theorem respects_planeWarp : Respects planeWarp
  := by
  intro s s' h
  funext points
  simp (disch := decide) only [planeWarp, h.number, noiseSeed_congr h, h.input_of_name]

theorem respects_spaceWarp : Respects spaceWarp
  := by
  intro s s' h
  funext points
  simp (disch := decide) only [spaceWarp, h.number, noiseSeed_congr h, h.input_of_name]

theorem respects_twist : Respects twist
  := by
  intro s s' h
  funext points
  simp only [twist, h.number, respects_atImages _ s s' h]

theorem respects_pinch : Respects pinch
  := by
  intro s s' h
  funext points
  simp only [pinch, h.number, respects_atImages _ s s' h]

theorem respects_warps : ∀ entry ∈ warps, Respects entry.2
  := by
  simp only [warps, List.forall_mem_cons, List.not_mem_nil, false_imp_iff, forall_const,
    respects_xOverride, respects_yOverride, respects_zOverride, respects_ySampled,
    respects_gradientWarp, respects_planeWarp, respects_spaceWarp, respects_twist,
    respects_pinch, and_self]

/-! ### All types -/

/-- An unknown type looks for its source under the ports that it forwards. -/
theorem respects_unknown : Respects unknown
  := by
  intro s s' h
  funext points
  have hconsulted : ∀ port ∈ forwardedPorts, Consulted port := by
    intro port hp
    rcases List.mem_cons.mp hp with rfl | hp
    · apply consulted_of_name
      decide
    · rw [List.mem_singleton.mp hp]
      apply consulted_slot 0
  have hfind : forwardedPorts.find? s.has = forwardedPorts.find? s'.has := by
    simp only [forwardedPorts, List.forall_mem_cons] at hconsulted ⊢
    simp only [List.find?_cons, List.find?_nil, h.has _ hconsulted.1, h.has _ hconsulted.2.1]
  simp only [unknown, hfind]
  cases hport : forwardedPorts.find? s'.has with
  | none => rfl
  | some port => simp only [h.input port (hconsulted port (List.mem_of_find?_eq_some hport))]

/-- Every type of node computes the same densities in scopes that agree. -/
theorem respects_handlerOf (type : String) : Respects (handlerOf type)
  := by
  have hhandlers : ∀ entry ∈ handlers, Respects entry.2 := by
    intro entry hmem
    simp only [handlers, List.mem_append, List.mem_map] at hmem
    rcases hmem with (((hmem | hmem) | hmem) | hmem) | ⟨type, -, rfl⟩
    · apply respects_arithmetic entry hmem
    · apply respects_coordinates entry hmem
    · apply respects_noises entry hmem
    · apply respects_warps entry hmem
    · apply respects_always
  rw [handlerOf]
  cases h : Entries.find? handlers type with
  | none => apply respects_unknown
  | some handler =>
    obtain ⟨type', -, hmem⟩ := Entries.mem_of_find? h
    apply hhandlers _ hmem

end AssetCanvas.Density
