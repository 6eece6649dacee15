import AssetCanvas.Proofs.DensityFlaws

/-!
# Failing handlers

A handler fails exactly if it asks for the densities of a source that fails, or the node has a flaw
of its type: `Density.failsIf_handlerOf`.  There is one lemma for each handler, which follows the
handler step by step: what it reads from the fields fails by the values there, and what it asks of
a source fails only by the answer.  The lemmas are put together along the tables of types, since
`Density.flaws` lists the types in the order of `Density.handlers`.
-/

namespace AssetCanvas

open Requests

theorem Curve.failsIf_pointsOf (points : List Json) :
  Fault.FailsIf (pointsOf points) (Huge (.arr points))
  := by
  induction points using pointsOf.induct with
  | case1 => exact (Fault.FailsIf.of_ok rfl).congr (by simp [Huge])
  | case2 rest fields ih =>
    apply Fault.FailsIf.congr
    · apply (Json.failsIf_coerce _ _).bind
      intro x _
      apply (Json.failsIf_coerce _ _).bind
      intro y _
      apply ih.map
    · simp [Huge, Json.HasHuge, Json.entry, or_assoc]
  | case3 rest a b others ih =>
    apply Fault.FailsIf.congr
    · apply (Json.failsIf_coerce _ _).bind
      intro x _
      apply (Json.failsIf_coerce _ _).bind
      intro y _
      apply ih.map
    · simp [Huge, or_assoc]
  | case4 v rest hobj harr ih =>
    rw [pointsOf]
    · apply ih.congr
      cases v with
      | arr items =>
        rcases items with _ | ⟨a, _ | ⟨b, others⟩⟩
        · simp [Huge]
        · simp [Huge]
        · exact (harr a b others rfl).elim
      | obj fields => exact (hobj fields rfl).elim
      | null | bool _ | int _ | float _ | str _ => simp [Huge]
    · exact hobj
    · exact harr

theorem Curve.failsIf_ofJson? (v : Json) : Fault.FailsIf (ofJson? v) (Huge v)
  := by
  cases v with
  | arr points => exact (failsIf_pointsOf points).map _
  | null | bool _ | int _ | float _ | str _ | obj _ =>
    exact (Fault.FailsIf.of_ok rfl).congr (by simp [Huge])

/-- The seed of a field is a fault exactly if the field has parts and no spelling. -/
theorem NoiseSeed.failsIf_ofField (field : Json) (base : Int) :
  Fault.FailsIf (ofField field base) (field.key? = none ∧ field.isSpellable = false)
  := by
  rw [ofField]
  cases hkey : field.key? with
  | some key => exact (Fault.FailsIf.of_ok rfl).congr (by simp)
  | none => exact ((Json.failsIf_spelled field).map _).congr (by simp)

namespace Density

namespace Scope

/-- A scope with an object of fields, among regular nodes. -/
structure Regular (s : Scope) : Prop where
  fields : ∃ fields, s.fields = .obj fields
  nodes : ∀ id n, Entries.find? s.nodes id = some n → n.Regular

/-- The densities of sources as answers to requests. -/
abbrev Replies := Answers (String × List Point) (List Float)

/-- A scope in which the densities of the sources are answers. -/
def answered (s : Scope) (replies : Replies) : Scope :=
  { s with evaluate := fun id points => replies (id, points) }

variable {s : Scope} {P Q : Prop} {α : Type}

theorem failsIf_input (s : Scope) (port : String) (points : List Point) :
  FailsIf (fun replies => (s.answered replies).input port points) False
  := by
  simp only [input, answered]
  cases Entries.find? s.inputs port with
  | none => exact .pure _
  | some source => exact .request (source, points)

theorem failsIf_indexedInputs (s : Scope) (points : List Point) :
  FailsIf (fun replies => (s.answered replies).indexedInputs points) False
  := by
  have hmapM : FailsIf (fun replies =>
      s.indexedPorts.mapM fun port => (s.answered replies).input port points)
      (∃ port ∈ s.indexedPorts, False) := FailsIf.mapM fun port _ => s.failsIf_input port points
  exact hmapM.congr (by simp)

/-- An operation that depends on whether a port has a source. -/
theorem failsIf_ite (s : Scope) (port : String) {operation operation' : Replies → Except Fault α}
    (h : FailsIf operation P) (h' : FailsIf operation' Q) :
  FailsIf (fun replies =>
      if (s.answered replies).has port = true then operation replies else operation' replies)
    (s.has port = true ∧ P ∨ s.has port = false ∧ Q)
  := by
  have hport : ∀ replies, (s.answered replies).has port = s.has port := fun _ => rfl
  cases hhas : s.has port with
  | true =>
    simp only [hport, hhas, if_true]
    exact h.congr (by simp)
  | false =>
    simp only [hport, hhas, Bool.false_eq_true, if_false]
    exact h'.congr (by simp)

/-- An operation that begins with a field. -/
theorem Regular.after_field (h : s.Regular) (key : String)
    {next : Json → Replies → Except Fault α} (hnext : FailsIf (next (s.fields.entry key)) P) :
  FailsIf (fun replies => (s.answered replies).field key >>= fun v => next v replies) P
  := by
  obtain ⟨fields, hfields⟩ := h.fields
  have hfield : ∀ replies, (s.answered replies).field key = .ok (s.fields.entry key) := by
    intro replies
    simp [field, answered, hfields, Json.members, Json.entry]
  simp only [hfield, Fault.ok_bind]
  exact hnext

/-- The number of a field is the one that the field gives, unless that is an integer beyond the
finite floats. -/
theorem Regular.number_eq (h : s.Regular) (key : String) (default : Float) :
  s.number key default
    = if (s.fields.entry key).Huge then .error .outOfRange else .ok (s.given key default)
  := by
  obtain ⟨fields, hfields⟩ := h.fields
  simp only [number, field, hfields, Json.members, Fault.ok_bind, Fault.pure_eq_ok, Json.coerce_eq,
    given, Json.entry]

/-- An operation that begins with the number of a field. -/
theorem Regular.after_number (h : s.Regular) (key : String) (default : Float)
    {next : Float → Replies → Except Fault α} (hnext : FailsIf (next (s.given key default)) P) :
  FailsIf (fun replies => (s.answered replies).number key default >>= fun x => next x replies)
    ((s.fields.entry key).Huge ∨ P)
  := by
  have hnumber : ∀ replies, (s.answered replies).number key default = s.number key default :=
    fun _ => rfl
  simp only [hnumber, h.number_eq]
  split
  · next hhuge => exact .read (.error (.inl hhuge) (.inl rfl))
  · next hhuge => exact hnext.congr (by simp [hhuge])

theorem Regular.of_source? (h : s.Regular) {port : String} {n : Node}
    (hsource : s.source? port = some n) :
  n.Regular
  := by
  rw [source?] at hsource
  split at hsource
  · split at hsource
    · cases hsource
    · exact h.nodes _ n hsource
  · cases hsource

theorem Regular.failsIf_curve? (h : s.Regular) (port : String) :
  Fault.FailsIf (s.curve? port) (s.HasHugeCurve port)
  := by
  rw [curve?]
  cases hsource : s.source? port with
  | none => exact (Fault.FailsIf.of_ok rfl).congr (by simp [HasHugeCurve, hsource])
  | some n =>
    obtain ⟨type, htype⟩ := (h.of_source? hsource).exists_typeName "Curve"
    obtain ⟨fields, hfields⟩ := (h.of_source? hsource).fields
    simp only [htype, hfields, Json.members, Fault.ok_bind]
    split
    · next hmanual =>
      apply (Curve.failsIf_ofJson? _).congr
      simp [HasHugeCurve, hsource, htype, hmanual, hfields, Json.entry]
    · next hmanual =>
      exact (Fault.FailsIf.of_ok rfl).congr (by simp [HasHugeCurve, hsource, htype, hmanual])

theorem Regular.failsIf_alongCurve (h : s.Regular) (port : String) (values : List Float) :
  FailsIf (fun replies => (s.answered replies).alongCurve port values) (s.HasHugeCurve port)
  := by
  have hcurve : Fault.FailsIf (s.alongCurve port values) (s.HasHugeCurve port) := by
    apply Fault.FailsIf.congr
    · apply (h.failsIf_curve? port).bind
      intro curve _
      cases curve with
      | none => exact .of_ok rfl
      | some c => exact .of_ok rfl
    · simp
  exact .read hcurve

end Scope

/-- Whether a handler fails exactly if it asks for the densities of a source that fails, or the
node has a flaw. -/
def Handler.FailsIf (handler : Handler) (flaw : Flaw) : Prop :=
  ∀ (s : Scope) (points : List Point), s.Regular →
    Requests.FailsIf (fun replies => handler (s.answered replies) points) (flaw s points)

/-! ### Arithmetic -/

theorem failsIf_constantOf (key : String) : (constantOf key).FailsIf (.huge [key])
  := by
  intro s points hs
  apply FailsIf.congr
  · apply hs.after_number
    apply FailsIf.pure
  · simp [Flaw.huge, Json.HasHuge]

theorem failsIf_always (density : Float) : (always density).FailsIf .never
  := fun _ _ _ => .pure _

theorem failsIf_forward : forward.FailsIf .never := fun s points _ => s.failsIf_input "Input" points

theorem failsIf_imported : imported.FailsIf (.without "Input" (.huge ["Value"]))
  := by
  intro s points hs
  apply FailsIf.congr
  · apply s.failsIf_ite
    · apply failsIf_forward s points hs
    · apply failsIf_constantOf "Value" s points hs
  · simp [Flaw.without, Flaw.never]

theorem failsIf_unary (f : Float → Float) : (unary f).FailsIf .never
  := fun s points _ => (s.failsIf_input "Input" points).map _

/-- Densities of the input that are changed with the number of a field. -/
theorem failsIf_adjusted (key : String) (default : Float) (f : Float → Float → Float) :
  Handler.FailsIf (fun s points => do
      let values ← s.input "Input" points
      let x ← s.number key default
      return values.map (f x)) (.huge [key])
  := by
  intro s points hs
  apply FailsIf.congr
  · apply (s.failsIf_input _ _).bind
    intro values
    apply hs.after_number
    apply FailsIf.pure
  · simp [Flaw.huge, Json.HasHuge]

theorem failsIf_signedPower : signedPower.FailsIf (.huge ["Exponent"])
  := failsIf_adjusted "Exponent" 2.0 fun exponent v => power v.abs exponent * sign v

theorem failsIf_repeated : repeated.FailsIf (.huge ["Count"])
  := failsIf_adjusted "Count" 2.0 fun count v => v * if count > 1.0 then count else 1.0

theorem failsIf_scaled : scaled.FailsIf (.huge ["Value"])
  := failsIf_adjusted "Value" 1.0 fun factor v => v * factor

theorem failsIf_modulo : modulo.FailsIf (.huge ["Divisor"])
  := by
  intro s points hs
  have hrest : FailsIf (fun replies =>
      if (s.given "Divisor" 1.0 != 0.0) = true then do
        return ((← (s.answered replies).input "Input" points)).map
          (Binary64.remainder · (s.given "Divisor" 1.0))
      else return constant 0.0 points) False := by
    split
    · apply (s.failsIf_input _ _).map
    · apply FailsIf.pure
  exact (hs.after_number _ _ hrest).congr (by simp [Flaw.huge, Json.HasHuge])

theorem failsIf_linear : linear.FailsIf (.huge ["Scale", "Offset"])
  := by
  intro s points hs
  apply FailsIf.congr
  · apply (s.failsIf_input _ _).bind
    intro values
    apply hs.after_number
    apply hs.after_number
    apply FailsIf.pure
  · simp [Flaw.huge, Json.HasHuge]

theorem failsIf_clamped (low high : Float) (f : Float → Float) :
  (clamped low high f).FailsIf (.huge ["Min", "Max"])
  := by
  intro s points hs
  apply FailsIf.congr
  · apply hs.after_number
    apply hs.after_number
    apply (s.failsIf_input _ _).map
  · simp [Flaw.huge, Json.HasHuge]

theorem failsIf_interval (v : Json) (low high : Float) :
  Fault.FailsIf (interval v low high) (v.HasHuge ["Min", "Max"])
  := by
  apply Fault.FailsIf.congr
  · apply (Json.failsIf_coerce _ _).bind
    intro low _
    apply (Json.failsIf_coerce _ _).map
  · cases v <;> simp [Json.HasHuge, Json.entry, Json.field, Entries.find?, Json.Huge]

theorem failsIf_normalized :
  normalized.FailsIf (.hugeParts ["SourceRange", "TargetRange"] ["Min", "Max"])
  := by
  intro s points hs
  apply FailsIf.congr
  · apply (s.failsIf_input _ _).bind
    intro values
    apply hs.after_field
    apply FailsIf.after (failsIf_interval _ _ _)
    intro source _
    apply hs.after_field
    apply FailsIf.after (failsIf_interval _ _ _)
    intro target _
    apply FailsIf.pure
  · simp [Flaw.hugeParts]

theorem failsIf_curved : curved.FailsIf (.hugeCurve "Curve")
  := by
  intro s points hs
  apply FailsIf.congr
  · apply (s.failsIf_input _ _).bind
    intro values
    apply hs.failsIf_alongCurve
  · simp [Flaw.hugeCurve]

theorem failsIf_splined : splined.FailsIf .hugeSpline
  := by
  intro s points hs
  apply FailsIf.congr
  · apply hs.after_field
    apply FailsIf.after (Curve.failsIf_ofJson? _)
    intro curve _
    cases curve with
    | none => apply s.failsIf_input
    | some c => apply (s.failsIf_input _ _).map
  · simp [Flaw.hugeSpline]

theorem failsIf_binary (f : Float → Float → Float) (port port' : String) :
  (binary f port port').FailsIf .never
  := by
  intro s points hs
  apply FailsIf.congr
  · apply (s.failsIf_input _ _).bind
    intro values
    apply (s.failsIf_input _ _).map
  · simp [Flaw.never]

theorem failsIf_interpolated : interpolated.FailsIf .never
  := by
  intro s points hs
  apply FailsIf.congr
  · apply (s.failsIf_input _ _).bind
    intro starts
    apply (s.failsIf_input _ _).bind
    intro ends
    apply (s.failsIf_input _ _).map
  · simp [Flaw.never]

theorem failsIf_blended : blended.FailsIf .never
  := by
  intro s points hs
  simp only [blended]
  apply FailsIf.congr
  · apply (s.failsIf_input _ _).bind
    intro starts
    apply (s.failsIf_input _ _).bind
    intro ends
    apply s.failsIf_ite
    · apply (s.failsIf_input _ _).map
    · apply FailsIf.pure
  · simp [Flaw.never]

theorem failsIf_chosen (default : Float) : (chosen default).FailsIf (.huge ["Threshold"])
  := by
  intro s points hs
  apply FailsIf.congr
  · apply (s.failsIf_input _ _).bind
    intro condition
    apply hs.after_number
    apply (s.failsIf_input _ _).bind
    intro yes
    apply (s.failsIf_input _ _).map
  · simp [Flaw.huge, Json.HasHuge]

theorem failsIf_selected :
  selected.FailsIf (.or (.huge ["Selector"]) (.infinite "Selector" 0.0))
  := by
  intro s points hs
  apply FailsIf.congr
  · apply hs.after_number
    apply FailsIf.after (Number.failsIf_floor _)
    intro index _
    apply s.failsIf_input
  · simp [Flaw.or, Flaw.huge, Flaw.infinite, Json.HasHuge]

theorem failsIf_folded (f : Float → Float → Float) (start : Float) :
  (folded f start).FailsIf .never
  := fun s points _ => (s.failsIf_indexedInputs points).map _

theorem failsIf_reduced (f : Float → Float → Float) : (reduced f).FailsIf .never
  := fun s points _ => (s.failsIf_indexedInputs points).map _

theorem failsIf_averaged : averaged.FailsIf .never
  := by
  intro s points hs
  apply FailsIf.congr
  · apply (s.failsIf_indexedInputs points).bind
    intro inputs
    split <;> apply FailsIf.pure
  · simp [Flaw.never]

theorem failsIf_weightAt (weights : List Json) (i : Nat) :
  Fault.FailsIf (weightAt weights i) (∃ w, weights[i]? = some w ∧ w.Huge)
  := by
  rw [weightAt]
  cases hweight : weights[i]? with
  | none => exact (Fault.FailsIf.of_ok rfl).congr (by simp)
  | some w => exact (w.failsIf_coerce 1.0).congr (by simp)

theorem failsIf_weightedSum : weightedSum.FailsIf .hugeWeight
  := by
  intro s points hs
  have hweighted : ∀ weights, FailsIf (fun replies => do
      let terms ← s.indexedPorts.zipIdx.mapM (weighted (s.answered replies) weights points)
      return terms.foldl (List.zipWith (· + ·)) (constant 0.0 points))
      (∃ i < s.indexedPorts.length, ∃ w, weights[i]? = some w ∧ w.Huge) := by
    intro weights
    apply FailsIf.congr
    · apply FailsIf.map
      apply FailsIf.mapM (P := fun port => ∃ w, weights[port.2]? = some w ∧ w.Huge)
      intro port _
      apply FailsIf.congr
      · apply (s.failsIf_input _ _).bind
        intro values
        apply FailsIf.after (failsIf_weightAt _ _)
        intro w _
        apply FailsIf.pure
      · simp
    · constructor
      · rintro ⟨⟨port, i⟩, hmem, hhuge⟩
        exact ⟨i, List.snd_lt_of_mem_zipIdx hmem, hhuge⟩
      · rintro ⟨i, hi, hhuge⟩
        use (s.indexedPorts[i], i)
        exact ⟨List.mk_mem_zipIdx_iff_getElem?.mpr (List.getElem?_eq_getElem hi), hhuge⟩
  apply hs.after_field
  cases hweights : s.fields.entry "Weights" with
  | arr weights => exact (hweighted weights).congr (by simp [Flaw.hugeWeight, hweights])
  | null | bool _ | int _ | float _ | str _ | obj _ =>
    exact (hweighted []).congr (by simp [Flaw.hugeWeight, hweights])

/-! ### Smooth functions -/

theorem failsIf_smoothReduced (f : Float → Float → Float → Float) :
  (smoothReduced f).FailsIf (.huge ["Smoothness"])
  := by
  intro s points hs
  apply FailsIf.congr
  · apply hs.after_number
    apply (s.failsIf_indexedInputs _).map
  · simp [Flaw.huge, Json.HasHuge]

theorem failsIf_smoothClamped : smoothClamped.FailsIf (.huge ["Smoothness", "Min", "Max"])
  := by
  intro s points hs
  apply FailsIf.congr
  · apply hs.after_number
    apply (s.failsIf_input _ _).bind
    intro values
    apply hs.after_number
    apply hs.after_number
    apply FailsIf.pure
  · simp [Flaw.huge, Json.HasHuge]

theorem failsIf_smoothBounded (f : Float → Float → Float → Float) (default : Float) :
  (smoothBounded f default).FailsIf (.huge ["Smoothness", "Threshold"])
  := by
  intro s points hs
  apply FailsIf.congr
  · apply hs.after_number
    apply (s.failsIf_input _ _).bind
    intro values
    apply hs.after_number
    apply FailsIf.pure
  · simp [Flaw.huge, Json.HasHuge]

/-! ### Places -/

theorem failsIf_placed (f : Point → Float) : (placed f).FailsIf .never := fun _ _ _ => .pure _

theorem failsIf_axisDistance : axisDistance.FailsIf (.unspelled "Axis")
  := by
  intro s points hs
  apply hs.after_field
  exact .read ((Json.failsIf_spelled _).map _)

theorem failsIf_fromPoint (f : Point → Point → Float) :
  (fromPoint f).FailsIf (.hugeParts ["Point"] ["x", "y", "z"])
  := by
  intro s points hs
  apply FailsIf.congr
  · apply hs.after_field
    apply FailsIf.after (Json.failsIf_coerceXYZ _)
    intro center _
    apply FailsIf.pure
  · simp [Flaw.hugeParts]

theorem failsIf_curvedDistance : curvedDistance.FailsIf (.hugeCurve "Curve")
  := fun _ _ hs => hs.failsIf_alongCurve _ _

/-! ### Noise -/

namespace Scope

variable {s : Scope} {P : Prop} {α : Type}

/-- The octaves that the fields give. -/
def fractal (s : Scope) (octaves : Float) : Fractal :=
  ⟨s.octaves octaves, .float (s.given "Frequency" 0.01), .float (s.given "Lacunarity" 2.0),
    .float (s.given "Gain" 0.5)⟩

/-- An operation that begins with the octaves of a node. -/
theorem Regular.after_fractalOf (h : s.Regular) (octaves : Float)
    {next : Fractal → Replies → Except Fault α} (hnext : FailsIf (next (s.fractal octaves)) P)
    (points : List Point) :
  FailsIf (fun replies => fractalOf (s.answered replies) octaves >>= fun f => next f replies)
    (Flaw.octaves octaves s points ∨ P)
  := by
  simp only [fractalOf, octavesOf, bind_assoc, pure_bind]
  apply FailsIf.congr
  · apply h.after_number
    apply h.after_number
    apply FailsIf.after (Json.failsIf_toInt _)
    intro n hn
    have hoctaves : Fractal.octavesOf n = s.octaves octaves := by
      rw [Json.toInt] at hn
      split at hn
      · next htruncate =>
        rw [Scope.octaves, htruncate, Option.getD_some, Except.ok.inj hn]
      · cases hn
    rw [hoctaves]
    apply h.after_number
    apply h.after_number
    apply hnext
  · simp only [Flaw.octaves, Flaw.or, Flaw.huge, Flaw.infinite, Json.HasHuge,
      List.exists_mem_cons_iff, List.not_mem_nil, false_and, exists_false, or_false]
    tauto

/-- An operation that begins with the seed of a noise. -/
theorem Regular.after_noiseSeed (h : s.Regular) (points : List Point)
    {next : Int → Replies → Except Fault α} (hnext : ∀ seed, FailsIf (next seed) P) :
  FailsIf (fun replies => noiseSeed (s.answered replies) >>= fun seed => next seed replies)
    (Flaw.unseeded s points ∨ P)
  := by
  simp only [noiseSeed, bind_assoc]
  apply h.after_field
  apply FailsIf.after (NoiseSeed.failsIf_ofField _ _)
  intro seed _
  exact hnext seed

/-- An operation that begins with the measure of a cellular noise. -/
theorem Regular.after_measureOf (h : s.Regular) (points : List Point)
    {next : Cellular.Measure → Replies → Except Fault α} (hnext : ∀ m, FailsIf (next m) P) :
  FailsIf (fun replies => measureOf (s.answered replies) >>= fun m => next m replies)
    (Flaw.unspelled "CellType" s points ∨ P)
  := by
  simp only [measureOf, bind_assoc, pure_bind]
  apply h.after_field
  apply FailsIf.congr
  · apply FailsIf.after (Json.failsIf_spelled _)
    intro name _
    apply hnext
  · rw [Flaw.unspelled, Json.isSpellable_orDefault]

theorem Regular.failsIf_amplified (h : s.Regular) (values : List Float) :
  FailsIf (fun replies => amplified (s.answered replies) values) (s.fields.entry "Amplitude").Huge
  := by
  apply FailsIf.congr
  · apply h.after_number
    apply FailsIf.pure
  · simp

end Scope

theorem failsIf_simplexNoise (domain : Domain) : (simplexNoise domain).FailsIf (.simplex domain)
  := by
  intro s points hs
  simp only [simplexNoise, simplex, bind_assoc, pure_bind]
  apply FailsIf.congr
  · apply hs.after_fractalOf
    · apply hs.after_noiseSeed points
      intro seed
      apply FailsIf.after (Fractal.failsIf_sum _ _ _ _ (Simplex.failsIf_sampler _ _) _)
      intro values _
      apply hs.failsIf_amplified
    · exact points
  · simp [Flaw.simplex, Flaw.or, Flaw.overflow, Flaw.huge, Json.HasHuge, Fractal.Overflows]

theorem failsIf_ridgeNoise (domain : Domain) : (ridgeNoise domain).FailsIf (.ridge domain)
  := by
  intro s points hs
  simp only [ridgeNoise, simplex, bind_assoc, pure_bind]
  apply FailsIf.congr
  · apply hs.after_fractalOf
    · apply hs.after_noiseSeed points
      intro seed
      apply FailsIf.after (Fractal.failsIf_ridged _ _ (Simplex.failsIf_sampler _ _) _)
      intro values _
      apply hs.failsIf_amplified
    · exact points
  · simp [Flaw.ridge, Flaw.or, Flaw.ridgeOverflow, Flaw.huge, Json.HasHuge, Fractal.Overflows,
      Scope.fractal]

theorem failsIf_fractalNoise (domain : Domain) : (fractalNoise domain).FailsIf (.fractal domain)
  := by
  intro s points hs
  simp only [fractalNoise, simplex, bind_assoc, pure_bind]
  apply FailsIf.congr
  · apply hs.after_fractalOf
    · apply hs.after_noiseSeed points
      intro seed
      apply FailsIf.read (Fractal.failsIf_sum _ _ _ _ (Simplex.failsIf_sampler _ _) _)
    · exact points
  · simp [Flaw.fractal, Flaw.or, Flaw.overflow, Fractal.Overflows]

/-- Only the curve that a cellular noise may be mapped along can be flawed. -/
theorem Scope.Regular.failsIf_returned {s : Scope} (h : s.Regular) (points : List Point)
    (values : List Float) :
  FailsIf (fun replies => match s.fields.entry "ReturnType" with
      | .str "Curve" => (s.answered replies).alongCurve "ReturnCurve" values
      | .str "Density" => do
        return ((← (s.answered replies).input "ReturnDensity" points)).zipWith (· * ·) values
      | _ => return values)
    (s.fields.entry "ReturnType" = .str "Curve" ∧ s.HasHugeCurve "ReturnCurve")
  := by
  split
  · next hcurve => exact (h.failsIf_alongCurve _ _).congr (by simp [hcurve])
  · next hdensity => exact ((s.failsIf_input _ _).map _).congr (by simp [hdensity])
  · next hcurve _ => exact (FailsIf.pure _).congr (by simpa using fun heq => (hcurve heq).elim)

theorem failsIf_cellularNoise (domain : Domain) : (cellularNoise domain).FailsIf .cellular
  := by
  intro s points hs
  have hsampler : ∀ seed measure jitter places,
      Fault.FailsIf (Cellular.sampler seed measure jitter places) False :=
    fun _ _ _ _ => .of_ok rfl
  apply FailsIf.congr
  · apply hs.after_fractalOf
    · apply hs.after_noiseSeed points
      intro seed
      apply hs.after_measureOf points
      intro measure
      apply hs.after_number
      apply FailsIf.after (Fractal.failsIf_sum _ _ _ _ (hsampler _ _ _) _)
      intro values _
      apply hs.after_field
      apply hs.failsIf_returned
    · exact points
  · simp [Flaw.cellular, Flaw.or, Flaw.huge, Flaw.whereField, Flaw.hugeCurve, Json.HasHuge]

/-! ### Warps -/

theorem failsIf_atImages (move : Point → Point) : (atImages move).FailsIf .never
  := fun s points _ => s.failsIf_input "Input" (points.map move)

/-- Points that are moved by the number of a field. -/
theorem failsIf_displaced (key : String) (default : Float) (move : Float → Point → Point) :
  Handler.FailsIf (fun s points => do
      let x ← s.number key default
      atImages (move x) s points) (.huge [key])
  := by
  intro s points hs
  apply FailsIf.congr
  · apply hs.after_number
    apply failsIf_atImages _ s points hs
  · simp [Flaw.huge, Flaw.never, Json.HasHuge]

theorem failsIf_xOverride : xOverride.FailsIf (.huge ["OverrideX"])
  := failsIf_displaced "OverrideX" 0.0 fun x p => { p with x }

theorem failsIf_zOverride : zOverride.FailsIf (.huge ["OverrideZ"])
  := failsIf_displaced "OverrideZ" 0.0 fun z p => { p with z }

theorem failsIf_twist : twist.FailsIf (.huge ["Angle"])
  := failsIf_displaced "Angle" 0.0 twisted

theorem failsIf_pinch : pinch.FailsIf (.huge ["Strength"])
  := failsIf_displaced "Strength" 1.0 pinched

/-- An operation that begins with the number of a field or of an older one. -/
theorem Scope.Regular.after_numberOf {s : Scope} (h : s.Regular) (key older : String)
    (default : Float) {α : Type} {P : Prop} {next : Float → Scope.Replies → Except Fault α}
    (hnext : FailsIf (next (s.given (s.current key older) default)) P) :
  FailsIf (fun replies => (s.answered replies).numberOf key older default >>= fun x =>
      next x replies)
    ((s.fields.entry (s.current key older)).Huge ∨ P)
  := by
  obtain ⟨fields, hfields⟩ := h.fields
  have hnumber : ∀ replies, (s.answered replies).numberOf key older default
      = (s.answered replies).number (s.current key older) default := by
    intro replies
    simp [Scope.numberOf, Scope.answered, Scope.current, hfields, Json.members]
  simp only [hnumber]
  apply h.after_number _ _ hnext

theorem failsIf_yOverride : yOverride.FailsIf (.hugeCurrent "OverrideY" "Y")
  := by
  intro s points hs
  apply FailsIf.congr
  · apply hs.after_numberOf
    apply failsIf_atImages _ s points hs
  · simp [Flaw.hugeCurrent, Flaw.never, Json.HasHuge]

theorem failsIf_ySampled :
  ySampled.FailsIf (.without "YProvider" (.huge ["SampleDistance", "SampleOffset"]))
  := by
  intro s points hs
  apply FailsIf.congr
  · apply s.failsIf_ite
    · apply (s.failsIf_input _ _).bind
      intro heights
      apply s.failsIf_input
    · apply hs.after_number
      apply hs.after_number
      apply failsIf_atImages _ s points hs
  · simp [Flaw.without, Flaw.huge, Flaw.never, Json.HasHuge]

theorem Scope.failsIf_slope (s : Scope) (points : List Point) (ahead behind : Point → Point)
    (factor : Float) :
  FailsIf (fun replies => slope (s.answered replies) points ahead behind factor) False
  := by
  apply FailsIf.congr
  · apply (s.failsIf_input _ _).bind
    intro a
    apply (s.failsIf_input _ _).map
  · simp

theorem failsIf_gradientWarp :
  gradientWarp.FailsIf (.or (.hugeCurrent "WarpFactor" "WarpScale")
    (.or (.huge ["SampleRange"]) (.whereField "Is2D" (.bool true) (.huge ["YFor2D"]))))
  := by
  intro s points hs
  simp only [gradientWarp]
  apply FailsIf.congr (P := (s.fields.entry (s.current "WarpFactor" "WarpScale")).Huge
    ∨ (s.fields.entry "SampleRange").Huge
    ∨ s.fields.entry "Is2D" = .bool true ∧ (s.fields.entry "YFor2D").Huge)
  · apply hs.after_numberOf
    apply hs.after_number
    apply hs.after_field
    rcases hvalue : s.fields.entry "Is2D" with _ | (_ | _) | _ | _ | _ | _ | _
    case bool.true =>
      apply FailsIf.congr
      · apply hs.after_number
        apply (s.failsIf_slope _ _ _ _).bind
        intro alongX
        apply (s.failsIf_slope _ _ _ _).bind
        intro alongZ
        apply s.failsIf_input
      · simp
    all_goals
      -- no height is read, and the gradient has a third part
      apply FailsIf.congr
      · apply FailsIf.after (.of_ok rfl)
        intro height _
        apply (s.failsIf_slope _ _ _ _).bind
        intro alongX
        apply (s.failsIf_slope _ _ _ _).bind
        intro alongZ
        apply (s.failsIf_slope _ _ _ _).bind
        intro alongY
        apply s.failsIf_input
      · simp
  · simp [Flaw.or, Flaw.hugeCurrent, Flaw.huge, Flaw.whereField, Json.HasHuge]

/-- The displacements by noise are those of simplex noise. -/
theorem failsIf_displacements (domain : Domain) (seed : Int) (amplitude : Float)
    (places : List Place) :
  Fault.FailsIf (displacements domain seed amplitude places)
    (Simplex.Overflows domain.dimension places)
  := (Simplex.failsIf_sampler _ _ _).map _

theorem failsIf_planeWarp : planeWarp.FailsIf (.warp .plane)
  := by
  intro s points hs
  apply FailsIf.congr
  · apply hs.after_number
    apply hs.after_number
    apply hs.after_noiseSeed points
    intro seed
    apply FailsIf.after (failsIf_displacements _ _ _ _)
    intro wx _
    apply FailsIf.after (failsIf_displacements _ _ _ _)
    intro wz _
    apply s.failsIf_input
  · simp [Flaw.warp, Flaw.or, Flaw.huge, Flaw.warpOverflow, Json.HasHuge, or_assoc]

theorem failsIf_spaceWarp : spaceWarp.FailsIf (.warp .space)
  := by
  intro s points hs
  apply FailsIf.congr
  · apply hs.after_number
    apply hs.after_number
    apply hs.after_noiseSeed points
    intro seed
    apply FailsIf.after (failsIf_displacements _ _ _ _)
    intro wx _
    apply FailsIf.after (failsIf_displacements _ _ _ _)
    intro wy _
    apply FailsIf.after (failsIf_displacements _ _ _ _)
    intro wz _
    apply s.failsIf_input
  · simp [Flaw.warp, Flaw.or, Flaw.huge, Flaw.warpOverflow, Json.HasHuge, or_assoc]

/-! ### All types -/

/-- An unknown type hands on a source. -/
theorem failsIf_unknown : unknown.FailsIf .never
  := by
  intro s points hs
  have hports : ∀ replies, forwardedPorts.find? (s.answered replies).has
      = forwardedPorts.find? s.has := fun _ => rfl
  simp only [unknown, hports]
  cases forwardedPorts.find? s.has with
  | none => exact .pure _
  | some port => exact s.failsIf_input port points

/-- Whether a handler and a flaw belong to one type, and the handler fails exactly by the flaw. -/
def Matches (handler : String × Handler) (flaw : String × Flaw) : Prop :=
  handler.1 = flaw.1 ∧ handler.2.FailsIf flaw.2

theorem matches_arithmetic : List.Forall₂ Matches arithmetic arithmeticFlaws
  := by
  simp only [arithmetic, arithmeticFlaws, List.forall₂_cons, List.forall₂_nil_left_iff, Matches,
    failsIf_unary, failsIf_forward, failsIf_smoothClamped, failsIf_smoothBounded,
    failsIf_smoothReduced, failsIf_constantOf, failsIf_always, failsIf_imported, failsIf_folded,
    failsIf_repeated, failsIf_weightedSum, failsIf_modulo, failsIf_scaled, failsIf_signedPower,
    failsIf_binary, failsIf_clamped, failsIf_normalized, failsIf_linear, failsIf_chosen,
    failsIf_interpolated, failsIf_reduced, failsIf_averaged, failsIf_blended, failsIf_selected,
    failsIf_curved, failsIf_splined, and_self]

theorem matches_coordinates : List.Forall₂ Matches coordinates coordinateFlaws
  := by
  simp only [coordinates, coordinateFlaws, List.forall₂_cons, List.forall₂_nil_left_iff, Matches,
    failsIf_placed, failsIf_axisDistance, failsIf_fromPoint, failsIf_curvedDistance, and_self]

theorem matches_noises : List.Forall₂ Matches noises noiseFlaws
  := by
  simp only [noises, noiseFlaws, List.forall₂_cons, List.forall₂_nil_left_iff, Matches,
    failsIf_simplexNoise, failsIf_ridgeNoise, failsIf_fractalNoise, failsIf_cellularNoise,
    and_self]

theorem matches_warps : List.Forall₂ Matches warps warpFlaws
  := by
  simp only [warps, warpFlaws, List.forall₂_cons, List.forall₂_nil_left_iff, Matches,
    failsIf_xOverride, failsIf_yOverride, failsIf_zOverride, failsIf_ySampled,
    failsIf_gradientWarp, failsIf_planeWarp, failsIf_spaceWarp, failsIf_twist, failsIf_pinch,
    and_self]

theorem matches_handlers : List.Forall₂ Matches handlers flaws
  := by
  have hworld : List.Forall₂ Matches (worldTypes.map fun type => (type, always 0.0))
      (worldTypes.map fun type => (type, .never)) := by
    rw [List.forall₂_map_left_iff, List.forall₂_map_right_iff]
    apply List.forall₂_same.mpr
    intro type _
    exact ⟨rfl, failsIf_always 0.0⟩
  exact List.rel_append (List.rel_append (List.rel_append (List.rel_append matches_arithmetic
    matches_coordinates) matches_noises) matches_warps) hworld

/-- The handler of a type fails exactly if it asks for a source that fails, or the node has a flaw
of the type. -/
theorem failsIf_handlerOf (type : String) : (handlerOf type).FailsIf (flawOf type)
  := by
  have hfind : ∀ {table : List (String × Handler)} {table' : List (String × Flaw)},
      List.Forall₂ Matches table table' →
      ((Entries.find? table type).getD unknown).FailsIf
        ((Entries.find? table' type).getD .never) := by
    intro table table' h
    induction h with
    | nil => exact failsIf_unknown
    | @cons entry entry' _ _ hmatches _ ih =>
      simp only [Entries.find?, ← hmatches.1]
      split
      · exact hmatches.2
      · exact ih
  exact hfind matches_handlers

end Density

end AssetCanvas
