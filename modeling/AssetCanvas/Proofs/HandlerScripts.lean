import AssetCanvas.Proofs.DensityFaults
import AssetCanvas.Proofs.Scripts

/-!
# Scripts of handlers

A density handler asks for the densities of the sources of its ports, at points that may be others
than its own and that may depend on earlier answers.  Whatever else it reads is there before the
first request.  So it has a script, whose requests are for sources of its ports:
`Density.scripted_handlerOf`.
-/

namespace AssetCanvas.Density

open Requests

namespace Scope

/-- Whether a request is for the densities of a source. -/
def IsSource (s : Scope) (call : String × List Point) : Prop :=
  ∃ port, Entries.find? s.inputs port = some call.1

variable (s : Scope) {α : Type}

/-! ### What is read -/

section Reads

variable {P : String × List Point → Prop}

theorem scripted_field (key : String) :
  Scripted P (fun replies => (s.answered replies).field key)
  := .read (s.field key)

theorem scripted_number (key : String) (default : Float) :
  Scripted P (fun replies => (s.answered replies).number key default)
  := .read (s.number key default)

theorem scripted_numberOf (key older : String) (default : Float) :
  Scripted P (fun replies => (s.answered replies).numberOf key older default)
  := .read (s.numberOf key older default)

theorem scripted_alongCurve (port : String) (values : List Float) :
  Scripted P (fun replies => (s.answered replies).alongCurve port values)
  := .read (s.alongCurve port values)

theorem scripted_fractalOf (octaves : Float) :
  Scripted P (fun replies => fractalOf (s.answered replies) octaves)
  := .read (fractalOf s octaves)

theorem scripted_noiseSeed : Scripted P (fun replies => noiseSeed (s.answered replies))
  := .read (noiseSeed s)

theorem scripted_simplex (domain : Domain) :
  Scripted P (fun replies => simplex (s.answered replies) domain)
  := .read (simplex s domain)

theorem scripted_measureOf : Scripted P (fun replies => measureOf (s.answered replies))
  := .read (measureOf s)

theorem scripted_amplified (values : List Float) :
  Scripted P (fun replies => amplified (s.answered replies) values)
  := .read (amplified s values)

/-- Which operation is made may depend on whether a port has a source. -/
theorem scripted_ite (port : String) {operation operation' : Replies → Except Fault α}
    (h : Scripted P operation) (h' : Scripted P operation') :
  Scripted P (fun replies =>
    if (s.answered replies).has port = true then operation replies else operation' replies)
  := by
  have hport : ∀ replies, (s.answered replies).has port = s.has port := fun _ => rfl
  simp only [hport]
  split
  · exact h
  · exact h'

end Reads

/-! ### What is asked for -/

theorem scripted_input (port : String) (points : List Point) :
  Scripted s.IsSource (fun replies => (s.answered replies).input port points)
  := by
  simp only [input, answered]
  cases hsource : Entries.find? s.inputs port with
  | none => apply Scripted.read
  | some source =>
    have hasked : s.IsSource (source, points) := ⟨port, hsource⟩
    exact .request hasked

theorem scripted_indexedInputs (points : List Point) :
  Scripted s.IsSource (fun replies => (s.answered replies).indexedInputs points)
  := by
  have hports : ∀ replies, (s.answered replies).indexedPorts = s.indexedPorts := fun _ => rfl
  simp only [indexedInputs, hports]
  apply Scripted.mapM
  intro port _
  apply s.scripted_input

theorem scripted_slope (points : List Point) (ahead behind : Point → Point) (factor : Float) :
  Scripted s.IsSource (fun replies => slope (s.answered replies) points ahead behind factor)
  := by
  apply (s.scripted_input _ _).bind
  intro a
  apply (s.scripted_input _ _).map

end Scope

/-- Whether a handler has a script, whose requests are for sources of the node. -/
def Handler.Scripted (handler : Handler) : Prop :=
  ∀ (s : Scope) (points : List Point),
    Requests.Scripted s.IsSource (fun replies => handler (s.answered replies) points)

/-! ### Arithmetic -/

theorem scripted_constantOf (key : String) : (constantOf key).Scripted
  := fun s _ => (s.scripted_number key 0.0).map _

theorem scripted_always (density : Float) : (always density).Scripted := fun _ _ => .read _

theorem scripted_forward : forward.Scripted := fun s points => s.scripted_input "Input" points

theorem scripted_imported : imported.Scripted
  := by
  intro s points
  apply s.scripted_ite
  · apply scripted_forward
  · apply scripted_constantOf

theorem scripted_unary (f : Float → Float) : (unary f).Scripted
  := fun s points => (s.scripted_input "Input" points).map _

/-- Densities of the input that are changed with the number of a field. -/
theorem scripted_adjusted (key : String) (default : Float) (f : Float → Float → Float) :
  Handler.Scripted (fun s points => do
      let values ← s.input "Input" points
      let x ← s.number key default
      return values.map (f x))
  := by
  intro s points
  apply (s.scripted_input _ _).bind
  intro values
  apply (s.scripted_number _ _).map

theorem scripted_signedPower : signedPower.Scripted
  := scripted_adjusted "Exponent" 2.0 fun exponent v => power v.abs exponent * sign v

theorem scripted_repeated : repeated.Scripted
  := scripted_adjusted "Count" 2.0 fun count v => v * if count > 1.0 then count else 1.0

theorem scripted_scaled : scaled.Scripted
  := scripted_adjusted "Value" 1.0 fun factor v => v * factor

theorem scripted_modulo : modulo.Scripted
  := by
  intro s points
  apply (s.scripted_number _ _).bind
  intro divisor
  split
  · apply (s.scripted_input _ _).map
  · apply Scripted.pure

theorem scripted_linear : linear.Scripted
  := by
  intro s points
  apply (s.scripted_input _ _).bind
  intro values
  apply (s.scripted_number _ _).bind
  intro scale
  apply (s.scripted_number _ _).map

theorem scripted_clamped (low high : Float) (f : Float → Float) : (clamped low high f).Scripted
  := by
  intro s points
  apply (s.scripted_number _ _).bind
  intro low
  apply (s.scripted_number _ _).bind
  intro high
  apply (s.scripted_input _ _).map

theorem scripted_normalized : normalized.Scripted
  := by
  intro s points
  apply (s.scripted_input _ _).bind
  intro values
  apply (s.scripted_field _).bind
  intro source
  apply (Scripted.read _).bind
  intro ends
  apply (s.scripted_field _).bind
  intro target
  apply (Scripted.read _).map

theorem scripted_curved : curved.Scripted
  := by
  intro s points
  apply (s.scripted_input _ _).bind
  intro values
  apply s.scripted_alongCurve

theorem scripted_splined : splined.Scripted
  := by
  intro s points
  apply (s.scripted_field _).bind
  intro v
  apply (Scripted.read (Curve.ofJson? v)).bind
  intro curve
  cases curve with
  | none => apply s.scripted_input
  | some c => apply (s.scripted_input _ _).map

theorem scripted_binary (f : Float → Float → Float) (port port' : String) :
  (binary f port port').Scripted
  := by
  intro s points
  apply (s.scripted_input _ _).bind
  intro values
  apply (s.scripted_input _ _).map

theorem scripted_interpolated : interpolated.Scripted
  := by
  intro s points
  apply (s.scripted_input _ _).bind
  intro starts
  apply (s.scripted_input _ _).bind
  intro ends
  apply (s.scripted_input _ _).map

theorem scripted_blended : blended.Scripted
  := by
  intro s points
  simp only [blended]
  apply (s.scripted_input _ _).bind
  intro starts
  apply (s.scripted_input _ _).bind
  intro ends
  apply s.scripted_ite
  · apply (s.scripted_input _ _).map
  · apply Scripted.pure

theorem scripted_chosen (default : Float) : (chosen default).Scripted
  := by
  intro s points
  apply (s.scripted_input _ _).bind
  intro condition
  apply (s.scripted_number _ _).bind
  intro threshold
  apply (s.scripted_input _ _).bind
  intro yes
  apply (s.scripted_input _ _).map

theorem scripted_selected : selected.Scripted
  := by
  intro s points
  apply (s.scripted_number _ _).bind
  intro selector
  apply (Scripted.read (Number.floor selector)).bind
  intro index
  apply s.scripted_input

theorem scripted_folded (f : Float → Float → Float) (start : Float) : (folded f start).Scripted
  := fun s points => (s.scripted_indexedInputs points).map _

theorem scripted_reduced (f : Float → Float → Float) : (reduced f).Scripted
  := fun s points => (s.scripted_indexedInputs points).map _

theorem scripted_averaged : averaged.Scripted
  := by
  intro s points
  apply (s.scripted_indexedInputs _).bind
  intro inputs
  split <;> apply Scripted.pure

theorem scripted_weightedSum : weightedSum.Scripted
  := by
  intro s points
  apply (s.scripted_field _).bind
  intro weights
  have hports : ∀ replies, (s.answered replies).indexedPorts = s.indexedPorts := fun _ => rfl
  simp only [hports]
  apply Scripted.map
  apply Scripted.mapM
  intro port _
  apply (s.scripted_input _ _).bind
  intro values
  apply (Scripted.read _).map

theorem scripted_smoothReduced (f : Float → Float → Float → Float) : (smoothReduced f).Scripted
  := by
  intro s points
  apply (s.scripted_number _ _).bind
  intro width
  apply (s.scripted_indexedInputs _).map

theorem scripted_smoothClamped : smoothClamped.Scripted
  := by
  intro s points
  apply (s.scripted_number _ _).bind
  intro width
  apply (s.scripted_input _ _).bind
  intro values
  apply (s.scripted_number _ _).bind
  intro low
  apply (s.scripted_number _ _).map

theorem scripted_smoothBounded (f : Float → Float → Float → Float) (default : Float) :
  (smoothBounded f default).Scripted
  := by
  intro s points
  apply (s.scripted_number _ _).bind
  intro width
  apply (s.scripted_input _ _).bind
  intro values
  apply (s.scripted_number _ _).map

theorem scripted_arithmetic : ∀ entry ∈ arithmetic, entry.2.Scripted
  := by
  simp only [arithmetic, List.forall_mem_cons, List.not_mem_nil, false_imp_iff, forall_const,
    scripted_unary, scripted_forward, scripted_smoothClamped, scripted_smoothBounded,
    scripted_smoothReduced, scripted_constantOf, scripted_always, scripted_imported,
    scripted_folded, scripted_repeated, scripted_weightedSum, scripted_modulo, scripted_scaled,
    scripted_signedPower, scripted_binary, scripted_clamped, scripted_normalized,
    scripted_linear, scripted_chosen, scripted_interpolated, scripted_reduced,
    scripted_averaged, scripted_blended, scripted_selected, scripted_curved, scripted_splined,
    and_self]

/-! ### Places -/

theorem scripted_placed (f : Point → Float) : (placed f).Scripted := fun _ _ => .read _

theorem scripted_axisDistance : axisDistance.Scripted
  := by
  intro s points
  apply (s.scripted_field _).bind
  intro axis
  apply (Scripted.read _).map

theorem scripted_fromPoint (f : Point → Point → Float) : (fromPoint f).Scripted
  := by
  intro s points
  apply (s.scripted_field _).bind
  intro center
  apply (Scripted.read _).map

theorem scripted_curvedDistance : curvedDistance.Scripted
  := fun s _ => s.scripted_alongCurve _ _

theorem scripted_coordinates : ∀ entry ∈ coordinates, entry.2.Scripted
  := by
  simp only [coordinates, List.forall_mem_cons, List.not_mem_nil, false_imp_iff, forall_const,
    scripted_placed, scripted_axisDistance, scripted_fromPoint, scripted_curvedDistance, and_self]

/-! ### Noise -/

theorem scripted_simplexNoise (domain : Domain) : (simplexNoise domain).Scripted
  := by
  intro s points
  apply (s.scripted_fractalOf _).bind
  intro f
  apply (s.scripted_simplex _).bind
  intro noise
  apply (Scripted.read _).bind
  intro values
  apply s.scripted_amplified

theorem scripted_ridgeNoise (domain : Domain) : (ridgeNoise domain).Scripted
  := by
  intro s points
  apply (s.scripted_fractalOf _).bind
  intro f
  apply (s.scripted_simplex _).bind
  intro noise
  apply (Scripted.read _).bind
  intro values
  apply s.scripted_amplified

theorem scripted_fractalNoise (domain : Domain) : (fractalNoise domain).Scripted
  := by
  intro s points
  apply (s.scripted_fractalOf _).bind
  intro f
  apply (s.scripted_simplex _).bind
  intro noise
  apply Scripted.read

theorem scripted_cellularNoise (domain : Domain) : (cellularNoise domain).Scripted
  := by
  intro s points
  apply (s.scripted_fractalOf _).bind
  intro f
  apply s.scripted_noiseSeed.bind
  intro seed
  apply s.scripted_measureOf.bind
  intro measure
  apply (s.scripted_number _ _).bind
  intro jitter
  apply (Scripted.read _).bind
  intro values
  apply (s.scripted_field _).bind
  intro returned
  split
  · apply s.scripted_alongCurve
  · apply (s.scripted_input _ _).map
  · apply Scripted.pure

theorem scripted_noises : ∀ entry ∈ noises, entry.2.Scripted
  := by
  simp only [noises, List.forall_mem_cons, List.not_mem_nil, false_imp_iff, forall_const,
    scripted_simplexNoise, scripted_ridgeNoise, scripted_fractalNoise, scripted_cellularNoise,
    and_self]

/-! ### Warps -/

theorem scripted_atImages (move : Point → Point) : (atImages move).Scripted
  := fun s points => s.scripted_input "Input" (points.map move)

/-- Points that are moved by the number of a field. -/
theorem scripted_displaced (key : String) (default : Float) (move : Float → Point → Point) :
  Handler.Scripted (fun s points => do
      let x ← s.number key default
      atImages (move x) s points)
  := by
  intro s points
  apply (s.scripted_number _ _).bind
  intro x
  apply scripted_atImages

theorem scripted_xOverride : xOverride.Scripted
  := scripted_displaced "OverrideX" 0.0 fun x p => { p with x }

theorem scripted_zOverride : zOverride.Scripted
  := scripted_displaced "OverrideZ" 0.0 fun z p => { p with z }

theorem scripted_twist : twist.Scripted := scripted_displaced "Angle" 0.0 twisted

theorem scripted_pinch : pinch.Scripted := scripted_displaced "Strength" 1.0 pinched

theorem scripted_yOverride : yOverride.Scripted
  := by
  intro s points
  apply (s.scripted_numberOf _ _ _).bind
  intro y
  apply scripted_atImages

theorem scripted_ySampled : ySampled.Scripted
  := by
  intro s points
  apply s.scripted_ite
  · apply (s.scripted_input _ _).bind
    intro heights
    apply s.scripted_input
  · apply (s.scripted_number _ _).bind
    intro distance
    apply (s.scripted_number _ _).bind
    intro offset
    apply scripted_atImages

/-- The warp source is asked for at four places, or at six. -/
theorem scripted_gradientWarp : gradientWarp.Scripted
  := by
  intro s points
  simp only [gradientWarp]
  apply (s.scripted_numberOf _ _ _).bind
  intro factor
  apply (s.scripted_number _ _).bind
  intro reach
  apply (s.scripted_field _).bind
  rintro (_ | (_ | _) | _ | _ | _ | _ | _)
  case bool.true =>
    apply (s.scripted_number _ _).bind
    intro height
    apply (s.scripted_slope _ _ _ _).bind
    intro alongX
    apply (s.scripted_slope _ _ _ _).bind
    intro alongZ
    apply s.scripted_input
  all_goals
    -- no height is read, and the gradient has a third part
    apply (Scripted.read _).bind
    intro height
    apply (s.scripted_slope _ _ _ _).bind
    intro alongX
    apply (s.scripted_slope _ _ _ _).bind
    intro alongZ
    apply (s.scripted_slope _ _ _ _).bind
    intro alongY
    apply s.scripted_input

theorem scripted_planeWarp : planeWarp.Scripted
  := by
  intro s points
  apply (s.scripted_number _ _).bind
  intro amplitude
  apply (s.scripted_number _ _).bind
  intro frequency
  apply s.scripted_noiseSeed.bind
  intro seed
  apply (Scripted.read _).bind
  intro wx
  apply (Scripted.read _).bind
  intro wz
  apply s.scripted_input

theorem scripted_spaceWarp : spaceWarp.Scripted
  := by
  intro s points
  apply (s.scripted_number _ _).bind
  intro amplitude
  apply (s.scripted_number _ _).bind
  intro frequency
  apply s.scripted_noiseSeed.bind
  intro seed
  apply (Scripted.read _).bind
  intro wx
  apply (Scripted.read _).bind
  intro wy
  apply (Scripted.read _).bind
  intro wz
  apply s.scripted_input

theorem scripted_warps : ∀ entry ∈ warps, entry.2.Scripted
  := by
  simp only [warps, List.forall_mem_cons, List.not_mem_nil, false_imp_iff, forall_const,
    scripted_xOverride, scripted_yOverride, scripted_zOverride, scripted_ySampled,
    scripted_gradientWarp, scripted_planeWarp, scripted_spaceWarp, scripted_twist,
    scripted_pinch, and_self]

/-! ### All types -/

theorem scripted_unknown : unknown.Scripted
  := by
  intro s points
  have hports : ∀ replies, forwardedPorts.find? (s.answered replies).has
      = forwardedPorts.find? s.has := fun _ => rfl
  simp only [unknown, hports]
  cases forwardedPorts.find? s.has with
  | none => apply Scripted.read
  | some port => apply s.scripted_input

/-- The handler of a type has a script, whose requests are for sources of the node. -/
theorem scripted_handlerOf (type : String) : (handlerOf type).Scripted
  := by
  have hhandlers : ∀ entry ∈ handlers, entry.2.Scripted := by
    simp only [handlers, List.forall_mem_append, List.forall_mem_map, scripted_always,
      implies_true, and_true]
    exact ⟨⟨⟨scripted_arithmetic, scripted_coordinates⟩, scripted_noises⟩, scripted_warps⟩
  rw [handlerOf]
  cases hfind : Entries.find? handlers type with
  | none => apply scripted_unknown
  | some handler =>
    obtain ⟨_, _, hmem⟩ := Entries.mem_of_find? hfind
    exact hhandlers _ hmem

end AssetCanvas.Density
