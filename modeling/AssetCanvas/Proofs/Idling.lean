import AssetCanvas.Proofs.Drawing
import AssetCanvas.Proofs.Guards
import AssetCanvas.Proofs.Reachability
import AssetCanvas.Proofs.Rows

/-!
# Nodes that draw nothing

A lattice whose jitter does not reach out has its points wherever the generator stands, and
leaves the generator as it is, `Lattice.exists_positions`.  The nodes that take draws are the
occurrences and the lattices with a reach, `Node.Draws`.

Whether a lattice takes draws or not, a lesser limit leaves the first of its points,
`Lattice.take_positions`.
-/

namespace AssetCanvas

namespace Lattice

/-- Whether the points of a lattice are moved at random. -/
def Moves (spacing jitter : Json) : Prop :=
  ∃ s j r, spacing.number = .ok s ∧ s.le (.int 0) = false ∧ jitter.number = .ok j
    ∧ reach j (atLeastOne s) = .ok r ∧ r > 0.0

theorem exists_points {range : WorldRange} {reach : Float} (h : ¬ reach > 0.0) (spacing : Number)
    (limit : Json) :
  ∃ x : Except Fault (List Position), ∀ g,
    points range spacing reach limit g = (fun ps => (ps, g)) <$> x
  := by
  simp only [points]
  split
  · cases limit.number with
    | error e => exact ⟨.error e, fun g => rfl⟩
    | ok limit =>
      have hplace : ∀ width places g, place ⟨range, width, reach⟩ places g
          = (places.map fun here => ⟨here.1 + 0.0, here.2 + 0.0, 1.0⟩, g) :=
        fun width => place_of_not_pos ⟨range, width, reach⟩ h
      simp only [Fault.ok_bind, Fault.pure_eq_ok, hplace]
      split
      · exact ⟨.ok _, fun g => rfl⟩
      · cases spacing.toFloat with
        | error e => exact ⟨.error e, fun g => rfl⟩
        | ok spacing => exact ⟨.ok _, fun g => rfl⟩
  · cases spacing.toFloat with
    | error e => exact ⟨.error e, fun g => rfl⟩
    | ok _ => exact ⟨.ok [], fun g => rfl⟩

/-- A lattice that does not move takes no draws. -/
theorem exists_positions {spacing jitter : Json} (h : ¬ Moves spacing jitter) (range : WorldRange)
    (limit : Json) :
  ∃ x : Except Fault (List Position), ∀ g,
    positions range spacing jitter limit g = (fun ps => (ps, g)) <$> x
  := by
  simp only [positions_eq]
  cases hs : spacing.number with
  | error e => exact ⟨.error e, fun g => rfl⟩
  | ok s =>
    simp only [Fault.ok_bind]
    cases hpos : s.le (.int 0) with
    | true => exact ⟨.ok [], fun g => rfl⟩
    | false =>
      cases hj : jitter.number with
      | error e => exact ⟨.error e, fun g => rfl⟩
      | ok j =>
        simp only [Fault.ok_bind, Bool.false_eq_true, if_false]
        cases hr : reach j (atLeastOne s) with
        | error e => exact ⟨.error e, fun g => rfl⟩
        | ok r =>
          have hreach : ¬ r > 0.0 := fun hlt => h ⟨s, j, r, hs, hpos, hj, hr, hlt⟩
          simp only [Fault.ok_bind]
          split
          · exact exists_points hreach (atLeastOne s) limit
          · exact ⟨.ok [], fun g => rfl⟩

/-! ### Limits -/

theorem take_points {m n : Nat} (h : m ≤ n) {range : WorldRange} {spacing : Number}
    {reach : Float} {g : Generator} {drawn : List Position × Generator}
    (hdrawn : points range spacing reach (.int n) g = .ok drawn) :
  ∃ drawn', points range spacing reach (.int m) g = .ok drawn'
    ∧ drawn'.1.take m = drawn.1.take m
  := by
  have hlimit : ∀ k : Nat, (Json.int k).number = .ok (.int k) := fun _ => rfl
  simp only [points, hlimit, Fault.ok_bind, capOf_int, Int.toNat_natCast] at hdrawn ⊢
  split at hdrawn
  next hz =>
    rw [if_pos hz]
    by_cases hm : m ≤ 1
    · -- up to one point no step is taken
      obtain ⟨width, hdrawn⟩ : ∃ width,
          place ⟨range, width, reach⟩ (Shape.places ⟨range, width, reach⟩ (max 1 n)) g = drawn := by
        split at hdrawn
        · exact ⟨0.0, Except.ok.inj hdrawn⟩
        · obtain ⟨width, -, hplace⟩ := Fault.bind_eq_ok_iff.mp hdrawn
          exact ⟨width, Except.ok.inj hplace⟩
      have hone : max 1 m = 1 := by omega
      rw [if_pos (by omega)]
      refine ⟨_, rfl, ?_⟩
      have hreach : (⟨range, 0.0, reach⟩ : Shape).reach = (⟨range, width, reach⟩ : Shape).reach :=
        rfl
      rw [hone, Shape.places_one range 0.0 width reach, ← Shape.take_places _ (le_max_left 1 n),
        place_congr hreach, place_take, List.take_take, min_eq_left hm, hdrawn]
    · rw [if_neg (by omega)] at hdrawn ⊢
      obtain ⟨width, hwidth, hplace⟩ := Fault.bind_eq_ok_iff.mp hdrawn
      rw [hwidth]
      refine ⟨_, rfl, ?_⟩
      rw [← Except.ok.inj hplace, max_eq_right (by omega), max_eq_right (by omega),
        ← place_take, ← place_take, Shape.take_places _ h, Shape.take_places _ le_rfl]
  next hz =>
    rw [if_neg hz]
    exact ⟨drawn, hdrawn, rfl⟩

/-- A lesser limit leaves the first points. -/
theorem take_positions {m n : Nat} (h : m ≤ n) {range : WorldRange} {spacing jitter : Json}
    {g : Generator} {drawn : List Position × Generator}
    (hdrawn : positions range spacing jitter (.int n) g = .ok drawn) :
  ∃ drawn', positions range spacing jitter (.int m) g = .ok drawn'
    ∧ drawn'.1.take m = drawn.1.take m
  := by
  rw [positions_eq] at hdrawn
  obtain ⟨s, hs, hdrawn⟩ := Fault.bind_eq_ok_iff.mp hdrawn
  rw [positions_eq, hs, Fault.ok_bind]
  split at hdrawn
  next hpos =>
    rw [if_pos hpos]
    exact ⟨drawn, hdrawn, rfl⟩
  next hpos =>
    rw [if_neg hpos]
    obtain ⟨j, hj, hdrawn⟩ := Fault.bind_eq_ok_iff.mp hdrawn
    obtain ⟨r, hr, hdrawn⟩ := Fault.bind_eq_ok_iff.mp hdrawn
    simp only [hj, hr, Fault.ok_bind]
    split at hdrawn
    next hx =>
      rw [if_pos hx]
      exact take_points h hdrawn
    next hx =>
      rw [if_neg hx]
      exact ⟨drawn, hdrawn, rfl⟩

end Lattice

open Positions in
/-- Whether a node takes draws: it is an occurrence, or a lattice that moves. -/
inductive Node.Draws (policy : EvaluationPolicy) (n : Node) : Prop
  | occurrence (htype : n.typeName family.category = .ok "Occurrence") : n.Draws policy
  | lattice {type field : String} {default spacing jitter : Json}
      (htype : n.typeName family.category = .ok type)
      (hlattice : spacingOf? policy type = some (field, default))
      (hspacing : numberOr n field default = .ok spacing)
      (hjitter : numberOr n "Jitter" (.float 0.0) = .ok jitter)
      (hmoves : Lattice.Moves spacing jitter) : n.Draws policy

/-- Of a policy only the defaults of lattices matter. -/
theorem Node.Draws.congr {policy policy' : EvaluationPolicy} {n : Node} (h : n.Draws policy)
    (hsame : Positions.spacingOf? policy = Positions.spacingOf? policy') :
  n.Draws policy'
  := by
  cases h with
  | occurrence htype => apply occurrence htype
  | lattice htype hlattice hspacing hjitter hmoves =>
    rw [hsame] at hlattice
    apply lattice htype hlattice hspacing hjitter hmoves

/-- The lattice of a node that has no fields for it does not move. -/
theorem Positions.not_moves_dense : ¬ Lattice.Moves (.float 16.0) (.float 0.0)
  := by
  rintro ⟨s, j, r, hs, -, hj, hr, hpos⟩
  obtain rfl := Except.ok.inj hs
  obtain rfl := Except.ok.inj hj
  obtain rfl := Except.ok.inj hr
  revert hpos
  decide +kernel

/-! ### Walks above a node -/

namespace Positions.Relating

variable {L : Relating} {R : List Position → List Position → Prop} {ctx ctx' : Context}

/-- A node that takes no draws is related to itself if all lattices that do not move are. -/
theorem draws_of_not_draws {node : Node} (h : ¬ node.Draws ctx.policy) {type : String}
    (htype : node.typeName family.category = .ok type)
    (hlattice : ∀ spacing jitter, ¬ Lattice.Moves spacing jitter →
      L.rel R (lattice ctx node spacing jitter) (lattice ctx' node spacing jitter)) :
  L.Draws R ctx ctx' node node type
  where
  spaced field default hspaced spacing jitter hspacing hjitter := by
    apply hlattice
    intro hmoves
    exact h (.lattice htype hspaced hspacing hjitter hmoves)
  dense _ := hlattice _ _ not_moves_dense
  chance hoccurrence := by
    rw [hoccurrence] at htype
    exact (h (.occurrence htype)).elim

section Above

variable {g : Graph} {range : WorldRange} {policy policy' : EvaluationPolicy} {id : String}
  (hg : Context.ofGraph g range policy = .ok ctx)
  (hg' : Context.ofGraph g range policy' = .ok ctx') (hctx : ctx.Alike ctx')
  (hdraws : ∀ node ∈ g.nodes, node.id ∈ g.ancestorIds id →
    ∀ type, node.typeName family.category = .ok type → L.Draws R ctx ctx' node node type)
  (hlimit : ∀ ps qs, R ps qs → L.rel R (liftM (truncate ctx.policy.maxSamples ps) : Draw _)
    (liftM (truncate ctx'.policy.maxSamples qs)))

include hg hg' hctx hdraws hlimit

/-- Two runs on a graph walk through the same nodes above an id. -/
theorem walks_above : L.Walks R ctx ctx' (fun id => id) {other | other ∈ g.ancestorIds id}
  := by
  obtain ⟨hnodes, htable, -⟩ := Context.of_ofGraph hg
  obtain ⟨hnodes', htable', -⟩ := Context.of_ofGraph hg'
  constructor
  · apply hctx
  · apply Set.injOn_id
  · intro other hother
    rw [hnodes, hnodes']
    apply Lookup.refl
    intro node hnode
    obtain ⟨hmem, rfl⟩ := Graph.mem_nodes_of_find? hnode
    exact ⟨rfl, rfl, hdraws node hmem hother⟩
  · intro other hother port
    rw [← Except.ok.inj (htable.symm.trans htable')]
    apply Lookup.refl
    intro source hsource
    exact ⟨Graph.mem_ancestorIds_of_find? htable hother hsource, rfl⟩
  · apply hlimit

/-- Two runs on a graph relate the positions of an id if they relate the draws above it. -/
theorem evaluate_above (hR : Pointwise R) (fresh : List String) :
  L.rel R (evaluate ctx fresh id) (evaluate ctx' fresh id)
  := by
  apply (walks_above hg hg' hctx hdraws hlimit).evaluate hR fresh fresh id (fun _ _ => Iff.rfl)
  exact Graph.mem_ancestorIds_iff.mpr .refl

end Above

end Positions.Relating

end AssetCanvas
