import AssetCanvas.Proofs.Idling
import AssetCanvas.Proofs.Roots

/-!
# The limit of positions only cuts off

Every node hands on at most as many positions as the limit allows, and a lattice ends at the limit.
Where no node above the root takes draws, all of this comes to one cut in the end: a run with a
lesser limit gives the first positions of a run with a greater one, whatever the seeds and the modes
of the two runs are, `Positions.ofGraph_take`.

The positions of the two runs are compared by their first ones, `Positions.Starts`.
-/

namespace AssetCanvas.Positions

/-! ### Limits -/

theorem lt_int (m n : Nat) : Number.lt (.int m) (.int n) = decide (m < n)
  := by
  rw [Bool.eq_iff_iff, decide_eq_true_iff, ← Int.ofNat_lt, ← compare_lt_iff_lt]
  simp only [Number.lt, Number.compare, beq_iff_eq, Option.some.injEq]

theorem truncate_int (m : Nat) (ps : List Position) : truncate (.int m) ps = .ok (ps.take m)
  := by
  have hnumber : (Json.int m).number = .ok (.int m) := rfl
  rw [truncate, hnumber, Fault.ok_bind, lt_int]
  by_cases h : m < ps.length
  · simp [h]
  · simp [h, List.take_of_length_le (Nat.le_of_not_lt h)]

/-- A node hands on no more positions than the limit allows. -/
theorem length_evaluate_le {ctx : Context} {m : Nat} (hlimit : ctx.policy.maxSamples = .int m)
    {fresh : List String} {id : String} {s t : RandomSource} {ps : List Position}
    (h : evaluate ctx fresh id s = .ok (ps, t)) :
  ps.length ≤ m
  := by
  rw [evaluate] at h
  split at h
  · cases hn : Entries.find? ctx.nodes id with
    | none =>
      rw [hn] at h
      cases h
      exact Nat.zero_le m
    | some n =>
      rw [hn] at h
      obtain ⟨type, s', -, h⟩ := bind_eq_ok_iff.mp h
      obtain ⟨drawn, t', -, h⟩ := bind_eq_ok_iff.mp h
      rw [hlimit, truncate_int, lift_eq_ok_iff] at h
      rw [← Except.ok.inj h.1]
      exact List.length_take_le m drawn
  · cases h
    exact Nat.zero_le m

/-! ### First positions -/

/-- Whether two lists of positions have the same first ones. -/
def Starts (m : Nat) (ps qs : List Position) : Prop := ps.take m = qs.take m

theorem pointwise_starts (m : Nat) : Pointwise (Starts m)
  where
  refl _ := rfl
  map f ps qs h := by
    rw [Starts, ← List.map_take, ← List.map_take, h]
  append {ps qs ps' qs'} h h' := by
    rw [Starts, List.take_append, List.take_append, h]
    congr 1
    have hlength := congrArg List.length h
    rw [List.length_take, List.length_take] at hlength
    by_cases hle : m ≤ ps.length
    · -- the first lists are enough
      rw [Nat.sub_eq_zero_of_le hle, Nat.sub_eq_zero_of_le (by omega), List.take_zero,
        List.take_zero]
    · have hsame : m - ps.length = m - qs.length := by omega
      have htake := congrArg (List.take (m - qs.length)) h'
      rw [List.take_take, List.take_take, min_eq_left (Nat.sub_le m _)] at htake
      rw [hsame, htake]

section Lattices

variable {m n : Nat} (hle : m ≤ n) {ctx ctx' : Context}
  (hm : ctx.policy.maxSamples = .int m) (hn : ctx'.policy.maxSamples = .int n)
  (hctx : ctx.Alike ctx')

include hle hm hn hctx

theorem lattice_starts (node : Node) {spacing jitter : Json}
    (h : ¬ Lattice.Moves spacing jitter) :
  Relating.following.rel (Starts m) (lattice ctx node spacing jitter)
    (lattice ctx' node spacing jitter)
  := by
  intro s s' qs t' hqs
  obtain ⟨drawn, hdrawn, hpure⟩ := Fault.bind_eq_ok_iff.mp hqs
  cases hpure
  rw [hn] at hdrawn
  obtain ⟨drawn', hdrawn', htake⟩ := Lattice.take_positions hle hdrawn
  -- the generator of the other run gives the same points
  obtain ⟨x, hx⟩ := Lattice.exists_positions h ctx'.range (.int m)
  rw [hx] at hdrawn'
  cases x with
  | error e => cases hdrawn'
  | ok ps =>
    cases hdrawn'
    refine ⟨ps, s.store (some node.id) (s.generator (some node.id)), ?_, htake⟩
    rw [lattice, hctx.range, hm, hx]
    rfl

end Lattices

/-! ### Runs -/

/-- Handing on no more than the limits keeps the first positions. -/
theorem truncate_starts {m n : Nat} (hle : m ≤ n) {ps qs : List Position} (h : Starts m ps qs) :
  Relating.following.rel (Starts m) (liftM (truncate (.int m) ps) : Draw _)
    (liftM (truncate (.int n) qs))
  := by
  intro s s' qs' t' hqs
  rw [truncate_int, lift_eq_ok_iff] at hqs
  rw [← Except.ok.inj hqs.1]
  refine ⟨ps.take m, s, lift_eq_ok_iff.mpr ⟨truncate_int m ps, rfl⟩, ?_⟩
  rw [Starts, List.take_take, List.take_take, min_self, min_eq_left hle, h]

/-- A run with a lesser limit gives the first positions of an id that no draws are taken above. -/
theorem evaluate_take {g : Graph} {range : WorldRange} {policy policy' : EvaluationPolicy}
    {ctx ctx' : Context} (hg : Context.ofGraph g range policy = .ok ctx)
    (hg' : Context.ofGraph g range policy' = .ok ctx') (halike : ctx.Alike ctx') {m n : Nat}
    (hle : m ≤ n) (hm : ctx.policy.maxSamples = .int m) (hn : ctx'.policy.maxSamples = .int n)
    {fresh : List String} {id : String}
    (hidle : ∀ node ∈ g.nodes, node.id ∈ g.ancestorIds id → ¬ node.Draws ctx.policy)
    (s : RandomSource) {s' t' : RandomSource} {qs : List Position}
    (hqs : evaluate ctx' fresh id s' = .ok (qs, t')) :
  ∃ t, evaluate ctx fresh id s = .ok (qs.take m, t)
  := by
  have hdraws : ∀ node ∈ g.nodes, node.id ∈ g.ancestorIds id →
      ∀ type, node.typeName family.category = .ok type →
        Relating.following.Draws (Starts m) ctx ctx' node node type := by
    intro node hnode hmem type htype
    apply Relating.draws_of_not_draws (hidle node hnode hmem) htype
    intro spacing jitter hstill
    exact lattice_starts hle hm hn halike node hstill
  have hlimit : ∀ ps qs, Starts m ps qs →
      Relating.following.rel (Starts m) (liftM (truncate ctx.policy.maxSamples ps) : Draw _)
        (liftM (truncate ctx'.policy.maxSamples qs)) := by
    intro ps qs hps
    rw [hm, hn]
    exact truncate_starts hle hps
  obtain ⟨ps, t, hps, hstarts⟩ := Relating.evaluate_above hg hg' halike hdraws hlimit
    (pointwise_starts m) fresh s s' qs t' hqs
  -- what is handed on is no more than its first positions
  have hlength := length_evaluate_le hm hps
  rw [Starts, List.take_of_length_le hlength] at hstarts
  exact ⟨t, by rw [hps, hstarts]⟩

theorem Context.ofGraph_policy {g : Graph} {range : WorldRange} {policy : EvaluationPolicy}
    {ctx : Context} (h : Context.ofGraph g range policy = .ok ctx) (policy' : EvaluationPolicy) :
  Context.ofGraph g range policy' = .ok { ctx with policy := policy' }
  := by
  obtain ⟨hnodes, htable, hrange, -⟩ := Context.of_ofGraph h
  simp only [Context.ofGraph, htable, hnodes, hrange, Fault.ok_bind, Fault.pure_eq_ok]

/-- Where no node above the root takes draws, a run with a limit gives no more positions than that,
and a run with a lesser limit, any seed and any mode gives the first of them. -/
theorem ofGraph_take {g : Graph} {range : WorldRange} {rootId : Json} {policy : EvaluationPolicy}
    {m n : Nat} (hle : m ≤ n) {seed seed' : Int} {mode mode' : String}
    (hmode : mode = "shared" ∨ mode = "per_node")
    (hidle : ∀ root, Positions.root g rootId = .ok (some root) →
      ∀ node ∈ g.nodes, node.id ∈ g.ancestorIds root.id → ¬ node.Draws policy)
    {qs : List Position}
    (hqs : ofGraph g range (.int seed') rootId
      { policy with maxSamples := .int n, randomMode := .str mode' } = .ok qs) :
  qs.length ≤ n
    ∧ ofGraph g range (.int seed) rootId
        { policy with maxSamples := .int m, randomMode := .str mode }
      = .ok (qs.take m)
  := by
  obtain ⟨found, hfound, hrun⟩ := Fault.bind_eq_ok_iff.mp hqs
  rw [ofGraph, hfound, Fault.ok_bind]
  cases found with
  | none =>
    cases hrun
    exact ⟨Nat.zero_le n, by rw [List.take_nil]; rfl⟩
  | some root =>
    obtain ⟨s', -, hrun⟩ := Fault.bind_eq_ok_iff.mp hrun
    obtain ⟨ctx', hctx', hrun⟩ := Fault.bind_eq_ok_iff.mp hrun
    obtain ⟨⟨_, t'⟩, hdrawn, hpure⟩ := Fault.bind_eq_ok_iff.mp hrun
    obtain rfl := Except.ok.inj hpure
    obtain ⟨-, -, -, hpolicy⟩ := Context.of_ofGraph hctx'
    have hctx := Context.ofGraph_policy hctx'
      { policy with maxSamples := .int m, randomMode := .str mode }
    have halike : Context.Alike { ctx' with
        policy := { policy with maxSamples := .int m, randomMode := .str mode } } ctx' := by
      constructor <;> simp only [hpolicy]
    have hn : ctx'.policy.maxSamples = .int n := by rw [hpolicy]
    obtain ⟨s, hs⟩ : ∃ s, RandomSource.ofJson (.int seed) (.str mode) = .ok s := by
      rcases hmode with rfl | rfl <;> exact ⟨_, rfl⟩
    obtain ⟨t, hps⟩ := evaluate_take hctx hctx' halike hle rfl hn
      (fun node hnode hmem hdraws => hidle root hfound node hnode hmem (hdraws.congr rfl)) s hdrawn
    constructor
    · apply length_evaluate_le hn hdrawn
    · rw [hs, hctx]
      simp only [Fault.ok_bind, StateT.run, hps, Fault.pure_eq_ok]

/-! ### A list taken twice -/

/-- A list of two points. -/
def pair : Node where
  id := "pair"
  label := .str "Position:List"
  fields := .obj [("Positions", .arr
    [.obj [("x", .float 1.0), ("z", .float 2.0)], .obj [("x", .float 3.0), ("z", .float 4.0)]])]

/-- The union of a list of two points with itself. -/
def doubled : Graph where
  nodes := [{ id := "union", label := .str "Position:Union" }, pair]
  edges := [.link "pair" "union" (.str "Providers[0]"), .link "pair" "union" (.str "Providers[1]")]

theorem not_draws_doubled : ∀ node ∈ doubled.nodes, ¬ node.Draws {}
  := by
  have htypes : ∀ node ∈ doubled.nodes, ∃ type,
      node.typeName family.category = .ok type ∧ type ≠ "Occurrence" ∧ spacingOf? {} type = none := by
    simp only [doubled, List.forall_mem_cons]
    exact ⟨⟨"Union", rfl, by decide, rfl⟩, ⟨"List", rfl, by decide, rfl⟩, by simp⟩
  rintro node hnode (hdraws | ⟨htype, hlattice, -, -, -⟩)
  · obtain ⟨type, htype, hne, -⟩ := htypes node hnode
    exact hne (Except.ok.inj (htype.symm.trans hdraws))
  · obtain ⟨type', htype', -, hnone⟩ := htypes node hnode
    obtain rfl := Except.ok.inj (htype'.symm.trans htype)
    cases hnone.symm.trans hlattice

/-- The points of the list. -/
def points : List Position := [⟨1.0, 2.0, 1.0⟩, ⟨3.0, 4.0, 1.0⟩]

theorem listed_points :
  listed {} [.obj [("x", .float 1.0), ("z", .float 2.0)], .obj [("x", .float 3.0), ("z", .float 4.0)]]
    = .ok points
  := by
  have hfirst : WorldRange.contains {} 1.0 2.0 = true := by decide +kernel
  have hsecond : WorldRange.contains {} 3.0 4.0 = true := by decide +kernel
  have hx : ∀ x z, Json.field [("x", Json.float x), ("z", .float z)] "x" = .float x := fun _ _ => rfl
  have hz : ∀ x z, Json.field [("x", Json.float x), ("z", .float z)] "z" = .float z := fun _ _ => rfl
  have hcoerce : ∀ x : Float, (Json.float x).coerce 0.0 = .ok x := fun _ => rfl
  simp [listed, Entries.contains, Entries.find?, hx, hz, hcoerce, hfirst, hsecond, points]

/-- The context of the union with itself, with room for ten positions. -/
def doubledContext : Context where
  nodes := doubled.nodeMap
  inputs := [("union", [("Providers[0]", "pair"), ("Providers[1]", "pair")])]
  range := {}
  policy := { maxSamples := .int (10 : Nat), randomMode := .str "per_node" }

theorem evaluate_pair {ctx : Context} (hn : Entries.find? ctx.nodes "pair" = some pair)
    (hrange : ctx.range = {}) (hlimit : ctx.policy.maxSamples = .int (10 : Nat))
    {fresh : List String} (h : "pair" ∈ fresh) (s : RandomSource) :
  evaluate ctx fresh "pair" s = .ok (points, s)
  := by
  rw [evaluate, dif_pos h, hn, hlimit]
  apply bind_eq_ok_iff.mpr ⟨"List", s, lift_eq_ok_iff.mpr ⟨rfl, rfl⟩, ?_⟩
  have hproduce : produce ctx pair ((Entries.find? ctx.inputs "pair").getD [])
      (fun source => evaluate ctx (Walk.without fresh "pair") source) "List" s
      = .ok (points, s) := by
    rw [produce, hrange]
    exact bind_eq_ok_iff.mpr ⟨_, s, lift_eq_ok_iff.mpr ⟨rfl, rfl⟩,
      lift_eq_ok_iff.mpr ⟨listed_points, rfl⟩⟩
  exact bind_eq_ok_iff.mpr ⟨points, s, hproduce, lift_eq_ok_iff.mpr ⟨truncate_int 10 points, rfl⟩⟩

theorem evaluate_doubled (s : RandomSource) :
  evaluate doubledContext (Entries.keys doubledContext.nodes) "union" s
    = .ok (points ++ points, s)
  := by
  have hn : Entries.find? doubledContext.nodes "union"
      = some { id := "union", label := .str "Position:Union" } := rfl
  have hfresh : "pair" ∈ Walk.without (Entries.keys doubledContext.nodes) "union" := by decide
  rw [evaluate, dif_pos (by decide), hn]
  apply bind_eq_ok_iff.mpr ⟨"Union", s, lift_eq_ok_iff.mpr ⟨rfl, rfl⟩, ?_⟩
  apply bind_eq_ok_iff.mpr ⟨points ++ points, s, ?_, lift_eq_ok_iff.mpr ⟨truncate_int 10 _, rfl⟩⟩
  have hfind : Entries.find? doubledContext.nodes "pair" = some pair := rfl
  have hpair := evaluate_pair hfind rfl rfl hfresh s
  exact bind_eq_ok_iff.mpr ⟨points, s, hpair, bind_eq_ok_iff.mpr ⟨points, s, hpair, rfl⟩⟩

/-- Three of the four positions of a list taken twice, with another seed and another mode. -/
theorem ofGraph_take_doubled :
  ofGraph doubled {} (.int 7) (.str "union")
      { maxSamples := .int (10 : Nat), randomMode := .str "per_node" }
    = .ok (points ++ points)
    ∧ ofGraph doubled {} (.int 1) (.str "union")
      { maxSamples := .int (3 : Nat), randomMode := .str "shared" }
    = .ok ((points ++ points).take 3)
  := by
  have hrun : ofGraph doubled {} (.int 7) (.str "union")
      { maxSamples := .int (10 : Nat), randomMode := .str "per_node" }
      = .ok (points ++ points) := by
    have hroot : Positions.root doubled (.str "union")
        = .ok (some { id := "union", label := .str "Position:Union" }) := rfl
    have hctx : Context.ofGraph doubled {}
        { maxSamples := .int (10 : Nat), randomMode := .str "per_node" } = .ok doubledContext := rfl
    have hsource : RandomSource.ofJson (.int 7) (.str "per_node") = .ok (.new 7 .perNode) := rfl
    simp only [ofGraph, hroot, hctx, hsource, Fault.ok_bind, StateT.run, evaluate_doubled]
    rfl
  have hidle : ∀ root, Positions.root doubled (.str "union") = .ok (some root) →
      ∀ node ∈ doubled.nodes, node.id ∈ doubled.ancestorIds root.id → ¬ node.Draws {} :=
    fun _ _ node hnode _ => not_draws_doubled node hnode
  exact ⟨hrun, (ofGraph_take (by decide) (.inl rfl) hidle hrun).2⟩

end AssetCanvas.Positions
