import AssetCanvas.Proofs.FailingPreviews
import AssetCanvas.Proofs.Guards
import AssetCanvas.Proofs.LocalHandlers

/-!
# Volumes as stacks of grids

The density of a node at a point depends on the point alone, `Density.exists_density`, as long as
the curves above the node are steady.  So the levels of a volume are grids, `Graph.stacked`.  Means
of eight densities or more are an exception, where a level has a single point and the volume has
several levels, `DensityVolume.IsColumn`.  The walk of a grid comes to fewer points than that of
the volume, for which simplex noise may be tabulated where it was sampled point by point before.
Then it may stray; a grid fails in no other way.
-/

namespace AssetCanvas

open Requests

/-! ### Steady nodes -/

/-- Whether the points of a node, if they are read as a curve, are a steady one. -/
def Node.Steady (n : Node) : Prop :=
  n.typeName Density.family.category = .ok "SplineFunction" ∨ n.typeName "Curve" = .ok "Manual" →
    ∀ fields c, n.fields.members = .ok fields →
      Curve.ofJson? (Json.field fields "Points") = .ok (some c) → c.Steady

/-- Whether all nodes above an id are steady. -/
def Graph.SteadyAbove (g : Graph) (id : String) : Prop :=
  ∀ n ∈ g.nodes, n.id ∈ g.ancestorIds id → n.Steady

/-- Whether no node above an id takes the mean of so many densities that they are added in lanes. -/
def Graph.FewAbove (g : Graph) (id : String) : Prop :=
  ∀ tables, g.currentInputs g.nodeMap = .ok tables → ∀ n ∈ g.nodes, n.id ∈ g.ancestorIds id →
    n.typeName Density.family.category = .ok "AverageFunction" → ∃ i < Summation.laneCount,
      Entries.contains ((Entries.find? tables n.id).getD []) (Port.slot "Inputs" i) = false

namespace Density

variable {g : Graph} {seed : Json} {ctx : Context} {root : String}

/-- Whether a walk reaches a node whose simplex noise strays. -/
def Context.Strays (ctx : Context) (fresh : List String) (id : String) (points : List Point) :
    Prop :=
  ∃ v points', ctx.walker.Reaches (evaluate ctx) fresh id points v points'
    ∧ straysOf v.type (ctx.visited v) points'

theorem exists_of_source? {s : Scope} {port : String} {n : Node} (h : s.source? port = some n) :
  ∃ source, Entries.find? s.inputs port = some source ∧ Entries.find? s.nodes source = some n
  := by
  rw [Scope.source?] at h
  split at h
  · next source hsource =>
    split at h
    · cases h
    · exact ⟨source, hsource, h⟩
  · cases h

/-- The indexed ports end at one without a source. -/
theorem Scope.length_indexedPorts_le {s : Scope} {i : Nat}
    (h : s.has (Port.slot "Inputs" i) = false) :
  s.indexedPorts.length ≤ i
  := by
  by_contra hle
  rw [not_le] at hle
  have hget : s.indexedPorts[i] = Port.slot "Inputs" i := by
    have hinitial : s.indexedPorts <+: (List.range s.inputs.length).map (Port.slot "Inputs") :=
      List.takeWhile_prefix _
    rw [hinitial.getElem hle, List.getElem_map, List.getElem_range]
  have hhas := List.mem_takeWhile_imp (List.getElem_mem hle)
  rw [hget, h] at hhas
  cases hhas

/-- An id that is not entered has no densities but zeros. -/
theorem evaluate_of_entry?_eq_none {fresh : List String} {id : String}
    (hentry : ctx.walker.entry? id = none) {ps : List Point} {values : List Float}
    (h : evaluate ctx fresh id ps = .ok values) (points : List Point) :
  evaluate ctx fresh id points = .ok (constant 0.0 points)
  := by
  rw [evaluate] at h ⊢
  split at h
  · next hmem =>
    rw [dif_pos hmem]
    cases hn : Entries.find? ctx.nodes id with
    | none => rfl
    | some n =>
      rw [hn] at h
      obtain ⟨type, htype, -⟩ := Fault.bind_eq_ok_iff.mp h
      simp [Context.walker, NodeVisit.at?, hn, htype, Except.toOption] at hentry
  · next hmem => rw [dif_neg hmem]

section Walks

variable (hctx : Context.ofGraph g seed = .ok ctx)
include hctx

/-- The sources of a visit are above what the visit is above. -/
theorem mem_ancestorIds_of_entry? {id : String} (hid : id ∈ g.ancestorIds root) {v : NodeVisit}
    (hv : ctx.walker.entry? id = some v) {port : Key}
    {source : String} (h : Entries.find? (ctx.visited v).inputs port = some source) :
  source ∈ g.ancestorIds root
  := by
  rw [Context.visited, (NodeVisit.of_at? hv).2.2] at h
  apply Graph.mem_ancestorIds_of_find? (Context.of_ofGraph hctx).2.1 hid h

/-- Below steady nodes a visit reads steady curves, and below few densities its means are of few. -/
theorem steady_visited (hsteady : g.SteadyAbove root) {ps ps' : List Point}
    (hsame : g.FewAbove root ∨ (ps.length = 1 ↔ ps'.length = 1)) {id : String}
    (hid : id ∈ g.ancestorIds root) {v : NodeVisit} (hv : ctx.walker.entry? id = some v) :
  (ctx.visited v).Steady v.type ps ps'
  := by
  obtain ⟨hfind, htype, hinputs⟩ := NodeVisit.of_at? hv
  have hnode : ∀ {id n}, id ∈ g.ancestorIds root → Entries.find? ctx.nodes id = some n →
      n.Steady := by
    intro id n hid hn
    rw [(Context.of_ofGraph hctx).1] at hn
    obtain ⟨hmem, rfl⟩ := Graph.mem_nodes_of_find? hn
    exact hsteady n hmem hid
  constructor
  · intro hspline points c hpoints hc
    obtain ⟨fields, hfields, hfield⟩ := Fault.bind_eq_ok_iff.mp hpoints
    apply hnode hid hfind (.inl (hspline ▸ htype)) fields c hfields
    rw [Except.ok.inj hfield, hc]
  · intro port c hc
    rw [Scope.curve?] at hc
    split at hc
    · next n hsource =>
      obtain ⟨source, hport, hn⟩ := exists_of_source? hsource
      have habove := mem_ancestorIds_of_entry? hctx hid hv hport
      obtain ⟨type, hmanual, hc⟩ := Fault.bind_eq_ok_iff.mp hc
      split at hc
      · next heq =>
        obtain ⟨fields, hfields, hc⟩ := Fault.bind_eq_ok_iff.mp hc
        exact hnode habove hn (.inr (heq ▸ hmanual)) fields c hfields hc
      · cases Except.ok.inj hc
    · cases Except.ok.inj hc
  · intro haverage
    apply hsame.imp_left
    intro hfew
    obtain ⟨hnodes, htables, -⟩ := Context.of_ofGraph hctx
    rw [hnodes] at hfind
    obtain ⟨hmem, rfl⟩ := Graph.mem_nodes_of_find? hfind
    obtain ⟨i, hi, hnone⟩ := hfew _ htables v.node hmem hid (haverage ▸ htype)
    apply (Scope.length_indexedPorts_le ?_).trans_lt hi
    rw [Scope.has, Context.visited, hinputs, hnone]

/-- Where the densities of an id are computed at some points, they are at others, or simplex noise
is in the way; they are those of one function of the point. -/
theorem follows_evaluate (hsteady : g.SteadyAbove root) (fresh : List String) (id : String)
    (hid : id ∈ g.ancestorIds root) {ps : List Point} {values : List Float}
    (h : evaluate ctx fresh id ps = .ok values) (ps' : List Point)
    (hsame : g.FewAbove root ∨ (ps.length = 1 ↔ ps'.length = 1)) :
  (∃ values', evaluate ctx fresh id ps' = .ok values' ∧ Along ps ps' values values')
    ∨ (∃ e, evaluate ctx fresh id ps' = .error e) ∧ (ps' ⊆ ps → ctx.Strays fresh id ps')
  := by
  induction fresh, id using Graph.walk_induction generalizing ps ps' values with
  | step fresh id ih =>
    by_cases hmem : id ∈ fresh
    · cases hentry : ctx.walker.entry? id with
      | none =>
        have hzero := evaluate_of_entry?_eq_none hentry h
        left
        use constant 0.0 ps', hzero ps'
        rw [← Except.ok.inj ((hzero ps).symm.trans h)]
        apply Along.of
      | some v =>
        rw [Context.evaluate_of_entry? hmem hentry] at h ⊢
        have hlocal := local_handlerOf v.type (ctx.visited v) ps ps'
          (steady_visited hctx hsteady hsame hid hentry)
        have habove : ∀ r, (ctx.visited v).IsSource r → r.1 ∈ g.ancestorIds root := by
          rintro r ⟨port, hport⟩
          apply mem_ancestorIds_of_entry? hctx hid hentry hport
        have hagree : ((ctx.visited v).sources ps ps').Agree
            (Walker.sources (evaluate ctx) (Walk.without fresh id)) := by
          rintro ⟨source, qs⟩ ⟨_, qs'⟩ ⟨hr, rfl, ⟨hqs, hqs'⟩, -⟩ b b' hb hb'
          rcases ih hmem source (habove _ hr) hb qs' (hqs ▸ hqs' ▸ hsame) with
            ⟨b₀, hb₀, halong⟩ | ⟨⟨e, he⟩, -⟩
          · obtain rfl := Except.ok.inj (hb₀.symm.trans hb')
            exact halong
          · cases he.symm.trans hb'
        rcases hlocal _ hagree values h with
          ⟨halong, hresult⟩ | ⟨hflaw, he⟩ | @⟨⟨source, qs⟩, ⟨_, qs'⟩, b, e, hr, hb, he, hasks⟩
        · exact .inl ⟨_, hresult _ fun _ _ hb => hb, halong⟩
        · exact .inr ⟨⟨_, he⟩, fun hsub => ⟨v, ps', .here hmem hentry, hflaw hsub⟩⟩
        · obtain ⟨hsource, rfl, ⟨hqs, hqs'⟩, hsub⟩ := hr
          rcases ih hmem source (habove _ hsource) hb qs' (hqs ▸ hqs' ▸ hsame) with
            ⟨b', hb', -⟩ | ⟨-, hstrays⟩
          · cases he.symm.trans hb'
          · right
            constructor
            · exact ⟨e, hasks.eq_error he⟩
            · intro hps
              obtain ⟨w, points, hreaches, hflaw⟩ := hstrays (hsub hps)
              exact ⟨w, points, .above hmem hentry hasks hreaches, hflaw⟩
    · left
      rw [evaluate, dif_neg hmem] at h ⊢
      use constant 0.0 ps', rfl
      rw [← Except.ok.inj h]
      apply Along.of

end Walks

/-- Runs at lists of points that agree pairwise give the values of one function. -/
theorem exists_function {run : List Point → Except Fault (List Float)} (P : List Point → Prop)
    (h : ∀ ps ps' values values', P ps → P ps' → run ps = .ok values → run ps' = .ok values' →
      Along ps ps' values values') :
  ∃ f : Point → Float, ∀ ps values, P ps → run ps = .ok values → values = ps.map f
  := by
  -- the value at a point in any run that has one there
  have hvalue : ∀ p, ∃ x, ∀ ps g, P ps → run ps = .ok (ps.map g) → p ∈ ps → g p = x := by
    intro p
    by_cases hrun : ∃ ps g, P ps ∧ run ps = .ok (ps.map g) ∧ p ∈ ps
    · obtain ⟨ps, g, hP, hps, hp⟩ := hrun
      use g p
      intro ps' g' hP' hps' hp'
      obtain ⟨f, hf, hf'⟩ := h ps ps' _ _ hP hP' hps hps'
      rw [List.map_inj_left] at hf hf'
      rw [hf p hp, hf' p hp']
    · use 0.0
      intro ps g hP hps hp
      exact (hrun ⟨ps, g, hP, hps, hp⟩).elim
  choose f hf using hvalue
  use f
  intro ps values hP hps
  obtain ⟨g, rfl, -⟩ := h ps ps values values hP hP hps hps
  apply List.map_congr_left
  intro p hp
  exact hf p ps g hP hps hp

/-- Lists of points at which the densities of a node are added in one order give densities along
one function. -/
theorem along_ofGraph {id : String} (hsteady : g.SteadyAbove id) {ps ps' : List Point}
    (hsame : g.FewAbove id ∨ (ps.length = 1 ↔ ps'.length = 1)) {values values' : List Float}
    (h : ofGraph g id seed ps = .ok values) (h' : ofGraph g id seed ps' = .ok values') :
  Along ps ps' values values'
  := by
  obtain ⟨ctx, hctx, h⟩ := Fault.bind_eq_ok_iff.mp h
  obtain ⟨ctx', hctx', h'⟩ := Fault.bind_eq_ok_iff.mp h'
  obtain rfl := Except.ok.inj (hctx.symm.trans hctx')
  have hid : id ∈ g.ancestorIds id := Graph.mem_ancestorIds_iff.mpr .refl
  rcases follows_evaluate hctx hsteady _ id hid h ps' hsame with ⟨vs, hvs, halong⟩ | ⟨⟨e, he⟩, -⟩
  · obtain rfl := Except.ok.inj (hvs.symm.trans h')
    exact halong
  · cases he.symm.trans h'

/-- The density of a node at one of several points depends on the point alone, and if its means are
of few densities, so does that at a single one. -/
theorem exists_density (g : Graph) (id : String) (seed : Json) (hsteady : g.SteadyAbove id) :
  (∃ f : Point → Float, ∀ points values, points.length ≠ 1 →
    ofGraph g id seed points = .ok values → values = points.map f)
  ∧ (g.FewAbove id → ∃ f : Point → Float, ∀ points values,
    ofGraph g id seed points = .ok values → values = points.map f)
  := by
  constructor
  · apply exists_function
    intro ps ps' values values' hps hps'
    apply along_ofGraph hsteady
    exact .inr (iff_of_false hps hps')
  · intro hfew
    have halong : ∀ ps ps' values values', True → True → ofGraph g id seed ps = .ok values →
        ofGraph g id seed ps' = .ok values' → Along ps ps' values values' :=
      fun _ _ _ _ _ _ => along_ofGraph hsteady (.inl hfew)
    obtain ⟨f, hf⟩ := exists_function (fun _ => True) halong
    exact ⟨f, fun points values => hf points values trivial⟩

end Density

/-! ### Levels -/

namespace DensityVolume

/-- The grid at a height of an extent. -/
def Extent.grid (extent : Extent) (g : Graph) (rootId : Json) (policy : EvaluationPolicy)
    (seed : Json) (height : Float) : Except Fault DensitySamples :=
  DensityGrid.ofGraph g extent.resolution extent.low extent.high (.float height) rootId policy seed

/-- Whether the walk of the grid at a height reaches a node whose simplex noise strays. -/
def Extent.Strays (extent : Extent) (g : Graph) (rootId : Json) (policy : EvaluationPolicy)
    (seed : Json) (height : Float) : Prop :=
  ∃ ctx root n axis, Density.Context.ofGraph g seed = .ok ctx
    ∧ Density.root g rootId = .ok (some root)
    ∧ Resolution.ofJson extent.resolution policy = .ok n
    ∧ Resolution.axis n extent.low extent.high = .ok axis
    ∧ ctx.Strays (Entries.keys ctx.nodes) root.id (DensityGrid.points axis height)

/-- Whether samples are those of a level of a volume. -/
structure IsLevel (v : DensityVolume) (k : Nat) (d : DensitySamples) : Prop where
  shape : v.samples.shape = v.levels.length :: d.shape
  size : d.values.length = d.shape.foldl (· * ·) 1
  values : d.values = (v.samples.values.drop (k * d.values.length)).take d.values.length
  rootId : d.rootId = v.samples.rootId

/-- Whether a volume has several levels of a single point. -/
def IsColumn (v : DensityVolume) : Prop :=
  1 < v.levels.length ∧ v.samples.shape = [v.levels.length, 1, 1]

/-- A part of a list that is put together from parts of one length. -/
theorem take_drop_flatMap {α β : Type} {f : α → List β} {size : Nat}
    (h : ∀ a, (f a).length = size) {l : List α} {k : Nat} {a : α} (ha : l[k]? = some a) :
  ((l.flatMap f).drop (k * size)).take size = f a
  := by
  induction l generalizing k with
  | nil => simp at ha
  | cons b rest ih =>
    rw [List.flatMap_cons]
    cases k with
    | zero =>
      obtain rfl := Option.some.inj ha
      rw [Nat.zero_mul, List.drop_zero, List.take_left' (h b)]
    | succ k =>
      rw [List.drop_append, h b, Nat.succ_mul, Nat.add_sub_cancel, List.drop_eq_nil_of_le,
        List.nil_append, ih ha]
      rw [h b]
      omega

theorem length_gridPoints (axis : List Float) (y : Float) :
  (DensityGrid.points axis y).length = axis.length * axis.length
  := by
  simp [DensityGrid.points, List.length_flatMap]

/-- Unless there are several levels of a single point, there is a single point in the volume exactly
if there is one in a level. -/
theorem length_points_eq_one_iff {levels axis : List Float} {y : Float} (hy : y ∈ levels)
    (h : ¬ (1 < levels.length ∧ axis.length = 1)) :
  (points levels axis).length = 1 ↔ (DensityGrid.points axis y).length = 1
  := by
  have hpos := List.length_pos_of_mem hy
  rw [points, List.length_flatMap, List.map_congr_left fun y _ => length_gridPoints axis y,
    List.map_const', List.sum_replicate, smul_eq_mul, length_gridPoints, mul_eq_one, mul_eq_one]
  omega

/-- The densities of a function of the point in a volume are, level by level, those in the plane. -/
theorem isLevel_ofValues (f : Point → Float) (rootId : String) {levels : List Float}
    (axis : List Float) {k : Nat} {y : Float} (hy : levels[k]? = some y) :
  IsLevel ⟨levels, .ofValues [levels.length, axis.length, axis.length] rootId
      ((points levels axis).map f)⟩ k
    (.ofValues [axis.length, axis.length] rootId ((DensityGrid.points axis y).map f))
  := by
  have hlength : ∀ y, (((DensityGrid.points axis y).map f).map Binary64.single).length
      = axis.length * axis.length := by
    simp [length_gridPoints]
  constructor
  · rfl
  · simp only [DensitySamples.ofValues, hlength, List.foldl_cons, List.foldl_nil, Nat.one_mul]
  · simp only [DensitySamples.ofValues, points, List.map_flatMap]
    rw [hlength, take_drop_flatMap hlength hy]
  · rfl

end DensityVolume

/-! ### Graphs without a root -/

namespace Resolution

theorem mapM_size_iff {sides : List Json} {sizes : List Int} :
  sides.mapM size = .ok sizes ↔ sides = sizes.map .int
  := by
  rw [Fault.mapM_eq_ok_iff, ← List.forall₂_eq_eq_eq, List.forall₂_map_right_iff]
  apply iff_of_eq
  congr 1
  funext side n
  cases side <;> simp [size]

/-- An array without values has sides that are natural numbers. -/
theorem emptyShape_eq_ok_iff {sides : List Json} {shape : List Nat} :
  emptyShape sides = .ok shape ↔ sides = shape.map fun n : Nat => .int n
  := by
  have hshape : ∀ {sizes : List Int}, sides.mapM size = .ok sizes → emptyShape sides
      = if sizes.any (· < 0) then .error .unusableValue else .ok (sizes.map Int.toNat) := by
    intro sizes hsizes
    rw [emptyShape, hsizes, Fault.ok_bind]
    split <;> rfl
  constructor
  · intro h
    obtain ⟨sizes, hsizes, -⟩ := Fault.bind_eq_ok_iff.mp h
    rw [hshape hsizes] at h
    split at h
    · cases h
    · next hnonneg =>
      simp only [List.any_eq_true, decide_eq_true_eq, not_exists, not_and, not_lt] at hnonneg
      rw [← Except.ok.inj h, mapM_size_iff.mp hsizes, List.map_map]
      apply List.map_congr_left
      intro n hn
      rw [Function.comp_apply, Int.toNat_of_nonneg (hnonneg n hn)]
  · rintro rfl
    have hsizes : (shape.map fun n : Nat => Json.int n).mapM size
        = .ok (shape.map fun n : Nat => (n : Int)) := by
      rw [mapM_size_iff, List.map_map]
      rfl
    rw [hshape hsizes, if_neg, List.map_map]
    · simp [Function.comp_def]
    · simp

theorem length_of_axis {n : Nat} {low high : Json} {coordinates : List Float}
    (h : axis (.int n) low high = .ok coordinates) :
  coordinates.length = n
  := by
  simp only [axis, Json.number, Json.number?, Fault.ok_bind, count] at h
  obtain ⟨low, hlow, h⟩ := Fault.bind_eq_ok_iff.mp h
  obtain ⟨high, hhigh, h⟩ := Fault.bind_eq_ok_iff.mp h
  obtain ⟨span, hspan, h⟩ := Fault.bind_eq_ok_iff.mp h
  obtain ⟨step, hstep, h⟩ := Fault.bind_eq_ok_iff.mp h
  obtain ⟨start, hstart, h⟩ := Fault.bind_eq_ok_iff.mp h
  rw [← Except.ok.inj h, List.length_map, List.length_range, Int.toNat_natCast]

end Resolution

theorem DensityVolume.isLevel_zeros (levels : List Float) (shape : List Nat) {k : Nat}
    (h : k < levels.length) :
  IsLevel ⟨levels, .zeros (levels.length :: shape)⟩ k (.zeros shape)
  := by
  constructor
  · rfl
  · simp only [DensitySamples.zeros, List.length_replicate]
  · have hsize : (levels.length :: shape).foldl (· * ·) 1
        = levels.length * shape.foldl (· * ·) 1 := by
      simp only [← List.prod_eq_foldl, List.prod_cons]
    have hle : (k + 1) * shape.foldl (· * ·) 1 ≤ levels.length * shape.foldl (· * ·) 1 :=
      Nat.mul_le_mul_right _ h
    rw [Nat.succ_mul] at hle
    rw [DensitySamples.zeros, DensitySamples.zeros, List.length_replicate, List.drop_replicate,
      List.take_replicate, hsize, Nat.min_eq_left (by omega)]
  · rfl

/-! ### Stacks -/

namespace DensityVolume.Extent

variable {g : Graph} {rootId seed n : Json} {policy : EvaluationPolicy} {extent : Extent}
  {levels axis : List Float} {k : Nat} {y : Float}

/-- Without a root a level is a grid of zeros. -/
theorem exists_grid_of_no_root (hn : Resolution.ofJson extent.resolution policy = .ok n)
    (hroot : Density.root g rootId = .ok none) {m : Json} {shape : List Nat}
    (hlevels : Resolution.axis m extent.bottom extent.top = .ok levels)
    (hshape : Resolution.emptyShape [m, n, n] = .ok shape) (hy : levels[k]? = some y) :
  ∃ d, extent.grid g rootId policy seed y = .ok d ∧ IsLevel ⟨levels, .zeros shape⟩ k d
  := by
  obtain ⟨size, sides, rfl, rfl, hsides⟩ :=
    List.map_eq_cons_iff.mp (Resolution.emptyShape_eq_ok_iff.mp hshape).symm
  have hsquare := Resolution.emptyShape_eq_ok_iff.mpr hsides.symm
  use .zeros sides
  constructor
  · simp only [grid, DensityGrid.ofGraph, hn, hroot, hsquare, Fault.ok_bind, Fault.pure_eq_ok]
  · obtain rfl := Resolution.length_of_axis hlevels
    apply isLevel_zeros
    exact (List.getElem?_eq_some_iff.mp hy).1

/-- Below steady nodes a level is a grid, unless simplex noise strays. -/
theorem exists_grid_of_root (hn : Resolution.ofJson extent.resolution policy = .ok n) {root : Node}
    (hroot : Density.root g rootId = .ok (some root)) (hsteady : g.SteadyAbove root.id)
    (hfew : 1 < levels.length ∧ axis.length = 1 → g.FewAbove root.id)
    (haxis : Resolution.axis n extent.low extent.high = .ok axis) {values : List Float}
    (hvalues : Density.ofGraph g root.id seed (points levels axis) = .ok values)
    (hy : levels[k]? = some y) :
  (∃ d, extent.grid g rootId policy seed y = .ok d ∧ IsLevel ⟨levels, .ofValues
      [levels.length, axis.length, axis.length] root.id values⟩ k d)
    ∨ (∃ e, extent.grid g rootId policy seed y = .error e)
      ∧ extent.Strays g rootId policy seed y
  := by
  obtain ⟨ctx, hctx, hvalues⟩ := Fault.bind_eq_ok_iff.mp hvalues
  have hid : root.id ∈ g.ancestorIds root.id := Graph.mem_ancestorIds_iff.mpr .refl
  have hgrid : extent.grid g rootId policy seed y
      = Density.evaluate ctx (Entries.keys ctx.nodes) root.id (DensityGrid.points axis y)
        >>= fun values => .ok (.ofValues [axis.length, axis.length] root.id values) := by
    have hheight : (Json.float y).toFloat = .ok y := rfl
    simp only [grid, DensityGrid.ofGraph, Density.ofGraph, hn, hroot, haxis, hheight, hctx,
      Fault.ok_bind, Fault.pure_eq_ok]
  have hsame : g.FewAbove root.id
      ∨ ((points levels axis).length = 1 ↔ (DensityGrid.points axis y).length = 1) := by
    by_cases hcolumn : 1 < levels.length ∧ axis.length = 1
    · exact .inl (hfew hcolumn)
    · exact .inr (length_points_eq_one_iff (List.mem_of_getElem? hy) hcolumn)
  rcases Density.follows_evaluate hctx hsteady _ root.id hid hvalues _ hsame
    with ⟨_, hvalues', f, rfl, rfl⟩ | ⟨⟨e, he⟩, hstrays⟩
  · left
    use .ofValues [axis.length, axis.length] root.id ((DensityGrid.points axis y).map f)
    constructor
    · rw [hgrid, hvalues', Fault.ok_bind]
    · apply isLevel_ofValues f root.id axis hy
  · right
    constructor
    · use e
      rw [hgrid, he, Fault.error_bind]
    · refine ⟨ctx, root, n, axis, hctx, hroot, hn, haxis, hstrays ?_⟩
      intro p hp
      exact List.mem_flatMap.mpr ⟨y, List.mem_of_getElem? hy, hp⟩

end DensityVolume.Extent

namespace Graph

/-- The density of a node at one of several points depends on the point alone, and a volume is a
stack of grids, unless simplex noise strays for a grid.  All of this is about graphs with steady
curves.  A single point is like several ones, and a column of single points is a stack, where all
means are of few densities. -/
theorem stacked (g : Graph) (seed : Json) :
  (∀ id, g.SteadyAbove id →
    (∃ f : Point → Float, ∀ points values, points.length ≠ 1 →
      Density.ofGraph g id seed points = .ok values → values = points.map f)
    ∧ (g.FewAbove id → ∃ f : Point → Float, ∀ points values,
      Density.ofGraph g id seed points = .ok values → values = points.map f))
  ∧ ∀ (extent : DensityVolume.Extent) (rootId : Json) (policy : EvaluationPolicy),
    (∀ root, Density.root g rootId = .ok (some root) → g.SteadyAbove root.id) →
    ∀ v, DensityVolume.ofGraph g extent rootId policy seed = .ok v →
    (v.IsColumn → ∀ root, Density.root g rootId = .ok (some root) → g.FewAbove root.id) →
    ∀ (k : Nat) (y : Float), v.levels[k]? = some y →
      (∃ d, extent.grid g rootId policy seed y = .ok d ∧ v.IsLevel k d)
        ∨ (∃ e, extent.grid g rootId policy seed y = .error e)
          ∧ extent.Strays g rootId policy seed y
  := by
  refine ⟨fun id => Density.exists_density g id seed, ?_⟩
  intro extent rootId policy hsteady v h hfew k y hy
  obtain ⟨n, hn, h⟩ := Fault.bind_eq_ok_iff.mp h
  obtain ⟨m, hm, h⟩ := Fault.bind_eq_ok_iff.mp h
  obtain ⟨levels, hlevels, h⟩ := Fault.bind_eq_ok_iff.mp h
  obtain ⟨found, hroot, h⟩ := Fault.bind_eq_ok_iff.mp h
  cases found with
  | none =>
    obtain ⟨shape, hshape, h⟩ := Fault.bind_eq_ok_iff.mp h
    obtain rfl := Except.ok.inj h
    exact .inl (DensityVolume.Extent.exists_grid_of_no_root hn hroot hlevels hshape hy)
  | some root =>
    obtain ⟨axis, haxis, h⟩ := Fault.bind_eq_ok_iff.mp h
    obtain ⟨values, hvalues, h⟩ := Fault.bind_eq_ok_iff.mp h
    obtain rfl := Except.ok.inj h
    apply DensityVolume.Extent.exists_grid_of_root hn hroot (hsteady root hroot) _ haxis hvalues hy
    rintro ⟨hlevels, hone⟩
    apply hfew ⟨hlevels, _⟩ root hroot
    rw [DensitySamples.ofValues, hone]

/-- A curve along the height. -/
def rampNode : Node :=
  { id := "ramp", label := .str "SplineFunction", assetType := .str "SplineFunction",
    fields := .obj [("Points", .arr [.arr [.int 0, .int 0], .arr [.int 1, .int 2]])] }

/-- The height. -/
def heightNode : Node :=
  { id := "height", label := .str "CoordinateY", assetType := .str "CoordinateY",
    fields := .obj [] }

/-- The graph of the curve along the height. -/
def ramp : Graph := ⟨[rampNode, heightNode], [.link "height" "ramp" (.str "Input")]⟩

theorem eq_of_mem_ramp {n : Node} (h : n ∈ ramp.nodes) : n = rampNode ∨ n = heightNode
  := by
  simpa [ramp] using h

theorem regular_ramp : ramp.Regular
  where
  nodes n hn := by
    rcases eq_of_mem_ramp hn with rfl | rfl <;> exact ⟨⟨_, rfl⟩, .inr ⟨_, rfl⟩, ⟨_, rfl⟩⟩
  ports e he := by
    obtain rfl := List.mem_singleton.mp he
    exact ⟨_, rfl⟩

theorem steadyAbove_ramp (id : String) : ramp.SteadyAbove id
  := by
  intro n hn _ _ fields c hfields hc
  rcases eq_of_mem_ramp hn with rfl | rfl
  · obtain rfl := Except.ok.inj hfields
    apply Curve.steady_of_ofPoints? (Except.ok.inj hc)
    decide +kernel
  · obtain rfl := Except.ok.inj hfields
    cases hc

/-- The ramp takes no means. -/
theorem fewAbove_ramp (id : String) : ramp.FewAbove id
  := by
  intro _ _ n hn _ htype
  rcases eq_of_mem_ramp hn with rfl | rfl <;> exact absurd (Except.ok.inj htype) (by decide)

/-- The walk through the ramp visits the curve and the height. -/
theorem visits_ramp {ctx : Density.Context} (hctx : Density.Context.ofGraph ramp (.int 0) = .ok ctx)
    {id : String} {v : NodeVisit} (hv : ctx.walker.entry? id = some v) :
  v.type = "SplineFunction" ∧ v.node = rampNode ∨ v.type = "CoordinateY"
  := by
  obtain ⟨hn, htype, -⟩ := NodeVisit.of_at? hv
  rw [(Density.Context.of_ofGraph hctx).1] at hn
  rcases eq_of_mem_ramp (Graph.mem_nodes_of_find? hn).1 with hnode | hnode
  · rw [hnode] at htype
    exact .inl ⟨(Except.ok.inj htype).symm, hnode⟩
  · rw [hnode] at htype
    exact .inr (Except.ok.inj htype).symm

/-- A block of four levels over two by two points. -/
def block : DensityVolume.Extent :=
  ⟨.int 2, .float 0.0, .float 2.0, .int 4, .float 0.0, .float 1.0⟩

/-- The block of the ramp has four levels. -/
theorem exists_volume_ramp :
  ∃ v, DensityVolume.ofGraph ramp block .null {} (.int 0) = .ok v ∧ v.levels.length = 4
  := by
  have htwo : Resolution.ofJson (.int 2) {} = .ok (.int 2) := rfl
  have hfour : Resolution.ofJson (.int 4) {} = .ok (.int 4) := rfl
  have hroot : Density.root ramp .null = .ok (some rampNode) := rfl
  obtain ⟨levels, hlevels⟩ := Resolution.exists_axis (n := 4) (by decide) (by decide) 0.0 1.0
  obtain ⟨axis, haxis⟩ := Resolution.exists_axis (n := 2) (by decide) (by decide) 0.0 2.0
  obtain ⟨ctx, hctx, hregular⟩ := Density.exists_context regular_ramp 0
  have hsound : ¬ ∃ v points, ctx.walker.Reaches (Density.evaluate ctx) (Entries.keys ctx.nodes)
      rampNode.id (DensityVolume.points levels axis) v points
      ∧ Density.flawOf v.type (ctx.visited v) points := by
    rintro ⟨v, points, hreaches, hflaw⟩
    obtain ⟨id, hv⟩ := hreaches.exists_entry?
    rcases visits_ramp hctx hv with ⟨htype, hnode⟩ | htype
    · rw [htype] at hflaw
      have hhuge : Curve.Huge (v.node.fields.entry "Points") := hflaw
      rw [hnode] at hhuge
      exact (Curve.failsIf_ofJson? _).succeeds_iff.mp ⟨_, rfl⟩ hhuge
    · rw [htype] at hflaw
      exact hflaw.elim
  obtain ⟨values, hvalues⟩ := (hregular.failsIf_evaluate (Entries.keys ctx.nodes) rampNode.id
    (DensityVolume.points levels axis)).succeeds_iff.mpr hsound
  use ⟨levels, .ofValues [levels.length, axis.length, axis.length] rampNode.id values⟩
  constructor
  · simp only [DensityVolume.ofGraph, block, htwo, hfour, hlevels, hroot, haxis, Density.ofGraph,
      hctx, hvalues, Fault.ok_bind, Fault.pure_eq_ok]
  · exact Resolution.length_of_axis (n := 4) hlevels

/-- The density of the ramp is a function of the point, and its volume is a stack of four grids. -/
theorem stacked_ramp :
  (∃ f : Point → Float, ∀ points values,
    Density.ofGraph ramp "ramp" (.int 0) points = .ok values → values = points.map f)
  ∧ ∃ v, DensityVolume.ofGraph ramp block .null {} (.int 0) = .ok v ∧ v.levels.length = 4
    ∧ ∀ (k : Nat) (y : Float), v.levels[k]? = some y →
      ∃ d, block.grid ramp .null {} (.int 0) y = .ok d ∧ v.IsLevel k d
  := by
  obtain ⟨hdensity, hvolume⟩ := stacked ramp (.int 0)
  obtain ⟨v, hv, hlength⟩ := exists_volume_ramp
  have hramp := (hdensity "ramp" (steadyAbove_ramp "ramp")).2 (fewAbove_ramp "ramp")
  refine ⟨hramp, v, hv, hlength, ?_⟩
  intro k y hy
  rcases hvolume block .null {} (fun root _ => steadyAbove_ramp root.id) v hv
      (fun _ root _ => fewAbove_ramp root.id) k y hy with
    hgrid | ⟨-, ctx, root, n, axis, hctx, -, -, -, w, points, hreaches, hstrays⟩
  · exact hgrid
  · -- neither type has simplex noise
    obtain ⟨id, hw⟩ := hreaches.exists_entry?
    rcases visits_ramp hctx hw with ⟨htype, -⟩ | htype
    · rw [htype] at hstrays
      exact hstrays.elim
    · rw [htype] at hstrays
      exact hstrays.elim

end Graph

end AssetCanvas
