import AssetCanvas.Proofs.Confinement
import AssetCanvas.Proofs.Idling
import AssetCanvas.Proofs.Truncation

/-!
# Generators of their own

In the mode with a generator for each node, a run leaves the generators of the nodes that it draws
for where the draws ended, and every other generator as it is.  So the second input of a union is
computed as it is on its own if no node above it has drawn for the first input,
`Positions.ofGraph_union`.  A node above both inputs that takes draws goes on with its generator, and
the second input has other positions than on its own, `Positions.not_ofGraph_union_twice`.

Two sources are compared by the generators of some nodes, `RandomSource.AgreeOn`.
-/

namespace AssetCanvas

namespace RandomSource

/-- Whether two sources with a generator for each node agree on the generators of some nodes. -/
structure AgreeOn (ids : Set String) (s s' : RandomSource) : Prop where
  left : s.mode = .perNode
  right : s'.mode = .perNode
  generator : ∀ id ∈ ids, s.generator (some id) = s'.generator (some id)

theorem mode_store (s : RandomSource) (node : Option String) (g : Generator) :
  (s.store node g).mode = s.mode
  := by
  cases s with
  | mk seed mode shared nodes => cases mode <;> cases node <;> rfl

theorem mode_of_ofJson {seed : Json} {s : RandomSource}
    (h : ofJson seed (.str "per_node") = .ok s) :
  s.mode = .perNode
  := by
  have hmode : RandomMode.ofJson (.str "per_node") = .ok .perNode := rfl
  rw [ofJson, hmode, Fault.ok_bind] at h
  obtain ⟨n, -, hnew⟩ := Fault.bind_eq_ok_iff.mp h
  rw [← Except.ok.inj hnew]
  rfl

theorem generator_store {s : RandomSource} (h : s.mode = .perNode) (id other : String)
    (g : Generator) :
  (s.store (some id) g).generator (some other)
    = if id = other then g else s.generator (some other)
  := by
  by_cases hid : id = other
  · simp [store, generator, h, Entries.find?_insert, hid]
  · simp [store, generator, h, Entries.find?_insert, hid]

namespace AgreeOn

variable {ids : Set String} {s s' : RandomSource}

theorem refl (ids : Set String) (h : s.mode = .perNode) : AgreeOn ids s s := ⟨h, h, fun _ _ => rfl⟩

theorem trans {s'' : RandomSource} (h : AgreeOn ids s s') (h' : AgreeOn ids s' s'') :
  AgreeOn ids s s''
  := ⟨h.left, h'.right, fun id hid => (h.generator id hid).trans (h'.generator id hid)⟩

theorem mono {ids' : Set String} (h : AgreeOn ids s s') (hsub : ids' ⊆ ids) : AgreeOn ids' s s'
  := ⟨h.left, h.right, fun id hid => h.generator id (hsub hid)⟩

/-- A node leaves the same generator in both sources. -/
theorem store (h : AgreeOn ids s s') (id : String) (g : Generator) :
  AgreeOn ids (s.store (some id) g) (s'.store (some id) g)
  where
  left := by rw [mode_store, h.left]
  right := by rw [mode_store, h.right]
  generator other hother := by
    rw [generator_store h.left, generator_store h.right, h.generator other hother]

/-- A node outside leaves any generator. -/
theorem store_right (h : AgreeOn ids s s') {id : String} (hid : id ∉ ids) (g : Generator) :
  AgreeOn ids s (s'.store (some id) g)
  where
  left := h.left
  right := by rw [mode_store, h.right]
  generator other hother := by
    have hne : id ≠ other := by
      rintro rfl
      exact hid hother
    rw [generator_store h.right, if_neg hne, h.generator other hother]

/-- A node leaves its generator as it was. -/
theorem store_own (h : AgreeOn ids s s') (id : String) :
  AgreeOn ids s (s'.store (some id) (s'.generator (some id)))
  where
  left := h.left
  right := by rw [mode_store, h.right]
  generator other hother := by
    rw [generator_store h.right, h.generator other hother]
    split
    next heq => rw [heq]
    · rfl

theorem symm (h : AgreeOn ids s s') : AgreeOn ids s' s
  := ⟨h.right, h.left, fun id hid => (h.generator id hid).symm⟩

end AgreeOn

end RandomSource

/-- A graph whose edges all lead to an id of a lower rank is acyclic. -/
theorem Graph.acyclic_of_rank {g : Graph} (rank : String → Nat)
    (h : ∀ e ∈ g.edges, rank e.target < rank e.source) :
  g.Acyclic
  := by
  have hpath : ∀ source target, Relation.TransGen g.Feeds source target →
      rank target < rank source := by
    intro source target hpath
    induction hpath with
    | single hfeeds =>
      obtain ⟨e, he, rfl, rfl⟩ := hfeeds
      apply h e he
    | tail _ hfeeds ih =>
      obtain ⟨e, he, rfl, rfl⟩ := hfeeds
      apply lt_trans (h e he) ih
  intro id hcycle
  exact lt_irrefl _ (hpath id id hcycle)

namespace Positions

open RandomSource

/-- The ids above a node under which there is a node that takes draws. -/
def drawing (g : Graph) (policy : EvaluationPolicy) (id : String) : Set String :=
  {other | other ∈ g.ancestorIds id ∧ ∃ n ∈ g.nodes, n.id = other ∧ n.Draws policy}

variable {g : Graph} {range : WorldRange} {policy : EvaluationPolicy} {ctx : Context} {id : String}

/-! ### Sources that agree -/

/-- A lattice that does not move is the same for any generators, and leaves them. -/
theorem lattice_agree {ids : Set String} {n : Node} {spacing jitter : Json}
    (h : ¬ Lattice.Moves spacing jitter) :
  (Relating.between (AgreeOn ids)).rel Eq (lattice ctx n spacing jitter)
    (lattice ctx n spacing jitter)
  := by
  intro s s' hs
  obtain ⟨x, hx⟩ := Lattice.exists_positions h ctx.range ctx.policy.maxSamples
  rw [lattice, lattice, hx, hx]
  cases x with
  | error e => exact .inl ⟨e, rfl, rfl⟩
  | ok ps =>
    refine .inr ⟨ps, ps, _, _, rfl, rfl, rfl, ?_⟩
    exact ((hs.store_own n.id).symm.store_own n.id).symm

theorem draws_agree (hctx : Context.ofGraph g range policy = .ok ctx) {n : Node}
    (hn : n ∈ g.nodes) (hid : n.id ∈ g.ancestorIds id) {type : String}
    (htype : n.typeName family.category = .ok type) :
  (Relating.between (AgreeOn (drawing g policy id))).Draws Eq ctx ctx n n type
  := by
  obtain ⟨-, -, -, rfl⟩ := Context.of_ofGraph hctx
  by_cases hdraws : n.Draws ctx.policy
  · have htied : Relating.Tied (AgreeOn (drawing g ctx.policy id)) n n := by
      constructor
      · intro s s' hs
        apply hs.generator n.id ⟨hid, n, hn, rfl, hdraws⟩
      · intro s s' drawn hs
        apply hs.store
    apply htied.draws rfl rfl
  · apply Relating.draws_of_not_draws hdraws htype
    intro spacing jitter hstill
    apply lattice_agree hstill

/-- A run gives the same positions from sources that agree on the nodes that take draws. -/
theorem evaluate_agree (hctx : Context.ofGraph g range policy = .ok ctx) :
  (Relating.between (AgreeOn (drawing g policy id))).rel Eq
    (evaluate ctx (Entries.keys ctx.nodes) id) (evaluate ctx (Entries.keys ctx.nodes) id)
  := by
  apply Relating.evaluate_above hctx hctx (.refl ctx) _ (Relating.lift_eq _ _) pointwise_eq
  intro n hn hid type htype
  exact draws_agree hctx hn hid htype

/-! ### Sources that are left -/

section Leaving

variable {hrefl : ∀ s : RandomSource, s.mode = .perNode → AgreeOn (drawing g policy id)ᶜ s s}
  {htrans : ∀ s t u : RandomSource, (s.mode = .perNode → AgreeOn (drawing g policy id)ᶜ s t) →
    (t.mode = .perNode → AgreeOn (drawing g policy id)ᶜ t u) →
    s.mode = .perNode → AgreeOn (drawing g policy id)ᶜ s u}

/-- A lattice that does not move leaves all generators. -/
theorem lattice_leave {n : Node} {spacing jitter : Json} (h : ¬ Lattice.Moves spacing jitter) :
  (Relating.keeping (fun s t => s.mode = .perNode → AgreeOn (drawing g policy id)ᶜ s t) hrefl
    htrans).rel Eq (lattice ctx n spacing jitter) (lattice ctx n spacing jitter)
  := by
  intro s ps t hps
  obtain ⟨x, hx⟩ := Lattice.exists_positions h ctx.range ctx.policy.maxSamples
  rw [lattice, hx] at hps
  cases x with
  | error e => cases hps
  | ok qs =>
    cases hps
    exact ⟨fun hmode => (AgreeOn.refl _ hmode).store_own n.id, ps, rfl⟩

/-- A node leaves the generators of the nodes that take no draws. -/
theorem draws_leave (hctx : Context.ofGraph g range policy = .ok ctx) {n : Node}
    (hn : n ∈ g.nodes) (hid : n.id ∈ g.ancestorIds id) {type : String}
    (htype : n.typeName family.category = .ok type) :
  (Relating.keeping (fun s t => s.mode = .perNode → AgreeOn (drawing g policy id)ᶜ s t) hrefl
    htrans).Draws Eq ctx ctx n n type
  := by
  obtain ⟨-, -, -, rfl⟩ := Context.of_ofGraph hctx
  by_cases hdraws : n.Draws ctx.policy
  · apply Relating.keeping_draws
    intro s drawn hmode
    apply (AgreeOn.refl _ hmode).store_right
    exact fun hnot => hnot ⟨hid, n, hn, rfl, hdraws⟩
  · apply Relating.draws_of_not_draws hdraws htype
    intro spacing jitter hstill
    apply lattice_leave hstill

end Leaving

/-- A run leaves the generators of the nodes that take no draws for it as they are. -/
theorem agreeOn_of_evaluate (hctx : Context.ofGraph g range policy = .ok ctx)
    {s t : RandomSource} {ps : List Position} (hmode : s.mode = .perNode)
    (h : evaluate ctx (Entries.keys ctx.nodes) id s = .ok (ps, t)) :
  AgreeOn (drawing g policy id)ᶜ s t
  := by
  have hrun := Relating.evaluate_above
    (L := Relating.keeping (fun s t => s.mode = .perNode → AgreeOn (drawing g policy id)ᶜ s t)
      (fun s => AgreeOn.refl _)
      (fun s t u hst htu hs => (hst hs).trans (htu (hst hs).right)))
    hctx hctx (.refl ctx)
    (fun n hn (hid : n.id ∈ g.ancestorIds id) type htype => draws_leave hctx hn hid htype)
    (Relating.lift_eq _ _) pointwise_eq (Entries.keys ctx.nodes)
  exact (hrun s ps t h).1 hmode

/-! ### Unions -/

theorem node?_of_mem (hnodup : (g.nodes.map Node.id).Nodup) {n : Node} (hn : n ∈ g.nodes) :
  g.node? n.id = some n
  := by
  have hfind : ∀ found, g.node? n.id = some found → found = n := by
    intro found hfound
    apply List.inj_on_of_nodup_map hnodup (List.mem_of_find?_eq_some hfound) hn
    simpa using List.find?_some hfound
  cases hfound : g.node? n.id with
  | some found => rw [hfind found hfound]
  | none => simpa using List.find?_eq_none.mp hfound n hn

/-- Without cycles the positions of a source are computed below its target as they are on their
own. -/
theorem evaluate_source (ha : g.Acyclic) (hctx : Context.ofGraph g range policy = .ok ctx)
    {source target : String} (h : g.Feeds source target) :
  evaluate ctx (Walk.without (Entries.keys ctx.nodes) target) source
    = evaluate ctx (Entries.keys ctx.nodes) source
  := by
  funext s
  apply Recursion.evaluate_congr (computes ctx) (computes ctx) rfl (scripted_operation hctx)
  intro other hother
  refine ⟨?_, fun _ => rfl⟩
  rw [Walk.mem_without, and_iff_left_iff_imp]
  rintro - rfl
  apply ha other
  apply Relation.TransGen.tail' hother h

/-- A union evaluates its first source and then its second one. -/
theorem evaluate_union (ha : g.Acyclic) (hnodup : (g.nodes.map Node.id).Nodup)
    (hctx : Context.ofGraph g range policy = .ok ctx) {u : Node} (hu : u ∈ g.nodes)
    (htype : u.typeName family.category = .ok "Union") {a b : String}
    (hfirst : g.Reads u.id "Providers[0]" a) (hsecond : g.Reads u.id "Providers[1]" b) :
  evaluate ctx (Entries.keys ctx.nodes) u.id = (do
    let ps ← evaluate ctx (Entries.keys ctx.nodes) a
    let qs ← evaluate ctx (Entries.keys ctx.nodes) b
    truncate policy.maxSamples (ps ++ qs))
  := by
  obtain ⟨hnodes, htable, -, hpolicy⟩ := Context.of_ofGraph hctx
  have hinput : ∀ port source, g.Reads u.id port source →
      Entries.find? ((Entries.find? ctx.inputs u.id).getD []) (.text port) = some source := by
    rintro port source ⟨table, ports, htable', hports, hsource⟩
    rw [Except.ok.inj (htable.symm.trans htable'), hports, Option.getD_some, hsource]
  have hn : Entries.find? ctx.nodes u.id = some u := by
    rw [hnodes, g.find?_nodeMap hnodup hu]
  have hmem : u.id ∈ Entries.keys ctx.nodes := by
    apply Entries.mem_keys_of_find? hn
  rw [evaluate, dif_pos hmem]
  simp only [hn, htype]
  have hfirst' := evaluate_source ha hctx (Graph.feeds_of_find? htable (hinput _ _ hfirst))
  have hsecond' := evaluate_source ha hctx (Graph.feeds_of_find? htable (hinput _ _ hsecond))
  have hproduce : produce ctx u ((Entries.find? ctx.inputs u.id).getD [])
      (fun source => evaluate ctx (Walk.without (Entries.keys ctx.nodes) u.id) source) "Union" = (do
        let ps ← evaluate ctx (Entries.keys ctx.nodes) a
        let qs ← evaluate ctx (Entries.keys ctx.nodes) b
        return ps ++ qs) := by
    simp only [produce, hinput _ _ hfirst, hinput _ _ hsecond, hfirst', hsecond']
  change (produce ctx u _ _ "Union" >>= fun ps => liftM (truncate ctx.policy.maxSamples ps)) = _
  rw [hproduce, hpolicy]
  simp only [bind_assoc, pure_bind]

/-- In the mode with a generator for each node, the positions of a union without cycles above it are
those of its first source on its own followed by those of its second source on its own, cut off at
the limit, if no node that takes draws is above both of them. -/
theorem ofGraph_union (ha : g.Acyclic) (hnodup : (g.nodes.map Node.id).Nodup) {u a b : Node}
    (hu : u ∈ g.nodes) (htype : u.typeName family.category = .ok "Union") (hna : a ∈ g.nodes)
    (hnb : b ∈ g.nodes) (hfirst : g.Reads u.id "Providers[0]" a.id)
    (hsecond : g.Reads u.id "Providers[1]" b.id) (hmode : policy.randomMode = .str "per_node")
    {limit : Nat} (hlimit : policy.maxSamples = .int limit)
    (happart : ∀ n ∈ g.nodes, n.Draws policy →
      ¬ (n.id ∈ g.ancestorIds a.id ∧ n.id ∈ g.ancestorIds b.id)) (seed : Json) :
  ofGraph g range seed (.str u.id) policy = (do
    let ps ← ofGraph g range seed (.str a.id) policy
    let qs ← ofGraph g range seed (.str b.id) policy
    return (ps ++ qs).take limit)
  := by
  have hroot : ∀ n ∈ g.nodes, root g (.str n.id) = .ok (some n) := fun n hn =>
    Graph.evaluationRoot_of_node? (node?_of_mem hnodup hn) _ _
  simp only [ofGraph, hroot u hu, hroot a hna, hroot b hnb, Fault.ok_bind]
  cases hsource : RandomSource.ofJson seed policy.randomMode with
  | error e => rfl
  | ok s =>
    cases hctx : Context.ofGraph g range policy with
    | error e => rfl
    | ok ctx =>
      rw [hmode] at hsource
      have hs := mode_of_ofJson hsource
      simp only [Fault.ok_bind, evaluate_union ha hnodup hctx hu htype hfirst hsecond, hlimit]
      simp only [StateT.run, bind_apply]
      cases hps : evaluate ctx (Entries.keys ctx.nodes) a.id s with
      | error e => rfl
      | ok drawn =>
        obtain ⟨ps, t⟩ := drawn
        -- the second source draws from generators that the first one has left
        have hleft := agreeOn_of_evaluate hctx hs hps
        have hagree : AgreeOn (drawing g policy b.id) s t := by
          apply hleft.mono
          rintro other ⟨hb, n, hn, rfl, hdraws⟩ ⟨ha, -⟩
          exact happart n hn hdraws ⟨ha, hb⟩
        rcases evaluate_agree hctx s t hagree with
          ⟨e, hqs, hqs'⟩ | ⟨qs, _, t₁, t₂, hqs, hqs', rfl, -⟩
        · simp only [Fault.ok_bind, hqs, hqs']
          rfl
        · simp only [Fault.ok_bind, hqs, hqs', truncate_int]
          rfl

/-! ### Samples of a list -/

/-- An occurrence with the chance of the policy. -/
def sampling (id : String) : Node where
  id := id
  label := .str "Position:Occurrence"

/-- The union of a sample of a list of two points with one of two samples of the same list. -/
def sampled (second : String) : Graph where
  nodes := [{ id := "union", label := .str "Position:Union" }, sampling "left", sampling "right",
    pair]
  edges := [.link "left" "union" (.str "Providers[0]"), .link second "union" (.str "Providers[1]"),
    .link "pair" "left" (.str "PositionProvider"), .link "pair" "right" (.str "PositionProvider")]

/-- The policy with a generator for each node and room for ten positions. -/
def ownTen : EvaluationPolicy where
  maxSamples := .int (10 : Nat)
  randomMode := .str "per_node"

def sampledContext (second : String) : Context where
  nodes := (sampled second).nodeMap
  inputs := [("union", [("Providers[0]", "left"), ("Providers[1]", second)]),
    ("left", [("PositionProvider", "pair")]), ("right", [("PositionProvider", "pair")])]
  range := {}
  policy := ownTen

theorem context_sampled (second : String) :
  Context.ofGraph (sampled second) {} ownTen = .ok (sampledContext second)
  := rfl

/-- Both edges into the union come from samples, and those into samples from the list. -/
theorem acyclic_sampled {second : String} (h : second = "left" ∨ second = "right") :
  (sampled second).Acyclic
  := by
  apply Graph.acyclic_of_rank (fun id => if id = "union" then 0 else if id = "pair" then 2 else 1)
  rcases h with rfl | rfl <;> decide

/-- An occurrence keeps some of the positions, in their order. -/
theorem sublist_occurring (n : Node) (chance : Number) (ps : List Position) (s : RandomSource) :
  (occurring n chance ps s).1.Sublist ps
  := by
  induction ps generalizing s with
  | nil => exact List.Sublist.refl []
  | cons p rest ih =>
    simp only [occurring]
    split
    · exact (ih _).cons_cons p
    · exact (ih _).cons p

theorem evaluate_sample {second id : String} (h : id = "left" ∨ id = "right") (s : RandomSource) :
  evaluate (sampledContext second) (Entries.keys (sampledContext second).nodes) id s
    = .ok (occurring (sampling id) (.float 0.5) points s)
  := by
  have hn : Entries.find? (sampledContext second).nodes id = some (sampling id) := by
    rcases h with rfl | rfl <;> rfl
  have hmem : id ∈ Entries.keys (sampledContext second).nodes := Entries.mem_keys_of_find? hn
  have hinput : Entries.find? ((Entries.find? (sampledContext second).inputs id).getD [])
      (.text "PositionProvider") = some "pair" := by
    rcases h with rfl | rfl <;> rfl
  have hfresh : "pair" ∈ Walk.without (Entries.keys (sampledContext second).nodes) id := by
    apply Walk.mem_without.mpr ⟨Entries.mem_keys_of_find? (v := pair) rfl, ?_⟩
    rcases h with rfl | rfl <;> decide
  have hfind : Entries.find? (sampledContext second).nodes "pair" = some pair := rfl
  have hpair := evaluate_pair hfind rfl rfl hfresh s
  have hproduce : produce (sampledContext second) (sampling id)
      ((Entries.find? (sampledContext second).inputs id).getD [])
      (fun source => evaluate (sampledContext second)
        (Walk.without (Entries.keys (sampledContext second).nodes) id) source)
      "Occurrence" s = .ok (occurring (sampling id) (.float 0.5) points s) := by
    rw [produce]
    simp only [hinput]
    exact bind_eq_ok_iff.mpr ⟨.float 0.5, s, lift_eq_ok_iff.mpr ⟨rfl, rfl⟩,
      bind_eq_ok_iff.mpr ⟨points, s, hpair, rfl⟩⟩
  have hlength : (occurring (sampling id) (.float 0.5) points s).1.length ≤ 10 :=
    (sublist_occurring _ _ _ _).length_le.trans (by decide)
  have htruncate := truncate_int 10 (occurring (sampling id) (.float 0.5) points s).1
  rw [List.take_of_length_le hlength] at htruncate
  rw [evaluate, dif_pos hmem, hn]
  apply bind_eq_ok_iff.mpr ⟨"Occurrence", s, lift_eq_ok_iff.mpr ⟨rfl, rfl⟩, ?_⟩
  exact bind_eq_ok_iff.mpr ⟨_, _, hproduce, lift_eq_ok_iff.mpr ⟨htruncate, rfl⟩⟩

/-- A sample on its own, for the seed 4. -/
theorem ofGraph_sample {second id : String} (h : id = "left" ∨ id = "right") :
  ofGraph (sampled second) {} (.int 4) (.str id) ownTen
    = .ok (occurring (sampling id) (.float 0.5) points (.new 4 .perNode)).1
  := by
  have hroot : root (sampled second) (.str id) = .ok (some (sampling id)) := by
    rcases h with rfl | rfl <;> rfl
  have hsource : ofJson (.int 4) ownTen.randomMode = .ok (.new 4 .perNode) := rfl
  have hid : (sampling id).id = id := rfl
  simp only [ofGraph, hroot, hsource, context_sampled, hid, Fault.ok_bind, StateT.run,
    evaluate_sample h]
  rfl

theorem reads_sampled (second : String) :
  (sampled second).Reads "union" "Providers[0]" "left"
    ∧ (sampled second).Reads "union" "Providers[1]" second
  := ⟨⟨_, _, rfl, rfl, rfl⟩, ⟨_, _, rfl, rfl, rfl⟩⟩

/-- Both samples keep the whole list for the seed 4, the left one only if it draws first. -/
theorem occurring_sampling :
  (occurring (sampling "left") (.float 0.5) points (.new 4 .perNode)).1 = points
    ∧ (occurring (sampling "right") (.float 0.5) points (.new 4 .perNode)).1 = points
    ∧ (occurring (sampling "left") (.float 0.5) points
        (occurring (sampling "left") (.float 0.5) points (.new 4 .perNode)).2).1 = []
  := by
  refine ⟨?_, ?_, ?_⟩
  · apply (sublist_occurring _ _ _ _).eq_of_length
    decide +kernel
  · apply (sublist_occurring _ _ _ _).eq_of_length
    decide +kernel
  · apply List.eq_nil_of_length_eq_zero
    decide +kernel

/-- Nothing that draws is above both samples. -/
theorem apart_sampled :
  ∀ n ∈ (sampled "right").nodes, n.Draws ownTen →
    ¬ (n.id ∈ (sampled "right").ancestorIds "left"
      ∧ n.id ∈ (sampled "right").ancestorIds "right")
  := by
  have hpair : ¬ pair.Draws ownTen := by
    rintro (hdraws | ⟨htype, hlattice, -, -, -⟩)
    · revert hdraws
      decide
    · have hlist : pair.typeName family.category = .ok "List" := rfl
      rw [← Except.ok.inj (hlist.symm.trans htype)] at hlattice
      cases hlattice
  simp only [sampled, List.forall_mem_cons]
  refine ⟨?_, ?_, ?_, fun hdraws => (hpair hdraws).elim, by simp⟩ <;> rintro - <;> decide

/-- Two samples of a list draw from generators of their own. -/
theorem ofGraph_sampled_right :
  ofGraph (sampled "right") {} (.int 4) (.str "union") ownTen = .ok (points ++ points)
  := by
  have hunion : ofGraph (sampled "right") {} (.int 4) (.str "union") ownTen = (do
      let ps ← ofGraph (sampled "right") {} (.int 4) (.str (sampling "left").id) ownTen
      let qs ← ofGraph (sampled "right") {} (.int 4) (.str (sampling "right").id) ownTen
      return (ps ++ qs).take 10) :=
    ofGraph_union (acyclic_sampled (.inr rfl)) (by decide)
      (u := { id := "union", label := .str "Position:Union" }) (by simp [sampled]) rfl
      (by simp [sampled]) (by simp [sampled]) (reads_sampled "right").1 (reads_sampled "right").2
      rfl rfl apart_sampled (.int 4)
  obtain ⟨hleft, hright, -⟩ := occurring_sampling
  have hfirst : ofGraph (sampled "right") {} (.int 4) (.str (sampling "left").id) ownTen
      = .ok points := (ofGraph_sample (.inl rfl)).trans (congrArg Except.ok hleft)
  have hsecond : ofGraph (sampled "right") {} (.int 4) (.str (sampling "right").id) ownTen
      = .ok points := (ofGraph_sample (.inr rfl)).trans (congrArg Except.ok hright)
  rw [hfirst, Fault.ok_bind, hsecond] at hunion
  apply hunion

/-- A sample that is taken twice goes on with its generator: the union has the whole list once, not
twice, and the sample on its own has it too. -/
theorem not_ofGraph_union_twice :
  ((sampled "left").Reads "union" "Providers[0]" "left"
      ∧ (sampled "left").Reads "union" "Providers[1]" "left")
    ∧ ofGraph (sampled "left") {} (.int 4) (.str "left") ownTen = .ok points
    ∧ ofGraph (sampled "left") {} (.int 4) (.str "union") ownTen = .ok points
    ∧ (points ++ points).take 10 ≠ points
  := by
  obtain ⟨hleft, -, hagain⟩ := occurring_sampling
  refine ⟨reads_sampled "left", ?_, ?_, ?_⟩
  · rw [ofGraph_sample (.inl rfl), hleft]
  · have hunion := evaluate_union (acyclic_sampled (.inl rfl)) (by decide) (context_sampled "left")
      (u := { id := "union", label := .str "Position:Union" }) (by simp [sampled]) rfl
      (reads_sampled "left").1 (reads_sampled "left").2
    have hroot : root (sampled "left") (.str "union")
        = .ok (some { id := "union", label := .str "Position:Union" }) := rfl
    have hsource : ofJson (.int 4) ownTen.randomMode = .ok (.new 4 .perNode) := rfl
    simp only [ofGraph, hroot, hsource, context_sampled, Fault.ok_bind, StateT.run, hunion,
      bind_apply, evaluate_sample (.inl rfl), hleft, hagain, List.append_nil]
    exact congrArg (Functor.map Prod.fst) (lift_eq_ok_iff.mpr ⟨truncate_int 10 points, rfl⟩)
  · intro heq
    exact absurd (congrArg List.length heq) (by decide)

end Positions

end AssetCanvas
