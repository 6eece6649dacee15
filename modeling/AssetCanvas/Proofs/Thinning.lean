import AssetCanvas.Proofs.Amending
import AssetCanvas.Proofs.FloatOrder
import AssetCanvas.Proofs.Independence
import AssetCanvas.Proofs.Rows

/-!
# Thinning by chance

An occurrence takes one draw for each position that arrives, whatever its chance is, and keeps the
positions whose draw is below the chance.  What arrives and what is drawn, `Positions.offered`, does
not depend on the chance, as no walk comes back to the occurrence from above it.  So the runs of a
graph for all chances are cut from one list, `Positions.ofGraph_withChance`, and a greater chance
keeps what a lesser one keeps.
-/

namespace AssetCanvas

/-! ### Chances -/

/-- An object with a member; what is no object stays as it is. -/
def Json.withMember (value : Json) (key : String) (member : Json) : Json :=
  match value with
  | .obj fields => .obj (Entries.insert fields key member)
  | _ => value

/-- The node with another chance. -/
def Node.withChance (n : Node) (chance : Float) : Node :=
  { n with fields := n.fields.withMember "Chance" (.float chance) }

/-- The graph whose nodes with some id have another chance. -/
def Graph.withChance (g : Graph) (id : String) (chance : Float) : Graph :=
  g.mapNodes fun n => if n.id = id then n.withChance chance else n

theorem Node.amends_withChance (id : String) (chance : Float) :
  Amends fun n => if n.id = id then n.withChance chance else n
  where
  id n := by split <;> rfl
  label n := by split <;> rfl
  assetType n := by split <;> rfl
  output n := by split <;> rfl
  sectionTag n := by split <;> rfl

/-- A node goes on with the generator that it left. -/
theorem RandomSource.generator_store_self (s : RandomSource) (id : String) (g : Generator) :
  (s.store (some id) g).generator (some id) = g
  := by
  cases hmode : s.mode with
  | shared => simp [store, generator, hmode]
  | perNode => simp [generator_store hmode]

namespace Positions

/-! ### Draws below a chance -/

/-- The positions whose draws are below a chance. -/
def kept (chance : Float) (offers : List (Position × Float)) : List Position :=
  (offers.filter fun offer => offer.2 < chance).map Prod.fst

/-- A greater chance keeps what a lesser one keeps. -/
theorem sublist_kept {chance chance' : Float} (h : chance ≤ chance')
    (offers : List (Position × Float)) :
  (kept chance offers).Sublist (kept chance' offers)
  := by
  apply List.Sublist.map
  apply List.monotone_filter_right
  intro offer hoffer
  exact decide_eq_true (Binary64.lt_of_lt_of_le (of_decide_eq_true hoffer) h)

/-- The positions with the draws of a generator for them. -/
def offers (g : Generator) (ps : List Position) : List (Position × Float) :=
  ps.mapIdx fun k p => (p, g.stream k)

/-- An occurrence keeps the positions whose draws are below its chance. -/
theorem occurring_eq (n : Node) (chance : Float) (ps : List Position) (s : RandomSource) :
  (occurring n (.float chance) ps s).1 = kept chance (offers (s.generator (some n.id)) ps)
  := by
  induction ps generalizing s with
  | nil => rfl
  | cons p ps ih =>
    have hgenerator : (s.draw (some n.id)).2.generator (some n.id)
        = (s.generator (some n.id)).step := by
      rw [RandomSource.draw, RandomSource.generator_store_self, Generator.next_snd]
    have hfirst : (s.draw (some n.id)).1 = (s.generator (some n.id)).stream 0 := rfl
    simp only [occurring, ih, hgenerator, hfirst, Generator.stream_step, offers, List.mapIdx_cons,
      kept, List.filter_cons, Number.lt_float, decide_eq_true_eq]
    split
    · rw [List.map_cons]
    · rfl

theorem occurrence_float (n : Node) (chance : Float) (ps : List Position) (s : RandomSource) :
  occurrence n (.float chance) ps s = .ok (occurring n (.float chance) ps s)
  := by
  cases ps <;> rfl

/-- A chance that has been set is what an occurrence reads. -/
theorem numberOr_withChance (n : Node) (chance : Float) (default : Json) :
  numberOr (n.withChance chance) "Chance" default = (fun _ => .float chance) <$> n.fields.members
  := by
  rw [numberOr, fieldOf, Node.withChance]
  cases n.fields with
  | obj fields =>
    have hfield : Json.field (Entries.insert fields "Chance" (.float chance)) "Chance"
        = .float chance := by
      rw [Json.field, Entries.find?_insert]
      rfl
    simp only [Json.withMember, Json.members, Fault.ok_bind, Fault.pure_eq_ok, hfield]
    rfl
  | _ => rfl

/-! ### What arrives -/

/-- What arrives at an occurrence that a walk has entered first. -/
def arriving (ctx : Context) (o : Node) : Draw (List Position) :=
  fed ((Entries.find? ctx.inputs o.id).getD [])
    (evaluate ctx (Walk.without (Entries.keys ctx.nodes) o.id)) "PositionProvider"

/-- The positions that arrive at an occurrence, with the draws that it takes for them. -/
def offered (g : Graph) (range : WorldRange) (seed : Json) (policy : EvaluationPolicy) (o : Node) :
    Except Fault (List (Position × Float)) := do
  let source ← RandomSource.ofJson seed policy.randomMode
  let ctx ← Context.ofGraph g range policy
  let _ ← o.fields.members
  let (ps, source) ← arriving ctx o source
  return offers (source.generator (some o.id)) ps

theorem length_arriving_le {ctx : Context} {o : Node} {cap : Nat}
    (hlimit : ctx.policy.maxSamples = .int cap) {s t : RandomSource} {ps : List Position}
    (h : arriving ctx o s = .ok (ps, t)) :
  ps.length ≤ cap
  := by
  rw [arriving, fed] at h
  cases hsource : Entries.find? ((Entries.find? ctx.inputs o.id).getD []) "PositionProvider" with
  | some source =>
    rw [hsource] at h
    exact length_evaluate_le hlimit h
  | none =>
    rw [hsource] at h
    cases h
    exact Nat.zero_le cap

/-! ### Runs for all chances -/

section Chances

variable {g : Graph} {range : WorldRange} {policy : EvaluationPolicy} {ctx : Context}
  (hctx : Context.ofGraph g range policy = .ok ctx) (o : Node) (chance : Float)

/-- The context with another chance for a node. -/
abbrev Context.withChance (ctx : Context) (id : String) (chance : Float) : Context :=
  ctx.mapNodes fun n => if n.id = id then n.withChance chance else n

include hctx

/-- What arrives does not depend on the chance, as the walk does not come back. -/
theorem arriving_withChance : arriving (ctx.withChance o.id chance) o = arriving ctx o
  := by
  rw [arriving, arriving, Context.keys_mapNodes, evaluate_mapNodes hctx]
  · rfl
  · intro n _ hfresh
    exact if_neg (Walk.mem_without.mp hfresh).2

/-- With any chance an occurrence takes its draws for all positions that arrive. -/
theorem produce_withChance (s : RandomSource) :
  produce (ctx.withChance o.id chance) (o.withChance chance)
      ((Entries.find? ctx.inputs o.id).getD [])
      (evaluate (ctx.withChance o.id chance)
        (Walk.without (Entries.keys (ctx.withChance o.id chance).nodes) o.id)) "Occurrence" s
    = (do
      let _ ← o.fields.members
      let (ps, t) ← arriving ctx o s
      return occurring (o.withChance chance) (.float chance) ps t)
  := by
  have hproduce : ∀ inputs below,
      produce (ctx.withChance o.id chance) (o.withChance chance) inputs below "Occurrence" s = (do
        let value ← numberOr (o.withChance chance) "Chance"
          (ctx.withChance o.id chance).policy.defaultChance
        let (ps, t) ← fed inputs below "PositionProvider" s
        occurrence (o.withChance chance) value ps t) := by
    intro inputs below
    simp only [produce, bind_apply]
    cases numberOr (o.withChance chance) "Chance" (ctx.withChance o.id chance).policy.defaultChance
      <;> rfl
  have harriving : ∀ t, fed ((Entries.find? ctx.inputs o.id).getD [])
      (evaluate (ctx.withChance o.id chance)
        (Walk.without (Entries.keys (ctx.withChance o.id chance).nodes) o.id)) "PositionProvider" t
      = arriving ctx o t := congrFun (arriving_withChance hctx o chance)
  rw [hproduce, numberOr_withChance]
  cases o.fields.members with
  | error e => rfl
  | ok fields =>
    simp only [Fault.map_ok, Fault.ok_bind, harriving, occurrence_float, Fault.pure_eq_ok]

/-- With any chance an occurrence keeps the positions that arrive and have a draw below it. -/
theorem evaluate_withChance (hn : Entries.find? ctx.nodes o.id = some o)
    (htype : o.typeName family.category = .ok "Occurrence") {cap : Nat}
    (hlimit : ctx.policy.maxSamples = .int cap) (s : RandomSource) :
  Prod.fst <$> evaluate (ctx.withChance o.id chance)
      (Entries.keys (ctx.withChance o.id chance).nodes) o.id s
    = (do
      let _ ← o.fields.members
      let (ps, t) ← arriving ctx o s
      return kept chance (offers (t.generator (some o.id)) ps))
  := by
  have hmem : o.id ∈ Entries.keys (ctx.withChance o.id chance).nodes := by
    rw [Context.keys_mapNodes]
    exact Entries.mem_keys_of_find? hn
  have hfind : Entries.find? (ctx.withChance o.id chance).nodes o.id
      = some (o.withChance chance) := by
    rw [Context.find?_mapNodes, hn, Option.map_some, if_pos rfl]
  have htype' : (o.withChance chance).typeName family.category = .ok "Occurrence" := htype
  have hevaluate : evaluate (ctx.withChance o.id chance)
      (Entries.keys (ctx.withChance o.id chance).nodes) o.id s = (do
        let (ps, t) ← produce (ctx.withChance o.id chance) (o.withChance chance)
          ((Entries.find? ctx.inputs o.id).getD [])
          (evaluate (ctx.withChance o.id chance)
            (Walk.without (Entries.keys (ctx.withChance o.id chance).nodes) o.id)) "Occurrence" s
        return (← truncate ctx.policy.maxSamples ps, t)) := by
    rw [evaluate, dif_pos hmem]
    simp only [hfind, htype']
    rfl
  rw [hevaluate, produce_withChance hctx, hlimit]
  cases o.fields.members with
  | error e => rfl
  | ok fields =>
    simp only [Fault.ok_bind]
    cases harriving : arriving ctx o s with
    | error e => rfl
    | ok arrived =>
      obtain ⟨ps, t⟩ := arrived
      -- what is kept is no more than what arrives, so the limit cuts nothing off
      have hkept : (occurring (o.withChance chance) (.float chance) ps t).1
          = kept chance (offers (t.generator (some o.id)) ps) :=
        occurring_eq (o.withChance chance) chance ps t
      have hlength : (kept chance (offers (t.generator (some o.id)) ps)).length ≤ cap := by
        rw [← hkept]
        exact (sublist_occurring _ _ _ _).length_le.trans (length_arriving_le hlimit harriving)
      simp only [Fault.ok_bind, Fault.pure_eq_ok, truncate_int, List.take_of_length_le hlength,
        Fault.map_ok, hkept]

omit hctx in
/-- The runs of a graph for all chances of an occurrence at its root keep what has a draw below the
chance, of the same positions with the same draws. -/
theorem ofGraph_withChance (hnodup : (g.nodes.map Node.id).Nodup) (range : WorldRange)
    (seed : Json) {rootId : Json} (hroot : root g rootId = .ok (some o))
    (htype : o.typeName family.category = .ok "Occurrence") {cap : Nat}
    (hlimit : policy.maxSamples = .int cap) :
  (∀ chance : Float, ofGraph (g.withChance o.id chance) range seed rootId policy
      = kept chance <$> offered g range seed policy o)
    ∧ ∀ chance chance' : Float, chance ≤ chance' → ∀ ps ps' : List Position,
      ofGraph (g.withChance o.id chance) range seed rootId policy = .ok ps →
        ofGraph (g.withChance o.id chance') range seed rootId policy = .ok ps' → ps.Sublist ps'
  := by
  have hmem : o ∈ g.nodes := Graph.mem_of_evaluationRoot hroot
  have hkept : ∀ chance : Float, ofGraph (g.withChance o.id chance) range seed rootId policy
      = kept chance <$> offered g range seed policy o := by
    intro chance
    have hroot' : root (g.withChance o.id chance) rootId = .ok (some (o.withChance chance)) := by
      have hsame := Graph.evaluationRoot_mapNodes (g := g) (Node.amends_withChance o.id chance)
        family (.str sectionName) rootId
      rw [root] at hroot
      rw [root, Graph.withChance, hsame, hroot, Fault.map_ok, Option.map_some, if_pos rfl]
    have hid : (o.withChance chance).id = o.id := rfl
    rw [ofGraph, hroot', offered]
    simp only [Fault.ok_bind, Graph.withChance,
      Context.ofGraph_mapNodes (Node.amends_withChance o.id chance), hid]
    cases RandomSource.ofJson seed policy.randomMode with
    | error e => rfl
    | ok s =>
      cases hctx : Context.ofGraph g range policy with
      | error e => rfl
      | ok ctx =>
        obtain ⟨hnodes, -, -, hpolicy⟩ := Context.of_ofGraph hctx
        have hn : Entries.find? ctx.nodes o.id = some o := by
          rw [hnodes, g.find?_nodeMap hnodup hmem]
        have hrun := evaluate_withChance hctx o chance hn htype (hpolicy ▸ hlimit) s
        simp only [Fault.map_ok, Fault.ok_bind, StateT.run, bind_pure_comp, hrun, map_bind,
          Functor.map_map]
  refine ⟨hkept, ?_⟩
  intro chance chance' hle ps ps' hps hps'
  rw [hkept] at hps hps'
  cases hoffered : offered g range seed policy o with
  | error e =>
    rw [hoffered] at hps
    cases hps
  | ok offers =>
    rw [hoffered] at hps hps'
    rw [← Except.ok.inj hps, ← Except.ok.inj hps']
    exact sublist_kept hle offers

end Chances

/-- The left sample keeps no position for the chance 0, and both of them for one half. -/
theorem ofGraph_withChance_sampled :
  (∀ chance : Float,
      ofGraph ((sampled "right").withChance "left" chance) {} (.int 4) (.str "left") ownTen
        = .ok (kept chance (offers (RandomSource.ownGenerator 4 "left") points)))
    ∧ (kept 0.0 (offers (RandomSource.ownGenerator 4 "left") points)).length = 0
    ∧ (kept 0.5 (offers (RandomSource.ownGenerator 4 "left") points)).length = 2
  := by
  have hroot : root (sampled "right") (.str "left") = .ok (some (sampling "left")) := rfl
  have htype : (sampling "left").typeName family.category = .ok "Occurrence" := rfl
  have hfresh : "pair" ∈ Walk.without (Entries.keys (sampledContext "right").nodes) "left" := by
    decide
  have harriving : arriving (sampledContext "right") (sampling "left") (.new 4 .perNode)
      = .ok (points, .new 4 .perNode) := evaluate_pair rfl rfl rfl hfresh _
  have hsource : RandomSource.ofJson (.int 4) ownTen.randomMode = .ok (.new 4 .perNode) := rfl
  have hoffered : offered (sampled "right") {} (.int 4) ownTen (sampling "left")
      = .ok (offers (RandomSource.ownGenerator 4 "left") points) := by
    have hmembers : (sampling "left").fields.members = .ok [] := rfl
    have hgenerator : (RandomSource.new 4 .perNode).generator (some (sampling "left").id)
        = RandomSource.ownGenerator 4 "left" := by
      simp only [RandomSource.generator, RandomSource.new, Entries.find?, Option.getD_none,
        sampling]
    simp only [offered, hsource, context_sampled, hmembers, harriving, hgenerator, Fault.ok_bind,
      Fault.pure_eq_ok]
  have hnodup : ((sampled "right").nodes.map Node.id).Nodup := by decide
  have hlimit : ownTen.maxSamples = .int (10 : Nat) := rfl
  obtain ⟨hkept, -⟩ := ofGraph_withChance (sampling "left") hnodup {} (.int 4) hroot htype hlimit
  refine ⟨fun chance => ?_, by decide +kernel, by decide +kernel⟩
  have hrun := hkept chance
  rwa [hoffered] at hrun

end Positions

end AssetCanvas
