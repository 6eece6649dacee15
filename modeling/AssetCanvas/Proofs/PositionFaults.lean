import AssetCanvas.Preview.Positions
import AssetCanvas.Proofs.Coercion
import AssetCanvas.Proofs.FailingWalks
import AssetCanvas.Proofs.Rows

/-!
# Failing positions

With the standard policy, the positions of a graph are computed unless the walk reaches a node
that stores an integer beyond the finite floats where its type reads a number.
`Positions.Flawed` lists these places for every type, and `Positions.Reaches` the nodes that a
walk reaches: a node asks for the positions of a source if every fault of the source is its own.
-/

namespace AssetCanvas

namespace Positions

open Requests

/-! ### Flawed fields -/

/-- Whether a listed point has both coordinates, one of which is an integer beyond the finite
floats. -/
def Misplaced : Json → Prop
  | .obj point => Entries.contains point "x" ∧ Entries.contains point "z"
    ∧ (Json.obj point).HasHuge ["x", "z"]
  | _ => False

/-- Whether the fields of a node hold an integer beyond the finite floats where its type reads a
number. -/
def Flawed (type : String) (fields : Json) : Prop :=
  match type with
  | "Mesh2D" => fields.HasHuge ["Resolution", "Jitter"]
  | "Mesh3D" => fields.HasHuge ["Resolution", "Jitter"]
  | "SimpleHorizontal" => fields.HasHuge ["Spacing", "Jitter"]
  | "List" => ∃ points, fields.entry "Positions" = .arr points ∧ ∃ point ∈ points, Misplaced point
  | "Occurrence" => fields.HasHuge ["Chance"]
  | "Offset" => (fields.entry "Offset").HasHuge ["x", "y", "z"]
  | _ => False

/-! ### Operations that draw -/

/-- A request for the positions of a source, given the random source. -/
abbrev Call := String × RandomSource

/-- The positions of a source, and the random source after it. -/
abbrev Drawn := List Position × RandomSource

/-- The positions of a source as an answer. -/
def drawn (answers : Answers Call Drawn) (id : String) : Draw (List Position) :=
  fun source => answers (id, source)

variable {α β : Type} {P Q : Prop}

/-- Whether an operation fails exactly where it asks for positions that are faulty, or under a
condition of its own, whatever the random source is. -/
def FailsIf (operation : Answers Call Drawn → Draw α) (P : Prop) : Prop :=
  ∀ source, Requests.FailsIf (fun answers => operation answers source) P

namespace FailsIf

theorem congr {operation : Answers Call Drawn → Draw α} (h : FailsIf operation P) (hPQ : P ↔ Q) :
  FailsIf operation Q
  := fun source => (h source).congr hPQ

theorem drawn (id : String) : FailsIf (fun answers => drawn answers id) False
  := fun source => .request (id, source)

theorem lift {x : Except Fault α} (h : Fault.FailsIf x P) :
  FailsIf (fun _ => (liftM x : Draw α)) P
  := fun _ => .read (h.map _)

theorem pure (a : α) : FailsIf (fun _ => (pure a : Draw α)) False := fun _ => .pure _

theorem bind {operation : Answers Call Drawn → Draw α} {next : α → Answers Call Drawn → Draw β}
    (h : FailsIf operation P) (hnext : ∀ a, FailsIf (next a) Q) :
  FailsIf (fun answers => operation answers >>= fun a => next a answers) (P ∨ Q)
  := fun source => (h source).bind fun result => hnext result.1 result.2

theorem map {operation : Answers Call Drawn → Draw α} (h : FailsIf operation P) (f : α → β) :
  FailsIf (fun answers => operation answers >>= fun a => Pure.pure (f a)) P
  := (h.bind fun a => pure (f a)).congr (iff_of_eq (or_false P))

end FailsIf

/-! ### Lattices -/

/-- A lattice needs nothing but floats and an integer for the limit. -/
theorem exists_positions (range : WorldRange) (spacing jitter : Float) (limit : Int)
    (g : Generator) :
  ∃ result, Lattice.positions range (.float spacing) (.float jitter) (.int limit) g = .ok result
  := by
  obtain ⟨x, hx⟩ := Lattice.exists_atLeastOne spacing
  simp only [Lattice.positions, Lattice.positions?, Lattice.points?, Lattice.reach, Json.number,
    Json.number?, hx, Number.mul, Number.toFloat, Fault.ok_bind, Fault.pure_eq_ok]
  split
  · exact ⟨_, rfl⟩
  · split
    · split
      · split <;> exact ⟨_, rfl⟩
      · exact ⟨_, rfl⟩
    · exact ⟨_, rfl⟩

variable {ctx : Context} {n : Node} {fields : Fields}

/-- A lattice of floats does not fail under the standard limit. -/
theorem failsIf_lattice (hpolicy : ctx.policy = {}) (n : Node) (spacing jitter : Float) :
  FailsIf (fun _ => lattice ctx n (.float spacing) (.float jitter)) False
  := by
  intro source
  obtain ⟨result, hresult⟩ := exists_positions ctx.range spacing jitter 10000
    (source.generator (some n.id))
  apply Requests.FailsIf.read
  apply Fault.FailsIf.of_ok
  simp only [lattice, hpolicy, hresult]
  rfl

/-- The fields of an object can be read. -/
theorem failsIf_fieldOf (h : n.fields = .obj fields) (key : String)
    {next : Json → Answers Call Drawn → Draw α} (hnext : FailsIf (next (n.fields.entry key)) P) :
  FailsIf (fun answers => liftM (fieldOf n key) >>= fun v => next v answers) P
  := by
  have hfield : fieldOf n key = .ok (n.fields.entry key) := by
    simp [fieldOf, h, Json.members, Json.entry]
  rw [hfield]
  exact hnext

/-- The number of a field, as an integer beyond the finite floats, is the only fault of an operation
that begins with it; otherwise it is a float. -/
theorem failsIf_numberOr (h : n.fields = .obj fields) (key : String) (default : Float)
    {next : Json → Answers Call Drawn → Draw α} (hnext : ∀ x, FailsIf (next (.float x)) P) :
  FailsIf (fun answers => liftM (numberOr n key (.float default)) >>= fun v => next v answers)
    ((n.fields.entry key).Huge ∨ P)
  := by
  have hnumber : numberOr n key (.float default)
      = (n.fields.entry key).coerce default >>= fun x => pure (.float x) := by
    simp only [numberOr, fieldOf, h, Json.members, Fault.ok_bind, Fault.pure_eq_ok, Json.coerce,
      Json.entry]
    cases (Json.field fields key).coerce? with
    | error e => rfl
    | ok x => cases x <;> rfl
  intro source
  have hfails := ((n.fields.entry key).failsIf_coerce default)
  rw [hnumber]
  cases hx : (n.fields.entry key).coerce default with
  | error e =>
    rw [hx] at hfails
    exact .read (.error (.inl (hfails.fails_iff.mp ⟨e, rfl⟩)) (hfails.numeric rfl))
  | ok x =>
    rw [hx] at hfails
    cases hfails with
    | ok hhuge => exact (hnext x source).congr (by simp [hhuge])

theorem failsIf_spacedLattice (hpolicy : ctx.policy = {}) (h : n.fields = .obj fields)
    (key : String) (default : Float) :
  FailsIf (fun _ => spacedLattice ctx n key (.float default)) (n.fields.HasHuge [key, "Jitter"])
  := by
  apply FailsIf.congr
  · simp only [spacedLattice]
    apply failsIf_numberOr h
    intro spacing
    apply failsIf_numberOr h
    intro jitter
    apply failsIf_lattice hpolicy
  · simp [Json.HasHuge]

/-! ### Types of nodes -/

theorem failsIf_listed (range : WorldRange) (points : List Json) :
  Fault.FailsIf (listed range points) (∃ point ∈ points, Misplaced point)
  := by
  induction points using listed.induct with
  | case1 => exact (Fault.FailsIf.of_ok rfl).congr (by simp)
  | case2 rest point hcontains ih =>
    rw [listed, if_pos hcontains]
    apply Fault.FailsIf.congr
    · apply (Json.failsIf_coerce _ _).bind
      intro x _
      apply (Json.failsIf_coerce _ _).bind
      intro z _
      apply ih.map
    · rw [Bool.and_eq_true] at hcontains
      simp [Misplaced, Json.HasHuge, Json.entry, hcontains, or_assoc]
  | case3 rest point hcontains ih =>
    rw [listed, if_neg hcontains]
    apply ih.congr
    rw [Bool.and_eq_true] at hcontains
    simp only [List.exists_mem_cons_iff, Misplaced]
    tauto
  | case4 v rest hv ih =>
    rw [listed]
    · apply ih.congr
      cases v <;> simp_all [Misplaced]
    · exact hv

/-- The chance of an occurrence is a float. -/
theorem failsIf_occurrence (n : Node) (chance : Float) (ps : List Position) :
  FailsIf (fun _ => occurrence n (.float chance) ps) False
  := by
  intro source
  apply Requests.FailsIf.read
  cases ps with
  | nil => exact .of_ok rfl
  | cons p rest => exact .of_ok rfl

/-- The positions of the source of a port, none without a source. -/
def fed (inputs : Inputs) (evaluate : String → Draw (List Position)) (port : String) :
    Draw (List Position) :=
  match Entries.find? inputs port with
  | some source => evaluate source
  | none => pure []

theorem failsIf_fed (inputs : Inputs) (port : String) :
  FailsIf (fun answers => fed inputs (drawn answers) port) False
  := by
  unfold fed
  cases Entries.find? inputs port with
  | none => apply FailsIf.pure
  | some source => apply FailsIf.drawn

/-- A type fails exactly if a source that it asks for fails, or the fields are flawed. -/
theorem failsIf_produce (hpolicy : ctx.policy = {}) (h : n.fields = .obj fields)
    (inputs : Inputs) (type : String) :
  FailsIf (fun answers => produce ctx n inputs (drawn answers) type) (Flawed type n.fields)
  := by
  have hsource : ∀ (port : String) {type : String}, ¬ Flawed type n.fields →
      FailsIf (fun answers => fed inputs (drawn answers) port) (Flawed type n.fields) := by
    intro port type hflawed
    exact (failsIf_fed inputs port).congr (by simp [hflawed])
  simp only [produce]
  split
  · rw [hpolicy]
    apply failsIf_spacedLattice hpolicy h
  · rw [hpolicy]
    apply failsIf_spacedLattice hpolicy h
  · rw [hpolicy]
    apply failsIf_spacedLattice hpolicy h
  · -- a list
    apply failsIf_fieldOf h
    cases hpoints : n.fields.entry "Positions" with
    | arr points =>
      apply (FailsIf.lift (failsIf_listed _ _)).congr
      simp [Flawed, hpoints]
    | _ =>
      apply (FailsIf.pure _).congr
      simp [Flawed, hpoints]
  · -- an occurrence
    rw [hpolicy]
    apply FailsIf.congr
    · apply failsIf_numberOr h
      intro chance
      apply (failsIf_fed inputs _).bind
      intro ps
      apply failsIf_occurrence
    · simp [Flawed, Json.HasHuge]
  · -- an offset
    apply failsIf_fieldOf h
    apply FailsIf.congr
    · apply (FailsIf.lift (Json.failsIf_coerceXYZ _)).bind
      intro vector
      apply (failsIf_fed inputs _).map
    · simp [Flawed]
  · apply FailsIf.congr
    · apply (failsIf_fed inputs _).bind
      intro first
      apply (failsIf_fed inputs _).map
    · simp [Flawed]
  · exact hsource _ (by simp [Flawed])
  · exact hsource _ (by simp [Flawed])
  · exact ((failsIf_fed inputs _).map _).congr (by simp [Flawed])
  · exact hsource _ (by simp [Flawed])
  · exact ((failsIf_lattice hpolicy _ _ _).map _).congr (by simp [Flawed])
  · exact hsource _ (by simp [Flawed])
  · exact (FailsIf.pure _).congr (by simp [Flawed])
  · -- an unknown type
    have hflawed : ¬ Flawed type n.fields := by simp only [Flawed, not_false_iff]
    cases forwardedPorts.find? fun port => Entries.contains inputs (Key.text port) with
    | none => exact (FailsIf.pure _).congr (by simp [hflawed])
    | some port => exact hsource port hflawed

/-! ### Walks -/

/-- The positions of a node are those of its type, as many as the policy allows. -/
def Context.walker (ctx : Context) : Walker NodeVisit RandomSource Drawn where
  entry? := NodeVisit.at? family.category ctx.nodes ctx.inputs
  operation v source answers :=
    (do truncate ctx.policy.maxSamples (← produce ctx v.node v.inputs (drawn answers) v.type) :
      Draw (List Position)) source

/-- Whether the nodes of a context are regular. -/
def Context.Regular (ctx : Context) : Prop :=
  ∀ id n, Entries.find? ctx.nodes id = some n → n.Regular

namespace Context.Regular

theorem computes (h : ctx.Regular) : ctx.walker.Computes (evaluate ctx)
  where
  entered {fresh id v source} hmem hentry := by
    obtain ⟨hn, htype, hinputs⟩ := NodeVisit.of_at? hentry
    rw [evaluate, dif_pos hmem, hn]
    simp only [htype, ← hinputs]
    rfl
  blank {fresh id source} hentry := by
    rw [evaluate, NodeVisit.find?_of_at?_eq_none h hentry]
    split <;> exact ⟨_, rfl⟩
  closed {fresh id source} hmem := by
    rw [evaluate, dif_neg hmem]
    exact ⟨_, rfl⟩

end Context.Regular

/-- Under the standard limit nothing is wrong with too many positions. -/
theorem failsIf_truncate (limit : Int) (ps : List Position) :
  Fault.FailsIf (truncate (.int limit) ps) False
  := by
  simp only [truncate, Json.number, Json.number?, Fault.ok_bind]
  split
  · split <;> exact .of_ok rfl
  · exact .of_ok rfl

theorem failsIf_operation (h : ctx.Regular) (hpolicy : ctx.policy = {}) (id : String)
    (v : NodeVisit) (hv : ctx.walker.entry? id = some v) (source : RandomSource) :
  Requests.FailsIf (ctx.walker.operation v source) (Flawed v.type v.node.fields)
  := by
  obtain ⟨fields, hfields⟩ := (h id v.node (NodeVisit.of_at? hv).1).fields
  have htruncate : ∀ ps, Fault.FailsIf (truncate ctx.policy.maxSamples ps) False := by
    rw [hpolicy]
    apply failsIf_truncate
  have hproduced := failsIf_produce hpolicy hfields v.inputs v.type
  apply ((hproduced.bind fun ps => .lift (htruncate ps)) source).congr
  simp

/-- The positions of an id fail exactly if the walk reaches a flawed node. -/
theorem failsIf_evaluate (h : ctx.Regular) (hpolicy : ctx.policy = {}) (fresh : List String)
    (id : String) (source : RandomSource) :
  Fault.FailsIf (evaluate ctx fresh id source)
    (∃ v source', ctx.walker.Reaches (evaluate ctx) fresh id source v source'
      ∧ Flawed v.type v.node.fields)
  := by
  apply h.computes.failsIf
  apply failsIf_operation h hpolicy

/-! ### Graphs -/

theorem exists_context {g : Graph} (hg : g.Regular) (range : WorldRange)
    (policy : EvaluationPolicy) :
  ∃ ctx, Context.ofGraph g range policy = .ok ctx ∧ ctx.Regular ∧ ctx.policy = policy
  := by
  obtain ⟨tables, htables, -⟩ := Graph.find?_currentInputs hg.textual
  use ⟨g.nodeMap, tables, range, policy⟩
  refine ⟨?_, fun id n hn => hg.of_find? hn, rfl⟩
  simp [Context.ofGraph, htables]

/-- Whether the walk from the root of a graph reaches a flawed node. -/
def Fails (g : Graph) (range : WorldRange) (seed : Int) (rootId : Json) : Prop :=
  ∃ ctx root v source, Context.ofGraph g range {} = .ok ctx
    ∧ Positions.root g rootId = .ok (some root)
    ∧ ctx.walker.Reaches (evaluate ctx) (Entries.keys ctx.nodes) root.id (.new seed .shared) v
      source
    ∧ Flawed v.type v.node.fields

end Positions

end AssetCanvas
