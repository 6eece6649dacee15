import AssetCanvas.Preview.Root
import AssetCanvas.Proofs.Tables

/-!
# Roots of regular graphs

A preview takes graphs whose labels and ports are texts, whose discriminants are texts or missing
and whose nodes hold objects: `Graph.Regular`.  The values of the fields may be anything.  Every
node of such a graph has a type, and the search for a root always comes to an end:
`Graph.Regular.exists_evaluationRoot`.  In any graph, what it finds is a node of the graph,
`Graph.mem_of_evaluationRoot`.
-/

namespace AssetCanvas

/-- A node with a textual label, whose discriminant is a text or missing and which holds an
object. -/
structure Node.Regular (n : Node) : Prop where
  label : ∃ label, n.label = .str label
  assetType : n.assetType = .null ∨ ∃ type, n.assetType = .str type
  fields : ∃ fields, n.fields = .obj fields

/-- A graph of regular nodes with textual ports. -/
structure Graph.Regular (g : Graph) : Prop where
  nodes : ∀ n ∈ g.nodes, n.Regular
  ports : ∀ e ∈ g.edges, e.Textual

namespace Node.Regular

variable {n : Node}

/-- A regular node is dispatched by a text. -/
theorem exists_dispatchValue (h : n.Regular) : ∃ type, n.dispatchValue = .str type
  := by
  obtain ⟨label, hlabel⟩ := h.label
  rw [dispatchValue]
  split
  · exact ⟨label, hlabel⟩
  · split
    · next htruthy =>
      rcases h.assetType with hnull | htext
      · rw [hnull] at htruthy
        cases htruthy
      · exact htext
    · exact ⟨"", rfl⟩

theorem exists_typeName (h : n.Regular) (category : String) :
  ∃ type, n.typeName category = .ok type
  := by
  obtain ⟨type, htype⟩ := h.exists_dispatchValue
  use bareName category type
  simp [typeName, typeValue, htype]

end Node.Regular

namespace Graph

/-! ### Searching -/

/-- A search among nodes on which a property is never faulty is never faulty. -/
theorem exists_firstNode {holds : Node → Except Fault Bool} {nodes : List Node}
    (h : ∀ n ∈ nodes, ∃ b, holds n = .ok b) :
  ∃ found, firstNode holds nodes = .ok found
  := by
  induction nodes with
  | nil => exact ⟨none, rfl⟩
  | cons n rest ih =>
    obtain ⟨b, hb⟩ := h n (by simp)
    obtain ⟨found, hfound⟩ := ih fun n' hn' => h n' (by simp [hn'])
    rw [firstNode, hb, Fault.ok_bind]
    cases b with
    | true => exact ⟨some n, rfl⟩
    | false => exact ⟨found, hfound⟩

theorem exists_members {family : Family} {nodes : List Node}
    (h : ∀ n ∈ nodes, ∃ b, n.belongs family = .ok b) :
  ∃ found, members family nodes = .ok found
  := by
  induction nodes with
  | nil => exact ⟨[], rfl⟩
  | cons n rest ih =>
    obtain ⟨b, hb⟩ := h n (by simp)
    obtain ⟨found, hfound⟩ := ih fun n' hn' => h n' (by simp [hn'])
    rw [members, hb, Fault.ok_bind, hfound]
    cases b with
    | true => exact ⟨n :: found, rfl⟩
    | false => exact ⟨found, rfl⟩

/-- The search for a root comes to an end where it can be told of every node whether it belongs to
the family. -/
theorem exists_evaluationRoot_of_belongs {g : Graph} {family : Family}
    (h : ∀ n ∈ g.nodes, ∃ b, n.belongs family = .ok b) (tag rootId : Json) :
  ∃ found, g.evaluationRoot family tag rootId = .ok found
  := by
  have houtput : ∃ found, firstNode
      (fun n => if n.isOutput then n.belongs family else .ok false) g.nodes = .ok found := by
    apply exists_firstNode
    intro n hn
    split
    · exact h n hn
    · exact ⟨false, rfl⟩
  have hterminal : ∃ found, firstNode (fun n => n.belongs family) g.terminalNodes = .ok found := by
    apply exists_firstNode
    intro n hn
    exact h n (List.mem_of_mem_filter hn)
  obtain ⟨output, houtput⟩ := houtput
  obtain ⟨terminal, hterminal⟩ := hterminal
  obtain ⟨candidates, hcandidates⟩ := exists_members h
  simp only [evaluationRoot, implicitRoot, nearestMember, houtput, hterminal, hcandidates,
    Fault.ok_bind]
  cases rootId.text?.bind g.node? with
  | some n => exact ⟨some n, rfl⟩
  | none =>
    cases output with
    | some n => exact ⟨some n, rfl⟩
    | none =>
      cases g.sectionRoot tag with
      | some n => exact ⟨some n, rfl⟩
      | none => cases terminal <;> exact ⟨_, rfl⟩

namespace Regular

variable {g : Graph}

theorem textual (h : g.Regular) : g.Textual
  where
  labels n hn := (h.nodes n hn).label
  ports := h.ports

/-- The node under an id is one of the nodes of the graph. -/
theorem of_find? (h : g.Regular) {id : String} {n : Node}
    (hn : Entries.find? g.nodeMap id = some n) :
  n.Regular
  := h.nodes n (mem_nodes_of_find? hn).1

end Regular

/-! ### Searching -/

/-- The node that is found is the first one that a test holds of. -/
theorem firstNode_eq_some {holds : Node → Except Fault Bool} {nodes : List Node} {n : Node}
    (h : firstNode holds nodes = .ok (some n)) :
  ∃ before after, nodes = before ++ n :: after ∧ holds n = .ok true
    ∧ ∀ m ∈ before, holds m = .ok false
  := by
  induction nodes with
  | nil => cases h
  | cons first rest ih =>
    obtain ⟨found, hfirst, hfound⟩ := Fault.bind_eq_ok_iff.mp h
    cases found with
    | true =>
      cases hfound
      exact ⟨[], rest, rfl, hfirst, by simp⟩
    | false =>
      obtain ⟨before, after, rfl, hn, hbefore⟩ := ih hfound
      refine ⟨first :: before, after, rfl, hn, ?_⟩
      rw [List.forall_mem_cons]
      exact ⟨hfirst, hbefore⟩

theorem members_eq_filter {nodes candidates : List Node}
    (h : members family nodes = .ok candidates) :
  candidates = nodes.filter fun n => n.belongs family = .ok true
  := by
  induction nodes generalizing candidates with
  | nil =>
    cases h
    rfl
  | cons first rest ih =>
    obtain ⟨found, hfirst, hfound⟩ := Fault.bind_eq_ok_iff.mp h
    cases found with
    | true =>
      obtain ⟨others, hothers, hpure⟩ := Fault.bind_eq_ok_iff.mp hfound
      cases hpure
      simp [hfirst, ← ih hothers]
    | false => simp [hfirst, ← ih hfound]

theorem leastBy_eq_none_iff {rank : Node → Nat} {nodes : List Node} :
  leastBy rank nodes = none ↔ nodes = []
  := by
  cases nodes with
  | nil => simp [leastBy]
  | cons first rest =>
    rw [leastBy]
    split
    · simp
    · split <;> simp

/-- The node of least rank that is found is the first one. -/
theorem leastBy_eq_some {rank : Node → Nat} {nodes : List Node} {n : Node}
    (h : leastBy rank nodes = some n) :
  ∃ before after, nodes = before ++ n :: after ∧ (∀ m ∈ before, rank n < rank m)
    ∧ ∀ m ∈ after, rank n ≤ rank m
  := by
  induction nodes generalizing n with
  | nil => cases h
  | cons first rest ih =>
    rw [leastBy] at h
    split at h
    next hnone =>
      cases h
      obtain rfl := leastBy_eq_none_iff.mp hnone
      exact ⟨[], [], rfl, by simp, by simp⟩
    next other hother =>
      obtain ⟨before, after, rfl, hbefore, hafter⟩ := ih hother
      split at h
      next hlt =>
        cases h
        refine ⟨first :: before, after, rfl, ?_, hafter⟩
        rw [List.forall_mem_cons]
        exact ⟨hlt, hbefore⟩
      next hge =>
        cases h
        refine ⟨[], before ++ other :: after, rfl, by simp, ?_⟩
        grind

/-! ### Roots are nodes -/

theorem mem_of_firstNode {holds : Node → Except Fault Bool} {nodes : List Node} {n : Node}
    (h : firstNode holds nodes = .ok (some n)) :
  n ∈ nodes
  := by
  obtain ⟨before, after, rfl, -, -⟩ := firstNode_eq_some h
  simp

theorem mem_of_leastBy {rank : Node → Nat} {nodes : List Node} {n : Node}
    (h : leastBy rank nodes = some n) :
  n ∈ nodes
  := by
  obtain ⟨before, after, rfl, -, -⟩ := leastBy_eq_some h
  simp

/-- The root of a preview is a node of the graph. -/
theorem mem_of_evaluationRoot {g : Graph} {family : Family} {tag rootId : Json} {n : Node}
    (h : g.evaluationRoot family tag rootId = .ok (some n)) :
  n ∈ g.nodes
  := by
  rw [evaluationRoot] at h
  split at h
  next given hgiven =>
    obtain rfl := Option.some.inj (Except.ok.inj h)
    obtain ⟨id, -, hid⟩ := Option.bind_eq_some_iff.mp hgiven
    exact List.mem_of_find?_eq_some hid
  · obtain ⟨output, houtput, h⟩ := Fault.bind_eq_ok_iff.mp h
    cases output with
    | some m =>
      obtain rfl := Option.some.inj (Except.ok.inj h)
      exact mem_of_firstNode houtput
    | none =>
      cases hsection : g.sectionRoot tag with
      | some m =>
        simp only [hsection] at h
        obtain rfl := Option.some.inj (Except.ok.inj h)
        rw [sectionRoot] at hsection
        split at hsection
        · cases hsection
        · exact List.mem_of_find?_eq_some hsection
      | none =>
        simp only [hsection] at h
        obtain ⟨terminal, hterminal, h⟩ := Fault.bind_eq_ok_iff.mp h
        cases terminal with
        | some m =>
          obtain rfl := Option.some.inj (Except.ok.inj h)
          exact List.mem_of_mem_filter (mem_of_firstNode hterminal)
        | none =>
          obtain ⟨candidates, hcandidates, h⟩ := Fault.bind_eq_ok_iff.mp h
          rw [members_eq_filter hcandidates] at h
          exact List.mem_of_mem_filter (mem_of_leastBy (Except.ok.inj h))

end Graph

end AssetCanvas
