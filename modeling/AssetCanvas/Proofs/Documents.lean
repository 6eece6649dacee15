import AssetCanvas.Graph.Document
import AssetCanvas.Proofs.Fault

/-!
# Documents of graphs

Reading a document fills in what is missing and brings every attribute into one form: the plain
fields of a node are an object, its output tag is a truth value, its record is a list or missing,
and an edge has an id and two ports.  The ids of nodes and the ends of edges stay the values they
are.  A document in this form is `Graph.Settled`.  It is read from what is written of it as it
was, `Graph.Settled.read_write`, so a document that was read once does not change any more:
`Graph.reads_back`.
-/

namespace AssetCanvas

/-! ### Nodes -/

namespace Node

/-- A node in the form that reading gives it. -/
structure Settled (n : Node Json) : Prop where
  fields : ∃ fields, n.fields = .obj fields
  output : ∃ b, n.output = .bool b
  record : n.arrayFields = .null ∨ ∃ names, n.arrayFields = .arr names

theorem settled_of_read {v : Json} {n : Node Json} (h : read v = .ok n) : n.Settled
  := by
  simp only [read, Fault.ite_bind, Fault.bind_eq_ok_iff, Fault.pure_eq_ok, Except.ok.injEq] at h
  obtain ⟨fields, -, id, -, label, -, place, -, x, -, y, -, plain, -, record, hrecord, rfl⟩ := h
  refine ⟨⟨plain, rfl⟩, ⟨_, rfl⟩, ?_⟩
  rw [Document.record] at hrecord
  split at hrecord
  · left
    exact (Except.ok.inj hrecord).symm
  · right
    obtain ⟨names, -, hnames⟩ := Fault.bind_eq_ok_iff.mp hrecord
    exact ⟨names, (Except.ok.inj hnames).symm⟩

/-- A settled node is written, and read as it was, with coordinates that are numbers. -/
theorem Settled.read_write {n : Node Json} (h : n.Settled) :
  ∃ v, n.write = .ok v ∧ read v = .ok { n with restored := true }
  := by
  obtain ⟨id, label, assetType, ⟨x, y⟩, fields, output, sectionTag, arrayFields, restored⟩ := n
  obtain ⟨⟨plain, hplain⟩, ⟨b, hb⟩, hrecord⟩ := h
  obtain rfl : fields = .obj plain := hplain
  obtain rfl : output = .bool b := hb
  have hread : Document.plainFields (.obj plain) = .ok plain := by
    cases plain <;> rfl
  have hfloat : ∀ x : Float, (Json.float x).toFloat = .ok x := fun _ => rfl
  have hnull : Json.null.isNull = true := rfl
  have harr : ∀ names, (Json.arr names).isNull = false := fun _ => rfl
  have hsection : sectionTag.isNull = true ↔ sectionTag = .null := by
    cases sectionTag <;> simp [Json.isNull]
  cases b <;> obtain rfl | ⟨names, rfl⟩ := hrecord <;> by_cases htag : sectionTag = .null
  all_goals
    refine ⟨_, rfl, ?_⟩
    simp [read, Json.members, Json.required, Json.field, Entries.find?, Document.coordinate,
      Json.truthy, Document.record, hnull, harr, Json.items, hread, Document.spelledOut, hfloat,
      Json.text?, isOutput, htag, hsection]

@[simp] theorem named_values (n : Node) : n.values.named = .ok n := rfl

end Node

/-! ### Edges -/

namespace Edge

/-- An edge with an id and two ports. -/
structure Settled (e : Edge Json) : Prop where
  id : e.id.truthy = true
  sourcePort : e.sourcePort.truthy = true
  targetPort : e.targetPort.truthy = true

theorem truthy_standardText (source target port : String) :
  (Json.str (standardText source target port)).truthy = true
  := by
  have hne : standardText source target port ≠ "" := by
    intro h
    have hlength := congrArg String.length h
    simp [standardText, String.length_append] at hlength
    exact absurd hlength.1.1.1.1.1 (by decide)
  simpa [Json.truthy] using hne

@[simp] theorem standardId_str (source target port : String) :
  standardId (.str source) (.str target) (.str port) = .ok (standardText source target port)
  := rfl

theorem truthy_of_standardId {source target port : Json} {id : String}
    (h : standardId source target port = .ok id) :
  (Json.str id).truthy = true
  := by
  simp only [standardId, Fault.bind_eq_ok_iff, Fault.pure_eq_ok, Except.ok.injEq] at h
  obtain ⟨s, -, t, -, p, -, rfl⟩ := h
  apply truthy_standardText

theorem truthy_valueOr {v : Json} {default : String} (h : (Json.str default).truthy = true) :
  (Document.valueOr v default).truthy = true
  := by
  rw [Document.valueOr]
  split
  next htruthy => exact htruthy
  next => exact h

theorem settled_of_read {v : Json} {e : Edge Json} (h : read v = .ok e) : e.Settled
  := by
  simp only [read, Fault.bind_eq_ok_iff, Fault.pure_eq_ok, Fault.ite_bind, Except.ok.injEq] at h
  obtain ⟨source, -, target, -, fields, -, id, hid, rfl⟩ := h
  refine ⟨?_, truthy_valueOr rfl, truthy_valueOr rfl⟩
  split at hid
  next hgiven =>
    obtain rfl := Except.ok.inj hid
    exact hgiven
  next =>
    cases htext : standardId source target (Document.valueOr (Json.field fields "target_port")
        Port.default) with
    | error e => simp [htext] at hid
    | ok text =>
      rw [htext] at hid
      obtain rfl := Except.ok.inj hid
      exact truthy_of_standardId htext

/-- A settled edge is read as it was from what is written of it. -/
theorem Settled.read_write {e : Edge Json} (h : e.Settled) : read e.write = .ok e
  := by
  simp [read, write, Document.entry, Json.required, Entries.find?, Json.members, Json.field,
    Document.valueOr, h.id, h.sourcePort, h.targetPort]

@[simp] theorem named_values (e : Edge) : e.values.named = .ok e := rfl

end Edge

/-! ### Graphs -/

namespace Graph

/-- A document in the form that reading gives it. -/
structure Settled (g : Graph Json) : Prop where
  nodes : ∀ n ∈ g.nodes, n.Settled
  edges : ∀ e ∈ g.edges, e.Settled

theorem settled_of_read {d : Json} {g : Graph Json} (h : read d = .ok g) : g.Settled
  := by
  obtain ⟨nodes, edges, hentries⟩ : ∃ nodes edges, readEntries nodes edges = .ok g := by
    cases d with
    | obj fields =>
      simp only [read, readFields] at h
      split at h
      next =>
        split at h
        next nodes edges _ _ =>
          use nodes, edges
          cases hread : readEntries nodes edges with
          | ok g' => simpa [hread, Except.mapError] using h
          | error e => simp [hread, Except.mapError] at h
        next => cases h
      next => cases h
    | _ => cases h
  simp only [readEntries, Fault.bind_eq_ok_iff, Fault.mapM_eq_ok_iff, Fault.pure_eq_ok,
    Except.ok.injEq] at hentries
  obtain ⟨ns, hns, es, hes, rfl⟩ := hentries
  constructor
  · intro n hn
    obtain ⟨v, -, hread⟩ := Fault.exists_of_mem_right hns hn
    exact Node.settled_of_read hread
  · intro e he
    obtain ⟨v, -, hread⟩ := Fault.exists_of_mem_right hes he
    exact Edge.settled_of_read hread

theorem stampProblems_write (rest : Fields) :
  stampProblems ((.text "table", TableStamp.toJson {}) :: rest) = []
  := by
  have hcurrent : TableVersion.check (.str TableVersion.current) = [] := by decide
  simp [stampProblems, stamp?, Json.field, Entries.find?, TableStamp.toJson, TableStamp.ofFields,
    hcurrent]

theorem readWarnings_write (rest : Fields) :
  readWarnings (.obj ((.text "table", TableStamp.toJson {}) :: rest)) = []
  := by
  have hcurrent : TableVersion.checkWarnings (.str TableVersion.current) = [] := by decide
  simp [readWarnings, stamp?, Json.field, Entries.find?, TableStamp.toJson, TableStamp.ofFields,
    hcurrent]

/-- A settled document is written, and read as it was, with coordinates that are numbers. -/
theorem Settled.read_write {g : Graph Json} (h : g.Settled) :
  ∃ v, g.write = .ok v ∧ readWarnings v = []
    ∧ read v = .ok { g with nodes := g.nodes.map fun n => { n with restored := true } }
  := by
  have hnode : ∀ n ∈ g.nodes, ∃ v n', n.write = .ok v ∧ Node.read v = .ok n'
      ∧ { n with restored := true } = n' := by
    intro n hn
    obtain ⟨v, hv, hn'⟩ := (h.nodes n hn).read_write
    exact ⟨v, _, hv, hn', rfl⟩
  obtain ⟨vs, nodes, hvs, hnodes, hsame⟩ := Fault.exists_mapM_mapM hnode
  have hedges : (g.edges.map Edge.write).mapM Edge.read = .ok g.edges := by
    rw [Fault.mapM_eq_ok_iff, List.forall₂_map_left_iff, List.forall₂_same]
    intro e he
    exact (h.edges e he).read_write
  obtain rfl : g.nodes.map (fun n => { n with restored := true }) = nodes := by
    rw [← List.forall₂_eq_eq_eq]
    exact List.forall₂_map_left_iff.mpr hsame
  refine ⟨_, by rw [write, hvs]; rfl, readWarnings_write _, ?_⟩
  simp [read, readFields, stampProblems_write, Entries.find?, readEntries, hnodes, hedges,
    Except.mapError]

/-- A document that was read is read again from what is written of it, without a warning, with the
same attributes of all nodes and edges, and is written in the same way again.  Only the mark that
a coordinate was a text is lost. -/
theorem reads_back {d : Json} {g : Graph Json} (h : read d = .ok g) :
  ∃ v g', g.write = .ok v ∧ read v = .ok g' ∧ readWarnings v = []
    ∧ g'.nodes = g.nodes.map (fun n => { n with restored := true }) ∧ g'.edges = g.edges
    ∧ g'.write = .ok v
  := by
  obtain ⟨v, hv, hwarnings, hread⟩ := (settled_of_read h).read_write
  refine ⟨v, _, hv, hread, hwarnings, rfl, rfl, ?_⟩
  rw [← hv, write, write, List.mapM_map]
  rfl

/-- A document from an older release with plain fields in pairs, tags of other kinds, a record by
keys, ids that are no texts, and an edge without id whose port has no name. -/
def worn : Json :=
  .obj [("table", .obj [("version", .str "1.0.7")]),
    ("nodes", .arr [
      .obj [("id", .str "sum"), ("type", .str "Sum"), ("position", .obj [("x", .float 1.5)]),
        ("fields", .arr [.arr [.str "Seed", .int 3]]), ("output", .int 1),
        ("section", .str "Density"), ("array_fields", .obj [("Inputs", .null)])],
      .obj [("id", .int 5), ("type", .null), ("output", .str "")],
      .obj [("id", .null), ("type", .str "Zero")]]),
    ("edges", .arr [
      .obj [("source", .null), ("target", .str "sum"), ("target_port", .str ""),
        ("id", .null)],
      .obj [("source", .str "one"), ("target", .int 5), ("id", .float 2.0)]])]

theorem reads_back_worn :
  readWarnings worn ≠ [] ∧ ∃ g v g', read worn = .ok g ∧ g.write = .ok v ∧ read v = .ok g'
    ∧ readWarnings v = [] ∧ g'.nodes = g.nodes.map (fun n => { n with restored := true })
    ∧ g'.edges = g.edges ∧ g'.write = .ok v
  := by
  constructor
  · decide
  · have hread : read worn = .ok ⟨_, _⟩ := rfl
    obtain ⟨v, g', h⟩ := reads_back hread
    exact ⟨_, v, g', hread, h⟩

end Graph

end AssetCanvas
