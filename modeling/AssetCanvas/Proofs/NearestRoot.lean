import AssetCanvas.Proofs.Distances
import AssetCanvas.Proofs.Roots
import AssetCanvas.Proofs.Validity

/-!
# The node nearest to a terminal node

The search for the root of a preview tries the terminal nodes of a family first and all of its
nodes after that, with a distance in place of the missing ones that is more than any other.  In a
graph without problems this is one search for the first node of the family with the least
`Graph.terminalLength`, `Graph.evaluationRoot_nearest`, provided that no root is given or tagged.
-/

namespace AssetCanvas.Graph

variable {g : Graph} {family : Family}

/-! ### Ranks -/

/-- A finite length is less than the number of nodes. -/
theorem terminalLength_lt (h : ∀ e ∈ g.edges, e.source ∈ g.nodes.map Node.id) {id : String}
    {d : Nat} (hlength : g.terminalLength id = d) :
  d < g.nodes.length
  := by
  -- the lengths up to `d` belong to different nodes
  have hsubset : (List.range (d + 1)).map (Nat.cast : Nat → ℕ∞)
      ⊆ g.nodes.map fun n => g.terminalLength n.id := by
    intro length hmem
    obtain ⟨k, hk, rfl⟩ := List.mem_map.mp hmem
    obtain ⟨id', hid'⟩ := exists_terminalLength_eq hlength
      (Nat.lt_succ_iff.mp (List.mem_range.mp hk))
    have hnode : id' ∈ g.nodes.map Node.id := by
      cases k with
      | zero =>
        have hterminal := terminalLength_eq_zero_iff.mp hid'
        exact (List.filter_sublist.map Node.id).subset hterminal
      | succ k =>
        obtain ⟨_, ⟨e, he, rfl, -⟩, -⟩ := exists_feeds_of_terminalLength hid'
        exact h e he
    obtain ⟨n, hn, rfl⟩ := List.mem_map.mp hnode
    rw [← hid']
    exact List.mem_map_of_mem (f := fun n => g.terminalLength n.id) hn
  have hnodup : ((List.range (d + 1)).map (Nat.cast : Nat → ℕ∞)).Nodup :=
    List.nodup_range.map Nat.cast_injective
  have hle := (hnodup.subperm hsubset).length_le
  simpa using hle

theorem terminalRank_of_eq {n : Node} {d : Nat} (h : g.terminalLength n.id = d) :
  g.terminalRank g.terminalDistances n = d
  := by
  rw [terminalRank, find?_terminalDistances_iff.mpr h]
  rfl

theorem terminalRank_of_eq_top {n : Node} (h : g.terminalLength n.id = ⊤) :
  g.terminalRank g.terminalDistances n = g.nodes.length + 1
  := by
  rw [terminalRank]
  cases hfound : Entries.find? g.terminalDistances n.id with
  | none => rfl
  | some d =>
    have hlength := find?_terminalDistances_iff.mp hfound
    rw [h] at hlength
    cases hlength

/-- The ranks of nodes compare as the lengths do. -/
theorem terminalRank_lt_iff (h : ∀ e ∈ g.edges, e.source ∈ g.nodes.map Node.id) {n m : Node} :
  g.terminalRank g.terminalDistances n < g.terminalRank g.terminalDistances m
    ↔ g.terminalLength n.id < g.terminalLength m.id
  := by
  cases hn : g.terminalLength n.id with
  | top =>
    rw [terminalRank_of_eq_top hn]
    cases hm : g.terminalLength m.id with
    | top => simp [terminalRank_of_eq_top hm]
    | coe d =>
      have hlt := terminalLength_lt h hm
      simp only [terminalRank_of_eq hm, not_top_lt, iff_false]
      omega
  | coe d =>
    rw [terminalRank_of_eq hn]
    cases hm : g.terminalLength m.id with
    | top =>
      have hlt := terminalLength_lt h hn
      simp only [terminalRank_of_eq_top hm, ENat.natCast_lt_top, iff_true]
      omega
    | coe d' => rw [terminalRank_of_eq hm, Nat.cast_lt]

/-! ### The nearest node -/

/-- Whether a node is the first of those of a family with the least length of a path to a node that
feeds no edge. -/
def IsNearest (g : Graph) (family : Family) (n : Node) : Prop :=
  ∃ before after, g.nodes = before ++ n :: after ∧ n.belongs family = .ok true
    ∧ (∀ m ∈ before, m.belongs family = .ok true → g.terminalLength n.id < g.terminalLength m.id)
    ∧ ∀ m ∈ after, m.belongs family = .ok true → g.terminalLength n.id ≤ g.terminalLength m.id

/-- A node stands at the length zero exactly if it feeds no edge. -/
theorem mem_terminalNodes_iff {n : Node} (hn : n ∈ g.nodes) :
  n ∈ g.terminalNodes ↔ g.terminalLength n.id = (0 : Nat)
  := by
  rw [terminalLength_eq_zero_iff, List.mem_map]
  constructor
  · intro h
    exact ⟨n, h, rfl⟩
  · rintro ⟨t, ht, hid⟩
    obtain ⟨-, hfeeds⟩ := List.mem_filter.mp ht
    rw [hid] at hfeeds
    exact List.mem_filter.mpr ⟨hn, hfeeds⟩

/-- The first of the nodes that feed no edge is nearest. -/
theorem isNearest_of_terminal {n : Node}
    (h : firstNode (fun n => n.belongs family) g.terminalNodes = .ok (some n)) :
  g.IsNearest family n
  := by
  obtain ⟨before, after, hsplit, hn, hbefore⟩ := firstNode_eq_some h
  obtain ⟨early, late, hnodes, rfl, hlate⟩ := List.filter_eq_append_iff.mp hsplit
  obtain ⟨skipped, rest, rfl, hskipped, -, -⟩ := List.filter_eq_cons_iff.mp hlate
  have hmem : n ∈ g.nodes := by simp [hnodes]
  have hzero : g.terminalLength n.id = (0 : Nat) := by
    apply (mem_terminalNodes_iff hmem).mp
    rw [hsplit]
    simp
  refine ⟨early ++ skipped, rest, by simp [hnodes], hn, ?_, ?_⟩
  · intro m hm hbelongs
    rw [hzero, Nat.cast_zero, pos_iff_ne_zero]
    intro hterminal
    have hmem : m ∈ g.nodes := by
      rw [hnodes]
      grind
    have hfeeds := (List.mem_filter.mp ((mem_terminalNodes_iff hmem).mpr hterminal)).2
    rcases List.mem_append.mp hm with hm | hm
    · have hfalse := hbefore m (List.mem_filter.mpr ⟨hm, hfeeds⟩)
      rw [hbelongs] at hfalse
      cases hfalse
    · exact hskipped m hm hfeeds
  · intro m _ _
    rw [hzero, Nat.cast_zero]
    exact zero_le

/-- What has the least rank among the nodes of a family is nearest. -/
theorem isNearest_of_leastBy (h : ∀ e ∈ g.edges, e.source ∈ g.nodes.map Node.id) {n : Node}
    (hleast : leastBy (g.terminalRank g.terminalDistances)
      (g.nodes.filter fun n => n.belongs family = .ok true) = some n) :
  g.IsNearest family n
  := by
  obtain ⟨before, after, hsplit, hbefore, hafter⟩ := leastBy_eq_some hleast
  obtain ⟨early, late, hnodes, rfl, hlate⟩ := List.filter_eq_append_iff.mp hsplit
  obtain ⟨skipped, rest, rfl, hskipped, hn, rfl⟩ := List.filter_eq_cons_iff.mp hlate
  refine ⟨early ++ skipped, rest, by simp [hnodes], by simpa using hn, ?_, ?_⟩
  · intro m hm hbelongs
    apply (terminalRank_lt_iff h).mp
    rcases List.mem_append.mp hm with hm | hm
    · apply hbefore
      simpa using ⟨hm, hbelongs⟩
    · simpa [hbelongs] using hskipped m hm
  · intro m hm hbelongs
    rw [← not_lt, ← terminalRank_lt_iff h, not_lt]
    apply hafter
    simpa using ⟨hm, hbelongs⟩

/-- Without a given or tagged root, what is found is the first node of the family that feeds no
edge, or a node of the family with the least rank. -/
theorem evaluationRoot_cases {tag rootId : Json} (hroot : rootId.text?.bind g.node? = none)
    (houtput : ∀ n ∈ g.nodes, n.isOutput = true → n.belongs family ≠ .ok true)
    (htag : tag ≠ .null → ∀ n ∈ g.nodes, n.sectionTag.same tag = false) {found : Option Node}
    (h : g.evaluationRoot family tag rootId = .ok found) :
  (∃ n, firstNode (fun n => n.belongs family) g.terminalNodes = .ok (some n) ∧ found = some n)
    ∨ found = leastBy (g.terminalRank g.terminalDistances)
      (g.nodes.filter fun n => n.belongs family = .ok true)
  := by
  rw [evaluationRoot, hroot] at h
  obtain ⟨output, hfirst, h⟩ := Fault.bind_eq_ok_iff.mp h
  cases output with
  | some n =>
    obtain ⟨before, after, hnodes, hn, -⟩ := firstNode_eq_some hfirst
    split at hn
    next htagged => exact (houtput n (by simp [hnodes]) htagged hn).elim
    · cases hn
  | none =>
    have hsection : g.sectionRoot tag = none := by
      rw [sectionRoot]
      split
      · rfl
      next hnull =>
        rw [List.find?_eq_none]
        intro n hn
        rw [htag (by rintro rfl; exact hnull rfl) n hn]
        exact Bool.false_ne_true
    simp only [hsection] at h
    obtain ⟨terminal, hterminal, h⟩ := Fault.bind_eq_ok_iff.mp h
    cases terminal with
    | some n =>
      left
      exact ⟨n, hterminal, (Except.ok.inj h).symm⟩
    | none =>
      right
      obtain ⟨candidates, hcandidates, h⟩ := Fault.bind_eq_ok_iff.mp h
      rw [← members_eq_filter hcandidates]
      exact (Except.ok.inj h).symm

/-- In a graph without problems whose root is neither given nor tagged, the search for the root of
a preview finds nothing exactly if the family has no node, and otherwise the first of the nodes of
the family from which a path to a node that feeds no edge is shortest; nodes without such a path
come last.  It has an answer if it can be told of every node whether it belongs to the family.  The
table of distances has exactly the ids with such a path, and the lengths of the shortest ones; the
digraph from which it is made has the same lengths. -/
theorem evaluationRoot_nearest {tag rootId : Json} (hvalid : g.problems = .ok [])
    (hroot : rootId.text?.bind g.node? = none)
    (houtput : ∀ n ∈ g.nodes, n.isOutput = true → n.belongs family ≠ .ok true)
    (htag : tag ≠ .null → ∀ n ∈ g.nodes, n.sectionTag.same tag = false) :
  ((∀ n ∈ g.nodes, ∃ b, n.belongs family = .ok b) →
      ∃ found, g.evaluationRoot family tag rootId = .ok found)
    ∧ (∀ found, g.evaluationRoot family tag rootId = .ok found →
      (found = none ↔ ∀ n ∈ g.nodes, n.belongs family ≠ .ok true)
        ∧ ∀ n, found = some n → g.IsNearest family n)
    ∧ (∀ id d, Entries.find? g.terminalDistances id = some d ↔ g.terminalLength id = d)
    ∧ ∀ id d, IsLeast {n | ∃ t ∈ g.terminalNodes, Steps g.Arc n t.id id} d
      ↔ g.terminalLength id = d
  := by
  have hends : ∀ e ∈ g.edges, e.source ∈ g.nodes.map Node.id :=
    fun e he => (endsIn_of_problems hvalid e he).1
  refine ⟨fun h => exists_evaluationRoot_of_belongs h tag rootId, ?_,
    fun id d => find?_terminalDistances_iff, fun id d => isLeast_arcs_iff⟩
  intro found hfound
  rcases evaluationRoot_cases hroot houtput htag hfound with ⟨n, hterminal, rfl⟩ | rfl
  · have hnearest := isNearest_of_terminal hterminal
    constructor
    · obtain ⟨before, after, hnodes, hn, -⟩ := hnearest
      simp only [reduceCtorEq, false_iff]
      intro hnone
      exact hnone n (by simp [hnodes]) hn
    · intro m hm
      obtain rfl := Option.some.inj hm
      exact hnearest
  · constructor
    · simp [leastBy_eq_none_iff]
    · intro n hn
      exact isNearest_of_leastBy hends hn

/-- Two sums feed each other and nothing else; a sum feeds another one, which feeds itself and,
through two ports, a node of another family. -/
def wrappedSums : Graph :=
  { nodes := [{ id := "knot", label := .str "Sum" }, { id := "tie", label := .str "Sum" },
      { id := "far", label := .str "Sum" }, { id := "near", label := .str "Sum" },
      { id := "wrapper", label := .str "Area" }]
    edges := [.link "knot" "tie" (.str "A"), .link "tie" "knot" (.str "A"),
      .link "far" "near" (.str "A"), .link "near" "near" (.str "B"),
      .link "near" "wrapper" (.str "A"), .link "near" "wrapper" (.str "B")] }

theorem evaluationRoot_nearest_wrappedSums :
  wrappedSums.problems = .ok []
    ∧ (∃ n, wrappedSums.evaluationRoot (.ofNames ["Sum"] "") (.str "Density") .null = .ok (some n)
      ∧ n.id = "near" ∧ wrappedSums.IsNearest (.ofNames ["Sum"] "") n)
    ∧ wrappedSums.terminalLength "far" = (2 : Nat) ∧ wrappedSums.terminalLength "knot" = ⊤
  := by
  have hvalid : wrappedSums.problems = .ok [] := by decide
  obtain ⟨hanswer, hnearest, htable, -⟩ := @evaluationRoot_nearest wrappedSums
    (.ofNames ["Sum"] "") (.str "Density") .null hvalid rfl (by decide) (fun _ => by decide)
  obtain ⟨found, hfound⟩ := hanswer (by decide)
  have hid : (wrappedSums.evaluationRoot (.ofNames ["Sum"] "") (.str "Density") .null).map
      (Option.map Node.id) = .ok (some "near") := by rfl
  rw [hfound] at hid
  obtain ⟨n, rfl, hn⟩ := Option.map_eq_some_iff.mp (Except.ok.inj hid)
  refine ⟨hvalid, ⟨n, hfound, hn, (hnearest _ hfound).2 n rfl⟩, (htable "far" 2).mp rfl, ?_⟩
  rw [ENat.eq_top_iff_forall_ne]
  intro d hd
  have hknot := (htable "knot" d).mpr hd.symm
  cases hknot

end AssetCanvas.Graph
