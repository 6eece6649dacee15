import AssetCanvas.Proofs.Reachability
import Mathlib.Data.ENat.Lattice

/-!
# Distances to the terminal nodes

The length of a shortest path of edges from an id to a node that feeds no edge is
`Graph.terminalLength`; it is infinite if there is no path.  `Graph.terminalDistances` counts
rounds instead of edges: after the round `k` it knows the ids whose length is at most `k`, so in the
end it lists exactly the finite lengths, `Graph.find?_terminalDistances_iff`.  The digraph of
`Graph.arcs` has the edges backwards, no loops, and every arc once; its distances from the terminal
nodes are the same lengths, `Graph.isLeast_arcs_iff`.
-/

namespace AssetCanvas

/-- A path of some steps of a relation. -/
inductive Steps (R : String → String → Prop) : Nat → String → String → Prop
  | refl (a : String) : Steps R 0 a a
  | head {n : Nat} {a b c : String} : R a b → Steps R n b c → Steps R (n + 1) a c

namespace Steps

variable {R S : String → String → Prop} {n : Nat} {a b c : String}

theorem tail (h : Steps R n a b) (hstep : R b c) : Steps R (n + 1) a c
  := by
  induction h with
  | refl a => exact .head hstep (.refl c)
  | head hfirst _ ih => exact .head hfirst (ih hstep)

/-- A path is followed backwards. -/
theorem reverse (h : Steps R n a b) (hback : ∀ a b, R a b → S b a) : Steps S n b a
  := by
  induction h with
  | refl a => exact .refl a
  | head hfirst _ ih => exact ih.tail (hback _ _ hfirst)

end Steps

namespace Graph

variable {g : Graph} {id id' : String} {d : Nat}

/-! ### Lengths of shortest paths -/

/-- Whether a path of `n` edges leads from an id to a node that feeds no edge. -/
def Drains (g : Graph) (id : String) (n : Nat) : Prop :=
  ∃ t ∈ g.terminalNodes, Steps g.Feeds n id t.id

/-- The length of a shortest path of edges from an id to a node that feeds no edge. -/
noncomputable def terminalLength (g : Graph) (id : String) : ℕ∞ :=
  ⨅ n ∈ {n | g.Drains id n}, (n : ℕ∞)

theorem terminalLength_le {n : Nat} (h : g.Drains id n) : g.terminalLength id ≤ n
  := iInf₂_le (f := fun (n : Nat) (_ : n ∈ {n | g.Drains id n}) => (n : ℕ∞)) n h

theorem drains_of_terminalLength (h : g.terminalLength id = d) : g.Drains id d
  := by
  rcases Set.eq_empty_or_nonempty {n | g.Drains id n} with hempty | hsome
  · rw [terminalLength, hempty] at h
    simp at h
  · rw [terminalLength, ← ENat.natCast_sInf hsome, Nat.cast_inj] at h
    rw [← h]
    exact Nat.sInf_mem hsome

theorem terminalLength_eq_iff : g.terminalLength id = d ↔ IsLeast {n | g.Drains id n} d
  := by
  constructor
  · intro h
    use drains_of_terminalLength h
    intro n hn
    have hle := terminalLength_le hn
    rwa [h, Nat.cast_le] at hle
  · rintro ⟨hdrains, hleast⟩
    apply le_antisymm (terminalLength_le hdrains)
    apply le_iInf₂
    intro n hn
    exact Nat.cast_le.mpr (hleast hn)

/-- A length that is bounded is finite. -/
theorem exists_terminalLength_of_le (h : g.terminalLength id ≤ d) :
  ∃ n ≤ d, g.terminalLength id = n
  := by
  obtain ⟨n, hn⟩ := ENat.ne_top_iff_exists.mp (ne_top_of_le_ne_top (ENat.natCast_ne_top d) h)
  rw [← hn, Nat.cast_le] at h
  exact ⟨n, h, hn.symm⟩

theorem terminalLength_eq_zero_iff :
  g.terminalLength id = (0 : Nat) ↔ id ∈ g.terminalNodes.map Node.id
  := by
  rw [List.mem_map]
  constructor
  · intro h
    obtain ⟨t, ht, hpath⟩ := drains_of_terminalLength h
    cases hpath with
    | refl => exact ⟨t, ht, rfl⟩
  · rintro ⟨t, ht, rfl⟩
    apply le_antisymm (terminalLength_le ⟨t, ht, .refl t.id⟩)
    exact zero_le

/-- An edge makes a path longer by one. -/
theorem terminalLength_le_of_feeds (hfeeds : g.Feeds id id') (h : g.terminalLength id' ≤ d) :
  g.terminalLength id ≤ (d + 1 : Nat)
  := by
  obtain ⟨n, hle, hn⟩ := exists_terminalLength_of_le h
  obtain ⟨t, ht, hpath⟩ := drains_of_terminalLength hn
  calc g.terminalLength id
    _ ≤ (n + 1 : Nat) := terminalLength_le ⟨t, ht, .head hfeeds hpath⟩
    _ ≤ (d + 1 : Nat) := Nat.cast_le.mpr (by omega)

/-- A shortest path goes on with a shortest path. -/
theorem exists_feeds_of_terminalLength (h : g.terminalLength id = (d + 1 : Nat)) :
  ∃ next, g.Feeds id next ∧ g.terminalLength next = d
  := by
  obtain ⟨t, ht, hpath⟩ := drains_of_terminalLength h
  cases hpath with
  | @head _ _ next _ hfeeds hrest =>
    use next, hfeeds
    obtain ⟨n, hle, hn⟩ := exists_terminalLength_of_le (terminalLength_le ⟨t, ht, hrest⟩)
    have hshort := terminalLength_le_of_feeds hfeeds hn.le
    rw [h, Nat.cast_le] at hshort
    obtain rfl : n = d := by omega
    exact hn

/-- On the way every smaller length occurs. -/
theorem exists_terminalLength_eq (h : g.terminalLength id = d) {k : Nat} (hk : k ≤ d) :
  ∃ id', g.terminalLength id' = k
  := by
  induction d generalizing id with
  | zero =>
    obtain rfl := Nat.le_zero.mp hk
    exact ⟨id, h⟩
  | succ d ih =>
    rcases Nat.le_succ_iff.mp hk with hk | rfl
    · obtain ⟨next, -, hnext⟩ := exists_feeds_of_terminalLength h
      exact ih hnext hk
    · exact ⟨id, h⟩

/-! ### Rounds -/

theorem find?_map_pair_iff {ids : List String} {k : Nat} :
  Entries.find? (ids.map fun id => (id, k)) id = some d ↔ id ∈ ids ∧ d = k
  := by
  induction ids with
  | nil => simp [Entries.find?]
  | cons first rest ih => grind [Entries.find?]

/-- Whether a table has exactly the ids whose length is at most `k`, with their lengths. -/
def Measures (g : Graph) (k : Nat) (found : List (String × Nat)) : Prop :=
  ∀ id d, Entries.find? found id = some d ↔ g.terminalLength id = d ∧ d ≤ k

namespace Measures

variable {k : Nat} {found : List (String × Nat)}

theorem mem_keys_iff (h : g.Measures k found) : id ∈ Entries.keys found ↔ g.terminalLength id ≤ k
  := by
  rw [Entries.mem_keys_iff]
  constructor
  · rintro ⟨d, hd⟩
    obtain ⟨hlength, hle⟩ := (h id d).mp hd
    rw [hlength]
    exact Nat.cast_le.mpr hle
  · intro hle
    obtain ⟨d, hle, hd⟩ := exists_terminalLength_of_le hle
    exact ⟨d, (h id d).mpr ⟨hd, hle⟩⟩

/-- The next round finds the ids whose length is one more. -/
theorem mem_newSources_iff (h : g.Measures k found) :
  id ∈ g.newSources (Entries.keys found) ↔ g.terminalLength id = (k + 1 : Nat)
  := by
  rw [Graph.mem_newSources_iff]
  constructor
  · rintro ⟨e, he, htarget, hfresh, rfl⟩
    rw [h.mem_keys_iff] at htarget hfresh
    apply le_antisymm (terminalLength_le_of_feeds ⟨e, he, rfl, rfl⟩ htarget)
    rw [Nat.cast_add, Nat.cast_one]
    exact Order.add_one_le_of_lt (not_le.mp hfresh)
  · intro hlength
    obtain ⟨next, ⟨e, he, hsource, htarget⟩, hnext⟩ := exists_feeds_of_terminalLength hlength
    refine ⟨e, he, ?_, ?_, hsource⟩
    · rw [h.mem_keys_iff, htarget, hnext]
    · rw [h.mem_keys_iff, hsource, hlength, Nat.cast_le]
      omega

theorem next (h : g.Measures k found) :
  g.Measures (k + 1)
    (found ++ (g.newSources (Entries.keys found)).map fun id => (id, k + 1))
  := by
  intro id d
  rw [Entries.find?_append]
  cases hfound : Entries.find? found id with
  | some d' =>
    obtain ⟨hlength, hle⟩ := (h id d').mp hfound
    rw [Option.some_or, Option.some.injEq, hlength, Nat.cast_inj]
    omega
  | none =>
    have hnot : ¬ (g.terminalLength id = d ∧ d ≤ k) := by
      rw [← h, hfound]
      simp
    rw [Option.none_or, find?_map_pair_iff, h.mem_newSources_iff]
    constructor
    · rintro ⟨hlength, rfl⟩
      exact ⟨hlength, le_refl _⟩
    · rintro ⟨hlength, hle⟩
      obtain rfl : d = k + 1 := by
        by_contra hne
        exact hnot ⟨hlength, by omega⟩
      exact ⟨hlength, rfl⟩

/-- If a round finds nothing, all lengths are known. -/
theorem find?_iff (h : g.Measures k found) (hnil : g.newSources (Entries.keys found) = []) :
  Entries.find? found id = some d ↔ g.terminalLength id = d
  := by
  rw [h, and_iff_left_iff_imp]
  intro hlength
  by_contra hlarge
  obtain ⟨id', hid'⟩ := exists_terminalLength_eq hlength (k := k + 1) (by omega)
  have hmem := h.mem_newSources_iff.mpr hid'
  rw [hnil] at hmem
  cases hmem

/-- As many rounds as there are edges to be followed find all lengths. -/
theorem find?_distanceRounds_iff {rounds : Nat} (h : g.Measures k found)
    (hrounds : (g.pending (Entries.keys found)).length ≤ rounds) :
  Entries.find? (g.distanceRounds rounds k found) id = some d ↔ g.terminalLength id = d
  := by
  induction rounds generalizing k found with
  | zero =>
    have hpending := List.eq_nil_of_length_eq_zero (Nat.le_zero.mp hrounds)
    apply h.find?_iff
    rw [List.eq_nil_iff_forall_not_mem]
    intro id hid
    obtain ⟨e, he, -, hfresh, -⟩ := Graph.mem_newSources_iff.mp hid
    apply hfresh
    simpa using List.filter_eq_nil_iff.mp hpending e he
  | succ rounds ih =>
    simp only [distanceRounds]
    split
    next hempty => exact h.find?_iff (List.isEmpty_iff.mp hempty)
    next hsome =>
      have hlt : (g.pending (Entries.keys found ++ g.newSources (Entries.keys found))).length
          < (g.pending (Entries.keys found)).length :=
        length_pending_lt (by simpa using hsome)
      apply ih h.next
      simp only [Entries.keys, List.map_append, List.map_map, Function.comp_def, List.map_id'] at *
      omega

end Measures

/-- What the rounds start with. -/
theorem measures_zero (g : Graph) :
  g.Measures 0 ((g.terminalNodes.map Node.id).eraseDups.map fun id => (id, 0))
  := by
  intro id d
  rw [find?_map_pair_iff, List.mem_eraseDups, ← terminalLength_eq_zero_iff, Nat.le_zero]
  constructor
  · rintro ⟨hlength, rfl⟩
    exact ⟨hlength, rfl⟩
  · rintro ⟨hlength, rfl⟩
    exact ⟨hlength, rfl⟩

/-- The ids in the table of distances are those from which a path leads to a node that feeds no
edge, and their distances are the lengths of shortest paths. -/
theorem find?_terminalDistances_iff :
  Entries.find? g.terminalDistances id = some d ↔ g.terminalLength id = d
  := g.measures_zero.find?_distanceRounds_iff (List.length_filter_le _ _)

/-! ### The digraph -/

/-- The arcs of the digraph of a graph: the edges backwards, without loops, each once. -/
def arcs (g : Graph) : List (String × String) :=
  ((g.edges.filter fun e => e.source ≠ e.target).map fun e => (e.target, e.source)).eraseDups

/-- Whether an arc leads from one id to another. -/
def Arc (g : Graph) (id id' : String) : Prop := (id, id') ∈ g.arcs

theorem arc_iff : g.Arc id id' ↔ g.Feeds id' id ∧ id' ≠ id
  := by
  simp only [Arc, arcs, List.mem_eraseDups, List.mem_map, List.mem_filter, decide_eq_true_eq,
    Prod.mk.injEq, Feeds]
  constructor
  · rintro ⟨e, ⟨he, hne⟩, rfl, rfl⟩
    exact ⟨⟨e, he, rfl, rfl⟩, hne⟩
  · rintro ⟨⟨e, he, rfl, rfl⟩, hne⟩
    exact ⟨e, ⟨he, hne⟩, rfl, rfl⟩

/-- A shortest path has no loops, so the digraph has it. -/
theorem exists_steps_arc (h : g.terminalLength id = d) :
  ∃ t ∈ g.terminalNodes, Steps g.Arc d t.id id
  := by
  induction d generalizing id with
  | zero =>
    obtain ⟨t, ht, rfl⟩ := List.mem_map.mp (terminalLength_eq_zero_iff.mp h)
    exact ⟨t, ht, .refl t.id⟩
  | succ d ih =>
    obtain ⟨next, hfeeds, hnext⟩ := exists_feeds_of_terminalLength h
    obtain ⟨t, ht, hpath⟩ := ih hnext
    use t, ht
    apply hpath.tail
    apply arc_iff.mpr
    use hfeeds
    rintro rfl
    rw [h, Nat.cast_inj] at hnext
    omega

/-- The distances from the nodes that feed no edge in the digraph are the lengths of shortest paths
of edges. -/
theorem isLeast_arcs_iff :
  IsLeast {n | ∃ t ∈ g.terminalNodes, Steps g.Arc n t.id id} d ↔ g.terminalLength id = d
  := by
  have hdrains : ∀ n, (∃ t ∈ g.terminalNodes, Steps g.Arc n t.id id) → g.Drains id n := by
    rintro n ⟨t, ht, hpath⟩
    exact ⟨t, ht, hpath.reverse fun a b harc => (arc_iff.mp harc).1⟩
  constructor
  · rintro ⟨hpath, hleast⟩
    obtain ⟨n, hle, hn⟩ := exists_terminalLength_of_le (terminalLength_le (hdrains d hpath))
    rw [hn, le_antisymm hle (hleast (exists_steps_arc hn))]
  · intro h
    use exists_steps_arc h
    intro n hn
    exact (terminalLength_eq_iff.mp h).2 (hdrains n hn)

end Graph

end AssetCanvas
