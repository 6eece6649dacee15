import AssetCanvas.Canvas
import AssetCanvas.Proofs.Upstream
import Mathlib.Data.List.Lattice
import Mathlib.Data.List.Pairwise

/-!
# Sections on a canvas

The sections of a canvas share its lists of nodes and edges, and stay apart.  The ids of a
section start with its name, and a name is told from the number behind it,
`Layout.nodeId_eq_nodeId_iff`, so sections share no node and no edge joins two of them.  The root
of a section alone has a tag, and above it lies the primary tree of the section,
`Graph.IsSection`; `Canvas.sections_apart` says so of every canvas.
-/

namespace AssetCanvas

/-! ### Ids of sections -/

namespace Layout

/-- What stands before the last separator, and what stands behind it, is told apart. -/
theorem append_separator_inj {α : Type} {x : α} {l l' m m' : List α} (hm : x ∉ m)
    (hm' : x ∉ m') (h : l ++ x :: m = l' ++ x :: m') :
  l = l' ∧ m = m'
  := by
  rcases List.append_eq_append_iff.mp h with ⟨between, rfl, hrest⟩ | ⟨between, rfl, hrest⟩
  · cases between with
    | nil => simpa using hrest
    | cons c between =>
      obtain ⟨-, rfl⟩ := List.cons.inj hrest
      simp at hm
  · cases between with
    | nil => simpa [eq_comm] using hrest
    | cons c between =>
      obtain ⟨-, rfl⟩ := List.cons.inj hrest
      simp at hm'

/-- The stem and the number of an id are told apart, whatever the stems. -/
theorem nodeId_eq_nodeId_iff {stem stem' : String} {a b : Nat} :
  nodeId stem a = nodeId stem' b ↔ stem = stem' ∧ a = b
  := by
  constructor
  · intro h
    have hdigits (n : Nat) : '_' ∉ Nat.toDigits 10 n := by
      intro hmem
      have hdigit := Digit.isDigit_of_mem_toDigits hmem
      revert hdigit
      decide
    have hlist := congrArg String.toList h
    rw [toList_nodeId, toList_nodeId] at hlist
    obtain ⟨hstem, -⟩ := append_separator_inj (hdigits a) (hdigits b) hlist
    obtain rfl := String.toList_injective hstem
    exact ⟨rfl, (nodeId_inj stem).mp h⟩
  · rintro ⟨rfl, rfl⟩
    rfl

end Layout

open Layout Asset

/-! ### Sections -/

/-- The sections of a canvas that are assets. -/
def Canvas.assets (sections : Fields) : Fields := sections.filter fun s => s.2.isAsset

/-- A part of a canvas that is a section: the nodes of the assets of a descent, numbered after the
name of the section, and edges among them.  The first node alone has a tag, the name, and the ids
above it are those of the primary tree. -/
structure Graph.IsSection (g part : Graph) (name : String) (fields : Fields) : Prop where
  ids : part.nodes.map Node.id
    = (List.range' 1 (descent (some name) fields).length).map (nodeId name)
  contents : List.Forall₂ (fun n a => n.content = Asset.content a.1 a.2) part.nodes
    (descent (some name) fields)
  ends : ∀ e ∈ part.edges, EndsIn (part.nodes.map Node.id) e
  tags : ∃ root rest, part.nodes = root :: rest ∧ root.id = nodeId name 1
    ∧ root.sectionTag = .str name ∧ ∀ n ∈ rest, n.sectionTag = .null
  upstream : ∀ id, id ∈ g.ancestorIds (nodeId name 1)
    ↔ (id, true) ∈ (part.nodes.map Node.id).zip (marks true fields)

/-- A canvas on which the sections of an object that are assets stay apart. -/
structure Graph.Apart (g : Graph) (sections : Fields) : Prop where
  nodup : (g.nodes.map Node.id).Nodup
  sections : ∃ parts : List Graph, g.nodes = parts.flatMap Graph.nodes
    ∧ g.edges = parts.flatMap Graph.edges
    ∧ List.Forall₂ (fun s part => ∃ name fields, s = (.text name, .obj fields)
        ∧ g.IsSection part name fields) (Canvas.assets sections) parts

namespace Canvas

variable {policy : LayoutPolicy} {origin : Float × Float} {index : Nat}

/-- Tagging the root changes nothing but a tag. -/
theorem map_tagRoot {α : Type} {f : Node → α} (hf : ∀ n tag, f { n with sectionTag := tag } = f n)
    (name : Json) (rootId : String) (nodes : List Node) :
  (tagRoot name rootId nodes).map f = nodes.map f
  := by
  rw [tagRoot, List.map_map]
  apply List.map_congr_left
  intro n _
  rw [Function.comp_apply]
  split
  · apply hf
  · rfl

/-- The graph of a section realizes the layout of its asset, and its first node alone has a
tag. -/
theorem realizes_of_ofSection {name : String} {fields : Fields} {part : Graph}
    (h : ofSection policy origin index (.str name) (.obj fields) = .ok part) :
  part.Realizes (placeRoot name (some name) fields)
    ∧ ∃ root rest, part.nodes = root :: rest ∧ root.id = nodeId name 1
      ∧ root.sectionTag = .str name ∧ ∀ n ∈ rest, n.sectionTag = .null
  := by
  obtain ⟨start, -, h⟩ := Fault.bind_eq_ok_iff.mp h
  obtain ⟨l, hl, h⟩ := Fault.bind_eq_ok_iff.mp h
  obtain rfl := Except.ok.inj h
  replace hl : Layout.ofAsset (.obj fields) (.str name) start (Json.ofOption (some name)) policy
      = .ok l := hl
  obtain ⟨hroot, -, -⟩ := ofAsset_eq_ok hl
  have hrealizes := realizes_of_ofAsset hl
  have hstem : stemOf policy (.str name) = name := rfl
  rw [hstem] at hroot hrealizes
  constructor
  · constructor
    · rw [← hrealizes.nodes]
      apply map_tagRoot fun _ _ => rfl
    · exact hrealizes.edges
    · intro n hn
      obtain ⟨m, hm, rfl⟩ := List.mem_map.mp hn
      split
      · exact hrealizes.untagged m hm
      · exact hrealizes.untagged m hm
  · have hnodup : (l.nodes.map Node.id).Nodup := hrealizes.nodup_ids
    have htags : ∀ n ∈ l.nodes, n.sectionTag = .null := fun n hn =>
      sectionTag_of_ofAsset hl hn
    obtain ⟨root, rest, hnodes, hfirst⟩ := hrealizes.exists_root
    replace hnodes : l.nodes = root :: rest := hnodes
    rw [hnodes, List.map_cons, List.nodup_cons] at hnodup
    refine ⟨{ root with sectionTag := .str name }, tagRoot (.str name) l.rootId rest, ?_, hfirst,
      rfl, ?_⟩
    · simp [tagRoot, hnodes, hfirst, hroot]
    · intro n hn
      obtain ⟨m, hm, rfl⟩ := List.mem_map.mp hn
      have hne : m.id ≠ l.rootId := by
        rintro heq
        apply hnodup.1
        rw [hfirst, ← hroot, ← heq]
        exact List.mem_map_of_mem hm
      rw [if_neg hne]
      exact htags m (by simp [hnodes, hm])

/-- The canvas of an object is made of the graphs of the sections that are assets. -/
theorem exists_parts_of_ofSectionsFrom {sections : Fields} {g : Graph}
    (h : ofSectionsFrom policy origin index sections = .ok g) :
  ∃ parts : List Graph, g.nodes = parts.flatMap Graph.nodes
    ∧ g.edges = parts.flatMap Graph.edges
    ∧ List.Forall₂ (fun s part => ∃ i, ofSection policy origin i s.1.toJson s.2 = .ok part)
        (assets sections) parts
  := by
  induction sections generalizing index g with
  | nil =>
    obtain rfl := Except.ok.inj h
    exact ⟨[], rfl, rfl, .nil⟩
  | cons s rest ih =>
    obtain ⟨name, asset⟩ := s
    by_cases hasset : asset.isAsset = true
    · simp only [ofSectionsFrom, if_pos hasset] at h
      obtain ⟨first, hfirst, h⟩ := Fault.bind_eq_ok_iff.mp h
      obtain ⟨others, hothers, h⟩ := Fault.bind_eq_ok_iff.mp h
      obtain rfl := Except.ok.inj h
      obtain ⟨parts, hnodes, hedges, hparts⟩ := ih hothers
      refine ⟨first :: parts, ?_, ?_, ?_⟩
      · simp [hnodes]
      · simp [hedges]
      · rw [assets, List.filter_cons, if_pos hasset]
        exact .cons ⟨index, hfirst⟩ hparts
    · simp only [ofSectionsFrom, if_neg hasset, Fault.pure_eq_ok, Fault.ok_bind] at h
      obtain ⟨others, hothers, h⟩ := Fault.bind_eq_ok_iff.mp h
      obtain rfl := Except.ok.inj h
      obtain ⟨parts, hnodes, hedges, hparts⟩ := ih hothers
      refine ⟨parts, ?_, ?_, ?_⟩
      · simp [hnodes, Graph.empty]
      · simp [hedges, Graph.empty]
      · rw [assets, List.filter_cons, if_neg hasset]
        exact hparts

end Canvas

/-! ### Parts of a graph -/

namespace Graph

/-- Some graphs without common ids, among whose nodes their edges stay. -/
structure Separate (parts : List Graph) : Prop where
  ends : ∀ part ∈ parts, ∀ e ∈ part.edges, EndsIn (part.nodes.map Node.id) e
  nodup : ∀ part ∈ parts, (part.nodes.map Node.id).Nodup
  disjoint : parts.Pairwise fun part part' =>
    List.Disjoint (part.nodes.map Node.id) (part'.nodes.map Node.id)

namespace Separate

variable {g : Graph} {parts : List Graph}

theorem nodup_ids (h : Separate parts) (hnodes : g.nodes = parts.flatMap Graph.nodes) :
  (g.nodes.map Node.id).Nodup
  := by
  rw [hnodes, List.map_flatMap, List.nodup_flatMap]
  exact ⟨h.nodup, h.disjoint⟩

/-- A part is told by one of its ids. -/
theorem eq_of_mem (h : Separate parts) {part part' : Graph} (hpart : part ∈ parts)
    (hpart' : part' ∈ parts) {id : String} (hid : id ∈ part.nodes.map Node.id)
    (hid' : id ∈ part'.nodes.map Node.id) :
  part = part'
  := by
  by_contra hne
  have hsymm : Std.Symm fun part part' : Graph =>
      List.Disjoint (part.nodes.map Node.id) (part'.nodes.map Node.id) :=
    ⟨fun _ _ => List.Disjoint.symm⟩
  exact h.disjoint.forall hpart hpart' hne hid hid'

/-- A path to a node of a part does not leave the part. -/
theorem leads_iff (h : Separate parts) (hedges : g.edges = parts.flatMap Graph.edges)
    {part : Graph} (hpart : part ∈ parts) {id root : String}
    (hroot : root ∈ part.nodes.map Node.id) :
  Relation.ReflTransGen g.Feeds id root ↔ Relation.ReflTransGen part.Feeds id root
  := by
  constructor
  · intro hpath
    suffices hboth : Relation.ReflTransGen part.Feeds id root ∧ id ∈ part.nodes.map Node.id from
      hboth.1
    induction hpath using Relation.ReflTransGen.head_induction_on with
    | refl => exact ⟨.refl, hroot⟩
    | head hfeeds _ ih =>
      obtain ⟨e, he, rfl, rfl⟩ := hfeeds
      rw [hedges] at he
      obtain ⟨part', hpart', he⟩ := List.mem_flatMap.mp he
      obtain ⟨hsource, htarget⟩ := h.ends part' hpart' e he
      obtain rfl := h.eq_of_mem hpart hpart' ih.2 htarget
      exact ⟨.head ⟨e, he, rfl, rfl⟩ ih.1, hsource⟩
  · apply Relation.ReflTransGen.mono
    rintro source target ⟨e, he, hends⟩
    refine ⟨e, ?_, hends⟩
    rw [hedges]
    exact List.mem_flatMap.mpr ⟨part, hpart, he⟩

/-- The edges into a node of a part are those of the part. -/
theorem inboundEdges_eq (h : Separate parts) (hedges : g.edges = parts.flatMap Graph.edges)
    {part : Graph} (hpart : part ∈ parts) {id : String} (hid : id ∈ part.nodes.map Node.id) :
  g.inboundEdges id = part.inboundEdges id
  := by
  obtain ⟨before, after, rfl⟩ := List.append_of_mem hpart
  have hnone (others : List Graph) (hsub : others ⊆ before ++ part :: after)
      (hdisjoint : ∀ other ∈ others, id ∉ other.nodes.map Node.id) :
      (others.flatMap Graph.edges).filter (fun e => e.target = id) = [] := by
    rw [List.filter_eq_nil_iff]
    intro e he
    obtain ⟨other, hother, he⟩ := List.mem_flatMap.mp he
    rw [decide_eq_true_iff]
    rintro rfl
    exact hdisjoint other hother (h.ends other (hsub hother) e he).2
  obtain ⟨-, hafter, hbefore⟩ := List.pairwise_append.mp h.disjoint
  rw [inboundEdges, inboundEdges, hedges, List.flatMap_append, List.flatMap_cons,
    List.filter_append, List.filter_append, hnone before (by simp), hnone after (by simp),
    List.nil_append, List.append_nil]
  · intro other hother hmem
    exact (List.pairwise_cons.mp hafter).1 other hother hid hmem
  · intro other hother hmem
    exact hbefore other hother part (by simp) hmem hid

end Separate

end Graph

/-! ### Canvases -/

namespace Canvas

variable {policy : LayoutPolicy} {origin : Float × Float} {index : Nat}

/-- A section of a canvas is the layout of an asset under the name of the section. -/
structure Holds (s : Key × Json) (part : Graph) (name : String) (fields : Fields) : Prop where
  section_eq : s = (.text name, .obj fields)
  realizes : part.Realizes (placeRoot name (some name) fields)
  tags : ∃ root rest, part.nodes = root :: rest ∧ root.id = nodeId name 1
    ∧ root.sectionTag = .str name ∧ ∀ n ∈ rest, n.sectionTag = .null

theorem exists_holds {sections : Fields} (hs : Json.Mapping sections) {parts : List Graph}
    (h : List.Forall₂ (fun s part => ∃ i, ofSection policy origin i s.1.toJson s.2 = .ok part)
      (assets sections) parts) :
  List.Forall₂ (fun s part => ∃ name fields, Holds s part name fields) (assets sections) parts
  := by
  apply (Fault.forall₂_mem h).imp
  rintro ⟨key, asset⟩ part ⟨hmem, -, i, hpart⟩
  obtain ⟨hmem, hasset⟩ := List.mem_filter.mp hmem
  obtain ⟨name, hname⟩ := hs.textual _ hmem
  obtain rfl : key = .text name := hname
  cases asset with
  | obj fields =>
    obtain ⟨hrealizes, htags⟩ := realizes_of_ofSection hpart
    exact ⟨name, fields, rfl, hrealizes, htags⟩
  | _ => cases hasset

theorem separate_of_holds {sections : Fields} (hs : Json.Mapping sections) {parts : List Graph}
    (h : List.Forall₂ (fun s part => ∃ name fields, Holds s part name fields) (assets sections)
      parts) :
  Graph.Separate parts
  := by
  constructor
  · intro part hpart e he
    obtain ⟨s, -, name, fields, hholds⟩ := Fault.exists_of_mem_right h hpart
    exact hholds.realizes.endsIn he
  · intro part hpart
    obtain ⟨s, -, name, fields, hholds⟩ := Fault.exists_of_mem_right h hpart
    exact hholds.realizes.nodup_ids
  · have hdistinct : (assets sections).Pairwise fun s s' => (s.1 == s'.1) = false := by
      have hall := hs.distinct
      rw [Entries.Distinct, Entries.keys, List.pairwise_map] at hall
      exact hall.sublist List.filter_sublist
    apply Fault.pairwise_of_forall₂ h hdistinct
    rintro s part s' part' ⟨name, fields, hholds⟩ ⟨name', fields', hholds'⟩ hne id hid hid'
    rw [hholds.section_eq, hholds'.section_eq, Key.text_beq_text, decide_eq_false_iff_not] at hne
    rw [hholds.realizes.ids_eq] at hid
    rw [hholds'.realizes.ids_eq] at hid'
    obtain ⟨a, ha, -⟩ := (numbered_placeRoot _ _ _).mem_ids.mp hid
    obtain ⟨b, hb, -⟩ := (numbered_placeRoot _ _ _).mem_ids.mp hid'
    exact hne (nodeId_eq_nodeId_iff.mp (ha.symm.trans hb)).1

/-- The sections of a canvas stay apart. -/
theorem apart_of_ofSectionsFrom {sections : Fields} (hs : Json.Mapping sections) {g : Graph}
    (h : ofSectionsFrom policy origin index sections = .ok g) :
  g.Apart sections
  := by
  obtain ⟨parts, hnodes, hedges, hparts⟩ := exists_parts_of_ofSectionsFrom h
  have hholds := exists_holds hs hparts
  have hseparate := separate_of_holds hs hholds
  constructor
  · exact hseparate.nodup_ids hnodes
  · use parts, hnodes, hedges
    apply (Fault.forall₂_mem hholds).imp
    rintro s part ⟨-, hpart, name, fields, hholds⟩
    use name, fields, hholds.section_eq
    have hrealizes := hholds.realizes
    constructor
    · exact hrealizes.forest.ids
    · exact hrealizes.forest.contents
    · intro e he
      exact hrealizes.endsIn he
    · exact hholds.tags
    · intro id
      have hroot : nodeId name 1 ∈ part.nodes.map Node.id := by
        obtain ⟨root, rest, hroot, hid, -⟩ := hholds.tags
        simp [hroot, hid]
      rw [Graph.mem_ancestorIds_iff, hseparate.leads_iff hedges hpart hroot, hrealizes.leads_iff]

/-- A section has a graph if its start can be told and its asset has a layout. -/
theorem exists_ofSection (hspacing : ∃ a, policy.sectionSpacing.number = .ok a ∧ a.Moderate)
    (hindex : index < capacity) {name : String} {fields : Fields}
    (hlayout : ∀ start, ∃ l,
      Layout.ofAsset (.obj fields) (.str name) start (.str name) policy = .ok l) :
  ∃ part, ofSection policy origin index (.str name) (.obj fields) = .ok part
  := by
  obtain ⟨a, ha, hmoderate⟩ := hspacing
  obtain ⟨b, y, hb, hy⟩ := hmoderate.exists_mul hindex
  have hstart : start policy origin index = .ok (origin.1, origin.2 + y) := by
    simp [start, ha, hb, Number.addTo, hy]
  obtain ⟨l, hl⟩ := hlayout (origin.1, origin.2 + y)
  use ⟨tagRoot (.str name) l.rootId l.nodes, l.edges⟩
  simp [ofSection, hstart, hl]

/-- Sections have a canvas if their assets have layouts. -/
theorem exists_ofSectionsFrom
    (hspacing : ∃ a, policy.sectionSpacing.number = .ok a ∧ a.Moderate) {sections : Fields}
    (htextual : ∀ s ∈ sections, ∃ name, s.1 = .text name)
    (hlayout : ∀ name fields, (Key.text name, Json.obj fields) ∈ assets sections →
      ∀ start, ∃ l, Layout.ofAsset (.obj fields) (.str name) start (.str name) policy = .ok l)
    (hindex : index + sections.length ≤ capacity) :
  ∃ g, ofSectionsFrom policy origin index sections = .ok g
  := by
  induction sections generalizing index with
  | nil => exact ⟨_, rfl⟩
  | cons s rest ih =>
    obtain ⟨key, asset⟩ := s
    rw [List.forall_mem_cons] at htextual
    obtain ⟨⟨name, hname⟩, htextual⟩ := htextual
    obtain rfl : key = .text name := hname
    rw [List.length_cons] at hindex
    have hrest : assets rest ⊆ assets ((.text name, asset) :: rest) :=
      List.filter_subset _ (List.subset_cons_self _ _)
    have hexists : ∃ others, ofSectionsFrom policy origin (index + 1) rest = .ok others :=
      ih htextual (fun name fields hmem => hlayout name fields (hrest hmem)) (by omega)
    obtain ⟨others, hothers⟩ := hexists
    by_cases hasset : asset.isAsset = true
    · cases asset with
      | obj fields =>
        have hmem : (Key.text name, Json.obj fields) ∈ assets ((.text name, .obj fields) :: rest) :=
          List.mem_filter.mpr ⟨List.mem_cons_self, hasset⟩
        have hsection : ∃ part,
            ofSection policy origin index (Key.text name).toJson (.obj fields) = .ok part :=
          exists_ofSection hspacing (by omega) (hlayout name fields hmem)
        obtain ⟨part, hpart⟩ := hsection
        simp [ofSectionsFrom, hasset, hpart, hothers]
      | _ => cases hasset
    · simp [ofSectionsFrom, hasset, hothers]

/-- Sections whose assets fit and whose roots have discriminants with a spelling have a canvas, for
every policy with usable distances, and on every canvas the sections stay apart. -/
theorem sections_apart (sections : Fields) (hs : Json.Mapping sections) (origin : Float × Float)
    (policy : LayoutPolicy) :
  (policy.Spaced → (∃ a, policy.sectionSpacing.number = .ok a ∧ a.Moderate) →
      sections.length ≤ capacity →
      (∀ name fields, (Key.text name, Json.obj fields) ∈ assets sections →
        Everywhere (fun _ => Fits) (some name) fields
          ∧ (Json.field fields typeKey).isSpellable = true) →
      ∃ g, ofSections (.obj sections) origin policy = .ok g)
    ∧ ∀ g, ofSections (.obj sections) origin policy = .ok g → g.Apart sections
  := by
  constructor
  · intro hp hspacing hlength hfits
    apply exists_ofSectionsFrom hspacing hs.textual
    · intro name fields hmem start
      obtain ⟨hfit, hroot⟩ := hfits name fields hmem
      exact (exists_ofAsset_iff_of_fits (.str name) start hp hfit).mpr ⟨rfl, hroot⟩
    · rwa [Nat.zero_add]
  · intro g hg
    exact apart_of_ofSectionsFrom hs hg

/-- Two sections of which one name extends the other as an id does, and a section that is no
asset. -/
def extended : Fields :=
  [("A", .obj scattered), ("A_1", .obj scattered), ("Note", .int 5)]

theorem mapping_extended : Json.Mapping extended
  where
  textual := by simp [extended]
  distinct := by simp [extended, Entries.Distinct, Entries.keys]

/-- The two sections share a canvas and stay apart. -/
theorem sections_apart_extended :
  ∃ g, ofSections (.obj extended) (0.0, 0.0) {} = .ok g ∧ g.Apart extended
  := by
  obtain ⟨hexists, hapart⟩ := sections_apart extended mapping_extended (0.0, 0.0) {}
  have hfits : ∀ name fields, (Key.text name, Json.obj fields) ∈ assets extended →
      Everywhere (fun _ => Fits) (some name) fields
        ∧ (Json.field fields typeKey).isSpellable = true := by
    intro name fields hmem
    have hmem := List.mem_of_mem_filter hmem
    simp only [extended, List.mem_cons, Prod.mk.injEq, Json.obj.injEq, reduceCtorEq, and_false,
      List.not_mem_nil, or_false] at hmem
    have hfields : fields = scattered := by
      rcases hmem with ⟨-, hfields⟩ | ⟨-, hfields⟩
      · exact hfields
      · exact hfields
    rw [hfields]
    refine ⟨?_, rfl⟩
    have hbelow := everywhere_fits_scattered
    apply Everywhere.of_parts (P := fun _ => Fits) hbelow.here
    intro part hpart t ht
    exact hbelow.below hpart ht
  obtain ⟨g, hg⟩ := hexists LayoutPolicy.spaced_standard ⟨_, rfl, trivial⟩ (by decide) hfits
  exact ⟨g, hg, hapart g hg⟩

end Canvas

end AssetCanvas
