import AssetCanvas.Proofs.Counterparts
import AssetCanvas.Proofs.RoundTrip
import Mathlib.Data.Set.Function

/-!
# Layouts of reordered trees

The layout of a tree and the layout of the tree with its keys in another order differ in the
numbers and the positions of the nodes and in the order of nodes and edges, and in nothing else:
there is a `Graph.Isomorphism`.  The bijection is built fragment by fragment, as a list of pairs of
nodes and a list of pairs of edges, `Layout.Pairing`; counterparts of parts have matching fragments
wherever they are laid out, `Layout.matches_body`.
-/

namespace AssetCanvas

open Json

/-- Two nodes with the same label and the same array fields that are equal up to the order of
keys.  Discriminants that can be keys are then the same, `Json.Reordered.eq_of_key?`. -/
structure Node.Similar (n n' : Node) : Prop where
  label : n.label = n'.label
  assetType : Reordered n.assetType n'.assetType
  fields : Reordered n.fields n'.fields
  arrayFields : ∃ names names', n.arrayFields = .arr names ∧ n'.arrayFields = .arr names'
    ∧ names.Perm names'

namespace Layout

open Asset

/-! ### Matching fragments -/

/-- Pairs of nodes and pairs of edges of two fragments. -/
structure Pairing where
  nodes : List (PlacedNode × PlacedNode) := []
  edges : List (Edge × Edge) := []

/-- The pairs of ids of the nodes. -/
def Pairing.ids (P : Pairing) : List (String × String) :=
  P.nodes.map fun p => (p.1.owner.id, p.2.owner.id)

/-- A pairing of the nodes and the edges of two fragments below two owners: paired nodes are
similar, and paired edges lead from paired nodes to paired nodes, or to the owners, into the same
port. -/
structure Pairing.Matches (P : Pairing) (top : String × String) (F F' : Fragment) : Prop where
  left : (P.nodes.map Prod.fst).Perm F.nodes
  right : (P.nodes.map Prod.snd).Perm F'.nodes
  leftEdges : (P.edges.map Prod.fst).Perm F.edges
  rightEdges : (P.edges.map Prod.snd).Perm F'.edges
  similar : ∀ p ∈ P.nodes, p.1.content.Similar p.2.content
  ports : ∀ q ∈ P.edges, q.1.targetPort = q.2.targetPort
  sources : ∀ q ∈ P.edges, (q.1.source, q.2.source) ∈ P.ids
  targets : ∀ q ∈ P.edges, (q.1.target, q.2.target) ∈ top :: P.ids

/-- Two fragments with a pairing of their nodes and edges. -/
def Fragment.Matches (top : String × String) (F F' : Fragment) : Prop :=
  ∃ P : Pairing, P.Matches top F F'

namespace Fragment.Matches

variable {top : String × String} {F F' G G' : Fragment}

/-- Fragments without nodes and edges match. -/
theorem of_nodes_eq_nil (hn : F.nodes = []) (he : F.edges = []) (hn' : F'.nodes = [])
    (he' : F'.edges = []) :
  F.Matches top F'
  := by
  use {}
  constructor <;> simp [hn, he, hn', he']

theorem append (h : F.Matches top F') (h' : G.Matches top G') : (F ++ G).Matches top (F' ++ G')
  := by
  obtain ⟨P, hP⟩ := h
  obtain ⟨Q, hQ⟩ := h'
  have hids : Pairing.ids ⟨P.nodes ++ Q.nodes, P.edges ++ Q.edges⟩ = P.ids ++ Q.ids := by
    simp [Pairing.ids]
  use ⟨P.nodes ++ Q.nodes, P.edges ++ Q.edges⟩
  constructor
  · rw [List.map_append]
    apply hP.left.append hQ.left
  · rw [List.map_append]
    apply hP.right.append hQ.right
  · rw [List.map_append]
    apply hP.leftEdges.append hQ.leftEdges
  · rw [List.map_append]
    apply hP.rightEdges.append hQ.rightEdges
  · rw [List.forall_mem_append]
    exact ⟨hP.similar, hQ.similar⟩
  · rw [List.forall_mem_append]
    exact ⟨hP.ports, hQ.ports⟩
  · rw [List.forall_mem_append, hids]
    constructor
    · intro q hq
      apply List.mem_append_left _ (hP.sources q hq)
    · intro q hq
      apply List.mem_append_right _ (hQ.sources q hq)
  · rw [List.forall_mem_append, hids]
    constructor
    · intro q hq
      rcases List.mem_cons.mp (hP.targets q hq) with htop | hmem
      · rw [htop]
        apply List.mem_cons_self
      · apply List.mem_cons_of_mem _ (List.mem_append_left _ hmem)
    · intro q hq
      rcases List.mem_cons.mp (hQ.targets q hq) with htop | hmem
      · rw [htop]
        apply List.mem_cons_self
      · apply List.mem_cons_of_mem _ (List.mem_append_right _ hmem)

/-- The order of nodes and edges does not matter. -/
theorem permute (h : F.Matches top F') (hn : F.nodes.Perm G.nodes) (he : F.edges.Perm G.edges) :
  G.Matches top F'
  := by
  obtain ⟨P, hP⟩ := h
  exact ⟨P, hP.left.trans hn, hP.right, hP.leftEdges.trans he, hP.rightEdges, hP.similar, hP.ports,
    hP.sources, hP.targets⟩

/-- The fragments of two assets match if their bodies do, their own nodes are similar, and the
edges that lead out of them match; their own nodes are paired. -/
theorem close {body body' : Fragment} {o o' : Owner} (h : body.Matches (o.id, o'.id) body')
    (hs : (⟨o, body.plain, body.arrays⟩ : PlacedNode).content.Similar
      (⟨o', body'.plain, body'.arrays⟩ : PlacedNode).content)
    (links : List (Edge × Edge))
    (hlinks : ∀ q ∈ links, q.1.targetPort = q.2.targetPort
      ∧ (q.1.source, q.2.source) = (o.id, o'.id) ∧ (q.1.target, q.2.target) = top)
    (hn : F.nodes = body.close o) (hn' : F'.nodes = body'.close o')
    (he : F.edges = body.edges ++ links.map Prod.fst)
    (he' : F'.edges = body'.edges ++ links.map Prod.snd) :
  ∃ P : Pairing, P.Matches top F F' ∧ (o.id, o'.id) ∈ P.ids
  := by
  obtain ⟨P, hP⟩ := h
  use ⟨(⟨o, body.plain, body.arrays⟩, ⟨o', body'.plain, body'.arrays⟩) :: P.nodes,
    P.edges ++ links⟩
  refine ⟨?_, List.mem_cons_self⟩
  constructor
  · rw [hn]
    apply hP.left.cons
  · rw [hn']
    apply hP.right.cons
  · rw [he, List.map_append]
    apply hP.leftEdges.append_right
  · rw [he', List.map_append]
    apply hP.rightEdges.append_right
  · rw [List.forall_mem_cons]
    exact ⟨hs, hP.similar⟩
  · rw [List.forall_mem_append]
    exact ⟨hP.ports, fun q hq => (hlinks q hq).1⟩
  · rw [List.forall_mem_append]
    constructor
    · intro q hq
      apply List.mem_cons_of_mem _ (hP.sources q hq)
    · intro q hq
      rw [(hlinks q hq).2.1]
      apply List.mem_cons_self
  · rw [List.forall_mem_append]
    constructor
    · intro q hq
      apply List.mem_cons_of_mem _ (hP.targets q hq)
    · intro q hq
      rw [(hlinks q hq).2.2]
      apply List.mem_cons_self

theorem ofTree {body body' : Fragment} {o o' : Owner} (h : body.Matches (o.id, o'.id) body')
    (hs : (⟨o, body.plain, body.arrays⟩ : PlacedNode).content.Similar
      (⟨o', body'.plain, body'.arrays⟩ : PlacedNode).content) :
  ∃ P : Pairing, P.Matches top (Fragment.ofTree o body) (.ofTree o' body')
    ∧ (o.id, o'.id) ∈ P.ids
  := by
  apply h.close hs [] _ rfl rfl
  · simp [Fragment.ofTree]
  · simp [Fragment.ofTree]
  · simp

theorem ofChild {body body' : Fragment} {parent parent' o o' : Owner}
    (h : body.Matches (o.id, o'.id) body')
    (hs : (⟨o, body.plain, body.arrays⟩ : PlacedNode).content.Similar
      (⟨o', body'.plain, body'.arrays⟩ : PlacedNode).content) (port : Json)
    (warnings warnings' : List String) (checks checks' : List Check) :
  (Fragment.ofChild parent o port warnings checks body).Matches (parent.id, parent'.id)
    (.ofChild parent' o' port warnings' checks' body')
  := by
  obtain ⟨P, hP, -⟩ : ∃ P : Pairing,
      P.Matches (parent.id, parent'.id) (.ofChild parent o port warnings checks body)
        (.ofChild parent' o' port warnings' checks' body')
      ∧ (o.id, o'.id) ∈ P.ids := by
    apply h.close hs [(.link o.id parent.id port, .link o'.id parent'.id port)] _ rfl rfl rfl rfl
    intro q hq
    rw [List.mem_singleton.mp hq]
    exact ⟨rfl, rfl, rfl⟩
  exact ⟨P, hP⟩

end Fragment.Matches

/-! ### Layouts of parts in any order -/

/-- The nodes and the edges of some fragments. -/
def Fragment.join (fragments : List Fragment) : Fragment :=
  { nodes := fragments.flatMap Fragment.nodes
    edges := fragments.flatMap Fragment.edges }

variable {stem stem' : String} {owner owner' : Owner}

/-- The layout of some parts has the nodes and edges of the layouts of the parts. -/
theorem exists_join (stem : String) (owner : Owner) (n index : Nat) (ps : List Part) :
  ∃ fragments, List.Forall₂ (fun part F => ∃ n index, F = placePart stem owner n index part) ps
      fragments
    ∧ (placeParts stem owner n index ps).nodes = (Fragment.join fragments).nodes
    ∧ (placeParts stem owner n index ps).edges = (Fragment.join fragments).edges
  := by
  induction ps generalizing n index with
  | nil => exact ⟨[], .nil, rfl, rfl⟩
  | cons part rest ih =>
    obtain ⟨fragments, hfragments, hn, he⟩ := ih
      (n + (placePart stem owner n index part).nodes.length)
      (index + (placePart stem owner n index part).children)
    use placePart stem owner n index part :: fragments, .cons ⟨n, index, rfl⟩ hfragments
    rw [placeParts, Fragment.nodes_append, Fragment.edges_append, hn, he]
    exact ⟨rfl, rfl⟩

/-- Parts and their counterparts in another order have matching layouts, if a part and its
counterpart do wherever they are laid out. -/
theorem matches_placeParts {ps between ps' : List Part} (hperm : ps.Perm between)
    (halike : List.Forall₂ Part.Alike between ps') {top : String × String}
    (hpart : ∀ part ∈ ps, ∀ part', part.Alike part' → ∀ n n' index index',
      (placePart stem owner n index part).Matches top (placePart stem' owner' n' index' part'))
    (n n' index index' : Nat) :
  (placeParts stem owner n index ps).Matches top (placeParts stem' owner' n' index' ps')
  := by
  obtain ⟨fragments, hfragments, hn, he⟩ := exists_join stem owner n index ps
  obtain ⟨fragments', hfragments', hperm'⟩ := List.perm_comp_forall₂ hperm.symm hfragments
  have hjoin : (Fragment.join fragments').Matches top
      (placeParts stem' owner' n' index' ps') := by
    replace hpart := fun part (hmem : part ∈ between) => hpart part (hperm.mem_iff.mpr hmem)
    clear hperm hperm' hfragments hn he
    induction halike generalizing fragments' n' index' with
    | nil =>
      cases hfragments'
      apply Fragment.Matches.of_nodes_eq_nil <;> rfl
    | @cons part part' _ _ hpair _ ih =>
      cases hfragments' with
      | @cons _ F _ rest hF hrest =>
        obtain ⟨m, i, rfl⟩ := hF
        have hfirst := hpart part (by simp) part' hpair m n' i index'
        have hothers := ih (n' + (placePart stem' owner' n' index' part').nodes.length)
          (index' + (placePart stem' owner' n' index' part').children) rest hrest
          fun other hmem => hpart other (by simp [hmem])
        rw [placeParts]
        apply (hfirst.append hothers).permute
        · apply List.Perm.refl
        · apply List.Perm.refl
  apply hjoin.permute
  · rw [hn]
    apply hperm'.flatMap_right
  · rw [he]
    apply hperm'.flatMap_right

/-- The nodes of reordered assets are similar. -/
theorem similar_root {fields fields' : Fields} (hm : Mapping fields)
    (h : Reordered (.obj fields) (.obj fields')) {n n' m m' index index' : Nat}
    {place place' : Place} {parent : Option String} {owner owner' : Owner}
    (ho : owner = .ofAsset stem n place parent fields)
    (ho' : owner' = .ofAsset stem' n' place' parent fields') :
  (⟨owner, (placeParts stem owner m index (parts fields)).plain,
      (placeParts stem owner m index (parts fields)).arrays⟩ : PlacedNode).content.Similar
    (⟨owner', (placeParts stem' owner' m' index' (parts fields')).plain,
      (placeParts stem' owner' m' index' (parts fields')).arrays⟩ : PlacedNode).content
  where
  label := by
    rw [ho, ho']
    apply congrArg Json.str (label_eq hm h parent)
  assetType := by
    rw [ho, ho']
    apply reordered_assetType hm h
  fields := by
    simp only [PlacedNode.content, placeParts_plain]
    apply reordered_plain h
  arrayFields := by
    simp only [PlacedNode.content, placeParts_arrays]
    exact ⟨_, _, rfl, rfl, (perm_arrays h).map _⟩

/-- Reordered assets have matching layouts, under any owners with the same label and the same
discriminant. -/
theorem matches_body {fields fields' : Fields} {parent : Option String}
    (hm : Everywhere (fun _ => Mapping) parent fields)
    (h : Reordered (.obj fields) (.obj fields')) (hlabel : owner.label = owner'.label)
    (htype : Reordered owner.assetType owner'.assetType) (n n' index index' : Nat) :
  (placeParts stem owner n index (parts fields)).Matches (owner.id, owner'.id)
    (placeParts stem' owner' n' index' (parts fields'))
  := by
  induction fields using Asset.induction generalizing fields' parent owner owner' n n' index index'
    with
  | step fields ih =>
    obtain ⟨between, hperm, halike⟩ := exists_alike_parts h
    apply matches_placeParts hperm halike
    intro part hmem part' hpair n n' index index'
    cases hpair with
    | @child key i t t' ht =>
      have hbelow := hm.below hmem rfl
      rw [placePart_child, placePart_child, ← hlabel,
        childPort_congr htype owner.label key i t t']
      apply Fragment.Matches.ofChild
      · apply ih _ hmem t rfl hbelow ht
        · apply label_eq hbelow.here ht
        · apply reordered_assetType hbelow.here ht
      · apply similar_root hbelow.here ht rfl rfl
    | @tree i t t' ht =>
      have hbelow := hm.below hmem rfl
      rw [placePart_tree, placePart_tree]
      obtain ⟨P, hP, -⟩ := Fragment.Matches.ofTree
        (ih _ hmem t rfl hbelow ht (label_eq hbelow.here ht none)
          (reordered_assetType hbelow.here ht none) (n + 1) (n' + 1) 0 0)
        (similar_root hbelow.here ht rfl rfl)
      exact ⟨P, hP⟩
    | _ => apply Fragment.Matches.of_nodes_eq_nil <;> rfl

/-- Reordered trees have matching layouts that pair the roots. -/
theorem matches_placeRoot {fields fields' : Fields} {field : Option String}
    (hm : Everywhere (fun _ => Mapping) field fields)
    (h : Reordered (.obj fields) (.obj fields')) (stem stem' : String) :
  ∃ P : Pairing, P.Matches (nodeId stem 1, nodeId stem' 1) (placeRoot stem field fields)
      (placeRoot stem' field fields')
    ∧ (nodeId stem 1, nodeId stem' 1) ∈ P.ids
  := by
  rw [placeRoot_eq, placeRoot_eq]
  apply Fragment.Matches.ofTree
  · apply matches_body hm h
    · apply label_eq hm.here h
    · apply reordered_assetType hm.here h
  · apply similar_root hm.here h rfl rfl

/-! ### The bijection of a pairing -/

/-- The partner of an id. -/
def Pairing.partner (P : Pairing) (id : String) : String := (Entries.find? P.ids id).getD id

namespace Pairing.Matches

variable {P : Pairing} {top : String × String} {F F' : Fragment}

theorem perm_ids_left (h : P.Matches top F F') : (P.ids.map Prod.fst).Perm F.ids
  := by
  rw [Pairing.ids, List.map_map, Fragment.ids]
  have hmap := h.left.map fun m => m.owner.id
  rw [List.map_map] at hmap
  apply hmap

theorem perm_ids_right (h : P.Matches top F F') : (P.ids.map Prod.snd).Perm F'.ids
  := by
  rw [Pairing.ids, List.map_map, Fragment.ids]
  have hmap := h.right.map fun m => m.owner.id
  rw [List.map_map] at hmap
  apply hmap

theorem partner_eq (h : P.Matches top F F') (hd : F.ids.Nodup) {id id' : String}
    (hmem : (id, id') ∈ P.ids) :
  P.partner id = id'
  := by
  have hdistinct : Entries.Distinct P.ids := by
    rw [Entries.distinct_iff_nodup]
    apply h.perm_ids_left.nodup_iff.mpr hd
  rw [partner, hdistinct.find?_of_mem hmem, Option.getD_some]

/-- Partners are told apart by the nodes of a pairing. -/
theorem bijOn_partner (h : P.Matches top F F') (hd : F.ids.Nodup) (hd' : F'.ids.Nodup) :
  Set.BijOn P.partner {id | id ∈ F.ids} {id | id ∈ F'.ids}
  := by
  have hpair : ∀ id ∈ F.ids, (id, P.partner id) ∈ P.ids := by
    intro id hid
    obtain ⟨⟨_, id'⟩, hmem, rfl⟩ := List.mem_map.mp (h.perm_ids_left.mem_iff.mpr hid)
    rw [h.partner_eq hd hmem]
    apply hmem
  refine ⟨?_, ?_, ?_⟩
  · intro id hid
    apply h.perm_ids_right.mem_iff.mp
    apply List.mem_map_of_mem (hpair id hid)
  · intro a ha b hb hab
    have hsame := List.inj_on_of_nodup_map (h.perm_ids_right.nodup_iff.mpr hd') (hpair a ha)
      (hpair b hb) hab
    apply congrArg Prod.fst hsame
  · intro id' hid'
    obtain ⟨⟨id, _⟩, hmem, rfl⟩ := List.mem_map.mp (h.perm_ids_right.mem_iff.mpr hid')
    use id
    constructor
    · apply h.perm_ids_left.mem_iff.mp
      apply List.mem_map_of_mem hmem
    · apply h.partner_eq hd hmem

end Pairing.Matches

end Layout

/-! ### Isomorphic graphs -/

/-- The ends of the image of an edge under a map of ids. -/
def Edge.image (f : String → String) (e : Edge) : String × String × Json :=
  (f e.source, f e.target, e.targetPort)

/-- A bijection between the nodes of two graphs, given on their ids, that takes nodes to similar
nodes and the edges of one graph, with the ports that they feed, exactly to those of the other. -/
structure Graph.Isomorphism (g g' : Graph) (f : String → String) : Prop where
  nodup : (g.nodes.map Node.id).Nodup
  nodup' : (g'.nodes.map Node.id).Nodup
  bijective : Set.BijOn f {id | id ∈ g.nodes.map Node.id} {id | id ∈ g'.nodes.map Node.id}
  similar : ∀ n ∈ g.nodes, ∃ n' ∈ g'.nodes, n'.id = f n.id ∧ n.Similar n'
  edges : (g.edges.map (Edge.image f)).Perm (g'.edges.map Edge.ends)

/-- Graphs of fragments with a pairing are isomorphic. -/
theorem Graph.Isomorphism.of_matches {g g' : Graph} {F F' : Layout.Fragment}
    (hg : g.Realizes F) (hg' : g'.Realizes F') (hd : F.ids.Nodup) (hd' : F'.ids.Nodup)
    {P : Layout.Pairing} {top : String × String} (h : P.Matches top F F') (htop : top ∈ P.ids) :
  g.Isomorphism g' P.partner
  where
  nodup := by
    rw [hg.ids_eq]
    apply hd
  nodup' := by
    rw [hg'.ids_eq]
    apply hd'
  bijective := by
    rw [hg.ids_eq, hg'.ids_eq]
    apply h.bijOn_partner hd hd'
  similar n hn := by
    obtain ⟨m, hm, hid, hcontent⟩ := hg.exists_placed hn
    obtain ⟨⟨_, m'⟩, hp, rfl⟩ := List.mem_map.mp (h.left.mem_iff.mpr hm)
    have hm' : m' ∈ F'.nodes := h.right.mem_iff.mp (List.mem_map_of_mem hp)
    obtain ⟨n', hn', hid', hcontent'⟩ := hg'.exists_of_placed hm'
    use n', hn'
    constructor
    · rw [hid', hid, h.partner_eq hd (List.mem_map_of_mem hp)]
    · have hsimilar := h.similar _ hp
      rw [← hcontent, ← hcontent'] at hsimilar
      exact ⟨hsimilar.label, hsimilar.assetType, hsimilar.fields, hsimilar.arrayFields⟩
  edges := by
    -- the images of the edges of the pairing are their partners
    have hpairs : P.edges.map (Edge.image P.partner ∘ Prod.fst)
        = P.edges.map (Edge.ends ∘ Prod.snd) := by
      apply List.map_congr_left
      intro q hq
      have htarget : (q.1.target, q.2.target) ∈ P.ids := by
        rcases List.mem_cons.mp (h.targets q hq) with heq | hmem
        · rw [heq]
          apply htop
        · apply hmem
      rw [Function.comp_apply, Function.comp_apply, Edge.image, Edge.ends,
        h.partner_eq hd (h.sources q hq), h.partner_eq hd htarget, h.ports q hq]
    have hleft : g.edges.map (Edge.image P.partner) = F.edges.map (Edge.image P.partner) := by
      have hmap := congrArg (List.map fun ends : String × String × Json =>
        (P.partner ends.1, P.partner ends.2.1, ends.2.2)) hg.edges
      rw [List.map_map, List.map_map] at hmap
      apply hmap
    have hperm := (h.leftEdges.map (Edge.image P.partner)).symm
    have hperm' := h.rightEdges.map Edge.ends
    rw [List.map_map, hpairs] at hperm
    rw [List.map_map] at hperm'
    rw [hleft, hg'.edges]
    apply hperm.trans hperm'

/-! ### Layouts of reordered trees -/

namespace Layout

open Asset

/-- Any layouts of reordered trees under the same field are isomorphic. -/
theorem exists_isomorphism {fields fields' : Fields} {field : Option String}
    (hm : Everywhere (fun _ => Mapping) field fields)
    (h : Reordered (.obj fields) (.obj fields')) {stem stem' : Json} {start start' : Float × Float}
    {policy policy' : LayoutPolicy} {l l' : Layout}
    (hl : Layout.ofAsset (.obj fields) stem start (Json.ofOption field) policy = .ok l)
    (hl' : Layout.ofAsset (.obj fields') stem' start' (Json.ofOption field) policy' = .ok l') :
  ∃ f, l.toGraph.Isomorphism l'.toGraph f ∧ f l.rootId = l'.rootId
  := by
  obtain ⟨P, hP, hroot⟩ := matches_placeRoot hm h (stemOf policy stem) (stemOf policy' stem')
  have hd := (numbered_placeRoot (stemOf policy stem) field fields).nodup_ids
  have hd' := (numbered_placeRoot (stemOf policy' stem') field fields').nodup_ids
  use P.partner
  constructor
  · apply Graph.Isomorphism.of_matches (realizes_of_ofAsset hl) (realizes_of_ofAsset hl') hd hd' hP
      hroot
  · rw [(ofAsset_eq_ok hl).1, (ofAsset_eq_ok hl').1]
    apply hP.partner_eq hd hroot

/-- A reordered tree has a layout whenever the tree has one, with isomorphic graphs and roots that
correspond.  Where the assets of the tree fit on the canvas and the distances of the policy can be
used, there is one exactly if the stem of the ids and the discriminant of the root have a
spelling. -/
theorem reordered_layouts_isomorphic {fields fields' : Fields} {field : Option String}
    (hm : Everywhere (fun _ => Mapping) field fields)
    (h : Reordered (.obj fields) (.obj fields')) (stem : Json) (start : Float × Float)
    (policy : LayoutPolicy) :
  (policy.Spaced → Everywhere (fun _ => Fits) field fields →
      ((∃ l, Layout.ofAsset (.obj fields) stem start (Json.ofOption field) policy = .ok l)
        ↔ (stemValue policy stem).isSpellable = true
          ∧ (Json.field fields typeKey).isSpellable = true))
    ∧ ∀ l, Layout.ofAsset (.obj fields) stem start (Json.ofOption field) policy = .ok l →
      ∃ l', Layout.ofAsset (.obj fields') stem start (Json.ofOption field) policy = .ok l'
        ∧ ∃ f, l.toGraph.Isomorphism l'.toGraph f ∧ f l.rootId = l'.rootId
  := by
  constructor
  · apply exists_ofAsset_iff_of_fits stem start
  · intro l hl
    obtain ⟨hcolumn, hroom, hstem, hroot⟩ := (exists_ofAsset_iff stem start policy).mp ⟨l, hl⟩
    have hroom' := Everywhere.reordered (P := Roomy policy) (fun _ _ _ => Roomy.reordered) hm h
      hroom
    rw [(reordered_field hm.here h typeKey).isSpellable_eq] at hroot
    obtain ⟨l', hl'⟩ := (exists_ofAsset_iff stem start policy).mpr
      ⟨hcolumn, hroom', hstem, hroot⟩
    use l', hl'
    apply exists_isomorphism hm h hl hl'

/-- The sum and the sum with its keys in reverse order. -/
theorem reordered_layouts_sumOfOne :
  ∃ l l', Layout.ofAsset (.obj sumOfOne) .null (0.0, 0.0) .null {} = .ok l
    ∧ Layout.ofAsset (.obj sumOfOne.reverse) .null (0.0, 0.0) .null {} = .ok l'
    ∧ ∃ f, l.toGraph.Isomorphism l'.toGraph f ∧ f l.rootId = l'.rootId
  := by
  have hreadable := canonical_sumOfOne.readable
  obtain ⟨hexists, hisomorphic⟩ := reordered_layouts_isomorphic
    (fun parent t hreach => (hreadable parent t hreach).mapping)
    (.permute (List.reverse_perm sumOfOne).symm) .null (0.0, 0.0) {}
  have hfits : Everywhere (fun _ => Fits) none sumOfOne := fun parent t hreach =>
    (hreadable parent t hreach).placeable.fits
  obtain ⟨l, hl⟩ := (hexists LayoutPolicy.spaced_standard hfits).mpr ⟨rfl, rfl⟩
  obtain ⟨l', hl', hf⟩ := hisomorphic l hl
  use l, l', hl, hl'

end Layout

end AssetCanvas
