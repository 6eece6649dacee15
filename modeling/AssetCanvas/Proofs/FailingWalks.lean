import AssetCanvas.Proofs.Outline
import AssetCanvas.Proofs.Requests
import AssetCanvas.Proofs.Roots

/-!
# Failing walks

An interpreter computes the result of a node by an operation that asks for results of the sources,
and the walk that it makes enters no id twice on one path.  A `Walker` says what the walk enters
under an id, and by which operation the result is computed.  The walk reaches what it enters
first, and what it reaches from the sources that it asks for, `Walker.Reaches`.  It fails exactly
if it reaches something with a flaw of its own: `Walker.Computes.failsIf`.
-/

namespace AssetCanvas

open Requests

variable {κ δ β : Type}

/-- How the result of an id with some data is computed. -/
structure Walker (κ δ β : Type) where
  /-- What a walk enters under an id. -/
  entry? : String → Option κ
  /-- The result of an entry, from the results of sources. -/
  operation : κ → δ → Answers (String × δ) β → Except Fault β

namespace Walker

/-- The results of the sources, given the ids that the walk has not entered yet. -/
def sources (evaluate : List String → String → δ → Except Fault β) (fresh : List String) :
    Answers (String × δ) β :=
  fun call => evaluate fresh call.1 call.2

/-- Whether results are computed by a walker. -/
structure Computes (w : Walker κ δ β) (evaluate : List String → String → δ → Except Fault β) :
    Prop where
  entered : ∀ {fresh id k d}, id ∈ fresh → w.entry? id = some k →
    evaluate fresh id d = w.operation k d (sources evaluate (Walk.without fresh id))
  blank : ∀ {fresh id d}, w.entry? id = none → ∃ b, evaluate fresh id d = .ok b
  closed : ∀ {fresh id d}, id ∉ fresh → ∃ b, evaluate fresh id d = .ok b

/-- Whether a walk reaches an entry with some data, given the fresh ids: the entry of the id
itself, or one that it reaches from a source for which this one asks. -/
inductive Reaches (w : Walker κ δ β) (evaluate : List String → String → δ → Except Fault β) :
    List String → String → δ → κ → δ → Prop
  | here {fresh : List String} {id : String} {d : δ} {k : κ} :
    id ∈ fresh → w.entry? id = some k → Reaches w evaluate fresh id d k d
  | above {fresh : List String} {id id' : String} {d d' d₀ : δ} {k k₀ : κ} :
    id ∈ fresh → w.entry? id = some k →
    Asks (w.operation k d) (sources evaluate (Walk.without fresh id)) (id', d') →
    Reaches w evaluate (Walk.without fresh id) id' d' k₀ d₀ → Reaches w evaluate fresh id d k₀ d₀

/-- What is reached has been entered under an id. -/
theorem Reaches.exists_entry? {w : Walker κ δ β}
    {evaluate : List String → String → δ → Except Fault β} {fresh : List String} {id : String}
    {d d₀ : δ} {k₀ : κ} (h : w.Reaches evaluate fresh id d k₀ d₀) :
  ∃ id', w.entry? id' = some k₀
  := by
  induction h with
  | here _ hentry => exact ⟨_, hentry⟩
  | above _ _ _ _ ih => exact ih

namespace Computes

variable {w : Walker κ δ β} {evaluate : List String → String → δ → Except Fault β}
  {flawed : κ → δ → Prop}

/-- A walk fails exactly if it reaches a flaw, where every operation fails exactly if it asks for a
result that is a fault, or has a flaw. -/
theorem failsIf (h : w.Computes evaluate)
    (hflawed : ∀ id k, w.entry? id = some k → ∀ d, FailsIf (w.operation k d) (flawed k d))
    (fresh : List String) (id : String) (d : δ) :
  Fault.FailsIf (evaluate fresh id d) (∃ k d', w.Reaches evaluate fresh id d k d' ∧ flawed k d')
  := by
  induction fresh, id using Graph.walk_induction generalizing d with
  | step fresh id ih =>
    by_cases hmem : id ∈ fresh
    · cases hentry : w.entry? id with
      | none =>
        obtain ⟨b, hb⟩ := h.blank hentry
        apply (Fault.FailsIf.of_ok hb).congr
        rw [false_iff]
        rintro ⟨k, d', hreaches, -⟩
        cases hreaches <;> simp_all
      | some k =>
        rw [h.entered hmem hentry]
        apply ((hflawed id k hentry d).run fun call => ih hmem call.1 call.2).congr
        constructor
        · rintro (⟨⟨id', d'⟩, hasks, k₀, d₀, hreaches, hflaw⟩ | hflaw)
          · exact ⟨k₀, d₀, .above hmem hentry hasks hreaches, hflaw⟩
          · exact ⟨k, d, .here hmem hentry, hflaw⟩
        · rintro ⟨k₀, d₀, hreaches, hflaw⟩
          cases hreaches with
          | here _ hentry' =>
            obtain rfl := Option.some.inj (hentry.symm.trans hentry')
            exact .inr hflaw
          | @above _ _ id' _ d' _ _ _ _ hentry' hasks hreaches =>
            obtain rfl := Option.some.inj (hentry.symm.trans hentry')
            exact .inl ⟨(id', d'), hasks, k₀, d₀, hreaches, hflaw⟩
    · obtain ⟨b, hb⟩ := h.closed hmem
      apply (Fault.FailsIf.of_ok hb).congr
      rw [false_iff]
      rintro ⟨k, d', hreaches, -⟩
      cases hreaches <;> contradiction

end Computes

end Walker

/-! ### Visits -/

/-- What the interpreters enter under an id: a node with its type and the sources of its ports. -/
structure NodeVisit where
  node : Node
  type : String
  inputs : Inputs

namespace NodeVisit

variable {category : String} {nodes : List (String × Node)} {inputs : List (String × Inputs)}
  {id : String}

/-- What an interpreter enters under an id. -/
def at? (category : String) (nodes : List (String × Node)) (inputs : List (String × Inputs))
    (id : String) : Option NodeVisit := do
  let n ← Entries.find? nodes id
  let type ← (n.typeName category).toOption
  return ⟨n, type, (Entries.find? inputs id).getD []⟩

theorem of_at? {v : NodeVisit} (h : at? category nodes inputs id = some v) :
  Entries.find? nodes id = some v.node ∧ v.node.typeName category = .ok v.type
    ∧ v.inputs = (Entries.find? inputs id).getD []
  := by
  simp only [at?, Option.bind_eq_bind, Option.bind_eq_some_iff] at h
  obtain ⟨n, hn, type, htype, hv⟩ := h
  obtain rfl := Option.some.inj hv
  refine ⟨hn, ?_, rfl⟩
  cases hname : n.typeName category with
  | error e =>
    rw [hname] at htype
    cases htype
  | ok type' =>
    rw [hname] at htype
    rw [Option.some.inj htype]

/-- Among regular nodes there is a visit of every one. -/
theorem find?_of_at?_eq_none (hnodes : ∀ id n, Entries.find? nodes id = some n → n.Regular)
    (h : at? category nodes inputs id = none) :
  Entries.find? nodes id = none
  := by
  cases hn : Entries.find? nodes id with
  | none => rfl
  | some n =>
    obtain ⟨type, htype⟩ := (hnodes id n hn).exists_typeName category
    simp [at?, hn, htype, Except.toOption] at h

end NodeVisit

end AssetCanvas
