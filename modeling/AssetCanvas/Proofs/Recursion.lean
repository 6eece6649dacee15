import AssetCanvas.Proofs.Outline
import AssetCanvas.Proofs.Scripts
import Mathlib.Data.Finset.Basic
import Mathlib.Data.List.Chain
import Mathlib.Logic.Relation

/-!
# Guarded recursion

A walk up a graph may call itself many times, and all of its calls share one set of the ids that
are being expanded.  A call of an id that is in the set, or that has no operation, gives the
closed result at once; any other call puts the id into the set, performs the operation of the id,
and takes the id out again.  `Recursion.next?` is one step of such a walk, whose operations are
given by scripts.

The ids that are being expanded are distinct at every moment, `Recursion.Sound.step`, and a call
ends with the set as it was, and with the result that the walk with the remaining ids computes,
`Recursion.ends`.  If no path of calls leads back, the result is that of a walk that starts with
the call, `Recursion.ends_of_acyclic`.
-/

namespace AssetCanvas

open Requests

variable {δ β : Type}

/-- How the results of ids are computed by a recursion with a set of visited ids. -/
structure Recursion (δ β : Type) where
  /-- The operation of an id, which asks for the results of other ids. -/
  operation? : String → Option (δ → Answers (String × δ) β → Except Fault β)
  /-- The result where the recursion does not enter. -/
  closed : δ → β
  /-- Whether an operation that fails takes its id out of the set. -/
  restores : Bool

namespace Recursion

/-- A script of an operation. -/
abbrev Part (δ β : Type) := Script (String × δ) β β

/-- A call that waits for the answer to another one. -/
structure Frame (δ β : Type) where
  id : String
  next : β → Part δ β

/-- What the recursion does next. -/
inductive Control (δ β : Type) where
  | call (id : String) (d : δ)
  | expand (id : String) (rest : Part δ β)
  | answer (b : β)
  | fault (e : Fault)

/-- A moment of the recursion. -/
structure State (δ β : Type) where
  /-- The set that all calls share. -/
  visiting : Finset String
  /-- The calls that wait, the last one first. -/
  frames : List (Frame δ β)
  control : Control δ β

/-- The shared set after the operation of an id has failed. -/
def abandon (r : Recursion δ β) (visiting : Finset String) (id : String) : Finset String :=
  if r.restores then visiting.erase id else visiting

/-- One step of the recursion; none at its end. -/
def next? (r : Recursion δ β) (script : String → δ → Part δ β) : State δ β → Option (State δ β)
  | ⟨visiting, frames, .call id d⟩ =>
    if id ∉ visiting ∧ (r.operation? id).isSome then
      some ⟨insert id visiting, frames, .expand id (script id d)⟩
    else
      some ⟨visiting, frames, .answer (r.closed d)⟩
  | ⟨visiting, frames, .expand id (.ask c next)⟩ =>
    some ⟨visiting, ⟨id, next⟩ :: frames, .call c.1 c.2⟩
  | ⟨visiting, frames, .expand id (.done (.ok b))⟩ =>
    some ⟨visiting.erase id, frames, .answer b⟩
  | ⟨visiting, frames, .expand id (.done (.error e))⟩ =>
    some ⟨r.abandon visiting id, frames, .fault e⟩
  | ⟨visiting, f :: frames, .answer b⟩ => some ⟨visiting, frames, .expand f.id (f.next b)⟩
  | ⟨visiting, f :: frames, .fault e⟩ => some ⟨r.abandon visiting f.id, frames, .fault e⟩
  | ⟨_, [], .answer _⟩ => none
  | ⟨_, [], .fault _⟩ => none

/-- Whether one moment follows another one. -/
def Step (r : Recursion δ β) (script : String → δ → Part δ β) (s s' : State δ β) : Prop :=
  r.next? script s = some s'

/-- Whether the recursion comes from one moment to another one. -/
abbrev Reaches (r : Recursion δ β) (script : String → δ → Part δ β) :
    State δ β → State δ β → Prop :=
  Relation.ReflTransGen (r.Step script)

/-- A call from outside. -/
def start (id : String) (d : δ) : State δ β := ⟨∅, [], .call id d⟩

variable {r : Recursion δ β} {script : String → δ → Part δ β}

/-! ### Calls that wait -/

namespace State

/-- The ids that are being expanded, the last one first. -/
def expanding (s : State δ β) : List String :=
  match s.control with
  | .expand id _ => id :: s.frames.map Frame.id
  | _ => s.frames.map Frame.id

/-- The chain of nested calls, the last one first. -/
def calls (s : State δ β) : List String :=
  match s.control with
  | .expand id _ => id :: s.frames.map Frame.id
  | .call id _ => id :: s.frames.map Frame.id
  | _ => s.frames.map Frame.id

end State

/-- Whether scripts perform the operations, and make calls only of ids that feed the caller. -/
structure Performs (r : Recursion δ β) (feeds : String → String → Prop)
    (script : String → δ → Part δ β) : Prop where
  run : ∀ {id operation}, r.operation? id = some operation → ∀ d answers,
    operation d answers = (script id d).run answers
  all : ∀ {id operation}, r.operation? id = some operation → ∀ d,
    (script id d).All fun c => feeds c.1 id

/-- What holds at every moment: the ids that are being expanded are distinct and make up the shared
set, every call feeds the one that made it, and so does what is still to be called. -/
structure Sound (r : Recursion δ β) (feeds : String → String → Prop) (s : State δ β) : Prop where
  nodup : s.expanding.Nodup
  entered : ∀ id ∈ s.expanding, (r.operation? id).isSome = true
  visiting : (∀ e, s.control ≠ .fault e) → s.visiting = s.expanding.toFinset
  calls : s.calls.IsChain feeds
  waiting : ∀ f ∈ s.frames, ∀ b, (f.next b).All fun c => feeds c.1 f.id
  rest : ∀ id rest, s.control = .expand id rest → rest.All fun c => feeds c.1 id

namespace Sound

variable {feeds : String → String → Prop} {s s' : State δ β}

theorem start (r : Recursion δ β) (feeds : String → String → Prop) (id : String) (d : δ) :
  r.Sound feeds (start id d)
  where
  nodup := .nil
  entered := by simp [Recursion.start, State.expanding]
  visiting _ := rfl
  calls := .singleton id
  waiting := by simp [Recursion.start]
  rest := by simp [Recursion.start]

section Steps

variable {visiting : Finset String} {frames : List (Frame δ β)}

/-- A call enters only an id that is not being expanded. -/
theorem call {id : String} {d : δ} (h : r.Sound feeds ⟨visiting, frames, .call id d⟩)
    (hp : r.Performs feeds script) (hs : r.Step script ⟨visiting, frames, .call id d⟩ s') :
  r.Sound feeds s'
  := by
  have hvisiting : visiting = (frames.map Frame.id).toFinset := h.visiting (by simp)
  rw [Step, next?] at hs
  split at hs
  next henter =>
    obtain rfl := Option.some.inj hs
    obtain ⟨hfresh, hsome⟩ := henter
    obtain ⟨operation, hoperation⟩ := Option.isSome_iff_exists.mp hsome
    rw [hvisiting, List.mem_toFinset] at hfresh
    constructor
    · exact List.nodup_cons.mpr ⟨hfresh, h.nodup⟩
    · exact List.forall_mem_cons.mpr ⟨hsome, h.entered⟩
    · intro _
      simp [State.expanding, hvisiting]
    · exact h.calls
    · exact h.waiting
    · rintro _ _ ⟨⟩
      apply hp.all hoperation
  next =>
    obtain rfl := Option.some.inj hs
    exact ⟨h.nodup, h.entered, fun _ => hvisiting, h.calls.tail, h.waiting, by simp⟩

/-- An operation calls what feeds its id. -/
theorem ask {id : String} {c : String × δ} {next : β → Part δ β}
    (h : r.Sound feeds ⟨visiting, frames, .expand id (.ask c next)⟩) :
  r.Sound feeds ⟨visiting, ⟨id, next⟩ :: frames, .call c.1 c.2⟩
  := by
  have hall := h.rest id _ rfl
  constructor
  · exact h.nodup
  · exact h.entered
  · intro _
    exact h.visiting (by simp)
  · exact .cons_cons hall.1 h.calls
  · exact List.forall_mem_cons.mpr ⟨hall.2, h.waiting⟩
  · simp

/-- An operation that is done takes its id out of the set, in which it is once. -/
theorem done {id : String} {b : β}
    (h : r.Sound feeds ⟨visiting, frames, .expand id (.done (.ok b))⟩) :
  r.Sound feeds ⟨visiting.erase id, frames, .answer b⟩
  := by
  have hnodup := List.nodup_cons.mp h.nodup
  have hvisiting : visiting = (id :: frames.map Frame.id).toFinset := h.visiting (by simp)
  constructor
  · exact hnodup.2
  · exact (List.forall_mem_cons.mp h.entered).2
  · intro _
    have hfresh : id ∉ (frames.map Frame.id).toFinset := by simpa using hnodup.1
    rw [hvisiting, List.toFinset_cons, Finset.erase_insert hfresh]
    rfl
  · exact h.calls.tail
  · exact h.waiting
  · simp

theorem resume {f : Frame δ β} {b : β} (h : r.Sound feeds ⟨visiting, f :: frames, .answer b⟩) :
  r.Sound feeds ⟨visiting, frames, .expand f.id (f.next b)⟩
  := by
  obtain ⟨hwaiting, hothers⟩ := List.forall_mem_cons.mp h.waiting
  refine ⟨h.nodup, h.entered, fun _ => h.visiting (by simp), h.calls, hothers, ?_⟩
  rintro _ _ ⟨⟩
  apply hwaiting

/-- A fault leaves an operation, whatever becomes of the set. -/
theorem abandon {id : String} {frames' : List (Frame δ β)} {control : Control δ β}
    (h : r.Sound feeds ⟨visiting, frames', control⟩)
    (hexpanding : State.expanding ⟨visiting, frames', control⟩ = id :: frames.map Frame.id)
    (hcalls : State.calls ⟨visiting, frames', control⟩ = id :: frames.map Frame.id)
    (hframes : frames ⊆ frames') (visiting' : Finset String) (e : Fault) :
  r.Sound feeds ⟨visiting', frames, .fault e⟩
  := by
  have hnodup := h.nodup
  have hentered := h.entered
  have hchain := h.calls
  rw [hexpanding] at hnodup hentered
  rw [hcalls] at hchain
  exact ⟨(List.nodup_cons.mp hnodup).2, (List.forall_mem_cons.mp hentered).2,
    fun hne => (hne e rfl).elim, hchain.tail, fun f hf => h.waiting f (hframes hf), by simp⟩

end Steps

/-- Every step keeps what holds. -/
theorem step (h : r.Sound feeds s) (hp : r.Performs feeds script) (hs : r.Step script s s') :
  r.Sound feeds s'
  := by
  obtain ⟨visiting, frames, control⟩ := s
  cases control with
  | call id d => exact h.call hp hs
  | expand id rest =>
    cases rest with
    | ask c next =>
      obtain rfl := Option.some.inj hs
      exact h.ask
    | done result =>
      cases result with
      | ok b =>
        obtain rfl := Option.some.inj hs
        exact h.done
      | error e =>
        obtain rfl := Option.some.inj hs
        exact h.abandon rfl rfl (List.Subset.refl frames) _ e
  | answer b =>
    cases frames with
    | nil => cases hs
    | cons f frames =>
      obtain rfl := Option.some.inj hs
      exact h.resume
  | fault e =>
    cases frames with
    | nil => cases hs
    | cons f frames =>
      obtain rfl := Option.some.inj hs
      exact h.abandon rfl rfl (List.subset_cons_self f frames) _ e

/-- What holds at the start holds at every moment. -/
theorem of_reaches (h : r.Sound feeds s) (hp : r.Performs feeds script)
    (hs : r.Reaches script s s') :
  r.Sound feeds s'
  := by
  induction hs with
  | refl => exact h
  | tail _ hstep ih => apply ih.step hp hstep

end Sound

/-! ### Calls that end -/

/-- Whether results are computed by the operations, from the results of the ids that are left. -/
structure Computes (r : Recursion δ β)
    (evaluate : List String → String → δ → Except Fault β) : Prop where
  entered : ∀ {fresh id d operation}, id ∈ fresh → r.operation? id = some operation →
    evaluate fresh id d = operation d fun c => evaluate (Walk.without fresh id) c.1 c.2
  blank : ∀ {fresh id d}, r.operation? id = none → evaluate fresh id d = .ok (r.closed d)
  closed : ∀ {fresh id d}, id ∉ fresh → evaluate fresh id d = .ok (r.closed d)

/-- Whether the recursion comes from a moment to the end of a call: with the calls that wait as
they are, to an answer with the shared set as it is, or to a fault, after which the set is as it
is if failing operations take their ids out. -/
def Ends (r : Recursion δ β) (script : String → δ → Part δ β) (s : State δ β)
    (visiting : Finset String) (frames : List (Frame δ β)) : Except Fault β → Prop
  | .ok b => r.Reaches script s ⟨visiting, frames, .answer b⟩
  | .error e => ∃ visiting', r.Reaches script s ⟨visiting', frames, .fault e⟩
    ∧ (r.restores = true → visiting' = visiting)

theorem Ends.of_reaches {s s' : State δ β} {visiting : Finset String}
    {frames : List (Frame δ β)} {outcome : Except Fault β} (hs : r.Reaches script s s')
    (h : r.Ends script s' visiting frames outcome) :
  r.Ends script s visiting frames outcome
  := by
  cases outcome with
  | ok b => exact Relation.ReflTransGen.trans hs h
  | error e =>
    obtain ⟨visiting', hreaches, hrestores⟩ := h
    exact ⟨visiting', hs.trans hreaches, hrestores⟩

/-- A script ends if all of its calls do: with the id taken out of the shared set. -/
theorem ends_expand {visiting : Finset String} {id : String} {frames : List (Frame δ β)}
    {answers : Answers (String × δ) β}
    (hcalls : ∀ c frames, r.Ends script ⟨visiting, frames, .call c.1 c.2⟩ visiting frames
      (answers c)) (rest : Part δ β) :
  r.Ends script ⟨visiting, frames, .expand id rest⟩ (visiting.erase id) frames (rest.run answers)
  := by
  induction rest with
  | done result =>
    cases result with
    | ok b => exact .single rfl
    | error e =>
      use r.abandon visiting id
      constructor
      · exact .single rfl
      · intro hrestores
        rw [abandon, if_pos hrestores]
  | ask c next ih =>
    have hask : r.Step script ⟨visiting, frames, .expand id (.ask c next)⟩
        ⟨visiting, ⟨id, next⟩ :: frames, .call c.1 c.2⟩ := rfl
    have hcall := hcalls c (⟨id, next⟩ :: frames)
    apply Ends.of_reaches (.single hask)
    rw [Script.run]
    cases hanswer : answers c with
    | ok b =>
      rw [hanswer] at hcall
      have hresume : r.Step script ⟨visiting, ⟨id, next⟩ :: frames, .answer b⟩
          ⟨visiting, frames, .expand id (next b)⟩ := rfl
      apply Ends.of_reaches (Relation.ReflTransGen.tail hcall hresume)
      apply ih
    | error e =>
      rw [hanswer] at hcall
      obtain ⟨visiting', hreaches, hrestores⟩ := hcall
      use r.abandon visiting' id
      constructor
      · exact hreaches.tail rfl
      · intro hr
        rw [abandon, if_pos hr, hrestores hr]

/-- The ids that are left. -/
def remaining (ids : List String) (visiting : Finset String) : List String :=
  ids.filter (· ∉ visiting)

theorem without_remaining (ids : List String) (visiting : Finset String) (id : String) :
  Walk.without (remaining ids visiting) id = remaining ids (insert id visiting)
  := by
  rw [Walk.without, remaining, remaining, List.filter_filter]
  apply List.filter_congr
  intro other _
  simp

variable {evaluate : List String → String → δ → Except Fault β} {ids : List String}
  {feeds : String → String → Prop}

/-- A call ends with the shared set as it was, and with the result that the walk with the remaining
ids computes. -/
theorem ends (hc : r.Computes evaluate) (hp : r.Performs feeds script)
    (hids : ∀ id, (r.operation? id).isSome = true → id ∈ ids) (visiting : Finset String)
    (frames : List (Frame δ β)) (id : String) (d : δ) :
  r.Ends script ⟨visiting, frames, .call id d⟩ visiting frames
    (evaluate (remaining ids visiting) id d)
  := by
  generalize hfresh : remaining ids visiting = fresh
  induction fresh, id using Graph.walk_induction generalizing visiting frames d with
  | step fresh id ih =>
    by_cases henter : id ∉ visiting ∧ (r.operation? id).isSome = true
    · obtain ⟨operation, hoperation⟩ := Option.isSome_iff_exists.mp henter.2
      have hmem : id ∈ fresh := by
        rw [← hfresh, remaining, List.mem_filter]
        exact ⟨hids id henter.2, by simpa using henter.1⟩
      have hstep : r.Step script ⟨visiting, frames, .call id d⟩
          ⟨insert id visiting, frames, .expand id (script id d)⟩ := if_pos henter
      apply Ends.of_reaches (.single hstep)
      rw [hc.entered hmem hoperation, hp.run hoperation]
      have hends : r.Ends script ⟨insert id visiting, frames, .expand id (script id d)⟩
          ((insert id visiting).erase id) frames
          ((script id d).run fun c => evaluate (Walk.without fresh id) c.1 c.2) := by
        apply ends_expand
        intro c frames
        apply ih hmem
        rw [← without_remaining, hfresh]
      rwa [Finset.erase_insert henter.1] at hends
    · have hclosed : evaluate fresh id d = .ok (r.closed d) := by
        rcases Classical.not_and_iff_not_or_not.mp henter with hvisited | hnone
        · apply hc.closed
          rw [← hfresh, remaining, List.mem_filter]
          simp [Classical.not_not.mp hvisited]
        · apply hc.blank
          simpa using hnone
      rw [hclosed]
      exact .single (if_neg henter)

/-- A run that comes to an end is the only one. -/
theorem acc_of_reaches {s s' : State δ β} (h : r.Reaches script s s')
    (hend : r.next? script s' = none) :
  Acc (fun later s => r.Step script s later) s
  := by
  induction h using Relation.ReflTransGen.head_induction_on with
  | refl =>
    constructor
    intro later hstep
    cases hend.symm.trans hstep
  | head hstep _ ih =>
    constructor
    intro later hstep'
    obtain rfl := Option.some.inj (hstep.symm.trans hstep')
    exact ih

/-- A call from outside has no infinite run. -/
theorem halts (hc : r.Computes evaluate) (hp : r.Performs feeds script)
    (hids : ∀ id, (r.operation? id).isSome = true → id ∈ ids) (visiting : Finset String)
    (id : String) (d : δ) :
  Acc (fun later s => r.Step script s later) ⟨visiting, [], .call id d⟩
  := by
  have hends := ends hc hp hids visiting [] id d
  cases houtcome : evaluate (remaining ids visiting) id d with
  | ok b =>
    rw [houtcome] at hends
    exact acc_of_reaches hends rfl
  | error e =>
    rw [houtcome] at hends
    obtain ⟨visiting', hreaches, -⟩ := hends
    exact acc_of_reaches hreaches rfl

/-! ### Calls without cycles -/

/-- The result of an id depends only on which of the ids above are left, and on the operations of
these. -/
theorem evaluate_congr {r' : Recursion δ β}
    {evaluate' : List String → String → δ → Except Fault β} (hc : r.Computes evaluate)
    (hc' : r'.Computes evaluate') (hclosed : r.closed = r'.closed)
    (hscripted : ∀ id operation, r.operation? id = some operation → ∀ d,
      Scripted (fun c => feeds c.1 id) (operation d))
    (fresh fresh' : List String) (id : String) (d : δ)
    (hsame : ∀ other, Relation.ReflTransGen feeds other id →
      (other ∈ fresh ↔ other ∈ fresh')
        ∧ (other ∈ fresh → r.operation? other = r'.operation? other)) :
  evaluate fresh id d = evaluate' fresh' id d
  := by
  induction fresh, id using Graph.walk_induction generalizing fresh' d with
  | step fresh id ih =>
    obtain ⟨hfresh, hoperation⟩ := hsame id .refl
    by_cases hmem : id ∈ fresh
    · have hoperation := hoperation hmem
      cases hsome : r.operation? id with
      | none => rw [hc.blank hsome, hc'.blank (hoperation.symm.trans hsome), hclosed]
      | some operation =>
        rw [hc.entered hmem hsome,
          hc'.entered (hfresh.mp hmem) (hoperation.symm.trans hsome)]
        apply (hscripted id operation hsome d).congr
        intro c hfeeds
        apply ih hmem
        intro other hother
        obtain ⟨hleft, hat⟩ := hsame other (hother.tail hfeeds)
        rw [Walk.mem_without, Walk.mem_without, hleft]
        exact ⟨Iff.rfl, fun hother => hat (hleft.mpr hother.1)⟩
    · rw [hc.closed hmem, hc'.closed fun hmem' => hmem (hfresh.mpr hmem'), hclosed]

/-- Without cycles, none of the ids above a call is being expanded. -/
theorem Sound.not_mem_visiting {s : State δ β} (h : r.Sound feeds s)
    (hacyclic : ∀ id, ¬ Relation.TransGen feeds id id) {id : String} {d : δ}
    (hcall : s.control = .call id d) {other : String}
    (hother : Relation.ReflTransGen feeds other id) :
  other ∉ s.visiting
  := by
  obtain ⟨visiting, frames, control⟩ := s
  obtain rfl : control = .call id d := hcall
  have hcalls : (id :: frames.map Frame.id).IsChain (Relation.TransGen feeds) :=
    h.calls.imp fun _ _ => .single
  rw [h.visiting (by simp), List.mem_toFinset]
  intro hmem
  apply hacyclic other
  apply Relation.TransGen.trans_right hother
  apply List.rel_of_pairwise_cons (List.isChain_iff_pairwise.mp hcalls) hmem

/-- Without cycles, a call in the middle of a walk ends with the result of a walk that starts with
the call. -/
theorem ends_of_acyclic (hc : r.Computes evaluate) (hp : r.Performs feeds script)
    (hids : ∀ id, (r.operation? id).isSome = true → id ∈ ids)
    (hacyclic : ∀ id, ¬ Relation.TransGen feeds id id) {root id : String} {d d' : δ}
    {visiting : Finset String} {frames : List (Frame δ β)}
    (h : r.Reaches script (start root d) ⟨visiting, frames, .call id d'⟩) :
  r.Ends script ⟨visiting, frames, .call id d'⟩ visiting frames (evaluate ids id d')
  := by
  have hsound := (Sound.start r feeds root d).of_reaches hp h
  have hscripted : ∀ id operation, r.operation? id = some operation → ∀ d,
      Scripted (fun c => feeds c.1 id) (operation d) :=
    fun id operation hoperation d => ⟨script id d, hp.all hoperation d, hp.run hoperation d⟩
  rw [← evaluate_congr hc hc rfl hscripted (remaining ids visiting)]
  · apply ends hc hp hids
  · intro other hother
    refine ⟨?_, fun _ => rfl⟩
    rw [remaining, List.mem_filter, and_iff_left_iff_imp]
    intro _
    simpa using hsound.not_mem_visiting hacyclic rfl hother

/-! ### Guards -/

/-- What the shared set guarantees, for all scripts of the operations: the recursion comes to an
end, the ids that are being expanded are distinct, and a call ends with the set as it was; without
cycles it ends with the result of a walk that starts with the call. -/
structure Guarded (r : Recursion δ β) (feeds : String → String → Prop) (ids : List String)
    (evaluate : List String → String → δ → Except Fault β) : Prop where
  scripts : ∃ script, r.Performs feeds script
  halts : ∀ script, r.Performs feeds script → ∀ visiting id d,
    Acc (fun later s => r.Step script s later) ⟨visiting, [], .call id d⟩
  distinct : ∀ script, r.Performs feeds script → ∀ id d s,
    r.Reaches script (start id d) s → s.expanding.Nodup ∧ ∀ id ∈ s.expanding, id ∈ ids
  ends : ∀ script, r.Performs feeds script → ∀ visiting frames id d,
    r.Ends script ⟨visiting, frames, .call id d⟩ visiting frames
      (evaluate (remaining ids visiting) id d)
  alone : (∀ id, ¬ Relation.TransGen feeds id id) → ∀ script, r.Performs feeds script →
    ∀ root d visiting frames id d',
      r.Reaches script (start root d) ⟨visiting, frames, .call id d'⟩ →
        r.Ends script ⟨visiting, frames, .call id d'⟩ visiting frames (evaluate ids id d')

/-- A recursion whose operations have scripts is guarded. -/
theorem guarded (hc : r.Computes evaluate)
    (hids : ∀ id, (r.operation? id).isSome = true → id ∈ ids)
    (hscripted : ∀ id operation, r.operation? id = some operation → ∀ d,
      Scripted (fun c => feeds c.1 id) (operation d)) :
  r.Guarded feeds ids evaluate
  where
  scripts := by
    have hscripts : ∀ id d, ∃ s : Part δ β, ∀ operation, r.operation? id = some operation →
        s.All (fun c => feeds c.1 id) ∧ ∀ answers, operation d answers = s.run answers := by
      intro id d
      cases hoperation : r.operation? id with
      | none => exact ⟨.done (.ok (r.closed d)), by simp⟩
      | some operation =>
        obtain ⟨s, hs⟩ := hscripted id operation hoperation d
        exact ⟨s, by rintro _ ⟨⟩; exact hs⟩
    choose script hscript using hscripts
    use script
    constructor
    · intro id operation hoperation d
      apply (hscript id d operation hoperation).2
    · intro id operation hoperation d
      apply (hscript id d operation hoperation).1
  halts script hp := Recursion.halts hc hp hids
  distinct script hp id d s hs := by
    have hsound := (Sound.start r feeds id d).of_reaches hp hs
    exact ⟨hsound.nodup, fun id hid => hids id (hsound.entered id hid)⟩
  ends script hp := Recursion.ends hc hp hids
  alone hacyclic script hp root d visiting frames id d' := ends_of_acyclic hc hp hids hacyclic

end Recursion

end AssetCanvas
