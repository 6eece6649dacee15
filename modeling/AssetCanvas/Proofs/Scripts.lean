import AssetCanvas.Proofs.Requests

/-!
# Scripts

A script is an operation with its requests spelled out one after the other: it is done, or it
makes a request and goes on with the answer.  An operation is `Requests.Scripted` if it is given
by a script, and then the script also tells which requests it can make.  Operations with scripts
are kept by composition, `Requests.Scripted.bind`, and depend only on the answers to the requests
that they can make, `Requests.Scripted.congr`.
-/

namespace AssetCanvas.Requests

variable {α β γ δ ρ : Type} {P : ρ → Prop}

/-- An operation with its requests spelled out. -/
inductive Script (ρ β α : Type) where
  | done (result : Except Fault α)
  | ask (request : ρ) (next : β → Script ρ β α)

namespace Script

/-- The result of a script with some answers. -/
def run (answers : Answers ρ β) : Script ρ β α → Except Fault α
  | done result => result
  | ask r next => do run answers (next (← answers r))

/-- Whether all requests that a script can make have a property. -/
def All (P : ρ → Prop) : Script ρ β α → Prop
  | done _ => True
  | ask r next => P r ∧ ∀ b, All P (next b)

/-- A script that goes on with another one. -/
def bind (s : Script ρ β α) (next : α → Script ρ β γ) : Script ρ β γ :=
  match s with
  | done (.ok a) => next a
  | done (.error e) => done (.error e)
  | ask r rest => ask r fun b => bind (rest b) next

theorem run_bind (answers : Answers ρ β) (s : Script ρ β α) (next : α → Script ρ β γ) :
  (s.bind next).run answers = s.run answers >>= fun a => (next a).run answers
  := by
  induction s with
  | done result => cases result <;> rfl
  | ask r rest ih =>
    rw [bind, run, run, bind_assoc]
    congr 1
    funext b
    apply ih

theorem All.bind {s : Script ρ β α} (h : s.All P) {next : α → Script ρ β γ}
    (hnext : ∀ a, (next a).All P) :
  (s.bind next).All P
  := by
  induction s with
  | done result =>
    cases result with
    | error e => trivial
    | ok a => apply hnext
  | ask r rest ih => exact ⟨h.1, fun b => ih b (h.2 b)⟩

theorem All.mono {Q : ρ → Prop} {s : Script ρ β α} (h : s.All P) (hPQ : ∀ r, P r → Q r) : s.All Q
  := by
  induction s with
  | done result => trivial
  | ask r rest ih => exact ⟨hPQ r h.1, fun b => ih b (h.2 b)⟩

/-- A script depends only on the answers to the requests that it can make. -/
theorem All.run_congr {s : Script ρ β α} (h : s.All P) {answers answers' : Answers ρ β}
    (hsame : ∀ r, P r → answers r = answers' r) :
  s.run answers = s.run answers'
  := by
  induction s with
  | done result => rfl
  | ask r rest ih =>
    rw [run, run, hsame r h.1]
    congr 1
    funext b
    apply ih b (h.2 b)

end Script

/-- Whether an operation is given by a script, all of whose requests have a property. -/
def Scripted (P : ρ → Prop) (operation : Answers ρ β → Except Fault α) : Prop :=
  ∃ s : Script ρ β α, s.All P ∧ ∀ answers, operation answers = s.run answers

namespace Scripted

variable {operation : Answers ρ β → Except Fault α}

/-- An operation without requests. -/
theorem read (x : Except Fault α) : Scripted P (fun _ : Answers ρ β => x)
  := ⟨.done x, trivial, fun _ => rfl⟩

theorem pure (a : α) : Scripted P (fun _ : Answers ρ β => (pure a : Except Fault α))
  := read _

/-- A single request. -/
theorem request {r : ρ} (h : P r) : Scripted P (fun answers : Answers ρ β => answers r)
  := by
  use .ask r fun b => .done (.ok b)
  constructor
  · exact ⟨h, fun _ => trivial⟩
  · intro answers
    exact (bind_pure (answers r)).symm

theorem bind {next : α → Answers ρ β → Except Fault γ} (h : Scripted P operation)
    (hnext : ∀ a, Scripted P (next a)) :
  Scripted P (fun answers => operation answers >>= fun a => next a answers)
  := by
  obtain ⟨s, hs, hrun⟩ := h
  choose script hall hscript using hnext
  use s.bind script
  constructor
  · apply hs.bind hall
  · intro answers
    simp only [Script.run_bind, hrun, hscript]

theorem map (h : Scripted P operation) (f : α → γ) :
  Scripted P (fun answers => operation answers >>= fun a => Pure.pure (f a))
  := h.bind fun a => pure (f a)

theorem mapM {f : δ → Answers ρ β → Except Fault α} {l : List δ}
    (h : ∀ d ∈ l, Scripted P (f d)) :
  Scripted P (fun answers => l.mapM fun d => f d answers)
  := by
  induction l with
  | nil => apply read
  | cons d rest ih =>
    simp only [List.mapM_cons]
    apply (h d (by simp)).bind
    intro a
    apply (ih fun d' hd' => h d' (by simp [hd'])).map

theorem foldlM {f : γ → δ → Answers ρ β → Except Fault γ} {l : List δ}
    (h : ∀ d ∈ l, ∀ c, Scripted P (f c d)) (c : γ) :
  Scripted P (fun answers => l.foldlM (fun c d => f c d answers) c)
  := by
  induction l generalizing c with
  | nil => apply read
  | cons d rest ih =>
    simp only [List.foldlM_cons]
    apply (h d (by simp) c).bind
    intro c'
    apply ih fun d' hd' => h d' (by simp [hd'])

theorem mono {Q : ρ → Prop} (h : Scripted P operation) (hPQ : ∀ r, P r → Q r) :
  Scripted Q operation
  := by
  obtain ⟨s, hs, hrun⟩ := h
  exact ⟨s, hs.mono hPQ, hrun⟩

/-- An operation depends only on the answers to the requests that it can make. -/
theorem congr (h : Scripted P operation) {answers answers' : Answers ρ β}
    (hsame : ∀ r, P r → answers r = answers' r) :
  operation answers = operation answers'
  := by
  obtain ⟨s, hs, hrun⟩ := h
  rw [hrun, hrun]
  apply hs.run_congr hsame

end Scripted

end AssetCanvas.Requests
