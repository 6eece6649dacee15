import AssetCanvas.Proofs.Fault

/-!
# Operations that make requests

An operation may depend on the results of others.  It makes requests, and every request is
answered with a result or with a fault.  The operation *asks* for the answer to a request,
`Requests.Asks`, if any fault of that answer is its own.  What else it fails for is a flaw of
its own: `Requests.FailsIf` is the rule that the operation fails exactly if it asks for an answer
that is a fault, or has the flaw, which is then a number that is out of reach.

`Fault.FailsIf` is the rule for operations without requests.  Both rules are kept by the
composition of operations.
-/

namespace AssetCanvas

variable {α β γ ρ : Type}

/-! ### Numbers out of reach -/

namespace Fault

/-- The faults of a number without a float or without an integer. -/
def Numeric (e : Fault) : Prop := e = .outOfRange ∨ e = .unusableValue

/-- Whether an operation fails exactly under a condition, and then with a numeric fault. -/
inductive FailsIf : Except Fault α → Prop → Prop
  | ok {a : α} {P : Prop} : ¬ P → FailsIf (.ok a) P
  | error {e : Fault} {P : Prop} : P → e.Numeric → FailsIf (.error e) P

namespace FailsIf

theorem of_ok {x : Except Fault α} {a : α} (h : x = .ok a) : FailsIf x False
  := by
  rw [h]
  exact .ok id

theorem congr {x : Except Fault α} {P Q : Prop} (h : FailsIf x P) (hPQ : P ↔ Q) : FailsIf x Q
  := by
  rwa [← propext hPQ]

theorem fails_iff {x : Except Fault α} {P : Prop} (h : FailsIf x P) : (∃ e, x = .error e) ↔ P
  := by
  cases h with
  | ok hP => simp [hP]
  | error hP _ => simp [hP]

theorem succeeds_iff {x : Except Fault α} {P : Prop} (h : FailsIf x P) :
  (∃ a, x = .ok a) ↔ ¬ P
  := by
  cases h with
  | ok hP => simp [hP]
  | error hP _ => simp [hP]

theorem numeric {x : Except Fault α} {P : Prop} (h : FailsIf x P) {e : Fault}
    (he : x = .error e) :
  e.Numeric
  := by
  cases h with
  | ok _ => cases he
  | error _ hnumeric =>
    cases he
    exact hnumeric

/-- The second operation may depend on the result of the first one, and so may its condition. -/
theorem bind {x : Except Fault α} {f : α → Except Fault β} {P Q : Prop} (h : FailsIf x P)
    (hf : ∀ a, x = .ok a → FailsIf (f a) Q) :
  FailsIf (x >>= f) (P ∨ Q)
  := by
  cases h with
  | ok hP => exact (hf _ rfl).congr (by simp [hP])
  | error hP he => exact .error (.inl hP) he

theorem map {x : Except Fault α} {P : Prop} (h : FailsIf x P) (f : α → β) :
  FailsIf (x >>= fun a => pure (f a)) P
  := (h.bind fun _ _ => of_ok rfl).congr (iff_of_eq (or_false P))

theorem mapM {f : α → Except Fault β} {P : α → Prop} {l : List α}
    (h : ∀ a ∈ l, FailsIf (f a) (P a)) :
  FailsIf (l.mapM f) (∃ a ∈ l, P a)
  := by
  induction l with
  | nil => exact (of_ok rfl).congr (by simp)
  | cons a rest ih =>
    rw [List.mapM_cons]
    have hrest := ih fun a' ha' => h a' (by simp [ha'])
    apply ((h a (by simp)).bind fun b _ => hrest.map _).congr
    simp

end FailsIf

end Fault

/-! ### Requests -/

namespace Requests

/-- The answers to requests. -/
abbrev Answers (ρ β : Type) := ρ → Except Fault β

/-- Whether answers give every result that others give. -/
def Answers.Extend (answers answers' : Answers ρ β) : Prop :=
  ∀ r b, answers r = .ok b → answers' r = .ok b

open Classical in
/-- Answers with a fault in place of one of them. -/
noncomputable def Answers.refuse (answers : Answers ρ β) (r : ρ) (e : Fault) : Answers ρ β :=
  fun r' => if r' = r then .error e else answers r'

/-- A refused request that failed before takes no result away. -/
theorem Answers.extend_refuse {answers : Answers ρ β} {r : ρ} {e : Fault}
    (h : answers r = .error e) (e' : Fault) :
  answers.Extend (answers.refuse r e')
  := by
  intro r' b hb
  rw [refuse, if_neg, hb]
  rintro rfl
  rw [h] at hb
  cases hb

theorem Answers.refuse_self {answers : Answers ρ β} {r : ρ} {e : Fault}
    (h : answers r = .error e) :
  answers.refuse r e = answers
  := by
  funext r'
  rw [refuse]
  split
  · next heq => rw [heq, h]
  · rfl

/-- Whether an operation asks for the answer to a request: any fault of the answer is the fault of
the operation. -/
def Asks (operation : Answers ρ β → Except Fault α) (answers : Answers ρ β) (r : ρ) : Prop :=
  ∀ e, operation (answers.refuse r e) = .error e

theorem Asks.eq_error {operation : Answers ρ β → Except Fault α} {answers : Answers ρ β} {r : ρ}
    (h : Asks operation answers r) {e : Fault} (he : answers r = .error e) :
  operation answers = .error e
  := by
  have hfault := h e
  rwa [Answers.refuse_self he] at hfault

/-- Whether an operation fails exactly if it asks for an answer that is a fault, or under a
condition of its own, and then with a numeric fault. -/
structure FailsIf (operation : Answers ρ β → Except Fault α) (P : Prop) : Prop where
  /-- More results change no result. -/
  mono : ∀ {answers answers' a}, answers.Extend answers' → operation answers = .ok a →
    operation answers' = .ok a
  /-- No answers make up for the flaw. -/
  flawed : P → ∀ answers a, operation answers ≠ .ok a
  cause : ∀ {answers e}, operation answers = .error e →
    (∃ r, Asks operation answers r ∧ answers r = .error e) ∨ P ∧ e.Numeric

namespace FailsIf

variable {operation : Answers ρ β → Except Fault α} {P Q : Prop}

/-- With answers that fail under conditions of theirs, the operation fails exactly if it asks for
one that fails, or under its own condition. -/
theorem run (h : FailsIf operation P) {answers : Answers ρ β} {R : ρ → Prop}
    (hanswers : ∀ r, Fault.FailsIf (answers r) (R r)) :
  Fault.FailsIf (operation answers) ((∃ r, Asks operation answers r ∧ R r) ∨ P)
  := by
  cases hresult : operation answers with
  | ok a =>
    apply Fault.FailsIf.ok
    rintro (⟨r, hasks, hr⟩ | hP)
    · obtain ⟨e, he⟩ := (hanswers r).fails_iff.mpr hr
      cases (hasks.eq_error he).symm.trans hresult
    · exact h.flawed hP answers a hresult
  | error e =>
    rcases h.cause hresult with ⟨r, hasks, he⟩ | ⟨hP, hnumeric⟩
    · have hr := (hanswers r).fails_iff.mp ⟨e, he⟩
      exact .error (.inl ⟨r, hasks, hr⟩) ((hanswers r).numeric he)
    · exact .error (.inr hP) hnumeric

theorem congr (h : FailsIf operation P) (hPQ : P ↔ Q) : FailsIf operation Q
  := by
  rwa [← propext hPQ]

/-- A single request has no flaw of its own. -/
theorem request (r : ρ) : FailsIf (fun answers : Answers ρ β => answers r) False
  where
  mono hextend h := hextend r _ h
  flawed := False.elim
  cause {answers e} h := by
    left
    use r
    constructor
    · intro e'
      simp [Answers.refuse]
    · exact h

/-- An operation without requests. -/
theorem read {x : Except Fault α} (h : Fault.FailsIf x P) :
  FailsIf (fun _ : Answers ρ β => x) P
  where
  mono _ hx := hx
  flawed hP answers a hx := by
    obtain ⟨e, he⟩ := h.fails_iff.mpr hP
    cases hx.symm.trans he
  cause {answers e} he := .inr ⟨h.fails_iff.mp ⟨e, he⟩, h.numeric he⟩

theorem pure (a : α) : FailsIf (fun _ : Answers ρ β => (pure a : Except Fault α)) False
  := read (.of_ok rfl)

/-- A composition asks for what its first part asks for; if that succeeds, also for what its second
part asks for. -/
theorem bind {next : α → Answers ρ β → Except Fault γ} (h : FailsIf operation P)
    (hnext : ∀ a, FailsIf (next a) Q) :
  FailsIf (fun answers => operation answers >>= fun a => next a answers) (P ∨ Q)
  where
  mono {answers answers' c} hextend hresult := by
    obtain ⟨a, ha, hc⟩ := Fault.bind_eq_ok_iff.mp hresult
    rw [h.mono hextend ha, Fault.ok_bind, (hnext a).mono hextend hc]
  flawed hPQ answers c hresult := by
    obtain ⟨a, ha, hc⟩ := Fault.bind_eq_ok_iff.mp hresult
    rcases hPQ with hP | hQ
    · exact h.flawed hP answers a ha
    · exact (hnext a).flawed hQ answers c hc
  cause {answers e} hresult := by
    rcases Fault.bind_eq_error_iff.mp hresult with he | ⟨a, ha, he⟩
    · rcases h.cause he with ⟨r, hasks, hr⟩ | ⟨hP, hnumeric⟩
      · left
        use r
        constructor
        · intro e'
          simp only [hasks e', Fault.error_bind]
        · exact hr
      · exact .inr ⟨.inl hP, hnumeric⟩
    · rcases (hnext a).cause he with ⟨r, hasks, hr⟩ | ⟨hQ, hnumeric⟩
      · left
        use r
        constructor
        · -- the first part has its result without the answer, which is a fault
          intro e'
          simp only [h.mono (Answers.extend_refuse hr e') ha, Fault.ok_bind, hasks e']
        · exact hr
      · exact .inr ⟨.inr hQ, hnumeric⟩

/-- A first part without requests gives a result on which the condition of the second one may
depend. -/
theorem after {x : Except Fault α} {next : α → Answers ρ β → Except Fault γ}
    (h : Fault.FailsIf x P) (hnext : ∀ a, x = .ok a → FailsIf (next a) Q) :
  FailsIf (fun answers => x >>= fun a => next a answers) (P ∨ Q)
  := by
  cases h with
  | ok hP => exact (hnext _ rfl).congr (by simp [hP])
  | error hP he => exact read (.error (.inl hP) he)

theorem map (h : FailsIf operation P) (f : α → γ) :
  FailsIf (fun answers => operation answers >>= fun a => Pure.pure (f a)) P
  := (h.bind fun a => pure (f a)).congr (iff_of_eq (or_false P))

theorem mapM {δ : Type} {f : δ → Answers ρ β → Except Fault α} {P : δ → Prop} {l : List δ}
    (h : ∀ d ∈ l, FailsIf (f d) (P d)) :
  FailsIf (fun answers => l.mapM fun d => f d answers) (∃ d ∈ l, P d)
  := by
  induction l with
  | nil =>
    simp only [List.mapM_nil]
    exact (pure _).congr (by simp)
  | cons d rest ih =>
    simp only [List.mapM_cons]
    have hrest := ih fun d' hd' => h d' (by simp [hd'])
    apply ((h d (by simp)).bind fun a => hrest.map _).congr
    simp

end FailsIf

end Requests

end AssetCanvas
