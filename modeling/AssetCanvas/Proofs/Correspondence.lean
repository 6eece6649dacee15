import AssetCanvas.Proofs.Requests

/-!
# Operations that follow others

An operation that is made again with other data makes requests that correspond to the ones it made
before.  An operation *follows* another one, `Requests.Follows`, if it succeeds where the other one
does, with a corresponding result, unless it has a flaw or is refused a request: it asks for an
answer that is a fault, while a corresponding request was answered.  Composition keeps the rule,
`Follows.bind`, since the parts may depend on corresponding results.
-/

namespace AssetCanvas.Requests

variable {α α' β γ γ' δ ρ : Type}

/-- Which requests correspond, and what their results have to fulfil. -/
structure Pairing (ρ β : Type) where
  /-- Whether two requests correspond. -/
  request : ρ → ρ → Prop
  /-- Whether the results of two requests correspond. -/
  answer : ρ → ρ → β → β → Prop

/-- Whether the results of corresponding requests correspond. -/
def Pairing.Agree (K : Pairing ρ β) (answers : Answers ρ β) : Prop :=
  ∀ r r', K.request r r' → ∀ b b', answers r = .ok b → answers r' = .ok b' → K.answer r r' b b'

/-- How an operation can go on where another one has succeeded. -/
inductive Follower (K : Pairing ρ β) (R : α' → Prop) (flaw : Prop)
    (operation : Answers ρ β → Except Fault α') (answers : Answers ρ β) : Prop
  /-- It has a result that corresponds, and keeps it with more answers. -/
  | result {a : α'} : R a → (∀ more, answers.Extend more → operation more = .ok a) →
    Follower K R flaw operation answers
  /-- It has a flaw. -/
  | flawed {e : Fault} : flaw → operation answers = .error e → Follower K R flaw operation answers
  /-- It is refused what the other one has got. -/
  | refused {r r' : ρ} {b : β} {e : Fault} : K.request r r' → answers r = .ok b →
    answers r' = .error e → Asks operation answers r' → Follower K R flaw operation answers

/-- Whether an operation follows another one: where that one has a result, it has a corresponding
one, or a flaw, or is refused a request that corresponds to one with a result. -/
def Follows (K : Pairing ρ β) (R : α → α' → Prop) (flaw : Prop)
    (first : Answers ρ β → Except Fault α) (second : Answers ρ β → Except Fault α') : Prop :=
  ∀ answers, K.Agree answers → ∀ a, first answers = .ok a →
    Follower K (R a) flaw second answers

/-- Whether two values are the result of an operation. -/
def Read (x : Except Fault α) (a a' : α) : Prop := x = .ok a ∧ a = a'

namespace Follows

variable {K : Pairing ρ β} {R : α → α' → Prop} {S : γ → γ' → Prop} {flaw : Prop}
  {first : Answers ρ β → Except Fault α} {second : Answers ρ β → Except Fault α'}

/-- Operations without requests. -/
theorem read {x : Except Fault α} {x' : Except Fault α'}
    (hresult : ∀ a a', x = .ok a → x' = .ok a' → R a a')
    (hflaw : ∀ a e, x = .ok a → x' = .error e → flaw) :
  Follows K R flaw (fun _ => x) (fun _ => x')
  := by
  intro answers _ a ha
  cases hx' : x' with
  | ok a' => exact .result (hresult a a' ha hx') fun _ _ => rfl
  | error e => exact .flawed (hflaw a e ha hx') rfl

/-- The same operation without requests has the same result. -/
theorem reread (x : Except Fault δ) : Follows K (Read x) flaw (fun _ => x) (fun _ => x)
  := by
  apply read
  · intro d d' hd hd'
    exact ⟨hd, Except.ok.inj (hd.symm.trans hd')⟩
  · intro d e hd he
    cases hd.symm.trans he

theorem pure {a : α} {a' : α'} (h : R a a') :
  Follows K R flaw (fun _ => (pure a : Except Fault α)) (fun _ => (pure a' : Except Fault α'))
  := by
  apply read
  · intro b b' hb hb'
    rwa [← Except.ok.inj hb, ← Except.ok.inj hb']
  · intro _ _ _ he
    cases he

theorem request {r r' : ρ} (h : K.request r r') :
  Follows K (K.answer r r') flaw (fun answers => answers r) (fun answers => answers r')
  := by
  intro answers hagree b hb
  cases hb' : answers r' with
  | ok b' => exact .result (hagree r r' h b b' hb hb') fun more hmore => hmore r' b' hb'
  | error e => exact .refused h hb hb' fun e' => by simp [Answers.refuse]

/-- Corresponding parts go on with corresponding results. -/
theorem bind {next : α → Answers ρ β → Except Fault γ} {next' : α' → Answers ρ β → Except Fault γ'}
    (h : Follows K R flaw first second)
    (hnext : ∀ a a', R a a' → Follows K S flaw (next a) (next' a')) :
  Follows K S flaw (fun answers => first answers >>= fun a => next a answers)
    (fun answers => second answers >>= fun a => next' a answers)
  := by
  intro answers hagree c hc
  obtain ⟨a, ha, hc⟩ := Fault.bind_eq_ok_iff.mp hc
  rcases h answers hagree a ha with ⟨hR, hresult⟩ | ⟨hflaw, he⟩ | ⟨hr, hb, he, hasks⟩
  · have hsecond := hresult answers fun _ _ => id
    rcases hnext a _ hR answers hagree c hc with
      ⟨hS, hresult'⟩ | ⟨hflaw, he⟩ | ⟨hr, hb, he, hasks⟩
    · apply Follower.result hS
      intro more hmore
      rw [hresult more hmore, Fault.ok_bind, hresult' more hmore]
    · apply Follower.flawed hflaw
      rw [hsecond, Fault.ok_bind, he]
    · apply Follower.refused hr hb he
      -- the first part has its result without the answer, which is a fault
      intro e'
      simp only [hresult _ (Answers.extend_refuse he e'), Fault.ok_bind, hasks e']
  · apply Follower.flawed hflaw
    rw [he, Fault.error_bind]
  · apply Follower.refused hr hb he
    intro e'
    simp only [hasks e', Fault.error_bind]

theorem map (h : Follows K R flaw first second) {f : α → γ} {f' : α' → γ'}
    (hf : ∀ a a', R a a' → S (f a) (f' a')) :
  Follows K S flaw (fun answers => first answers >>= fun a => Pure.pure (f a))
    (fun answers => second answers >>= fun a => Pure.pure (f' a))
  := h.bind fun a a' ha => pure (hf a a' ha)

theorem mapM {f : δ → Answers ρ β → Except Fault α} {f' : δ → Answers ρ β → Except Fault α'}
    {l : List δ} (h : ∀ d ∈ l, Follows K R flaw (f d) (f' d)) :
  Follows K (List.Forall₂ R) flaw (fun answers => l.mapM fun d => f d answers)
    (fun answers => l.mapM fun d => f' d answers)
  := by
  induction l with
  | nil =>
    simp only [List.mapM_nil]
    exact pure .nil
  | cons d rest ih =>
    simp only [List.mapM_cons]
    apply (h d (by simp)).bind
    intro a a' ha
    apply (ih fun d' hd' => h d' (by simp [hd'])).map
    intro as as' has
    exact .cons ha has

/-- The results that correspond are results of the operation. -/
theorem attained (h : Follows K R flaw first second) :
  Follows K (fun a a' => R a a' ∧ ∃ answers, first answers = .ok a) flaw first second
  := by
  intro answers hagree a ha
  rcases h answers hagree a ha with ⟨hresult, hmore⟩ | ⟨hflaw, he⟩ | ⟨hr, hb, he, hasks⟩
  · exact .result ⟨hresult, answers, ha⟩ hmore
  · exact .flawed hflaw he
  · exact .refused hr hb he hasks

theorem mono {R' : α → α' → Prop} (h : Follows K R flaw first second)
    (hR : ∀ a a', R a a' → R' a a') :
  Follows K R' flaw first second
  := by
  intro answers hagree a ha
  rcases h answers hagree a ha with ⟨hresult, hmore⟩ | ⟨hflaw, he⟩ | ⟨hr, hb, he, hasks⟩
  · exact .result (hR _ _ hresult) hmore
  · exact .flawed hflaw he
  · exact .refused hr hb he hasks

end Follows

end AssetCanvas.Requests
