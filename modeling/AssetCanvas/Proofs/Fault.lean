import AssetCanvas.Fault
import Mathlib.Data.List.Forall2

/-!
# Operations with faults

How operations that may be faulty are composed: a composition succeeds if its parts do, and an
operation on every item of a list succeeds if it succeeds on each of them.
-/

namespace AssetCanvas.Fault

variable {α β γ : Type}

@[simp] theorem ok_bind (a : α) (f : α → Except Fault β) : (Except.ok a >>= f) = f a := rfl

@[simp] theorem error_bind (e : Fault) (f : α → Except Fault β) :
  (Except.error e >>= f) = .error e
  := rfl

@[simp] theorem pure_eq_ok (a : α) : (pure a : Except Fault α) = .ok a := rfl

@[simp] theorem throw_eq_error (e : Fault) : (throw e : Except Fault α) = .error e := rfl

@[simp] theorem map_ok (f : α → β) (a : α) : f <$> (Except.ok a : Except Fault α) = .ok (f a)
  := rfl

theorem bind_eq_ok_iff {x : Except Fault α} {f : α → Except Fault β} {b : β} :
  (x >>= f) = .ok b ↔ ∃ a, x = .ok a ∧ f a = .ok b
  := by
  cases x with
  | error e => simp
  | ok a => simp

theorem bind_eq_error_iff {x : Except Fault α} {f : α → Except Fault β} {e : Fault} :
  (x >>= f) = .error e ↔ x = .error e ∨ ∃ a, x = .ok a ∧ f a = .error e
  := by
  cases x with
  | error e' => simp
  | ok a => simp

theorem ite_bind {c : Prop} [Decidable c] {x y : Except Fault α} {f : α → Except Fault β} :
  (if c then x >>= f else y >>= f) = (if c then x else y) >>= f
  := by
  split <;> rfl

/-- A composition with an operation that never fails succeeds exactly if its first part does. -/
theorem exists_bind_pure_iff {x : Except Fault α} {f : α → β} :
  (∃ b, (x >>= fun a => pure (f a)) = .ok b) ↔ ∃ a, x = .ok a
  := by
  cases x with
  | error e => simp
  | ok a => simp

/-- An operation on every item of a list succeeds with the list of what it gives. -/
theorem mapM_eq_ok_iff {f : α → Except Fault β} {l : List α} {l' : List β} :
  l.mapM f = .ok l' ↔ List.Forall₂ (fun a b => f a = .ok b) l l'
  := by
  induction l generalizing l' with
  | nil =>
    rw [List.mapM_nil, List.forall₂_nil_left_iff, pure_eq_ok, Except.ok.injEq]
    apply eq_comm
  | cons a rest ih =>
    rw [List.mapM_cons, bind_eq_ok_iff, List.forall₂_cons_left_iff]
    constructor
    · rintro ⟨b, hb, hrest⟩
      obtain ⟨rest', hrest', heq⟩ := bind_eq_ok_iff.mp hrest
      use b, rest', hb, ih.mp hrest'
      simpa using heq.symm
    · rintro ⟨b, rest', hb, hrest, rfl⟩
      use b, hb
      apply bind_eq_ok_iff.mpr
      use rest', ih.mpr hrest
      rfl

theorem mapM_congr {f f' : α → Except Fault β} {l : List α} (h : ∀ a ∈ l, f a = f' a) :
  l.mapM f = l.mapM f'
  := by
  induction l with
  | nil => rfl
  | cons a rest ih =>
    rw [List.mapM_cons, List.mapM_cons, h a (by simp), ih fun a' ha' => h a' (by simp [ha'])]

/-- Of two lists related item by item, an item of the second one has a partner in the first. -/
theorem exists_of_mem_right {R : α → β → Prop} {l : List α} {l' : List β}
    (h : List.Forall₂ R l l') {b : β} (hb : b ∈ l') :
  ∃ a ∈ l, R a b
  := by
  induction h with
  | nil => cases hb
  | @cons a b' rest rest' hab _ ih =>
    rcases List.mem_cons.mp hb with rfl | hb
    · use a
      simp [hab]
    · obtain ⟨a', hmem, ha'⟩ := ih hb
      use a'
      simp [hmem, ha']

theorem map_eq_map_of_forall₂ {f : α → γ} {f' : β → γ} {l : List α} {l' : List β}
    (h : List.Forall₂ (fun a b => f a = f' b) l l') :
  l.map f = l'.map f'
  := by
  rw [← List.forall₂_eq_eq_eq]
  apply List.forall₂_map_left_iff.mpr
  apply List.forall₂_map_right_iff.mpr h

/-- Where two lists are related item by item, the items that are related are items of the lists. -/
theorem forall₂_mem {R : α → β → Prop} {l : List α} {l' : List β} (h : List.Forall₂ R l l') :
  List.Forall₂ (fun a b => a ∈ l ∧ b ∈ l' ∧ R a b) l l'
  := by
  have hright := (List.forall₂_and_left l' l).mpr ⟨fun b hb => hb, h.flip⟩
  apply (List.forall₂_and_left l l').mpr ⟨fun a ha => ha, hright.flip⟩

/-- Of three lists related item by item, the first is related to the last. -/
theorem forall₂_comp {R : α → β → Prop} {S : β → γ → Prop} {T : α → γ → Prop} {l : List α}
    {l' : List β} {l'' : List γ} (h : List.Forall₂ R l l') (h' : List.Forall₂ S l' l'')
    (hT : ∀ a b c, R a b → S b c → T a c) :
  List.Forall₂ T l l''
  := by
  induction h generalizing l'' with
  | nil =>
    cases h'
    exact .nil
  | cons hab _ ih =>
    cases h' with
    | cons hbc hrest => exact .cons (hT _ _ _ hab hbc) (ih hrest)

theorem forall₂_getElem? {R : α → β → Prop} {l : List α} {l' : List β} (h : List.Forall₂ R l l')
    {i : Nat} {a : α} {b : β} (ha : l[i]? = some a) (hb : l'[i]? = some b) :
  R a b
  := by
  obtain ⟨hi, rfl⟩ := List.getElem?_eq_some_iff.mp ha
  obtain ⟨hi', rfl⟩ := List.getElem?_eq_some_iff.mp hb
  apply h.get hi hi'

/-- Where two lists are related item by item, what holds of any two items of the first one is
carried to the second. -/
theorem pairwise_of_forall₂ {R : α → β → Prop} {P : α → α → Prop} {Q : β → β → Prop} {l : List α}
    {l' : List β} (h : List.Forall₂ R l l') (hl : l.Pairwise P)
    (hPQ : ∀ a b a' b', R a b → R a' b' → P a a' → Q b b') :
  l'.Pairwise Q
  := by
  induction h with
  | nil => exact .nil
  | @cons a b rest rest' hab hrest ih =>
    obtain ⟨hfirst, hothers⟩ := List.pairwise_cons.mp hl
    refine .cons ?_ (ih hothers)
    intro b' hb'
    obtain ⟨a', ha', hR⟩ := exists_of_mem_right hrest hb'
    exact hPQ a b a' b' hab hR (hfirst a' ha')

/-- Of two lists related item by item, a part of the first one has a partner in the second. -/
theorem exists_sublist_of_forall₂ {R : α → β → Prop} {l₀ l : List α} {l' : List β}
    (hsub : l₀.Sublist l) (h : List.Forall₂ R l l') :
  ∃ l₀', l₀'.Sublist l' ∧ List.Forall₂ R l₀ l₀'
  := by
  induction hsub generalizing l' with
  | slnil =>
    cases h
    exact ⟨[], .slnil, .nil⟩
  | cons _ _ ih =>
    cases h with
    | cons _ hrest =>
      obtain ⟨l₀', hsub, hall⟩ := ih hrest
      exact ⟨l₀', hsub.cons _, hall⟩
  | cons_cons _ _ ih =>
    cases h with
    | cons hab hrest =>
      obtain ⟨l₀', hsub, hall⟩ := ih hrest
      exact ⟨_, hsub.cons_cons _, .cons hab hall⟩

/-- What is said to exist for every item of two lists can be listed beside the second one. -/
theorem exists_pairs_of_forall₂ {R : α → β → γ → Prop} {l : List α} {l' : List β}
    (h : List.Forall₂ (fun a b => ∃ c, R a b c) l l') :
  ∃ pairs : List (β × γ), pairs.map Prod.fst = l'
    ∧ List.Forall₂ (fun a pair => R a pair.1 pair.2) l pairs
  := by
  induction h with
  | nil => exact ⟨[], rfl, .nil⟩
  | @cons a b l l' hab _ ih =>
    obtain ⟨c, hc⟩ := hab
    obtain ⟨pairs, hmap, hall⟩ := ih
    use (b, c) :: pairs
    constructor
    · rw [List.map_cons, hmap]
    · exact .cons hc hall

/-- What is said to exist between the items of two lists can be listed between them. -/
theorem exists_between_of_forall₂ {R : α → β → Prop} {S : β → γ → Prop} {l : List α}
    {l' : List γ} (h : List.Forall₂ (fun a c => ∃ b, R a b ∧ S b c) l l') :
  ∃ between, List.Forall₂ R l between ∧ List.Forall₂ S between l'
  := by
  induction h with
  | nil => exact ⟨[], .nil, .nil⟩
  | cons hac _ ih =>
    obtain ⟨b, hab, hbc⟩ := hac
    obtain ⟨between, hleft, hright⟩ := ih
    exact ⟨b :: between, .cons hab hleft, .cons hbc hright⟩

/-- An operation on every item of a list succeeds exactly if it succeeds on each of them. -/
theorem exists_mapM_iff {f : α → Except Fault β} {l : List α} :
  (∃ bs, l.mapM f = .ok bs) ↔ ∀ a ∈ l, ∃ b, f a = .ok b
  := by
  induction l with
  | nil => simp
  | cons a rest ih =>
    rw [List.forall_mem_cons, ← ih, List.mapM_cons]
    cases f a with
    | error e => simp
    | ok b =>
      cases rest.mapM f with
      | error e => simp
      | ok bs => simp

/-- An operation on every item of a list fails as it does on the first item on which it fails. -/
theorem mapM_eq_error_iff {f : α → Except Fault β} {l : List α} {e : Fault} :
  l.mapM f = .error e ↔ ∃ before a after, l = before ++ a :: after
    ∧ (∀ a' ∈ before, ∃ b, f a' = .ok b) ∧ f a = .error e
  := by
  induction l with
  | nil => simp
  | cons a rest ih =>
    rw [List.mapM_cons, bind_eq_error_iff]
    constructor
    · rintro (ha | ⟨b, hb, hrest⟩)
      · exact ⟨[], a, rest, rfl, by simp, ha⟩
      · obtain hrest | ⟨_, _, hpure⟩ := bind_eq_error_iff.mp hrest
        · obtain ⟨before, a', after, rfl, hbefore, ha'⟩ := ih.mp hrest
          refine ⟨a :: before, a', after, rfl, ?_, ha'⟩
          rw [List.forall_mem_cons]
          exact ⟨⟨b, hb⟩, hbefore⟩
        · cases hpure
    · rintro ⟨before, a', after, heq, hbefore, ha'⟩
      cases before with
      | nil =>
        obtain ⟨rfl, rfl⟩ := List.cons.inj heq
        left
        exact ha'
      | cons first before =>
        obtain ⟨rfl, rfl⟩ := List.cons.inj heq
        obtain ⟨⟨b, hb⟩, hbefore⟩ := List.forall_mem_cons.mp hbefore
        right
        use b, hb
        apply bind_eq_error_iff.mpr
        left
        apply ih.mpr
        exact ⟨before, a', after, rfl, hbefore, ha'⟩

/-- Operations on the items of a list whose outcomes are gathered one after the other are an
operation on every item whose outcomes are gathered in the end. -/
theorem foldlM_bind_pure {f : α → Except Fault γ} {put : β → γ → β} (l : List α) (b : β) :
  (l.foldlM (fun b a => do return put b (← f a)) b) = do return (← l.mapM f).foldl put b
  := by
  induction l generalizing b with
  | nil => rfl
  | cons a rest ih =>
    rw [List.foldlM_cons, List.mapM_cons]
    cases f a with
    | error e => rfl
    | ok c =>
      simp only [ok_bind, pure_eq_ok]
      have hrest := ih (put b c)
      simp only [pure_eq_ok] at hrest
      rw [hrest]
      cases rest.mapM f with
      | error e => rfl
      | ok cs => rfl

/-- Operations on the items of a list, one after the other, succeed exactly if each does, where it
depends on the item alone whether one does. -/
theorem exists_foldlM_iff {f : β → α → Except Fault β} {P : α → Prop} {l : List α}
    (h : ∀ b, ∀ a ∈ l, (∃ b', f b a = .ok b') ↔ P a) (b : β) :
  (∃ b', l.foldlM f b = .ok b') ↔ ∀ a ∈ l, P a
  := by
  induction l generalizing b with
  | nil => simp
  | cons a rest ih =>
    have hfirst := h b a (by simp)
    rw [List.forall_mem_cons, List.foldlM_cons, ← hfirst]
    cases f b a with
    | error e => simp
    | ok b' =>
      have hrest := ih (fun b a hmem => h b a (by simp [hmem])) b'
      simp [hrest]

/-- What every operation on an item keeps is kept by all of them, one after the other. -/
theorem foldlM_keeps {f : β → α → Except Fault β} {I : β → Prop} {l : List α}
    (h : ∀ b, ∀ a ∈ l, I b → ∀ b', f b a = .ok b' → I b') {b b' : β} (hb : I b)
    (hl : l.foldlM f b = .ok b') :
  I b'
  := by
  induction l generalizing b with
  | nil =>
    obtain rfl := Except.ok.inj hl
    exact hb
  | cons a rest ih =>
    rw [List.foldlM_cons] at hl
    obtain ⟨b₁, hfirst, hrest⟩ := bind_eq_ok_iff.mp hl
    apply ih (fun b a' hmem => h b a' (by simp [hmem])) (h b a (by simp) hb b₁ hfirst) hrest

/-- Two operations on every item of a list, one after the other, succeed if they succeed one after
the other on each of them. -/
theorem exists_mapM_mapM {f : α → Except Fault β} {f' : β → Except Fault γ} {R : α → γ → Prop}
    {l : List α} (h : ∀ a ∈ l, ∃ b c, f a = .ok b ∧ f' b = .ok c ∧ R a c) :
  ∃ bs cs, l.mapM f = .ok bs ∧ bs.mapM f' = .ok cs ∧ List.Forall₂ R l cs
  := by
  induction l with
  | nil =>
    use [], []
    exact ⟨rfl, rfl, .nil⟩
  | cons a rest ih =>
    obtain ⟨b, c, hb, hc, hR⟩ := h a (by simp)
    obtain ⟨bs, cs, hbs, hcs, hrest⟩ := ih fun a' hmem => h a' (by simp [hmem])
    use b :: bs, c :: cs
    refine ⟨?_, ?_, .cons hR hrest⟩
    · rw [List.mapM_cons, hb, hbs]
      rfl
    · rw [List.mapM_cons, hc, hcs]
      rfl

/-- Two operations on every item of a list may be done one after the other on each item, or each
on the whole list. -/
theorem mapM_bind_eq_ok_iff {f : α → Except Fault β} {f' : β → Except Fault γ} {l : List α}
    {cs : List γ} :
  (l.mapM fun a => f a >>= f') = .ok cs ↔ ∃ bs, l.mapM f = .ok bs ∧ bs.mapM f' = .ok cs
  := by
  simp only [mapM_eq_ok_iff, bind_eq_ok_iff]
  constructor
  · intro h
    induction h with
    | nil => exact ⟨[], .nil, .nil⟩
    | cons hb _ ih =>
      obtain ⟨b, hb, hc⟩ := hb
      obtain ⟨bs, hbs, hcs⟩ := ih
      exact ⟨b :: bs, .cons hb hbs, .cons hc hcs⟩
  · rintro ⟨bs, hbs, hcs⟩
    induction hbs generalizing cs with
    | nil =>
      cases hcs
      apply List.Forall₂.nil
    | cons hb _ ih =>
      cases hcs with
      | cons hc hcs => exact .cons ⟨_, hb, hc⟩ (ih hcs)

/-- A check of every item of a list succeeds if every item passes. -/
theorem forM_eq_ok_iff {f : α → Except Fault Unit} {l : List α} :
  l.forM f = .ok () ↔ ∀ a ∈ l, f a = .ok ()
  := by
  induction l with
  | nil => simp
  | cons a rest ih =>
    have hcons : (a :: rest).forM f = f a >>= fun _ => rest.forM f := rfl
    rw [hcons, bind_eq_ok_iff, List.forall_mem_cons, ← ih]
    constructor
    · rintro ⟨⟨⟩, ha, hrest⟩
      exact ⟨ha, hrest⟩
    · rintro ⟨ha, hrest⟩
      exact ⟨(), ha, hrest⟩

/-! ### Related outcomes -/

/-- Whether two operations fail together, and otherwise have related results. -/
inductive Related (R : α → β → Prop) : Except Fault α → Except Fault β → Prop
  | ok {a : α} {b : β} : R a b → Related R (.ok a) (.ok b)
  | error (e e' : Fault) : Related R (.error e) (.error e')

namespace Related

variable {δ : Type} {R : α → β → Prop} {S : γ → δ → Prop}

/-- Operations that succeed together with related results. -/
theorem of_exists {x : Except Fault α} {y : Except Fault β}
    (hiff : (∃ a, x = .ok a) ↔ ∃ b, y = .ok b) (h : ∀ a b, x = .ok a → y = .ok b → R a b) :
  Related R x y
  := by
  cases x with
  | error e =>
    cases y with
    | error e' => apply error
    | ok b => simp at hiff
  | ok a =>
    cases y with
    | error e' => simp at hiff
    | ok b => apply ok (h a b rfl rfl)

theorem bind {x : Except Fault α} {y : Except Fault β} {f : α → Except Fault γ}
    {f' : β → Except Fault δ} (h : Related R x y) (hf : ∀ a b, R a b → Related S (f a) (f' b)) :
  Related S (x >>= f) (y >>= f')
  := by
  cases h with
  | error e e' => apply error
  | ok hab => apply hf _ _ hab

theorem mapM {f : α → Except Fault γ} {f' : β → Except Fault δ} {l : List α} {l' : List β}
    (h : List.Forall₂ (fun a b => Related S (f a) (f' b)) l l') :
  Related (List.Forall₂ S) (l.mapM f) (l'.mapM f')
  := by
  induction h with
  | nil => apply ok .nil
  | cons hab _ ih =>
    rw [List.mapM_cons, List.mapM_cons]
    apply hab.bind
    intro c d hcd
    apply ih.bind
    intro cs ds hcs
    apply ok (.cons hcd hcs)

theorem foldlM {f : γ → α → Except Fault γ} {f' : δ → β → Except Fault δ} {l : List α}
    {l' : List β} (h : List.Forall₂ (fun a b => ∀ c d, S c d → Related S (f c a) (f' d b)) l l')
    {c : γ} {d : δ} (hcd : S c d) :
  Related S (l.foldlM f c) (l'.foldlM f' d)
  := by
  induction h generalizing c d with
  | nil => apply ok hcd
  | cons hab _ ih =>
    rw [List.foldlM_cons, List.foldlM_cons]
    apply (hab c d hcd).bind
    intro c' d' hcd'
    apply ih hcd'

end Related

end AssetCanvas.Fault
