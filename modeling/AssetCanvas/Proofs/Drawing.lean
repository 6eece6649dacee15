import AssetCanvas.Preview.Positions
import AssetCanvas.Proofs.Fault
import AssetCanvas.Proofs.Outline
import Mathlib.Data.Set.Function

/-!
# Related draws

Two runs of a position preview are compared by a relation between draws that composition keeps,
`Positions.Relating`.  Every type of node then relates what it makes of related positions,
`Positions.Relating.produce`, so the only things to look at are the types that draw and the limit
of the positions, and a walk relates the positions of whole graphs, `Positions.Relating.evaluate`.

Three ways to relate draws are of use: that two sources stay related and the results are the same,
`Relating.between`; that a draw leaves a source as it may, `Relating.keeping`; and that a draw
succeeds wherever another one does, with whatever sources, `Relating.following`.
-/

namespace AssetCanvas

namespace Lookup

variable {α β : Type} {R S : α → β → Prop} {found : Option α} {found' : Option β}

/-- Of two related lookups, both find nothing or both find something. -/
theorem cases (h : Option.Rel R found found') :
  found = none ∧ found' = none ∨ ∃ a b, found = some a ∧ found' = some b ∧ R a b
  := by
  cases h with
  | none => exact .inl ⟨rfl, rfl⟩
  | some hab => exact .inr ⟨_, _, rfl, rfl, hab⟩

theorem isSome_eq (h : Option.Rel R found found') : found.isSome = found'.isSome
  := by
  cases h <;> rfl

theorem mono (h : Option.Rel R found found') (hRS : ∀ a b, R a b → S a b) :
  Option.Rel S found found'
  := by
  cases h with
  | none => exact .none
  | some hab => exact .some (hRS _ _ hab)

theorem refl {R : α → α → Prop} (h : ∀ a, found = some a → R a a) : Option.Rel R found found
  := by
  cases found with
  | none => exact .none
  | some a => exact .some (h a rfl)

/-- A lookup is related to what is found under other names. -/
theorem map {γ : Type} {R : α → γ → Prop} {f : α → γ} (h : ∀ a, found = some a → R a (f a)) :
  Option.Rel R found (found.map f)
  := by
  cases found with
  | none => exact .none
  | some a => exact .some (h a rfl)

end Lookup

namespace Positions

/-! ### Draws in a row -/

theorem bind_apply {α β : Type} (x : Draw α) (f : α → Draw β) (s : RandomSource) :
  (x >>= f) s = x s >>= fun drawn => f drawn.1 drawn.2
  := rfl

theorem bind_eq_ok_iff {α β : Type} {x : Draw α} {f : α → Draw β} {s : RandomSource}
    {drawn : β × RandomSource} :
  (x >>= f) s = .ok drawn ↔ ∃ a t, x s = .ok (a, t) ∧ f a t = .ok drawn
  := by
  rw [bind_apply, Fault.bind_eq_ok_iff]
  exact Prod.exists

theorem lift_eq_ok_iff {α : Type} {x : Except Fault α} {s t : RandomSource} {a : α} :
  (liftM x : Draw α) s = .ok (a, t) ↔ x = .ok a ∧ s = t
  := by
  cases x with
  | error e =>
    constructor
    · rintro ⟨⟩
    · rintro ⟨⟨⟩, -⟩
  | ok b =>
    constructor
    · rintro ⟨⟩
      exact ⟨rfl, rfl⟩
    · rintro ⟨⟨⟩, rfl⟩
      rfl

/-- A way to relate draws whose results are related. -/
structure Relating where
  rel : {α β : Type} → (α → β → Prop) → Draw α → Draw β → Prop
  pure {α β : Type} {R : α → β → Prop} {a : α} {b : β} : R a b → rel R (pure a) (pure b)
  error {α β : Type} {R : α → β → Prop} (e : Fault) :
    rel R (throw e : Draw α) (throw e : Draw β)
  bind {α β γ δ : Type} {R : α → β → Prop} {S : γ → δ → Prop} {x : Draw α} {y : Draw β}
    {f : α → Draw γ} {f' : β → Draw δ} :
    rel R x y → (∀ a b, R a b → rel S (f a) (f' b)) → rel S (x >>= f) (y >>= f')

namespace Relating

/-! ### Ways to relate draws -/

/-- Two draws that keep a relation of their sources and have related results, or the same fault. -/
def between (S : RandomSource → RandomSource → Prop) : Relating where
  rel R x y := ∀ s s', S s s' → (∃ e, x s = .error e ∧ y s' = .error e)
    ∨ ∃ a b t t', x s = .ok (a, t) ∧ y s' = .ok (b, t') ∧ R a b ∧ S t t'
  pure hab s s' hs := .inr ⟨_, _, s, s', rfl, rfl, hab, hs⟩
  error e _ _ _ := .inl ⟨e, rfl, rfl⟩
  bind {_ _ _ _ R S' x y f f'} hxy hf s s' hs := by
    rw [bind_apply, bind_apply]
    rcases hxy s s' hs with ⟨e, hx, hy⟩ | ⟨a, b, t, t', hx, hy, hab, ht⟩
    · rw [hx, hy]
      exact .inl ⟨e, rfl, rfl⟩
    · rw [hx, hy]
      exact hf a b hab t t' ht

/-- A draw that moves its source along a relation. -/
def keeping (F : RandomSource → RandomSource → Prop) (hrefl : ∀ s, F s s)
    (htrans : ∀ s t u, F s t → F t u → F s u) : Relating where
  rel R x _ := ∀ s a t, x s = .ok (a, t) → F s t ∧ ∃ b, R a b
  pure hab s a t h := by
    obtain ⟨rfl, rfl⟩ := Prod.mk.inj (Except.ok.inj h)
    exact ⟨hrefl s, _, hab⟩
  error e s a t h := by cases h
  bind {_ _ _ _ R S' x y f f'} hxy hf s c u h := by
    obtain ⟨a, t, hx, hrest⟩ := bind_eq_ok_iff.mp h
    obtain ⟨hst, b, hab⟩ := hxy s a t hx
    obtain ⟨htu, hc⟩ := hf a b hab t c u hrest
    exact ⟨htrans s t u hst htu, hc⟩

/-- A draw that succeeds wherever another one does, whatever their sources are. -/
def following : Relating where
  rel R x y := ∀ s s' b t', y s' = .ok (b, t') → ∃ a t, x s = .ok (a, t) ∧ R a b
  pure hab s s' b t' h := by
    obtain ⟨rfl, rfl⟩ := Prod.mk.inj (Except.ok.inj h)
    exact ⟨_, s, rfl, hab⟩
  error e s s' b t' h := by cases h
  bind {_ _ _ _ R S' x y f f'} hxy hf s s' d u' h := by
    obtain ⟨b, t', hy, hrest⟩ := bind_eq_ok_iff.mp h
    obtain ⟨a, t, hx, hab⟩ := hxy s s' b t' hy
    obtain ⟨c, u, hc, hcd⟩ := hf a b hab t t' d u' hrest
    exact ⟨c, u, bind_eq_ok_iff.mpr ⟨a, t, hx, hc⟩, hcd⟩

/-! ### Types -/

variable (L : Relating) {R : List Position → List Position → Prop}

/-- An operation that draws nothing is related to itself. -/
theorem lift {α : Type} {R : α → α → Prop} {x : Except Fault α} (hR : ∀ a, x = .ok a → R a a) :
  L.rel R (liftM x : Draw α) (liftM x)
  := by
  cases x with
  | error e => exact L.error e
  | ok a => exact L.pure (hR a rfl)

/-- An operation that draws nothing is the same for the same data. -/
theorem lift_eq {α β : Type} (f : α → Except Fault β) (a b : α) (h : a = b) :
  L.rel Eq (liftM (f a) : Draw β) (liftM (f b))
  := by
  rw [h]
  exact L.lift fun _ _ => rfl

/-- An operation that draws nothing gives the same result to what follows. -/
theorem after {α γ δ : Type} {S : γ → δ → Prop} {x : Except Fault α} {f : α → Draw γ}
    {f' : α → Draw δ} (h : ∀ a, x = .ok a → L.rel S (f a) (f' a)) :
  L.rel S ((liftM x : Draw α) >>= f) ((liftM x : Draw α) >>= f')
  := by
  apply L.bind (L.lift (R := fun a b => a = b ∧ x = .ok a) fun a ha => ⟨rfl, ha⟩)
  rintro a _ ⟨rfl, ha⟩
  exact h a ha

theorem map {α β γ δ : Type} {R : α → β → Prop} {S : γ → δ → Prop} {x : Draw α} {y : Draw β}
    (h : L.rel R x y) {f : α → γ} {f' : β → δ} (hf : ∀ a b, R a b → S (f a) (f' b)) :
  L.rel S (x >>= fun a => Pure.pure (f a)) (y >>= fun b => Pure.pure (f' b))
  := L.bind h fun a b hab => L.pure (hf a b hab)

end Relating

/-- Whether a relation of positions is kept by what types do with the positions of sources. -/
structure Pointwise (R : List Position → List Position → Prop) : Prop where
  refl : ∀ ps, R ps ps
  map : ∀ f {ps qs}, R ps qs → R (ps.map f) (qs.map f)
  append : ∀ {ps qs ps' qs'}, R ps qs → R ps' qs' → R (ps ++ ps') (qs ++ qs')

theorem pointwise_eq : Pointwise Eq
  where
  refl _ := rfl
  map f _ _ h := congrArg (List.map f) h
  append h h' := congrArg₂ (· ++ ·) h h'

theorem fieldOf_congr {n n' : Node} (h : n.fields = n'.fields) : fieldOf n = fieldOf n'
  := by
  funext key
  rw [fieldOf, fieldOf, h]

theorem numberOr_congr {n n' : Node} (h : n.fields = n'.fields) : numberOr n = numberOr n'
  := by
  funext key default
  rw [numberOr, numberOr, fieldOf_congr h]

/-- The field of the spacing of a type of lattices, with the default of the policy. -/
def spacingOf? (policy : EvaluationPolicy) : String → Option (String × Json)
  | "Mesh2D" => some ("Resolution", policy.defaultResolution)
  | "Mesh3D" => some ("Resolution", policy.defaultResolution)
  | "SimpleHorizontal" => some ("Spacing", policy.defaultSpacing)
  | _ => none

/-- Whether two contexts agree on the range and on the defaults of fields. -/
structure Context.Alike (ctx ctx' : Context) : Prop where
  range : ctx.range = ctx'.range
  spacing : ctx.policy.defaultSpacing = ctx'.policy.defaultSpacing
  resolution : ctx.policy.defaultResolution = ctx'.policy.defaultResolution
  chance : ctx.policy.defaultChance = ctx'.policy.defaultChance

theorem Context.Alike.refl (ctx : Context) : ctx.Alike ctx := ⟨rfl, rfl, rfl, rfl⟩

namespace Relating

variable (L : Relating) {R : List Position → List Position → Prop}

/-- Whether the draws of two nodes of a type are related. -/
structure Draws (R : List Position → List Position → Prop) (ctx ctx' : Context) (n n' : Node)
    (type : String) : Prop where
  spaced : ∀ field default, spacingOf? ctx.policy type = some (field, default) →
    ∀ spacing jitter, numberOr n field default = .ok spacing →
      numberOr n "Jitter" (.float 0.0) = .ok jitter →
        L.rel R (lattice ctx n spacing jitter) (lattice ctx' n' spacing jitter)
  dense : type = "DensityBased" → L.rel R (lattice ctx n (.float 16.0) (.float 0.0))
    (lattice ctx' n' (.float 16.0) (.float 0.0))
  chance : type = "Occurrence" → ∀ chance ps qs, R ps qs →
    L.rel R (occurrence n chance ps) (occurrence n' chance qs)

variable {L}

/-- A lattice with a spacing that is read from a field. -/
theorem Draws.spacedLattice {ctx ctx' : Context} {n n' : Node} {type field : String}
    {default : Json} (h : L.Draws R ctx ctx' n n' type) (hfields : n.fields = n'.fields)
    (hspacing : spacingOf? ctx.policy type = some (field, default)) :
  L.rel R (spacedLattice ctx n field default) (spacedLattice ctx' n' field default)
  := by
  rw [Positions.spacedLattice, Positions.spacedLattice, ← numberOr_congr hfields]
  apply L.after
  intro spacing hs
  apply L.after
  intro jitter hj
  apply h.spaced field default hspacing spacing jitter hs hj

/-- What is read from related sources is related. -/
theorem input (hR : Pointwise R) {found found' : Option String}
    {evaluate evaluate' : String → Draw (List Position)} :
  Option.Rel (fun source source' => L.rel R (evaluate source) (evaluate' source')) found found' →
    L.rel R
      (match found with
        | some source => evaluate source
        | none => Pure.pure [])
      (match found' with
        | some source => evaluate' source
        | none => Pure.pure [])
  := by
  intro h
  rcases Lookup.cases h with ⟨rfl, rfl⟩ | ⟨source, source', rfl, rfl, hsource⟩
  · exact L.pure (hR.refl [])
  · exact hsource

/-- Nodes of a type with the same fields give related positions if their draws are related and the
positions of their sources are. -/
theorem produce (hR : Pointwise R) {ctx ctx' : Context} (hctx : ctx.Alike ctx') {n n' : Node}
    (hfields : n.fields = n'.fields) {inputs inputs' : Inputs}
    {evaluate evaluate' : String → Draw (List Position)}
    (hinputs : ∀ port : String, Option.Rel
      (fun source source' => L.rel R (evaluate source) (evaluate' source'))
      (Entries.find? inputs (.text port)) (Entries.find? inputs' (.text port)))
    {type : String} (hdraws : L.Draws R ctx ctx' n n' type) :
  L.rel R (produce ctx n inputs evaluate type) (produce ctx' n' inputs' evaluate' type)
  := by
  have hinput := fun port : String => input hR (hinputs port)
  have hhas : (fun port : String => Entries.contains inputs (.text port))
      = fun port : String => Entries.contains inputs' (.text port) := by
    funext port
    exact Lookup.isSome_eq (hinputs port)
  simp only [Positions.produce, ← hctx.range, ← hctx.spacing, ← hctx.resolution, ← hctx.chance,
    ← fieldOf_congr hfields, ← numberOr_congr hfields, ← hhas]
  split
  · apply hdraws.spacedLattice hfields rfl
  · apply hdraws.spacedLattice hfields rfl
  · apply hdraws.spacedLattice hfields rfl
  · -- a list of points
    apply L.after
    intro points _
    split
    · exact L.lift fun ps _ => hR.refl ps
    · exact L.pure (hR.refl [])
  · -- an occurrence
    apply L.after
    intro chance _
    apply L.bind (hinput _)
    apply hdraws.chance rfl
  · -- an offset
    apply L.after
    intro offset _
    apply L.after
    intro vector _
    apply L.map (hinput _)
    intro ps qs h
    exact hR.map _ h
  · -- a union
    apply L.bind (hinput _)
    intro ps qs h
    apply L.map (hinput _)
    intro ps' qs' h'
    exact hR.append h h'
  · apply hinput
  · apply hinput
  · apply L.map (hinput _)
    intro ps qs h
    exact hR.map _ h
  · apply hinput
  · apply L.map (hdraws.dense rfl)
    intro ps qs h
    exact hR.map _ h
  · apply hinput
  · exact L.pure (hR.refl [])
  · -- an unknown type
    split
    · apply hinput
    · exact L.pure (hR.refl [])

/-! ### Generators -/

/-- Whether two nodes find the same generator in related sources, and leave related sources. -/
structure Tied (S : RandomSource → RandomSource → Prop) (n n' : Node) : Prop where
  generator : ∀ {s s'}, S s s' → s.generator (some n.id) = s'.generator (some n'.id)
  store : ∀ {s s'} g, S s s' → S (s.store (some n.id) g) (s'.store (some n'.id) g)

namespace Tied

variable {S : RandomSource → RandomSource → Prop} {n n' : Node} {ctx ctx' : Context}

theorem lattice (h : Tied S n n') (hrange : ctx.range = ctx'.range)
    (hlimit : ctx.policy.maxSamples = ctx'.policy.maxSamples) (spacing jitter : Json) :
  (between S).rel Eq (lattice ctx n spacing jitter) (lattice ctx' n' spacing jitter)
  := by
  intro s s' hs
  rw [Positions.lattice, Positions.lattice, ← hrange, ← hlimit, h.generator hs]
  cases Lattice.positions ctx.range spacing jitter ctx.policy.maxSamples
      (s'.generator (some n'.id)) with
  | error e => exact .inl ⟨e, rfl, rfl⟩
  | ok drawn => exact .inr ⟨drawn.1, drawn.1, _, _, rfl, rfl, rfl, h.store drawn.2 hs⟩

theorem occurring (h : Tied S n n') (chance : Number) (ps : List Position)
    {s s' : RandomSource} (hs : S s s') :
  (occurring n chance ps s).1 = (occurring n' chance ps s').1
    ∧ S (occurring n chance ps s).2 (occurring n' chance ps s').2
  := by
  induction ps generalizing s s' with
  | nil => exact ⟨rfl, hs⟩
  | cons p rest ih =>
    have hdraw : (s.draw (some n.id)).1 = (s'.draw (some n'.id)).1
        ∧ S (s.draw (some n.id)).2 (s'.draw (some n'.id)).2 := by
      simp only [RandomSource.draw, h.generator hs, true_and]
      apply h.store _ hs
    obtain ⟨hothers, hrest⟩ := ih hdraw.2
    simp only [Positions.occurring, hdraw.1, hothers, true_and]
    exact hrest

theorem occurrence (h : Tied S n n') (chance : Json) (ps : List Position) :
  (between S).rel Eq (occurrence n chance ps) (occurrence n' chance ps)
  := by
  intro s s' hs
  cases ps with
  | nil => exact .inr ⟨[], [], s, s', rfl, rfl, rfl, hs⟩
  | cons p rest =>
    simp only [Positions.occurrence]
    cases chance.number with
    | error e => exact .inl ⟨e, rfl, rfl⟩
    | ok x =>
      obtain ⟨hsame, hrest⟩ := h.occurring x (p :: rest) hs
      exact .inr ⟨_, _, _, _, rfl, rfl, hsame, hrest⟩

/-- Nodes that are tied draw alike. -/
theorem draws (h : Tied S n n') (hrange : ctx.range = ctx'.range)
    (hlimit : ctx.policy.maxSamples = ctx'.policy.maxSamples) (type : String) :
  (between S).Draws Eq ctx ctx' n n' type
  where
  spaced _ _ _ spacing jitter _ _ := h.lattice hrange hlimit spacing jitter
  dense _ := h.lattice hrange hlimit _ _
  chance _ chance ps qs hps := by
    obtain rfl : ps = qs := hps
    apply h.occurrence

end Tied

section Keeping

variable {F : RandomSource → RandomSource → Prop} {hrefl : ∀ s, F s s}
  {htrans : ∀ s t u, F s t → F t u → F s u} {n : Node} {ctx : Context}

/-- A node whose generator may be any moves the source as it may. -/
theorem keeping_draws (hstore : ∀ s g, F s (s.store (some n.id) g)) (type : String) :
  (keeping F hrefl htrans).Draws Eq ctx ctx n n type
  := by
  have hlattice : ∀ spacing jitter, (keeping F hrefl htrans).rel Eq
      (lattice ctx n spacing jitter) (lattice ctx n spacing jitter) := by
    intro spacing jitter s ps t h
    obtain ⟨drawn, -, hpure⟩ := Fault.bind_eq_ok_iff.mp h
    cases hpure
    exact ⟨hstore s drawn.2, _, rfl⟩
  have hoccurring : ∀ chance ps s, F s (occurring n chance ps s).2 := by
    intro chance ps
    induction ps with
    | nil => exact hrefl
    | cons p rest ih =>
      intro s
      exact htrans _ _ _ (hstore s _) (ih _)
  constructor
  · intro _ _ _ spacing jitter _ _
    apply hlattice
  · intro _
    apply hlattice
  · rintro - chance ps _ rfl s qs t h
    refine ⟨?_, _, rfl⟩
    cases ps with
    | nil =>
      cases h
      apply hrefl
    | cons p rest =>
      obtain ⟨x, -, hpure⟩ := Fault.bind_eq_ok_iff.mp h
      have hleft : (occurring n x (p :: rest) s).2 = t := congrArg Prod.snd (Except.ok.inj hpure)
      rw [← hleft]
      apply hoccurring

end Keeping

/-! ### Walks -/

/-- Whether two walks go through nodes with related draws, the ids of the second one being images
of ids of the first. -/
structure Walks (L : Relating) (R : List Position → List Position → Prop) (ctx ctx' : Context)
    (f : String → String) (ids : Set String) : Prop where
  context : ctx.Alike ctx'
  inj : Set.InjOn f ids
  nodes : ∀ id ∈ ids, Option.Rel
    (fun n n' => n.fields = n'.fields ∧ n.typeName family.category = n'.typeName family.category
      ∧ ∀ type, n.typeName family.category = .ok type → L.Draws R ctx ctx' n n' type)
    (Entries.find? ctx.nodes id) (Entries.find? ctx'.nodes (f id))
  inputs : ∀ id ∈ ids, ∀ port : String,
    Option.Rel (fun source source' => source ∈ ids ∧ source' = f source)
      (Entries.find? ((Entries.find? ctx.inputs id).getD []) (.text port))
      (Entries.find? ((Entries.find? ctx'.inputs (f id)).getD []) (.text port))
  limit : ∀ ps qs, R ps qs → L.rel R (liftM (truncate ctx.policy.maxSamples ps) : Draw _)
    (liftM (truncate ctx'.policy.maxSamples qs))

/-- The positions of an id are related to those of its image. -/
theorem Walks.evaluate {ctx ctx' : Context} {f : String → String} {ids : Set String}
    (hR : Pointwise R) (h : L.Walks R ctx ctx' f ids) (fresh fresh' : List String) (id : String)
    (hfresh : ∀ id ∈ ids, id ∈ fresh ↔ f id ∈ fresh') (hid : id ∈ ids) :
  L.rel R (evaluate ctx fresh id) (evaluate ctx' fresh' (f id))
  := by
  induction fresh, id using Graph.walk_induction generalizing fresh' with
  | step fresh id ih =>
    rw [Positions.evaluate, Positions.evaluate]
    by_cases hmem : id ∈ fresh
    · rw [dif_pos hmem, dif_pos ((hfresh id hid).mp hmem)]
      rcases Lookup.cases (h.nodes id hid) with
        ⟨hn, hn'⟩ | ⟨n, n', hn, hn', hfields, htype, hdraws⟩
      · rw [hn, hn']
        exact L.pure (hR.refl [])
      · simp only [hn, hn', ← htype]
        apply L.after
        intro type hname
        refine L.bind (produce hR h.context hfields (fun port => ?_) (hdraws type hname)) h.limit
        apply Lookup.mono (h.inputs id hid port)
        rintro source _ ⟨hsource, rfl⟩
        apply ih hmem source _ _ hsource
        intro other hother
        rw [Walk.mem_without, Walk.mem_without, hfresh other hother, h.inj.ne_iff hother hid]
    · rw [dif_neg hmem, dif_neg fun hin => hmem ((hfresh id hid).mpr hin)]
      exact L.pure (hR.refl [])

end Relating

end Positions

end AssetCanvas
