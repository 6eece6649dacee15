import AssetCanvas.Proofs.Cells
import AssetCanvas.Proofs.Magnitudes

/-!
# The two nearest features

Cellular noise goes through the distances to the features around a place, and keeps the two least
ones, `Cellular.closer`.  A step keeps them the two least ones of the distances so far,
`Cellular.TwoLeast.closer`, wherever the distances are linearly ordered; there the two least values
of a list are unique, so the order of the distances does not matter, `Cellular.nearestTwo_eq`.
Distances of floats are linearly ordered if they are numbers, as they have no sign.
`Cellular.exists_twoLeast` says so of every place, and between which bounds the measures of the two
distances are in exact arithmetic.
-/

namespace AssetCanvas.Cellular

/-! ### The two least values -/

section TwoLeast

variable {α : Type} [LE α] {values values' : List α} {best best' : α × α}

/-- Two values are the two least ones of a list, counted with multiplicity: the list consists of
them and of values that are not less. -/
structure TwoLeast (best : α × α) (values : List α) : Prop where
  le : best.1 ≤ best.2
  rest : ∃ rest, (best.1 :: best.2 :: rest).Perm values ∧ ∀ v ∈ rest, best.2 ≤ v

theorem TwoLeast.perm (h : TwoLeast best values) (hperm : values.Perm values') :
  TwoLeast best values'
  := by
  obtain ⟨hle, rest, hrest, hleast⟩ := h
  exact ⟨hle, rest, hrest.trans hperm, hleast⟩

theorem TwoLeast.mem (h : TwoLeast best values) : best.1 ∈ values ∧ best.2 ∈ values
  := by
  obtain ⟨-, rest, hrest, -⟩ := h
  constructor
  · apply hrest.subset (by simp)
  · apply hrest.subset (by simp)

variable [LT α]

/-- Whether the values with a property are linearly ordered. -/
structure Linear (P : α → Prop) : Prop where
  total : ∀ {a b}, P a → P b → a ≤ b ∨ b ≤ a
  trans : ∀ {a b c : α}, a ≤ b → b ≤ c → a ≤ c
  antisymm : ∀ {a b}, P a → P b → a ≤ b → b ≤ a → a = b
  lt_iff : ∀ {a b}, P a → P b → (a < b ↔ ¬ b ≤ a)

theorem linear_of_linearOrder (L : Type) [LinearOrder L] : Linear fun _ : L => True
  where
  total _ _ := le_total _ _
  trans := le_trans
  antisymm _ _ := le_antisymm
  lt_iff _ _ := not_le.symm

variable {P : α → Prop} {a b v : α}

namespace Linear

theorem refl (hP : Linear P) (ha : P a) : a ≤ a
  := (hP.total ha ha).elim id id

theorem le_of_lt (hP : Linear P) (ha : P a) (hb : P b) (h : a < b) : a ≤ b
  := (hP.total ha hb).resolve_right ((hP.lt_iff ha hb).mp h)

theorem le_of_not_lt (hP : Linear P) (ha : P a) (hb : P b) (h : ¬ b < a) : a ≤ b
  := by
  rwa [hP.lt_iff hb ha, not_not] at h

/-- A value that is before all others of a list is before all of the list. -/
theorem le_of_mem_cons (hP : Linear P) (ha : P a) (hleast : ∀ w ∈ values, a ≤ w)
    (hv : v ∈ a :: values) :
  a ≤ v
  := by
  rcases List.mem_cons.mp hv with rfl | hv
  · exact hP.refl ha
  · exact hleast v hv

end Linear

namespace TwoLeast

/-- The first of the two is the least one. -/
theorem fst_le (hP : Linear P) (hvalues : ∀ v ∈ values, P v) (h : TwoLeast best values)
    (hv : v ∈ values) :
  best.1 ≤ v
  := by
  have hfirst := hvalues _ h.mem.1
  obtain ⟨hle, rest, hrest, hleast⟩ := h
  apply hP.le_of_mem_cons hfirst _ (hrest.symm.subset hv)
  exact List.forall_mem_cons.mpr ⟨hle, fun w hw => hP.trans hle (hleast w hw)⟩

/-- There are no other two least values. -/
theorem eq (hP : Linear P) (hvalues : ∀ v ∈ values, P v) (h : TwoLeast best values)
    (h' : TwoLeast best' values) :
  best = best'
  := by
  obtain ⟨a, b⟩ := best
  obtain ⟨a', b'⟩ := best'
  obtain rfl : a = a' := hP.antisymm (hvalues a h.mem.1) (hvalues a' h'.mem.1)
    (h.fst_le hP hvalues h'.mem.1) (h'.fst_le hP hvalues h.mem.1)
  have hb := hvalues b h.mem.2
  have hb' := hvalues b' h'.mem.2
  obtain ⟨-, rest, hrest, hleast⟩ := h
  obtain ⟨-, rest', hrest', hleast'⟩ := h'
  have hsecond : (b :: rest).Perm (b' :: rest') := (hrest.trans hrest'.symm).cons_inv
  have hle : b ≤ b' :=
    hP.le_of_mem_cons hb hleast (hsecond.symm.subset List.mem_cons_self)
  have hle' : b' ≤ b :=
    hP.le_of_mem_cons hb' hleast' (hsecond.subset List.mem_cons_self)
  rw [hP.antisymm hb hb' hle hle']

end TwoLeast

/-! ### The loop -/

variable [DecidableLE α] [Add α] {far : α}

theorem least_of_le (hP : Linear P) (ha : P a) (hb : P b) (h : b ≤ a) : Blend.least a b = b
  := by
  rw [Blend.least]
  split
  · rename_i hab
    exact hP.antisymm ha hb hab h
  · rfl

variable [DecidableLT α]

/-- With one more value, the lesser of the two gives way, or the greater one does, or none. -/
theorem TwoLeast.closer (hP : Linear P) (hvalues : ∀ v ∈ values, P v) (h : TwoLeast best values)
    (hv : P v) :
  TwoLeast (closer best v) (v :: values)
  := by
  have hfirst := hvalues _ h.mem.1
  have hsecond := hvalues _ h.mem.2
  obtain ⟨hle, rest, hrest, hleast⟩ := h
  rw [Cellular.closer]
  by_cases hlt : v < best.1
  · rw [if_pos hlt]
    refine ⟨hP.le_of_lt hv hfirst hlt, best.2 :: rest, hrest.cons v, ?_⟩
    exact List.forall_mem_cons.mpr ⟨hle, fun w hw => hP.trans hle (hleast w hw)⟩
  · rw [if_neg hlt]
    have hge : best.1 ≤ v := hP.le_of_not_lt hfirst hv hlt
    by_cases hnear : best.2 ≤ v
    · rw [Blend.least, if_pos hnear]
      refine ⟨hle, v :: rest, ?_, ?_⟩
      · have hmove : (best.1 :: best.2 :: v :: rest).Perm (v :: best.1 :: best.2 :: rest) :=
          ((List.Perm.swap v best.2 rest).cons best.1).trans (List.Perm.swap ..)
        exact hmove.trans (hrest.cons v)
      · exact List.forall_mem_cons.mpr ⟨hnear, hleast⟩
    · have hvle : v ≤ best.2 := (hP.total hsecond hv).resolve_left hnear
      rw [least_of_le hP hsecond hv hvle]
      refine ⟨hge, best.2 :: rest, ?_, ?_⟩
      · exact (List.Perm.swap v best.1 _).trans (hrest.cons v)
      · exact List.forall_mem_cons.mpr ⟨hvle, fun w hw => hP.trans hvle (hleast w hw)⟩

theorem TwoLeast.foldl (hP : Linear P) (hvalues : ∀ v ∈ values, P v) (h : TwoLeast best values)
    (more : List α) (hmore : ∀ v ∈ more, P v) :
  TwoLeast (more.foldl Cellular.closer best) (values ++ more)
  := by
  induction more generalizing values best with
  | nil => rwa [List.append_nil]
  | cons v rest ih =>
    have hstep := h.closer hP hvalues (hmore v List.mem_cons_self)
    have hrun : TwoLeast (rest.foldl Cellular.closer (Cellular.closer best v))
        (v :: values ++ rest) := by
      apply ih _ hstep fun w hw => hmore w (List.mem_cons_of_mem _ hw)
      exact List.forall_mem_cons.mpr ⟨hmore v List.mem_cons_self, hvalues⟩
    exact hrun.perm List.perm_middle.symm

/-- The first two values take the place of the values that stand for the missing ones. -/
theorem twoLeast_pair (hP : Linear P) (hfar : P far) (ha : P a) (hb : P b) (hafar : a ≤ far)
    (hbfar : b ≤ far) :
  TwoLeast (closer (closer (far, far) a) b) [a, b]
  := by
  have hfirst : closer (far, far) a = (a, far) := by
    rw [closer, least_of_le hP hfar ha hafar]
    split
    · rfl
    · rename_i hlt
      rw [hP.antisymm ha hfar hafar (hP.le_of_not_lt hfar ha hlt)]
  rw [hfirst, closer, least_of_le hP hfar hb hbfar]
  split
  · rename_i hlt
    exact ⟨hP.le_of_lt hb ha hlt, [], List.Perm.swap .., by simp⟩
  · rename_i hlt
    exact ⟨hP.le_of_not_lt ha hb hlt, [], .refl _, by simp⟩

/-- The two least of at least two values are found. -/
theorem twoLeast_nearestTwo (hP : Linear P) (hfar : P far) (hvalues : ∀ v ∈ values, P v)
    (hbelow : ∀ v ∈ values, v ≤ far) (hlength : 2 ≤ values.length) :
  TwoLeast (nearestTwo far values) values
  := by
  match values with
  | a :: b :: rest =>
    have hpair := twoLeast_pair hP hfar (hvalues a (by simp)) (hvalues b (by simp))
      (hbelow a (by simp)) (hbelow b (by simp))
    apply hpair.foldl hP _ rest fun v hv => hvalues v (by simp [hv])
    intro v hv
    apply hvalues
    simp only [List.mem_cons, List.not_mem_nil, or_false] at hv ⊢
    tauto

/-- What is found does not depend on the order of the values. -/
theorem nearestTwo_eq (hP : Linear P) (hfar : P far) (hvalues : ∀ v ∈ values, P v)
    (hbelow : ∀ v ∈ values, v ≤ far) (hlength : 2 ≤ values.length) (h : TwoLeast best values)
    (hperm : values'.Perm values) :
  nearestTwo far values' = best
  := by
  have hvalues' : ∀ v ∈ values', P v := fun v hv => hvalues v (hperm.subset hv)
  have hfound : TwoLeast (nearestTwo far values') values' :=
    twoLeast_nearestTwo hP hfar hvalues' (fun v hv => hbelow v (hperm.subset hv))
      (hperm.length_eq ▸ hlength)
  exact hfound.eq hP hvalues' (h.perm hperm.symm)

end TwoLeast

/-! ### Exact arithmetic -/

/-- In a linear order the two least values are found whatever their order, if infinity stands for
the missing ones. -/
theorem exists_twoLeast_withTop {L : Type} [LinearOrder L] [Nonempty L] [Add L] {values : List L}
    (hlength : 2 ≤ values.length) :
  ∃ best, TwoLeast best values ∧ ∀ values' : List L, values'.Perm values →
    nearestTwo (⊤ : WithTop L) (values'.map (↑)) = (↑best.1, ↑best.2)
  := by
  obtain ⟨far, hfar⟩ := (List.finite_toSet values).bddAbove
  have hbest : TwoLeast (nearestTwo far values) values :=
    twoLeast_nearestTwo (linear_of_linearOrder L) trivial (fun _ _ => trivial)
      (fun v hv => hfar hv) hlength
  use nearestTwo far values, hbest
  intro values' hperm
  obtain ⟨hle, rest, hrest, hleast⟩ := hbest
  apply nearestTwo_eq (linear_of_linearOrder (WithTop L)) trivial (fun _ _ => trivial)
    (fun _ _ => le_top) _ _ (hperm.map _)
  · rwa [List.length_map]
  · refine ⟨WithTop.coe_le_coe.mpr hle, rest.map WithTop.some, hrest.map WithTop.some, ?_⟩
    intro v hv
    obtain ⟨w, hw, rfl⟩ := List.mem_map.mp hv
    exact WithTop.coe_le_coe.mpr (hleast w hw)

section Exact

variable {K : Type} [Field K] [LinearOrder K] [IsStrictOrderedRing K] {best : K × K}

/-- Whether the measures of the two least distances, in exact arithmetic, are within their
bounds. -/
structure Bounded (best : K × K) : Prop where
  quotient : Measure.quotient.value best ∈ Set.Icc (-1) 1
  difference : -1 ≤ Measure.difference.value best

theorem bounded_of_le (hnonneg : 0 ≤ best.1) (h : best.1 ≤ best.2) : Bounded best
  := by
  constructor
  · simp only [Measure.value]
    split
    · rename_i hpos
      have hlow : 0 ≤ best.1 / best.2 := div_nonneg hnonneg hpos.le
      have hhigh : best.1 / best.2 ≤ 1 := (div_le_one hpos).mpr h
      constructor <;> linarith
    · constructor <;> linarith
  · simp only [Measure.value]
    linarith

end Exact

/-! ### Distances -/

theorem linear_magnitude : Linear Binary64.Magnitude
  where
  total := Binary64.Magnitude.le_or_le
  trans := Binary64.le_of_le_of_le
  antisymm := Binary64.Magnitude.eq_of_le_of_le
  lt_iff := Binary64.Magnitude.lt_iff_not_le

/-- The cells around a place of two or three coordinates are visited, and if the distances to their
features are numbers, the two least ones are kept, in whatever order the cells are visited, and
measured; and the measures of their exact values, and those of exact distances, are within their
bounds. -/
theorem exists_twoLeast (K : Type) [Field K] [LinearOrder K] [IsStrictOrderedRing K]
    (seed : UInt64) (jitter : Float) {p : Place} (hdimension : p.length = 2 ∨ p.length = 3)
    (hnumber : ∀ cell ∈ neighbours p, (distance seed jitter p cell).isNaN = false) :
  Surround (neighbours p) p
    ∧ (∃ best, TwoLeast best ((neighbours p).map (distance seed jitter p))
      ∧ (∀ cells : List (List Int), cells.Perm (neighbours p) →
        nearestTwo Binary64.infinity (cells.map (distance seed jitter p)) = best)
      ∧ (∀ measure, atPlace seed measure jitter p = measure.value best)
      ∧ ∀ q r : ℚ, (Number.float best.1).value? = some (.finite q) →
        (Number.float best.2).value? = some (.finite r) → Bounded (q, r))
    ∧ ∀ exact : List Int → K, (∀ cell ∈ neighbours p, 0 ≤ exact cell) →
      ∃ best, TwoLeast best ((neighbours p).map exact)
        ∧ (∀ cells : List (List Int), cells.Perm (neighbours p) →
          nearestTwo (⊤ : WithTop K) (cells.map fun cell => ↑(exact cell)) = (↑best.1, ↑best.2))
        ∧ Bounded best
  := by
  have hsurround := surround_neighbours p
  have hlength : 2 ≤ (neighbours p).length := by
    rw [hsurround.count]
    rcases hdimension with h | h <;> rw [h] <;> decide
  refine ⟨hsurround, ?_, ?_⟩
  · have hmagnitude : ∀ d ∈ (neighbours p).map (distance seed jitter p),
        Binary64.Magnitude d := by
      intro d hd
      obtain ⟨cell, hcell, rfl⟩ := List.mem_map.mp hd
      exact Binary64.magnitude_sqrt (hnumber cell hcell)
    have hbelow : ∀ d ∈ (neighbours p).map (distance seed jitter p),
        d ≤ Binary64.infinity := fun d hd => (hmagnitude d hd).le_infinity
    have hbest := twoLeast_nearestTwo linear_magnitude Binary64.magnitude_infinity hmagnitude
      hbelow (by rwa [List.length_map])
    refine ⟨_, hbest, ?_, fun _ => rfl, ?_⟩
    · intro cells hperm
      exact nearestTwo_eq linear_magnitude Binary64.magnitude_infinity hmagnitude hbelow
        (by rwa [List.length_map]) hbest (hperm.map _)
    · intro q r hq hr
      exact bounded_of_le ((hmagnitude _ hbest.mem.1).value?_nonneg hq)
        (Binary64.value?_mono hbest.le hq hr)
  · intro exact hexact
    have hmany : 2 ≤ ((neighbours p).map exact).length := by rwa [List.length_map]
    obtain ⟨best, hbest, hfound⟩ := exists_twoLeast_withTop hmany
    refine ⟨best, hbest, ?_, ?_⟩
    · intro cells hperm
      have h := hfound _ (hperm.map exact)
      rwa [List.map_map] at h
    · obtain ⟨cell, hcell, hfirst⟩ := List.mem_map.mp hbest.mem.1
      exact bounded_of_le (hfirst ▸ hexact cell hcell) hbest.le

/-- The middle of a square, whose corners are the nearest features without jitter. -/
def middle : Place := [0.5, 0.5]

theorem near_middle : Near middle [0, 0]
  := by
  have hfloor : Binary64.floor? 0.5 = some 0 := by decide +kernel
  exact .cons ⟨hfloor, by decide⟩ (.cons ⟨hfloor, by decide⟩ .nil)

/-- The nine cells around the middle are visited, and equally near features are counted each. -/
theorem exists_twoLeast_middle :
  middle.length = 2
    ∧ (∀ cell ∈ neighbours middle, (distance 1 0.0 middle cell).isNaN = false)
    ∧ (neighbours middle).length = 9 ∧ (neighbours middle).Nodup
    ∧ (∀ c, c ∈ neighbours middle
      ↔ List.Forall₂ (fun n n' => n' = n - 1 ∨ n' = n ∨ n' = n + 1) [0, 0] c)
    ∧ TwoLeast ((0.5 : Float).sqrt, (0.5 : Float).sqrt)
      ((neighbours middle).map (distance 1 0.0 middle))
    ∧ ∃ q, (Number.float (0.5 : Float).sqrt).value? = some (.finite q) ∧ Bounded (q, q)
  := by
  have hdimension : middle.length = 2 := rfl
  have hnumber : ∀ cell ∈ neighbours middle,
      (distance 1 0.0 middle cell).isNaN = false := by decide +kernel
  have hpair : nearestTwo Binary64.infinity ((neighbours middle).map
      (distance 1 0.0 middle)) = ((0.5 : Float).sqrt, (0.5 : Float).sqrt) := by
    apply Prod.ext <;> apply Binary64.toBits_inj <;> decide +kernel
  have hparts : Binary64.parts? (0.5 : Float).sqrt = some (6369051672525773, -53) := by
    decide +kernel
  have hvalue : (Number.float (0.5 : Float).sqrt).value?
      = some (.finite (6369051672525773 * 2 ^ (-53 : Int))) := by
    simp [Number.value?, hparts]
  obtain ⟨hsurround, ⟨best, hbest, hfound, -, hbounded⟩, -⟩ :=
    exists_twoLeast ℚ 1 0.0 (.inl hdimension) hnumber
  obtain ⟨hnodup, hmem⟩ := hsurround.near _ near_middle
  obtain rfl := (hfound _ (.refl _)).symm.trans hpair
  exact ⟨hdimension, hnumber, hsurround.count, hnodup, hmem, hbest, _, hvalue,
    hbounded _ _ hvalue hvalue⟩

end AssetCanvas.Cellular
