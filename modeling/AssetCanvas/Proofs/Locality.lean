import AssetCanvas.Proofs.Correspondence
import AssetCanvas.Proofs.HandlerScripts
import AssetCanvas.Proofs.Sums
import AssetCanvas.Proofs.Tabulation

/-!
# Handlers point by point

A density handler computes the densities of a whole list of points.  If it succeeds at some points,
then at any other points it follows, `Handler.Local`: the densities at both are those of one
function of the point, `Density.Along`, or simplex noise runs into an unbounded place, or a source
is refused that was there before.

There are two exceptions.  A curve whose points have no order is searched for every value from the
place of the value before, so the density at a point depends on the points before it.  A curve is
steady, `Curve.Steady`, if its points have an order or are so few that they are searched from the
front.  And a mean of eight densities or more adds them in another order at a single point than at
several ones.  `Density.local_handlerOf` is about nodes that are steady in both ways,
`Density.Scope.Steady`.
-/

namespace AssetCanvas

open Requests

/-! ### Curves -/

namespace Curve

/-- Whether the points of a curve have an order, or are searched from the front. -/
def Steady (c : Curve) : Prop :=
  isOrdered c.points = true ∨ c.points.length ≤ Bisection.shortLength

/-- In a short list a number is found from anywhere. -/
theorem locate_eq {numbers : Array Float} (h : numbers.size ≤ Bisection.shortLength) (x : Float)
    (before : Nat) :
  Bisection.locate numbers x before = Bisection.locate numbers x 0
  := by
  simp only [Bisection.locate, if_pos h]

/-- The value at a place that is searched from the front. -/
def valueFromFront (c : Curve) (v : Float) : Float :=
  if v.isNaN then v
  else valueFrom c.points.toArray v (Bisection.locate (c.points.toArray.map Prod.fst) v 0)

theorem foldl_searchNext {c : Curve} (h : c.points.length ≤ Bisection.shortLength)
    (vs : List Float) (state : Array Float × Nat) :
  (vs.foldl (searchNext c.points.toArray (c.points.toArray.map Prod.fst)) state).1.toList
    = state.1.toList ++ vs.map c.valueFromFront
  := by
  have hsize : (c.points.toArray.map Prod.fst).size ≤ Bisection.shortLength := by simpa using h
  induction vs generalizing state with
  | nil => simp
  | cons v rest ih =>
    rw [List.foldl_cons, ih, List.map_cons, searchNext, valueFromFront]
    split
    · simp
    · rw [locate_eq hsize]
      simp

/-- The values of a steady curve are those of a function. -/
theorem Steady.exists_values {c : Curve} (h : c.Steady) : ∃ f, ∀ vs, c.values vs = vs.map f
  := by
  cases hordered : isOrdered c.points with
  | true => exact ⟨c.value, fun vs => by rw [values, if_pos hordered]⟩
  | false =>
    have hshort := h.resolve_left (by simp [hordered])
    use c.valueFromFront
    intro vs
    rw [values, hordered, if_neg (by decide), searched, foldl_searchNext hshort]
    rfl

/-- A curve through points whose places are numbers is steady. -/
theorem steady_of_ofPoints? {points : List CurvePoint} {c : Curve} (h : ofPoints? points = some c)
    (hordered : isOrdered points = true) :
  c.Steady
  := by
  have hpoints : c.points = order points := by
    rw [ofPoints?] at h
    split at h
    · next horder => rw [horder, ← Option.some.inj h, Curve.points]
    · cases h
  left
  rw [hpoints, order, if_pos hordered]
  apply List.all_eq_true.mpr
  intro p hp
  apply List.all_eq_true.mp hordered p (List.mem_mergeSort.mp hp)

/-- A curve with a point whose place is no number. -/
def unordered : Curve :=
  ⟨(0.0, 0.0), (2.0, 1.0), [(0.0 / 0.0, 2.0), (1.0, 3.0), (3.0, 4.0)]⟩

/-- The value of the curve at one is another one after a search for two. -/
theorem not_exists_values_unordered : ¬ ∃ f, ∀ vs, unordered.values vs = vs.map f
  := by
  rintro ⟨f, hf⟩
  have hne : (unordered.values [2.0, 1.0]).drop 1 ≠ unordered.values [1.0] := by decide +kernel
  rw [hf, hf] at hne
  exact hne rfl

end Curve

namespace Density

/-! ### Functions of the point -/

section Along

variable {α β γ : Type} {ps ps' : List Point}

/-- Whether two lists are the values of one function at two lists of points. -/
def Along (ps ps' : List Point) (xs xs' : List α) : Prop :=
  ∃ f : Point → α, xs = ps.map f ∧ xs' = ps'.map f

namespace Along

theorem of (f : Point → α) : Along ps ps' (ps.map f) (ps'.map f) := ⟨f, rfl, rfl⟩

theorem refl : Along ps ps' ps ps' := ⟨id, ps.map_id.symm, ps'.map_id.symm⟩

theorem map {xs xs' : List α} (h : Along ps ps' xs xs') (f : α → β) :
  Along ps ps' (xs.map f) (xs'.map f)
  := by
  obtain ⟨g, rfl, rfl⟩ := h
  exact ⟨f ∘ g, by rw [List.map_map], by rw [List.map_map]⟩

theorem zipWith {xs xs' : List α} {ys ys' : List β} (h : Along ps ps' xs xs')
    (h' : Along ps ps' ys ys') (f : α → β → γ) :
  Along ps ps' (xs.zipWith f ys) (xs'.zipWith f ys')
  := by
  obtain ⟨g, rfl, rfl⟩ := h
  obtain ⟨g', rfl, rfl⟩ := h'
  use fun p => f (g p) (g' p)
  simp only [List.zipWith_map, List.zipWith_self, and_self]

theorem zip {xs xs' : List α} {ys ys' : List β} (h : Along ps ps' xs xs')
    (h' : Along ps ps' ys ys') :
  Along ps ps' (xs.zip ys) (xs'.zip ys')
  := h.zipWith h' Prod.mk

/-- A function of a point that is a function of the point is one. -/
theorem trans {qs qs' : List Point} {xs xs' : List α} (h : Along ps ps' qs qs')
    (h' : Along qs qs' xs xs') :
  Along ps ps' xs xs'
  := by
  obtain ⟨g, rfl, rfl⟩ := h'
  exact h.map g

theorem lengths {xs xs' : List α} (h : Along ps ps' xs xs') :
  xs.length = ps.length ∧ xs'.length = ps'.length
  := by
  obtain ⟨f, rfl, rfl⟩ := h
  simp

theorem subset {xs xs' : List α} (h : Along ps ps' xs xs') (hsub : ps' ⊆ ps) : xs' ⊆ xs
  := by
  obtain ⟨f, rfl, rfl⟩ := h
  exact List.map_subset f hsub

theorem foldl {xss xss' : List (List Float)} (h : List.Forall₂ (Along ps ps') xss xss')
    (f : Float → Float → Float) {xs xs' : List Float} (hxs : Along ps ps' xs xs') :
  Along ps ps' (xss.foldl (List.zipWith f) xs) (xss'.foldl (List.zipWith f) xs')
  := by
  induction h generalizing xs xs' with
  | nil => exact hxs
  | cons hys _ ih => exact ih (hxs.zipWith hys f)

/-- Lists that are functions of the point are so one by one. -/
theorem exists_functions {xss xss' : List (List α)} (h : List.Forall₂ (Along ps ps') xss xss') :
  ∃ fs : List (Point → α), xss = fs.map (fun f => ps.map f) ∧ xss' = fs.map fun f => ps'.map f
  := by
  induction h with
  | nil => exact ⟨[], rfl, rfl⟩
  | cons hxs _ ih =>
    obtain ⟨f, rfl, rfl⟩ := hxs
    obtain ⟨fs, rfl, rfl⟩ := ih
    exact ⟨f :: fs, rfl, rfl⟩

/-- The combination of functions of the point. -/
theorem combined {xss xss' : List (List Float)} (h : List.Forall₂ (Along ps ps') xss xss')
    (f : Float → Float → Float) :
  Along ps ps' (combined f ps xss) (combined f ps' xss')
  := by
  cases h with
  | nil => apply of
  | cons hxs hrest => exact foldl hrest f hxs

end Along

/-- Sums of functions of the point are one, if there are few of them or there is a single point on
both sides or on none. -/
theorem Along.totals {xss xss' : List (List Float)} (h : List.Forall₂ (Along ps ps') xss xss')
    (hsame : xss.length < Summation.laneCount ∨ (ps.length = 1 ↔ ps'.length = 1)) :
  Along ps ps' (totals ps xss) (totals ps' xss')
  := by
  obtain ⟨fs, rfl, rfl⟩ := Along.exists_functions h
  by_cases hmany : fs.length < Summation.laneCount ∨ ps.length ≠ 1
  · have hmany' : fs.length < Summation.laneCount ∨ ps'.length ≠ 1 := by
      rw [List.length_map] at hsame
      tauto
    rw [totals_eq (by simpa using hmany) (by simp), totals_eq (by simpa using hmany') (by simp)]
    exact Along.foldl h (· + ·) (.of _)
  · rw [List.length_map] at hsame
    obtain ⟨p, rfl⟩ := List.length_eq_one_iff.mp (by tauto : ps.length = 1)
    obtain ⟨p', rfl⟩ := List.length_eq_one_iff.mp (by tauto : ps'.length = 1)
    rw [totals_singleton, totals_singleton]
    exact ⟨fun q => Summation.row 0.0 (fs.map (· q)), rfl, rfl⟩

end Along

namespace Scope

/-- Requests for the densities of one source of a node at as many points correspond, and are answered
by a function of the point.  Where the second points are among the first ones, so are those of the
requests. -/
def sources (s : Scope) (ps ps' : List Point) : Pairing (String × List Point) (List Float) where
  request r r' := s.IsSource r ∧ r.1 = r'.1
    ∧ (r.2.length = ps.length ∧ r'.2.length = ps'.length) ∧ (ps' ⊆ ps → r'.2 ⊆ r.2)
  answer r r' := Along r.2 r'.2

/-- Whether the curves that a node of a type reads are steady, and the mean it takes is one of few
densities, or taken at a single point both times or neither time. -/
structure Steady (s : Scope) (type : String) (ps ps' : List Point) : Prop where
  spline : type = "SplineFunction" → ∀ v c, s.field "Points" = .ok v →
    Curve.ofJson? v = .ok (some c) → c.Steady
  curve : ∀ port c, s.curve? port = .ok (some c) → c.Steady
  average : type = "AverageFunction" →
    s.indexedPorts.length < Summation.laneCount ∨ (ps.length = 1 ↔ ps'.length = 1)

variable {s : Scope} {type : String} {flaw : Prop} {ps ps' qs qs' : List Point}

/-! ### What is read -/

section Reads

variable {K : Pairing (String × List Point) (List Float)}

theorem follows_field (key : String) :
  Follows K (Read (s.field key)) flaw (fun replies => (s.answered replies).field key)
    (fun replies => (s.answered replies).field key)
  := .reread (s.field key)

theorem follows_number (key : String) (default : Float) :
  Follows K (Read (s.number key default)) flaw
    (fun replies => (s.answered replies).number key default)
    (fun replies => (s.answered replies).number key default)
  := .reread (s.number key default)

theorem follows_numberOf (key older : String) (default : Float) :
  Follows K (Read (s.numberOf key older default)) flaw
    (fun replies => (s.answered replies).numberOf key older default)
    (fun replies => (s.answered replies).numberOf key older default)
  := .reread (s.numberOf key older default)

theorem follows_fractalOf (octaves : Float) :
  Follows K (Read (fractalOf s octaves)) flaw
    (fun replies => fractalOf (s.answered replies) octaves)
    (fun replies => fractalOf (s.answered replies) octaves)
  := .reread (fractalOf s octaves)

theorem follows_noiseSeed :
  Follows K (Read (noiseSeed s)) flaw (fun replies => noiseSeed (s.answered replies))
    (fun replies => noiseSeed (s.answered replies))
  := .reread (noiseSeed s)

theorem follows_simplex (domain : Domain) :
  Follows K (Read (simplex s domain)) flaw
    (fun replies => simplex (s.answered replies) domain)
    (fun replies => simplex (s.answered replies) domain)
  := .reread (simplex s domain)

theorem follows_measureOf :
  Follows K (Read (measureOf s)) flaw (fun replies => measureOf (s.answered replies))
    (fun replies => measureOf (s.answered replies))
  := .reread (measureOf s)

theorem follows_amplified {values values' : List Float} (h : Along ps ps' values values') :
  Follows K (Along ps ps') flaw (fun replies => amplified (s.answered replies) values)
    (fun replies => amplified (s.answered replies) values')
  := by
  apply (follows_number _ _).map
  rintro amplitude _ ⟨-, rfl⟩
  apply h.map

theorem Steady.follows_alongCurve (hs : s.Steady type ps ps') (port : String)
    {values values' : List Float} (h : Along ps ps' values values') :
  Follows K (Along ps ps') flaw
    (fun replies => (s.answered replies).alongCurve port values)
    (fun replies => (s.answered replies).alongCurve port values')
  := by
  apply (Follows.reread (s.curve? port)).bind
  rintro curve _ ⟨hcurve, rfl⟩
  cases curve with
  | none => exact .pure h
  | some c =>
    obtain ⟨f, hf⟩ := (hs.curve port c hcurve).exists_values
    apply Follows.pure
    rw [hf, hf]
    apply h.map

/-- Which operation is made may depend on whether a port has a source. -/
theorem follows_ite {α : Type} {R : α → α → Prop} (port : String)
    {first first' second second' : Replies → Except Fault α}
    (h : Follows K R flaw first second) (h' : Follows K R flaw first' second') :
  Follows K R flaw
    (fun replies => if (s.answered replies).has port = true then first replies else first' replies)
    (fun replies =>
      if (s.answered replies).has port = true then second replies else second' replies)
  := by
  have hport : ∀ replies, (s.answered replies).has port = s.has port := fun _ => rfl
  simp only [hport]
  split
  · exact h
  · exact h'

end Reads

/-! ### What is asked for -/

theorem follows_input (port : String) (h : Along ps ps' qs qs') :
  Follows (s.sources ps ps') (Along ps ps') flaw (fun replies => (s.answered replies).input port qs)
    (fun replies => (s.answered replies).input port qs')
  := by
  simp only [input, answered]
  cases hsource : Entries.find? s.inputs port with
  | none => exact .pure (h.map _)
  | some source =>
    have hrequest : (s.sources ps ps').request (source, qs) (source, qs') :=
      ⟨⟨port, hsource⟩, rfl, h.lengths, h.subset⟩
    apply (Follows.request hrequest).mono
    intro values values' hvalues
    apply h.trans hvalues

theorem follows_indexedInputs (h : Along ps ps' qs qs') :
  Follows (s.sources ps ps') (List.Forall₂ (Along ps ps')) flaw
    (fun replies => (s.answered replies).indexedInputs qs)
    (fun replies => (s.answered replies).indexedInputs qs')
  := by
  have hports : ∀ replies, (s.answered replies).indexedPorts = s.indexedPorts := fun _ => rfl
  simp only [indexedInputs, hports]
  apply Follows.mapM
  intro port _
  apply follows_input port h

theorem follows_slope (ahead behind : Point → Point) (factor : Float) :
  Follows (s.sources ps ps') (Along ps ps') flaw
    (fun replies => slope (s.answered replies) ps ahead behind factor)
    (fun replies => slope (s.answered replies) ps' ahead behind factor)
  := by
  apply (follows_input _ (.of ahead)).bind
  intro a a' ha
  apply (follows_input _ (.of behind)).map
  intro b b' hb
  apply ha.zipWith hb

end Scope

/-- Whether a handler follows, at some points, what it does at others. -/
def Handler.Local (type : String) (handler : Handler) (flaw : Flaw) : Prop :=
  ∀ (s : Scope) (ps ps' : List Point), s.Steady type ps ps' →
    Follows (s.sources ps ps') (Along ps ps') (ps' ⊆ ps → flaw s ps')
      (fun replies => handler (s.answered replies) ps)
      (fun replies => handler (s.answered replies) ps')

end Density

end AssetCanvas
