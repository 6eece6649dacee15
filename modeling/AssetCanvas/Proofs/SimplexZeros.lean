import AssetCanvas.Preview.Noise.Simplex
import AssetCanvas.Proofs.Fault
import AssetCanvas.Proofs.SignedZeros

/-!
# Simplex noise at the two zeros

Simplex noise does not tell the two zeros apart: `Simplex.atPlace_alike`.  Its decisions are
comparisons, in which the zeros are the same, and what the vertices contribute is the same or a zero,
and added up from zero on.
-/

namespace AssetCanvas

open Binary64

theorem Number.floor_alike {x y : Float} (h : Alike x y) : Number.floor x = Number.floor y
  := by
  cases h with
  | refl => rfl
  | zeros hx hy =>
    have hzero : ∀ {x}, IsZero x → Number.floor x = .ok 0 := by
      rintro x (rfl | rfl) <;> decide +kernel
    rw [hzero hx, hzero hy]

namespace Simplex

/-- Sums that begin with zero agree if all summands are the same or zeros. -/
theorem foldl_plain {α : Type} {f g : Float → α → Float}
    (h : ∀ total a, Plain total → f total a = g total a ∧ Plain (f total a)) (items : List α)
    {total : Float} (htotal : Plain total) :
  items.foldl f total = items.foldl g total
  := by
  induction items generalizing total with
  | nil => rfl
  | cons a rest ih =>
    obtain ⟨hsame, hplain⟩ := h total a htotal
    rw [List.foldl_cons, List.foldl_cons, ← hsame, ih hplain]

/-! ### The plane -/

section Plane

variable {x x' y y' : Float} (hx : Alike x x') (hy : Alike y y')

include hx hy

theorem vertices2_alike : vertices2 x y = vertices2 x' y'
  := by
  have hsum := hx.add hy
  have hone := (Alike.refl 1.0).sub hsum
  have htwo := (Alike.refl 2.0).sub hsum
  simp only [vertices2, gt_iff_lt, hsum.le_iff (.refl 1.0), hx.lt_iff hone, hy.lt_iff hone,
    hy.lt_iff hx, htwo.lt_iff hx, htwo.lt_iff hy]

theorem slope2_alike (s : Shuffle) (i j : Int) :
  Alike (slope2 s i j x y) (slope2 s i j x' y')
  := ((Alike.refl _).mul hx).add ((Alike.refl _).mul hy)

/-- A vertex contributes the same to a sum that is not the negative zero. -/
theorem addVertex2_alike (s : Shuffle) (i j : Int) {total : Float} (htotal : Plain total)
    (v : Vertex2) :
  addVertex2 s ⟨i, j, x, y⟩ total v = addVertex2 s ⟨i, j, x', y'⟩ total v
    ∧ Plain (addVertex2 s ⟨i, j, x, y⟩ total v)
  := by
  have hdx := (hx.sub (.refl (Float.ofInt v.1))).sub (.refl (Float.ofInt (v.1 + v.2) * squish2))
  have hdy := (hy.sub (.refl (Float.ofInt v.2))).sub (.refl (Float.ofInt (v.1 + v.2) * squish2))
  have hnear := ((Alike.refl 2.0).sub (hdx.mul hdx)).sub (hdy.mul hdy)
  have hslope := slope2_alike hdx hdy s (i + v.1) (j + v.2)
  have hsquare := hnear.mul hnear
  have hterm := (hsquare.mul hsquare).mul hslope
  simp only [addVertex2, gt_iff_lt, ← (Alike.refl 0.0).lt_iff hnear]
  split
  · exact ⟨hterm.add_eq htotal, htotal.add _⟩
  · exact ⟨rfl, htotal⟩

theorem plane_alike (s : Shuffle) : plane s x y = plane s x' y'
  := by
  have hstretch := (hx.add hy).mul (.refl stretch2)
  have hu := hx.add hstretch
  have hv := hy.add hstretch
  have hcell : ∀ i j : Int, (vertices2 (x + (x + y) * stretch2 - Float.ofInt i)
        (y + (x + y) * stretch2 - Float.ofInt j)).foldl
        (addVertex2 s ⟨i, j, x - (Float.ofInt i + Float.ofInt (i + j) * squish2),
          y - (Float.ofInt j + Float.ofInt (i + j) * squish2)⟩) 0.0
      = (vertices2 (x' + (x' + y') * stretch2 - Float.ofInt i)
        (y' + (x' + y') * stretch2 - Float.ofInt j)).foldl
        (addVertex2 s ⟨i, j, x' - (Float.ofInt i + Float.ofInt (i + j) * squish2),
          y' - (Float.ofInt j + Float.ofInt (i + j) * squish2)⟩) 0.0 := by
    intro i j
    rw [vertices2_alike (hu.sub (.refl _)) (hv.sub (.refl _))]
    apply foldl_plain _ _ plain_zero
    intro total v htotal
    apply addVertex2_alike (hx.sub (.refl _)) (hy.sub (.refl _)) s i j htotal
  simp only [plane, ← Number.floor_alike hu, ← Number.floor_alike hv, hcell]

end Plane

/-! ### Space -/

/-- Two axes with scores, the same ones as two others and with scores that are the same or zeros. -/
structure SamePick (pick pick' : Axis × Float × Axis × Float) : Prop where
  first : pick.1 = pick'.1
  firstScore : Alike pick.2.1 pick'.2.1
  second : pick.2.2.1 = pick'.2.2.1
  secondScore : Alike pick.2.2.2 pick'.2.2.2

theorem SamePick.ite {c c' : Bool} (hc : c = c') {pick pick' other other' : Axis × Float × Axis × Float}
    (h : SamePick pick pick') (h' : SamePick other other') :
  SamePick (if c then pick else other) (if c' then pick' else other')
  := by
  subst hc
  cases c
  · exact h'
  · exact h

/-- A vertex of the octahedron, the same one as another and with a score that is the same or a
zero. -/
structure SameCandidate (c c' : Candidate) : Prop where
  far : c.far = c'.far
  axis : c.axis = c'.axis
  score : Alike c.score c'.score

namespace SameCandidate

theorem ofSum (axis : Axis) {sum sum' : Float} (h : Alike sum sum') :
  SameCandidate (.ofSum axis sum) (.ofSum axis sum')
  := by
  simp only [Candidate.ofSum, gt_iff_lt, (Alike.refl 1.0).lt_iff h]
  split
  · exact ⟨rfl, rfl, h.sub (.refl 1.0)⟩
  · exact ⟨rfl, rfl, (Alike.refl 1.0).sub h⟩

theorem nearestPair {a a' b b' c c' : Candidate} (ha : SameCandidate a a')
    (hb : SameCandidate b b') (hc : SameCandidate c c') :
  SameCandidate (nearestPair a b c).1 (nearestPair a' b' c').1
    ∧ SameCandidate (nearestPair a b c).2 (nearestPair a' b' c').2
  := by
  simp only [Simplex.nearestPair, gt_iff_lt, ha.score.le_iff hb.score, ha.score.lt_iff hc.score,
    hb.score.lt_iff ha.score, hb.score.lt_iff hc.score]
  split
  · exact ⟨hc, hb⟩
  · split
    · exact ⟨ha, hc⟩
    · exact ⟨ha, hb⟩

end SameCandidate

section Space

variable {x x' y y' z z' : Float} (hx : Alike x x') (hy : Alike y y') (hz : Alike z z')

include hx hy hz

theorem lowExtra_alike : lowExtra x y z = lowExtra x' y' z'
  := by
  have horigin := (Alike.refl 1.0).sub ((hx.add hy).add hz)
  have hpick : SamePick
      (if x ≥ y && z > y then (.x, x, .z, z)
        else if x < y && z > x then (.z, z, .y, y) else (.x, x, .y, y))
      (if x' ≥ y' && z' > y' then (.x, x', .z, z')
        else if x' < y' && z' > x' then (.z, z', .y, y') else (.x, x', .y, y')) := by
    apply SamePick.ite
    · simp only [ge_iff_le, gt_iff_lt, hy.le_iff hx, hy.lt_iff hz]
    · exact ⟨rfl, hx, rfl, hz⟩
    · apply SamePick.ite
      · simp only [gt_iff_lt, hx.lt_iff hy, hx.lt_iff hz]
      · exact ⟨rfl, hz, rfl, hy⟩
      · exact ⟨rfl, hx, rfl, hy⟩
  rw [lowExtra, lowExtra]
  generalize (if x ≥ y && z > y then _ else _ : Axis × Float × Axis × Float) = pick at hpick
  generalize (if x' ≥ y' && z' > y' then _ else _ : Axis × Float × Axis × Float) = pick' at hpick
  obtain ⟨a, scoreA, b, scoreB⟩ := pick
  obtain ⟨a', scoreA', b', scoreB'⟩ := pick'
  obtain ⟨rfl, hscoreA, rfl, hscoreB⟩ := hpick
  simp only [gt_iff_lt, hscoreA.lt_iff horigin, hscoreB.lt_iff horigin, hscoreA.lt_iff hscoreB]

theorem highExtra_alike : highExtra x y z = highExtra x' y' z'
  := by
  have hcorner := (Alike.refl 3.0).sub ((hx.add hy).add hz)
  have hpick : SamePick
      (if x ≤ y && z < y then (.x, x, .z, z)
        else if x > y && z < x then (.z, z, .y, y) else (.x, x, .y, y))
      (if x' ≤ y' && z' < y' then (.x, x', .z, z')
        else if x' > y' && z' < x' then (.z, z', .y, y') else (.x, x', .y, y')) := by
    apply SamePick.ite
    · simp only [hx.le_iff hy, hz.lt_iff hy]
    · exact ⟨rfl, hx, rfl, hz⟩
    · apply SamePick.ite
      · simp only [gt_iff_lt, hy.lt_iff hx, hz.lt_iff hx]
      · exact ⟨rfl, hz, rfl, hy⟩
      · exact ⟨rfl, hx, rfl, hy⟩
  rw [highExtra, highExtra]
  generalize (if x ≤ y && z < y then _ else _ : Axis × Float × Axis × Float) = pick at hpick
  generalize (if x' ≤ y' && z' < y' then _ else _ : Axis × Float × Axis × Float) = pick' at hpick
  obtain ⟨a, scoreA, b, scoreB⟩ := pick
  obtain ⟨a', scoreA', b', scoreB'⟩ := pick'
  obtain ⟨rfl, hscoreA, rfl, hscoreB⟩ := hpick
  simp only [hcorner.lt_iff hscoreA, hcorner.lt_iff hscoreB, hscoreB.lt_iff hscoreA]

theorem middleExtra_alike : middleExtra x y z = middleExtra x' y' z'
  := by
  have hpair := SameCandidate.nearestPair (SameCandidate.ofSum .z (hx.add hy))
    (SameCandidate.ofSum .y (hx.add hz)) (SameCandidate.ofSum .x (hy.add hz))
  rw [middleExtra, middleExtra]
  generalize nearestPair (.ofSum .z (x + y)) (.ofSum .y (x + z)) (.ofSum .x (y + z)) = pair at hpair
  generalize nearestPair (.ofSum .z (x' + y')) (.ofSum .y (x' + z')) (.ofSum .x (y' + z')) = pair'
    at hpair
  simp only [hpair.1.far, hpair.2.far, hpair.1.axis, hpair.2.axis]

theorem vertices3_alike : vertices3 x y z = vertices3 x' y' z'
  := by
  have hsum := (hx.add hy).add hz
  simp only [vertices3, ge_iff_le, hsum.le_iff (.refl 1.0), (Alike.refl 2.0).le_iff hsum,
    lowExtra_alike hx hy hz, highExtra_alike hx hy hz, middleExtra_alike hx hy hz]

theorem slope3_alike (s : Shuffle) (i j k : Int) :
  Alike (slope3 s i j k x y z) (slope3 s i j k x' y' z')
  := (((Alike.refl _).mul hx).add ((Alike.refl _).mul hy)).add ((Alike.refl _).mul hz)

theorem addVertex3_alike (s : Shuffle) (i j k : Int) {total : Float} (htotal : Plain total)
    (v : Vertex3) :
  addVertex3 s ⟨i, j, k, x, y, z⟩ total v = addVertex3 s ⟨i, j, k, x', y', z'⟩ total v
    ∧ Plain (addVertex3 s ⟨i, j, k, x, y, z⟩ total v)
  := by
  have hmoved : ∀ {d d' : Float}, Alike d d' → ∀ p q : Int,
      Alike (d - Float.ofInt p - Float.ofInt (v.early.sum + v.late.sum) * squish3 - Float.ofInt q)
        (d' - Float.ofInt p - Float.ofInt (v.early.sum + v.late.sum) * squish3
          - Float.ofInt q) :=
    fun hd p q => ((hd.sub (.refl _)).sub (.refl _)).sub (.refl _)
  have hdx := hmoved hx v.early.x v.late.x
  have hdy := hmoved hy v.early.y v.late.y
  have hdz := hmoved hz v.early.z v.late.z
  have hnear := (((Alike.refl 2.0).sub (hdx.mul hdx)).sub (hdy.mul hdy)).sub (hdz.mul hdz)
  have hslope := slope3_alike hdx hdy hdz s (i + v.early.x + v.late.x) (j + v.early.y + v.late.y)
    (k + v.early.z + v.late.z)
  have hsquare := hnear.mul hnear
  have hterm := (hsquare.mul hsquare).mul hslope
  simp only [addVertex3, gt_iff_lt, ← (Alike.refl 0.0).lt_iff hnear]
  split
  · exact ⟨hterm.add_eq htotal, htotal.add _⟩
  · exact ⟨rfl, htotal⟩

theorem space_alike (s : Shuffle) : space s x y z = space s x' y' z'
  := by
  have hstretch := ((hx.add hy).add hz).mul (.refl stretch3)
  have hu := hx.add hstretch
  have hv := hy.add hstretch
  have hw := hz.add hstretch
  have hcell : ∀ i j k : Int, (vertices3 (x + (x + y + z) * stretch3 - Float.ofInt i)
        (y + (x + y + z) * stretch3 - Float.ofInt j)
        (z + (x + y + z) * stretch3 - Float.ofInt k)).foldl
        (addVertex3 s ⟨i, j, k, x - (Float.ofInt i + Float.ofInt (i + j + k) * squish3),
          y - (Float.ofInt j + Float.ofInt (i + j + k) * squish3),
          z - (Float.ofInt k + Float.ofInt (i + j + k) * squish3)⟩) 0.0
      = (vertices3 (x' + (x' + y' + z') * stretch3 - Float.ofInt i)
        (y' + (x' + y' + z') * stretch3 - Float.ofInt j)
        (z' + (x' + y' + z') * stretch3 - Float.ofInt k)).foldl
        (addVertex3 s ⟨i, j, k, x' - (Float.ofInt i + Float.ofInt (i + j + k) * squish3),
          y' - (Float.ofInt j + Float.ofInt (i + j + k) * squish3),
          z' - (Float.ofInt k + Float.ofInt (i + j + k) * squish3)⟩) 0.0 := by
    intro i j k
    rw [vertices3_alike (hu.sub (.refl _)) (hv.sub (.refl _)) (hw.sub (.refl _))]
    apply foldl_plain _ _ plain_zero
    intro total v htotal
    apply addVertex3_alike (hx.sub (.refl _)) (hy.sub (.refl _)) (hz.sub (.refl _)) s i j k htotal
  simp only [space, ← Number.floor_alike hu, ← Number.floor_alike hv, ← Number.floor_alike hw,
    hcell]

end Space

/-- Simplex noise is the same at places whose coordinates are the same or zeros. -/
theorem atPlace_alike (s : Shuffle) {p q : Place} (h : List.Forall₂ Alike p q) :
  atPlace s p = atPlace s q
  := by
  match h with
  | .nil | .cons _ .nil | .cons _ (.cons _ (.cons _ (.cons _ _))) => rfl
  | .cons hx (.cons hy .nil) => apply plane_alike hx hy
  | .cons hx (.cons hy (.cons hz .nil)) => apply space_alike hx hy hz

end Simplex

end AssetCanvas
