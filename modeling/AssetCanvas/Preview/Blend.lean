/-!
# Smooth extrema

`Blend.smoothMin` and `Blend.smoothMax` are the minimum and the maximum of two numbers,
rounded off by a quadratic where the two are closer than a given width.  They are defined
for any arithmetic with the operations that they use.  Where two values cannot be compared,
because one is no number, `Blend.least` and `Blend.greatest` give what is no number either.
-/

namespace AssetCanvas.Blend

variable {α : Type}

/-- The lesser of two values; their sum if they cannot be compared. -/
def least [LE α] [DecidableLE α] [Add α] (a b : α) : α :=
  if a ≤ b then a else if b ≤ a then b else a + b

/-- The greater of two values; their sum if they cannot be compared. -/
def greatest [LE α] [DecidableLE α] [Add α] (a b : α) : α :=
  if b ≤ a then a else if a ≤ b then b else a + b

/-- A value moved into the interval from `low` to `high`. -/
def clamp [LE α] [DecidableLE α] [Add α] (low high a : α) : α := greatest low (least high a)

variable [LE α] [DecidableLE α] [Add α] [Sub α] [Mul α] [Div α] [Neg α]
  [OfNat α 0] [OfNat α 1] [OfNat α 2]

/-- The minimum of `a` and `b`, smooth where they differ by less than `width`. -/
def smoothMin (a b width : α) : α :=
  if width ≤ 0 then
    least a b
  else
    let h := clamp 0 1 (1 / 2 + (b - a) / 2 / width)
    b + (a - b) * h - width * h * (1 - h)

/-- The maximum of `a` and `b`, smooth where they differ by less than `width`. -/
def smoothMax (a b width : α) : α := -smoothMin (-a) (-b) width

end AssetCanvas.Blend
