import AssetCanvas.Json.Spelling
import AssetCanvas.Number.Binary64
import AssetCanvas.Random.Sha256

/-!
# Seeds of noise

The seed of a noise node may be a number or a text.  `NoiseSeed.derive` mixes it with the
seed of the evaluation, so that another evaluation seed changes every noise.  Other values are read
by their spellings; `NoiseSeed.ofField` is the seed of a field that may have none.
-/

namespace AssetCanvas.NoiseSeed

/-- The number of derived seeds. -/
def range : Int := 0x80000000

/-- The factor of the evaluation seed.  It is odd, so evaluation seeds that differ modulo
`range` are mixed differently. -/
def factor : Int := 1013904223

/-- The integer of a seed field: an integer stands for itself, a float for its integer part,
and every other value for the hash of its spelling; a missing seed is zero. -/
def raw : Json → Int
  | .null => 0
  | .bool _ => 0
  | .int n => n
  | .float x => (Binary64.truncate? x).getD (Sha256.textHash (Json.spelling (.float x)))
  | v => Sha256.textHash v.spelling

/-- The seed of a field and an evaluation seed. -/
def derive (field : Json) (base : Int) : Int := (raw field + base * factor) % range

/-- The seed of a field and an evaluation seed, where the field can be read: a value with parts has
to have a spelling. -/
def ofField (field : Json) (base : Int) : Except Fault Int :=
  match field.key? with
  | some _ => .ok (derive field base)
  | none => do
    let _ ← field.spelled
    return derive field base

/-- The seed that is `n` after another one. -/
def shifted (seed : Int) (n : Nat) : Int := (seed + n) % range

end AssetCanvas.NoiseSeed
