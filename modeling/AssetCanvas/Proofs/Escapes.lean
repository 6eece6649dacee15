import AssetCanvas.Json.Printer
import AssetCanvas.Json.Token
import Mathlib.Tactic.Common

/-!
# Strings in JSON text

A string is written in ASCII: quotes, backslashes and control characters as escapes of one letter
or by their number, every other character beyond ASCII by the numbers of its code units.  The units
of a character are `Token.unitsOf`; what is written for a character is read back as its units,
`Token.units?_escapeChar`, the units of a text make up the text, `Token.ofUnits_unitsOf`, and the
quotes end where they should, `Token.lexFrom_renderString`.
-/

namespace AssetCanvas

/-! ### Hexadecimal digits -/

namespace Json

theorem toList_hex_one {n : Nat} (h : n < 16) : (hex 1 n).toList = [Nat.digitChar n]
  := by
  rw [hex, String.toList_ofList, Nat.toDigits_of_lt_base h]
  rfl

/-- One more place takes one more digit, a zero in front if need be. -/
theorem toList_hex_succ (width n : Nat) :
  (hex (width + 2) n).toList = (hex (width + 1) (n / 16)).toList ++ [Nat.digitChar (n % 16)]
  := by
  simp only [hex, String.toList_ofList]
  rcases Nat.lt_or_ge n 16 with hsmall | hlarge
  · rw [Nat.toDigits_of_lt_base hsmall, Nat.div_eq_of_lt hsmall, Nat.mod_eq_of_lt hsmall]
    simp [List.replicate_succ']
  · rw [Nat.toDigits_of_base_le (by decide) hlarge]
    simp

/-- A number of sixteen bits has four hexadecimal digits. -/
theorem toList_hex_four {n : Nat} (h : n < 0x10000) :
  (hex 4 n).toList = [Nat.digitChar (n / 4096), Nat.digitChar (n / 256 % 16),
    Nat.digitChar (n / 16 % 16), Nat.digitChar (n % 16)]
  := by
  rw [toList_hex_succ, toList_hex_succ, toList_hex_succ, toList_hex_one (by omega)]
  simp only [Nat.div_div_eq_div_mul]
  rfl

end Json

namespace Token

theorem hexDigit?_digitChar : ∀ d < 16, hexDigit? (Nat.digitChar d) = some d
  := by decide

theorem unit?_digitChar {n : Nat} (h : n < 0x10000) :
  unit? (Nat.digitChar (n / 4096)) (Nat.digitChar (n / 256 % 16)) (Nat.digitChar (n / 16 % 16))
    (Nat.digitChar (n % 16)) = some n
  := by
  have hdigit (m : Nat) : hexDigit? (Nat.digitChar (m % 16)) = some (m % 16) :=
    hexDigit?_digitChar _ (Nat.mod_lt m (by decide))
  rw [unit?, hexDigit?_digitChar (n / 4096) (by omega), hdigit, hdigit, hdigit]
  simp only [Option.bind_eq_bind, Option.bind_some, Option.pure_def, Option.some.injEq]
  omega

/-! ### Code units -/

/-- The code units of a character: one, or a pair for a character beyond sixteen bits. -/
def unitsOf (c : Char) : List Nat :=
  if c.toNat < 0x10000 then [c.toNat]
  else [0xD800 + (c.toNat - 0x10000) / 0x400, 0xDC00 + (c.toNat - 0x10000) % 0x400]

theorem units?_unitEscape {n : Nat} (h : n < 0x10000) (rest : List Char) :
  units? ((Json.unitEscape n).toList ++ rest) = (units? rest).map (n :: ·)
  := by
  have hlist : (Json.unitEscape n).toList ++ rest
      = '\\' :: 'u' :: ((Json.hex 4 n).toList ++ rest) := by
    simp [Json.unitEscape]
  rw [hlist, Json.toList_hex_four h]
  simp only [List.cons_append, List.nil_append, units?, unit?_digitChar h]
  cases units? rest <;> rfl

theorem units?_plain {c : Char} (hcontrol : 0x20 ≤ c.toNat) (hslash : c ≠ '\\')
    (rest : List Char) :
  units? (c :: rest) = (units? rest).map (c.toNat :: ·)
  := by
  have hlow : ¬ c.toNat < 0x20 := by omega
  simp [units?, hslash, hlow]

theorem units?_escaped {c e : Char} (hc : c ≠ 'u') (he : escaped? c = some e) (rest : List Char) :
  units? ('\\' :: c :: rest) = (units? rest).map (e.toNat :: ·)
  := by
  rw [units?, he]
  · cases units? rest <;> rfl
  · rintro _ _ _ _ _ rfl
    exact absurd rfl hc

theorem units?_unitEscapes {units : List Nat} (h : ∀ n ∈ units, n < 0x10000) (rest : List Char) :
  units? ((String.join (units.map Json.unitEscape)).toList ++ rest)
    = (units? rest).map (units ++ ·)
  := by
  rw [String.toList_join]
  induction units with
  | nil => simp
  | cons n units ih =>
    obtain ⟨hn, hunits⟩ := List.forall_mem_cons.mp h
    rw [List.map_cons, List.flatMap_cons, List.append_assoc, units?_unitEscape hn, ih hunits]
    cases units? rest <;> rfl

/-- No character is half of a pair. -/
theorem toNat_range (c : Char) : c.toNat < 0xD800 ∨ 0xDFFF < c.toNat ∧ c.toNat < 0x110000
  := c.valid

theorem unitsOf_of_lt {c : Char} (h : c.toNat < 0x10000) : unitsOf c = [c.toNat]
  := if_pos h

theorem unitsOf_lt (c : Char) : ∀ n ∈ unitsOf c, n < 0x10000
  := by
  have hrange := toNat_range c
  by_cases h : c.toNat < 0x10000
  · rw [unitsOf_of_lt h]
    simpa using h
  · rw [unitsOf, if_neg h, List.forall_mem_cons, List.forall_mem_singleton]
    omega

/-- The characters that are written as escapes of one letter, with the letters. -/
def letters : List (Char × Char) :=
  [('"', '"'), ('\\', '\\'), ('\n', 'n'), ('\r', 'r'), ('\t', 't'), (Char.ofNat 0x0C, 'f'),
    (Char.ofNat 0x08, 'b')]

theorem escapeChar_letter :
  ∀ entry ∈ letters, entry.2 ≠ 'u' ∧ escaped? entry.2 = some entry.1 ∧ entry.1.toNat < 0x10000
    ∧ (Json.escapeChar entry.1).toList = ['\\', entry.2]
  := by decide

/-- A character is written as an escape of one letter, as itself, or by its units. -/
theorem escapeChar_cases (c : Char) :
  (∃ letter ≠ 'u', escaped? letter = some c ∧ unitsOf c = [c.toNat]
      ∧ (Json.escapeChar c).toList = ['\\', letter])
    ∨ (0x20 ≤ c.toNat ∧ c ≠ '"' ∧ c ≠ '\\' ∧ unitsOf c = [c.toNat]
      ∧ (Json.escapeChar c).toList = [c])
    ∨ Json.escapeChar c = String.join ((unitsOf c).map Json.unitEscape)
  := by
  by_cases hletter : c ∈ letters.map Prod.fst
  · obtain ⟨entry, hentry, rfl⟩ := List.mem_map.mp hletter
    obtain ⟨hne, hescaped, hsmall, htext⟩ := escapeChar_letter entry hentry
    exact .inl ⟨entry.2, hne, hescaped, unitsOf_of_lt hsmall, htext⟩
  have hcode : ∀ n, c ≠ Char.ofNat n → c.toNat ≠ n := by
    rintro n hne rfl
    exact hne (Char.ofNat_toNat c).symm
  simp only [letters, List.map_cons, List.map_nil, List.mem_cons, List.not_mem_nil, or_false,
    not_or] at hletter
  obtain ⟨hquote, hslash, hline, hreturn, htab, hform, hback⟩ := hletter
  right
  rw [Json.escapeChar, if_neg hquote, if_neg hslash, if_neg hline, if_neg hreturn, if_neg htab,
    if_neg (hcode _ hform), if_neg (hcode _ hback)]
  by_cases hplain : 0x20 ≤ c.toNat ∧ c.toNat ≤ 0x7E
  · left
    exact ⟨hplain.1, hquote, hslash, unitsOf_of_lt (by omega), by simp [hplain]⟩
  · right
    rw [if_neg (by simpa using hplain), ← String.toList_inj, String.toList_join, List.flatMap_map]
    by_cases hsmall : c.toNat < 0x10000
    · simp [if_pos hsmall, unitsOf_of_lt hsmall]
    · rw [if_neg hsmall, unitsOf, if_neg hsmall]
      simp

/-- What is written for a character is read back as its units. -/
theorem units?_escapeChar (c : Char) (rest : List Char) :
  units? ((Json.escapeChar c).toList ++ rest) = (units? rest).map (unitsOf c ++ ·)
  := by
  rcases escapeChar_cases c with ⟨letter, hne, hletter, hunits, htext⟩
    | ⟨hlow, -, hslash, hunits, htext⟩ | htext
  · rw [htext, hunits]
    exact units?_escaped hne hletter rest
  · rw [htext, hunits]
    exact units?_plain hlow hslash rest
  · rw [htext]
    exact units?_unitEscapes (unitsOf_lt c) rest

/-- The units of a text are those of its characters. -/
theorem units?_escapeChars (cs : List Char) :
  units? (cs.flatMap fun c => (Json.escapeChar c).toList) = some (cs.flatMap unitsOf)
  := by
  induction cs with
  | nil => rfl
  | cons c rest ih =>
    rw [List.flatMap_cons, units?_escapeChar, ih, List.flatMap_cons]
    rfl

/-- The units of a character make up the character, whatever follows. -/
theorem ofUnits_unitsOf_append (c : Char) (units : List Nat) :
  ofUnits (unitsOf c ++ units) = c :: ofUnits units
  := by
  have hrange := toNat_range c
  rw [unitsOf]
  split
  next h =>
    have hhigh : isHigh c.toNat = false := by
      simp only [isHigh, Bool.and_eq_false_iff, decide_eq_false_iff_not]
      omega
    have hlow : isLow c.toNat = false := by
      simp only [isLow, Bool.and_eq_false_iff, decide_eq_false_iff_not]
      omega
    have hchar : unitChar c.toNat = c := by
      rw [unitChar, hhigh, hlow]
      simp
    cases units with
    | nil => simp [ofUnits, hchar]
    | cons low rest => simp [ofUnits, hhigh, hchar]
  next h =>
    have hhigh : isHigh (0xD800 + (c.toNat - 0x10000) / 0x400) = true := by
      simp only [isHigh, Bool.and_eq_true, decide_eq_true_eq]
      omega
    have hlow : isLow (0xDC00 + (c.toNat - 0x10000) % 0x400) = true := by
      simp only [isLow, Bool.and_eq_true, decide_eq_true_eq]
      omega
    have hsum : 0x10000 + (0xD800 + (c.toNat - 0x10000) / 0x400 - 0xD800) * 0x400
        + (0xDC00 + (c.toNat - 0x10000) % 0x400 - 0xDC00) = c.toNat := by
      omega
    simp only [List.cons_append, List.nil_append, ofUnits, hhigh, hlow, Bool.and_self, if_true,
      hsum, Char.ofNat_toNat]

theorem ofUnits_unitsOf (cs : List Char) : ofUnits (cs.flatMap unitsOf) = cs
  := by
  induction cs with
  | nil => rfl
  | cons c rest ih => rw [List.flatMap_cons, ofUnits_unitsOf_append, ih]

/-! ### Quotes -/

/-- Characters between quotes are read one after the other. -/
theorem lexFrom_quoted {cs : List Char} (h : ∀ c ∈ cs, c ≠ '"' ∧ c ≠ '\\') (read : List Char)
    (tokens : List Token) (rest : List Char) :
  lexFrom (.quoted read) tokens (cs ++ rest) = lexFrom (.quoted (cs.reverse ++ read)) tokens rest
  := by
  induction cs generalizing read with
  | nil => rfl
  | cons c cs ih =>
    obtain ⟨⟨hquote, hslash⟩, hcs⟩ := List.forall_mem_cons.mp h
    rw [List.cons_append, lexFrom]
    simp only [step, hquote, hslash, if_false, ih hcs]
    simp

theorem lexFrom_escaped (letter : Char) (read : List Char) (tokens : List Token)
    (rest : List Char) :
  lexFrom (.quoted read) tokens ('\\' :: letter :: rest)
    = lexFrom (.quoted (letter :: '\\' :: read)) tokens rest
  := rfl

theorem lexFrom_unitEscape {n : Nat} (h : n < 0x10000) (read : List Char) (tokens : List Token)
    (rest : List Char) :
  lexFrom (.quoted read) tokens ((Json.unitEscape n).toList ++ rest)
    = lexFrom (.quoted ((Json.unitEscape n).toList.reverse ++ read)) tokens rest
  := by
  have hplain : ∀ d < 16, Nat.digitChar d ≠ '"' ∧ Nat.digitChar d ≠ '\\' := by decide
  have hdigits : ∀ c ∈ (Json.hex 4 n).toList, c ≠ '"' ∧ c ≠ '\\' := by
    rw [Json.toList_hex_four h]
    simp only [List.forall_mem_cons]
    refine ⟨hplain _ (by omega), hplain _ (by omega), hplain _ (by omega), hplain _ (by omega), ?_⟩
    simp
  have hlist : (Json.unitEscape n).toList = '\\' :: 'u' :: (Json.hex 4 n).toList := by
    simp [Json.unitEscape]
  rw [hlist, List.cons_append, List.cons_append, lexFrom_escaped, lexFrom_quoted hdigits]
  simp

theorem lexFrom_unitEscapes {units : List Nat} (h : ∀ n ∈ units, n < 0x10000) (read : List Char)
    (tokens : List Token) (rest : List Char) :
  lexFrom (.quoted read) tokens ((String.join (units.map Json.unitEscape)).toList ++ rest)
    = lexFrom (.quoted ((String.join (units.map Json.unitEscape)).toList.reverse ++ read))
      tokens rest
  := by
  rw [String.toList_join]
  induction units generalizing read with
  | nil => rfl
  | cons n units ih =>
    obtain ⟨hn, hunits⟩ := List.forall_mem_cons.mp h
    rw [List.map_cons, List.flatMap_cons, List.append_assoc, lexFrom_unitEscape hn, ih hunits,
      List.reverse_append, List.append_assoc]

/-- What is written for a character does not end the string. -/
theorem lexFrom_escapeChar (c : Char) (read : List Char) (tokens : List Token)
    (rest : List Char) :
  lexFrom (.quoted read) tokens ((Json.escapeChar c).toList ++ rest)
    = lexFrom (.quoted ((Json.escapeChar c).toList.reverse ++ read)) tokens rest
  := by
  rcases escapeChar_cases c with ⟨letter, -, -, -, htext⟩ | ⟨-, hquote, hslash, -, htext⟩ | htext
  · rw [htext]
    exact lexFrom_escaped letter read tokens rest
  · rw [htext]
    apply lexFrom_quoted
    simpa using ⟨hquote, hslash⟩
  · rw [htext]
    exact lexFrom_unitEscapes (unitsOf_lt c) read tokens rest

theorem lexFrom_escapeChars (cs : List Char) (read : List Char) (tokens : List Token)
    (rest : List Char) :
  lexFrom (.quoted read) tokens ((cs.flatMap fun c => (Json.escapeChar c).toList) ++ rest)
    = lexFrom (.quoted ((cs.flatMap fun c => (Json.escapeChar c).toList).reverse ++ read))
      tokens rest
  := by
  induction cs generalizing read with
  | nil => rfl
  | cons c cs ih =>
    rw [List.flatMap_cons, List.append_assoc, lexFrom_escapeChar, ih, List.reverse_append,
      List.append_assoc]

theorem lexFrom_open (tokens : List Token) (rest : List Char) :
  lexFrom .between tokens ('"' :: rest) = lexFrom (.quoted []) tokens rest
  := rfl

theorem lexFrom_close (read : List Char) (tokens : List Token) (rest : List Char) :
  lexFrom (.quoted read) tokens ('"' :: rest)
    = lexFrom .between (ofQuoted read.reverse :: tokens) rest
  := rfl

/-- A string is read back, whatever follows. -/
theorem lexFrom_renderString (s : String) (tokens : List Token) (rest : List Char) :
  lexFrom .between tokens ((Json.renderString s).toList ++ rest)
    = lexFrom .between (.str s :: tokens) rest
  := by
  have hlist : (Json.renderString s).toList ++ rest
      = '"' :: ((s.toList.flatMap fun c => (Json.escapeChar c).toList) ++ '"' :: rest) := by
    simp [Json.renderString, String.toList_join, List.flatMap_map]
  have hquoted : ofQuoted (s.toList.flatMap fun c => (Json.escapeChar c).toList) = .str s := by
    rw [ofQuoted, unescape, units?_escapeChars, Option.map_some, ofUnits_unitsOf]
    simp
  rw [hlist, lexFrom_open, lexFrom_escapeChars, lexFrom_close, List.append_nil,
    List.reverse_reverse, hquoted]

end Token

end AssetCanvas
