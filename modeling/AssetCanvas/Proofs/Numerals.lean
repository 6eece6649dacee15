import AssetCanvas.Proofs.Lexing
import AssetCanvas.Proofs.Ports

/-!
# Numbers in JSON text

A number is a whole part without leading zeros, then possibly a fraction and an exponent:
`Token.IsNumber`.  A text of this form is one word, `Token.ofWord_number`, an integer without
fraction and exponent, else the float that the numeral stands for, `Numeral.toFloat?_number`.  The
digits of an integer have this form, `Token.cuts_int`, and so has the shortest decimal of a finite
float, `Token.exists_number_of_text?`; hence a float whose shortest decimal is read as the float
is read back from JSON text, `Token.cuts_float`.
-/

namespace AssetCanvas

namespace Token

/-! ### The form of a number -/

/-- The digits of ASCII. -/
def digits : List Char := ['0', '1', '2', '3', '4', '5', '6', '7', '8', '9']

theorem mem_digits {c : Char} (h : c.isDigit = true) : c ∈ digits
  := by
  have hdigits : ∀ n < 10, Char.ofNat (48 + n) ∈ digits := by decide
  simp only [Char.isDigit, Bool.and_eq_true, decide_eq_true_eq] at h
  have hlow : 48 ≤ c.toNat := h.1
  have hhigh : c.toNat ≤ 57 := h.2
  have hmem := hdigits (c.toNat - 48) (by omega)
  rwa [Nat.add_sub_cancel' hlow, Char.ofNat_toNat] at hmem

/-- Some digits. -/
def IsDigits (cs : List Char) : Prop := cs ≠ [] ∧ ∀ d ∈ cs, d.isDigit = true

/-- Digits without a zero in front, or the digit zero. -/
def IsWhole (cs : List Char) : Prop := IsDigits cs ∧ (cs.head? = some '0' → cs = ['0'])

/-- The parts of a number: the fraction and the exponent may be empty. -/
structure IsNumber (whole fraction exponent : List Char) : Prop where
  whole : IsWhole whole
  fraction : fraction = [] ∨ ∃ digits, fraction = '.' :: digits ∧ IsDigits digits
  exponent : exponent = [] ∨ ∃ sign digits, exponent = 'e' :: sign :: digits
    ∧ (sign = '+' ∨ sign = '-') ∧ IsDigits digits

/-- The sign in front of a number. -/
def signOf (negative : Bool) : List Char := if negative then ['-'] else []

/-- Digits are taken up to the first other character. -/
theorem IsDigits.split {cs rest : List Char} (h : IsDigits cs)
    (hrest : ∀ c ∈ rest.head?, c.isDigit = false) :
  (cs ++ rest).takeWhile Char.isDigit = cs ∧ (cs ++ rest).dropWhile Char.isDigit = rest
  := by
  rw [List.takeWhile_append_of_pos h.2, List.dropWhile_append_of_pos h.2]
  cases rest with
  | nil => simp
  | cons c rest =>
    have hc := hrest c rfl
    simp [hc]

theorem IsWhole.splitWhole {cs rest : List Char} (h : IsWhole cs)
    (hrest : ∀ c ∈ rest.head?, c.isDigit = false) :
  splitWhole (cs ++ rest) = (cs, rest)
  := by
  by_cases hzero : cs.head? = some '0'
  · obtain rfl := h.2 hzero
    rfl
  · obtain ⟨htake, hdrop⟩ := h.1.split hrest
    obtain ⟨c, cs, rfl⟩ := List.exists_cons_of_ne_nil h.1.1
    rw [Token.splitWhole, htake, hdrop]
    rintro _ heq
    obtain ⟨rfl, -⟩ := List.cons.inj heq
    exact hzero rfl

namespace IsNumber

variable {whole fraction exponent : List Char} (h : IsNumber whole fraction exponent)
include h

/-- No digit follows the digits of the whole part or of the fraction. -/
theorem head_exponent : ∀ c ∈ exponent.head?, c.isDigit = false
  := by
  rcases h.exponent with rfl | ⟨sign, digits, rfl, -, -⟩
  · simp
  · rintro _ ⟨⟩
    rfl

theorem head_fraction : ∀ c ∈ (fraction ++ exponent).head?, c.isDigit = false
  := by
  rcases h.fraction with rfl | ⟨digits, rfl, -⟩
  · exact h.head_exponent
  · rintro _ ⟨⟩
    rfl

theorem splitFraction : splitFraction (fraction ++ exponent) = (fraction, exponent)
  := by
  rcases h.fraction with rfl | ⟨digits, rfl, hdigits⟩
  · rcases h.exponent with rfl | ⟨sign, digits, rfl, -, -⟩ <;> rfl
  · obtain ⟨htake, hdrop⟩ := hdigits.split h.head_exponent
    rw [List.cons_append, Token.splitFraction, htake, hdrop, if_neg]
    simpa using hdigits.1

theorem splitExponent : splitExponent exponent = (exponent, [])
  := by
  rcases h.exponent with rfl | ⟨sign, digits, rfl, hsign, hdigits⟩
  · rfl
  · have hsplit : splitExponentSign (sign :: digits) = ([sign], digits) := by
      rcases hsign with rfl | rfl <;> rfl
    obtain ⟨htake, hdrop⟩ := @IsDigits.split digits [] hdigits (by simp)
    rw [List.append_nil] at htake hdrop
    simp [Token.splitExponent, hsplit, htake, hdrop, hdigits.1]

/-- A number is read as a whole. -/
theorem splitUnsigned (negative : Bool) :
  splitUnsigned negative (whole ++ (fraction ++ exponent))
    = (if fraction.isEmpty && exponent.isEmpty then ofWhole negative whole
        else ofDecimal negative (whole ++ (fraction ++ exponent)), [])
  := by
  have hwhole : whole.isEmpty = false := by simpa using h.whole.1.1
  rw [Token.splitUnsigned, h.whole.splitWhole h.head_fraction]
  simp only [h.splitFraction, h.splitExponent, hwhole, Bool.false_eq_true, if_false]
  split <;> simp [List.append_assoc]

/-- A number begins with a digit. -/
theorem exists_cons : ∃ c rest, whole ++ (fraction ++ exponent) = c :: rest ∧ c.isDigit = true
  := by
  obtain ⟨c, rest, rfl⟩ := List.exists_cons_of_ne_nil h.whole.1.1
  exact ⟨c, rest ++ (fraction ++ exponent), rfl, h.whole.1.2 c (by simp)⟩

/-- The characters of a number with or without a sign. -/
theorem forall_mem (negative : Bool) :
  ∀ c ∈ signOf negative ++ (whole ++ (fraction ++ exponent)),
    c.isDigit = true ∨ c ∈ ['.', 'e', '+', '-']
  := by
  have hwhole := h.whole.1.2
  rcases h with ⟨-, rfl | ⟨_, rfl, -, hfraction⟩, rfl | ⟨_, _, rfl, hsign, -, hexponent⟩⟩ <;>
    grind [signOf]

end IsNumber

/-- No word of letters begins with a digit, nor with a sign and a digit. -/
theorem splitConstant?_number {c : Char} (h : c.isDigit = true) (negative : Bool)
    (rest : List Char) :
  splitConstant? (signOf negative ++ c :: rest) = none
  := by
  have hstarts : ∀ constant ∈ constants, 2 ≤ constant.1.toList.length ∧ constant.1.toList.take 2
      ∈ [['n', 'u'], ['t', 'r'], ['f', 'a'], ['N', 'a'], ['I', 'n'], ['-', 'I']] := by decide
  rw [splitConstant?, List.findSome?_eq_none_iff]
  intro constant hconstant
  obtain ⟨hlength, hstart⟩ := hstarts constant hconstant
  rw [ite_eq_right_iff]
  intro hprefix
  obtain ⟨tail, htail⟩ := List.isPrefixOf_iff_prefix.mp hprefix
  rw [← List.take_append_of_le_length hlength, htail] at hstart
  have hletter : c ∈ ['n', 't', 'f', 'N', 'I', '-'] := by
    cases negative <;> simp [signOf] at hstart <;> grind
  have hnone : ∀ letter ∈ ['n', 't', 'f', 'N', 'I', '-'], letter.isDigit = false :=
    forall_mem_of_all (by decide)
  rw [hnone c hletter] at h
  cases h

theorem splitWord_number {c : Char} (h : c.isDigit = true) (negative : Bool) (rest : List Char) :
  splitWord (signOf negative ++ c :: rest) = splitUnsigned negative (c :: rest)
  := by
  have hconstant := splitConstant?_number h negative rest
  cases negative with
  | true =>
    have hsigned : signOf true ++ c :: rest = '-' :: c :: rest := rfl
    rw [hsigned] at hconstant ⊢
    rw [splitWord, hconstant]
  | false =>
    have hunsigned : signOf false ++ c :: rest = c :: rest := rfl
    rw [hunsigned] at hconstant ⊢
    rw [splitWord, hconstant]
    rintro _ heq
    obtain ⟨rfl, -⟩ := List.cons.inj heq
    cases h

/-- A number with or without a sign is one word. -/
theorem ofWord_number {whole fraction exponent : List Char} (h : IsNumber whole fraction exponent)
    (negative : Bool) :
  ofWord (signOf negative ++ (whole ++ (fraction ++ exponent)))
    = [if fraction.isEmpty && exponent.isEmpty then ofWhole negative whole
        else ofDecimal negative (whole ++ (fraction ++ exponent))]
  := by
  have hsplit : splitWord (signOf negative ++ (whole ++ (fraction ++ exponent)))
      = Token.splitUnsigned negative (whole ++ (fraction ++ exponent)) := by
    obtain ⟨c, rest, hlist, hc⟩ := h.exists_cons
    rw [hlist, splitWord_number hc]
  rw [ofWord, hsplit, h.splitUnsigned]
  rfl

/-- The characters of a number do not end a word. -/
theorem separates_number {whole fraction exponent : List Char}
    (h : IsNumber whole fraction exponent) (negative : Bool) :
  ∀ c ∈ signOf negative ++ (whole ++ (fraction ++ exponent)), separates c = false
  := by
  have hdigits : ∀ d ∈ digits, separates d = false := forall_mem_of_all (by decide)
  have hothers : ∀ c ∈ ['.', 'e', '+', '-'], separates c = false :=
    forall_mem_of_all (by decide)
  intro c hc
  rcases h.forall_mem negative c hc with hdigit | hother
  · exact hdigits c (mem_digits hdigit)
  · exact hothers c hother

/-! ### Integers -/

theorem isDigits_toDigits (n : Nat) : IsDigits (Nat.toDigits 10 n)
  := ⟨Nat.toDigits_ne_nil, fun _ hc => Nat.isDigit_of_mem_toDigits (by decide) (by decide) hc⟩

/-- The digits of a number that is not zero do not begin with a zero. -/
theorem head?_toDigits_ne {n : Nat} (h : n ≠ 0) : (Nat.toDigits 10 n).head? ≠ some '0'
  := by
  have hdigit : ∀ d < 10, d ≠ 0 → Nat.digitChar d ≠ '0' := by decide
  induction n using Nat.strongRecOn with
  | ind n ih =>
    rcases Nat.lt_or_ge n 10 with hsmall | hlarge
    · rw [Nat.toDigits_of_lt_base hsmall, List.head?_cons, ne_eq, Option.some.injEq]
      exact hdigit n hsmall h
    · rw [Nat.toDigits_of_base_le (by decide) hlarge, List.head?_append]
      have hrest := ih (n / 10) (by omega) (by omega)
      obtain ⟨c, cs, hlist⟩ := List.exists_cons_of_ne_nil (isDigits_toDigits (n / 10)).1
      rw [hlist] at hrest ⊢
      exact hrest

theorem isWhole_toDigits (n : Nat) : IsWhole (Nat.toDigits 10 n)
  := by
  use isDigits_toDigits n
  intro hzero
  obtain rfl : n = 0 := by
    by_contra hne
    exact head?_toDigits_ne hne hzero
  rfl

theorem isNumber_toDigits (n : Nat) : IsNumber (Nat.toDigits 10 n) [] []
  := ⟨isWhole_toDigits n, .inl rfl, .inl rfl⟩

theorem toList_int (n : Int) :
  (toString n).toList = signOf (n < 0) ++ (Nat.toDigits 10 n.natAbs ++ ([] ++ []))
  := by
  cases n with
  | ofNat m => simp [toString, Int.repr, Nat.repr, signOf]
  | negSucc m => simp [toString, Int.repr, Nat.repr, signOf]

/-- An integer is one word. -/
theorem cuts_ofWhole (n : Int) :
  Cuts (toString n) [ofWhole (n < 0) (Nat.toDigits 10 n.natAbs)]
  := by
  apply cuts_word
  · rw [toList_int]
    simp
  · rw [toList_int]
    exact separates_number (isNumber_toDigits n.natAbs) _
  · rw [toList_int]
    exact ofWord_number (isNumber_toDigits n.natAbs) _

/-- An integer that does not have too many digits is read back. -/
theorem cuts_int {n : Int} (h : n.natAbs < 10 ^ Numeral.maxIntDigits) :
  Cuts (toString n) [.word (.int n)]
  := by
  have hwhole : ofWhole (n < 0) (Nat.toDigits 10 n.natAbs) = .word (.int n) := by
    rw [ofWhole, Digit.natural?_toDigits h]
    by_cases hnegative : n < 0
    · simp only [hnegative, decide_true, if_true, word.injEq, Json.int.injEq]
      omega
    · simp only [hnegative, decide_false, Bool.false_eq_true, if_false, word.injEq,
        Json.int.injEq]
      omega
  rw [← hwhole]
  exact cuts_ofWhole n

/-- An integer that has too many digits cannot be read. -/
theorem cuts_long {n : Int} (h : 10 ^ Numeral.maxIntDigits ≤ n.natAbs) :
  Cuts (toString n) [.fault .unusableValue]
  := by
  have hlength : ¬ (Nat.toDigits 10 n.natAbs).length ≤ Numeral.maxIntDigits := by
    rw [Nat.length_toDigits_le_iff (by decide) (by decide)]
    exact Nat.not_lt.mpr h
  have hwhole : ofWhole (n < 0) (Nat.toDigits 10 n.natAbs) = .fault .unusableValue := by
    rw [ofWhole, Numeral.natural?, if_neg hlength]
  rw [← hwhole]
  exact cuts_ofWhole n

end Token

/-! ### Floats -/

namespace Numeral

open Token

theorem trim_eq {cs : List Char} (h : ∀ c ∈ cs, Blank.isBlank c = false) : Blank.trim cs = cs
  := by
  have hdrop : ∀ l : List Char, (∀ c ∈ l, Blank.isBlank c = false) →
      l.dropWhile Blank.isBlank = l := by
    intro l hl
    cases l with
    | nil => rfl
    | cons c l => rw [List.dropWhile_cons_of_neg (by simp [hl c])]
  rw [Blank.trim, hdrop cs h, hdrop, List.reverse_reverse]
  simpa using h

theorem dropLowLines_eq {cs : List Char} (h : ∀ c ∈ cs, c ≠ '_') (afterDigit : Bool) :
  dropLowLines afterDigit cs = some cs
  := by
  induction cs generalizing afterDigit with
  | nil => rfl
  | cons c cs ih =>
    obtain ⟨hc, hcs⟩ := List.forall_mem_cons.mp h
    rw [dropLowLines, if_neg hc, ih hcs]
    · rfl
    · rintro _ _ rfl
      exact absurd rfl hc

/-- In a text of the characters of numbers there is nothing to be replaced or left out. -/
theorem dropLowLines_trim_map {cs : List Char}
    (h : ∀ c ∈ cs, c.isDigit = true ∨ c ∈ ['.', 'e', '+', '-']) :
  dropLowLines false (Blank.trim (cs.map plainDigit)) = some cs
  := by
  have hall : ∀ c ∈ digits ++ ['.', 'e', '+', '-'],
      plainDigit c = c ∧ Blank.isBlank c = false ∧ c ≠ '_' :=
    forall_mem_of_all (by decide)
  have hchars : ∀ c ∈ cs, plainDigit c = c ∧ Blank.isBlank c = false ∧ c ≠ '_' := by
    intro c hc
    apply hall
    rw [List.mem_append]
    exact (h c hc).imp_left mem_digits
  have hplain : cs.map plainDigit = cs :=
    (List.map_congr_left fun c hc => (hchars c hc).1).trans (List.map_id' cs)
  rw [hplain, trim_eq fun c hc => (hchars c hc).2.1, dropLowLines_eq fun c hc => (hchars c hc).2.2]

/-- No word begins with a digit. -/
theorem word?_number {c : Char} (h : c.isDigit = true) (rest : List Char) :
  word? (c :: rest) = none
  := by
  have hlower : ∀ d ∈ digits, d.toLower ≠ 'i' ∧ d.toLower ≠ 'n' :=
    forall_mem_of_all (by decide)
  obtain ⟨hi, hn⟩ := hlower c (mem_digits h)
  have hword : ∀ first tail, c.toLower ≠ first →
      String.ofList ((c :: rest).map Char.toLower) ≠ String.ofList (first :: tail) := by
    intro first tail hne heq
    rw [String.ofList_inj] at heq
    exact hne (List.cons.inj heq).1
  have hinf : String.ofList ((c :: rest).map Char.toLower) ≠ "inf" := hword 'i' _ hi
  have hinfinity : String.ofList ((c :: rest).map Char.toLower) ≠ "infinity" := hword 'i' _ hi
  have hnan : String.ofList ((c :: rest).map Char.toLower) ≠ "nan" := hword 'n' _ hn
  simp only [word?, hinf, hinfinity, hnan, decide_false, Bool.or_self, Bool.false_eq_true, if_false]

/-- A number with or without a sign is read as a numeral. -/
theorem toFloat?_number {whole fraction exponent : List Char}
    (h : IsNumber whole fraction exponent) (negative : Bool) {text : String}
    (htext : text.toList = signOf negative ++ (whole ++ (fraction ++ exponent))) :
  toFloat? text
    = (unsigned? (whole ++ (fraction ++ exponent))).map fun x => if negative then -x else x
  := by
  obtain ⟨c, rest, hlist, hc⟩ := h.exists_cons
  have hsign : splitSign (signOf negative ++ c :: rest) = (negative, c :: rest) := by
    cases negative with
    | true => rfl
    | false =>
      have hunsigned : signOf false ++ c :: rest = c :: rest := rfl
      rw [hunsigned, splitSign]
      · rintro _ heq
        obtain ⟨rfl, -⟩ := List.cons.inj heq
        cases hc
      · rintro _ heq
        obtain ⟨rfl, -⟩ := List.cons.inj heq
        cases hc
  have hchars := h.forall_mem negative
  rw [toFloat?, htext, dropLowLines_trim_map hchars, hlist]
  simp only [Option.bind_eq_bind, Option.bind_some, hsign, word?_number hc, Option.none_or]
  cases unsigned? (c :: rest) <;> rfl

end Numeral

namespace Token

theorem isDigits_zeros_append {cs : List Char} (h : IsDigits cs) (n : Nat) :
  IsDigits (List.replicate n '0' ++ cs)
  := by
  use by simp [h.1]
  intro c hc
  rcases List.mem_append.mp hc with hc | hc
  · rw [List.eq_of_mem_replicate hc]
    rfl
  · exact h.2 c hc

/-- The first digits of a number that is not zero. -/
theorem isWhole_take {d n : Nat} (hd : d ≠ 0) (hn : 0 < n) : IsWhole ((Nat.toDigits 10 d).take n)
  := by
  have hdigits := isDigits_toDigits d
  have hhead := head?_toDigits_ne hd
  refine ⟨⟨?_, fun c hc => hdigits.2 c (List.mem_of_mem_take hc)⟩, ?_⟩
  · rw [ne_eq, List.take_eq_nil_iff]
    rintro (hzero | hnil)
    · omega
    · exact hdigits.1 hnil
  · rw [List.head?_take, if_neg (by omega)]
    exact fun heq => absurd heq hhead

/-- Zeros behind the digits of a number that is not zero. -/
theorem isWhole_append_zeros {d : Nat} (hd : d ≠ 0) (n : Nat) :
  IsWhole (Nat.toDigits 10 d ++ List.replicate n '0')
  := by
  have hdigits := isDigits_toDigits d
  have hhead := head?_toDigits_ne hd
  obtain ⟨c, cs, hlist⟩ := List.exists_cons_of_ne_nil hdigits.1
  refine ⟨⟨by simp, ?_⟩, ?_⟩
  · intro c' hc'
    rcases List.mem_append.mp hc' with hc' | hc'
    · exact hdigits.2 c' hc'
    · rw [List.eq_of_mem_replicate hc']
      rfl
  · rw [hlist] at hhead ⊢
    exact fun heq => absurd heq hhead

theorem toList_exponentText (exponent : Int) :
  ∃ sign digits, (Shortest.exponentText exponent).toList = sign :: digits
    ∧ (sign = '+' ∨ sign = '-') ∧ IsDigits digits
  := by
  have hdigits := isDigits_toDigits exponent.natAbs
  have hpadded := isDigits_zeros_append hdigits 1
  rw [Shortest.exponentText]
  by_cases hnegative : exponent < 0
  · refine ⟨'-', _, by simp [hnegative]; rfl, .inr rfl, ?_⟩
    split
    · simpa using hpadded
    · simpa using hdigits
  · refine ⟨'+', _, by simp [hnegative]; rfl, .inl rfl, ?_⟩
    split
    · simpa using hpadded
    · simpa using hdigits

/-- The shortest decimal of a number that is not zero has the form of a number with a point or an
exponent. -/
theorem exists_number_decimalText {d : Nat} (hd : d ≠ 0) (k : Int) :
  ∃ whole fraction exponent, IsNumber whole fraction exponent
    ∧ (fraction.isEmpty && exponent.isEmpty) = false
    ∧ (Shortest.decimalText d k).toList = whole ++ (fraction ++ exponent)
  := by
  have hdigits := isDigits_toDigits d
  have hlength : (toString d).length = (Nat.toDigits 10 d).length := by
    simp [← String.length_toList]
  have hpositive : 0 < (Nat.toDigits 10 d).length := List.length_pos_of_ne_nil hdigits.1
  simp only [Shortest.decimalText, hlength]
  split
  · split
    next hnegative =>
      use ['0'], '.' :: (List.replicate (-(k + (Nat.toDigits 10 d).length - 1) - 1).toNat '0'
        ++ Nat.toDigits 10 d), []
      refine ⟨⟨isWhole_toDigits 0, .inr ⟨_, rfl, isDigits_zeros_append hdigits _⟩, .inl rfl⟩,
        rfl, ?_⟩
      simp [Shortest.zeros]
    · split
      next hk =>
        use Nat.toDigits 10 d ++ List.replicate k.toNat '0', ['.', '0'], []
        refine ⟨⟨isWhole_append_zeros hd _, .inr ⟨_, rfl, isDigits_toDigits 0⟩, .inl rfl⟩, rfl, ?_⟩
        simp [Shortest.zeros]
      next hk =>
        have hrest : IsDigits ((Nat.toDigits 10 d).drop
            (k + (Nat.toDigits 10 d).length - 1 + 1).toNat) := by
          use by rw [ne_eq, List.drop_eq_nil_iff]; omega
          exact fun c hc => hdigits.2 c (List.mem_of_mem_drop hc)
        use (Nat.toDigits 10 d).take (k + (Nat.toDigits 10 d).length - 1 + 1).toNat,
          '.' :: (Nat.toDigits 10 d).drop (k + (Nat.toDigits 10 d).length - 1 + 1).toNat, []
        refine ⟨⟨isWhole_take hd (by omega), .inr ⟨_, rfl, hrest⟩, .inl rfl⟩, rfl, ?_⟩
        simp
  · obtain ⟨sign, digits, htext, hsign, hexponent⟩ :=
      toList_exponentText (k + (Nat.toDigits 10 d).length - 1)
    by_cases hone : (Nat.toDigits 10 d).tail = []
    · use (Nat.toDigits 10 d).take 1, [], 'e' :: sign :: digits
      refine ⟨⟨isWhole_take hd (by decide), .inl rfl, .inr ⟨_, _, rfl, hsign, hexponent⟩⟩, rfl, ?_⟩
      simp [hone, htext]
    · use (Nat.toDigits 10 d).take 1, '.' :: (Nat.toDigits 10 d).tail, 'e' :: sign :: digits
      have hrest : IsDigits (Nat.toDigits 10 d).tail :=
        ⟨hone, fun c hc => hdigits.2 c (List.mem_of_mem_tail hc)⟩
      refine ⟨⟨isWhole_take hd (by decide), .inr ⟨_, rfl, hrest⟩,
        .inr ⟨_, _, rfl, hsign, hexponent⟩⟩, rfl, ?_⟩
      simp [hone, htext]

/-- The shortest decimal of a finite float has the form of a number with a point or an exponent. -/
theorem exists_number_of_text? {x : Float} {text : String} (h : Shortest.text? x = some text) :
  ∃ negative whole fraction exponent, IsNumber whole fraction exponent
    ∧ (fraction.isEmpty && exponent.isEmpty) = false
    ∧ text.toList = signOf negative ++ (whole ++ (fraction ++ exponent))
  := by
  obtain ⟨⟨m, q⟩, -, rfl⟩ := Option.map_eq_some_iff.mp h
  have hsign : ∃ negative,
      (if x.toBits >>> 63 == 1 then "-" else "").toList = signOf negative := by
    split
    · exact ⟨true, rfl⟩
    · exact ⟨false, rfl⟩
  obtain ⟨negative, hsign⟩ := hsign
  by_cases hzero : (Shortest.decimal m.natAbs q).1 = 0
  · refine ⟨negative, ['0'], ['.', '0'], [], ⟨isWhole_toDigits 0,
      .inr ⟨_, rfl, isDigits_toDigits 0⟩, .inl rfl⟩, rfl, ?_⟩
    rw [String.toList_append, hsign, if_pos hzero]
    rfl
  · obtain ⟨whole, fraction, exponent, hnumber, hsome, htext⟩ :=
      exists_number_decimalText hzero (Shortest.decimal m.natAbs q).2
    refine ⟨negative, whole, fraction, exponent, hnumber, hsome, ?_⟩
    rw [String.toList_append, hsign, if_neg hzero, htext]

/-- Whether a float is finite and its shortest decimal is read as the float. -/
def ReadsBack (x : Float) : Prop :=
  ∃ text, Shortest.text? x = some text ∧ Numeral.toFloat? text = some x

/-- A float that is read back from its shortest decimal is read back from JSON text. -/
theorem cuts_float {x : Float} (h : ReadsBack x) : Cuts (Json.renderFloat x) [.word (.float x)]
  := by
  obtain ⟨text, htext, hread⟩ := h
  obtain ⟨negative, whole, fraction, exponent, hnumber, hsome, hlist⟩ :=
    exists_number_of_text? htext
  rw [Numeral.toFloat?_number hnumber negative hlist] at hread
  obtain ⟨y, hy, rfl⟩ := Option.map_eq_some_iff.mp hread
  rw [Json.renderFloat, htext]
  apply cuts_word
  · obtain ⟨c, rest, hcons, -⟩ := hnumber.exists_cons
    rw [hlist, hcons]
    simp
  · rw [hlist]
    exact separates_number hnumber negative
  · rw [hlist, ofWord_number hnumber, hsome, ofDecimal, hy]
    rfl

end Token

end AssetCanvas
