import AssetCanvas.Proofs.Escapes

/-!
# Cutting JSON text

A text that `Token.Cuts` into tokens gives them wherever a word may end, and a text that
`Token.CutsOff` its tokens gives them wherever it stands: white space, brackets, separators and
strings end by themselves.  Texts are put together from left to right, `Token.CutsOff.append`,
`Token.Cuts.append_cutsOff`, and items with a separator between them by `Token.Cuts.intercalate`.
-/

namespace AssetCanvas.Token

/-! ### Words -/

/-- A property of all characters of a text is decided for the text, not for all characters there
are. -/
theorem forall_mem_of_all {p : Char → Prop} [DecidablePred p] {cs : List Char}
    (h : (cs.all fun c => decide (p c)) = true) :
  ∀ c ∈ cs, p c
  := by
  simpa using h

/-- Whether a character ends a word. -/
def separates (c : Char) : Bool := isSpace c || c = '"' || (ofChar? c).isSome

/-- Whether a word may end before a text. -/
def Stops (rest : List Char) : Prop := ∀ c ∈ rest.head?, separates c = true

/-- The characters of a word are read one after the other. -/
theorem lexFrom_wordChars {cs : List Char} (h : ∀ c ∈ cs, separates c = false) (read : List Char)
    (tokens : List Token) (rest : List Char) :
  lexFrom (.word read) tokens (cs ++ rest) = lexFrom (.word (cs.reverse ++ read)) tokens rest
  := by
  induction cs generalizing read with
  | nil => rfl
  | cons c cs ih =>
    obtain ⟨hc, hcs⟩ := List.forall_mem_cons.mp h
    rw [separates] at hc
    rw [List.cons_append, lexFrom]
    simp only [step, hc, Bool.false_eq_true, if_false, ih hcs]
    simp

/-- Where a word may end, it ends. -/
theorem lexFrom_wordEnd {rest : List Char} (h : Stops rest) (read : List Char)
    (tokens : List Token) :
  lexFrom (.word read) tokens rest = lexFrom .between ((ofWord read.reverse).reverse ++ tokens) rest
  := by
  cases rest with
  | nil => rfl
  | cons c rest =>
    have hc : separates c = true := h c rfl
    rw [separates] at hc
    rw [lexFrom, lexFrom]
    simp only [step, hc, if_true]

theorem lexFrom_word {cs : List Char} (hne : cs ≠ []) (h : ∀ c ∈ cs, separates c = false)
    {rest : List Char} (hrest : Stops rest) (tokens : List Token) :
  lexFrom .between tokens (cs ++ rest) = lexFrom .between ((ofWord cs).reverse ++ tokens) rest
  := by
  obtain ⟨c, cs, rfl⟩ := List.exists_cons_of_ne_nil hne
  obtain ⟨hc, hcs⟩ := List.forall_mem_cons.mp h
  have hstart : start c tokens = (.word [c], tokens) := by
    simp only [separates, Bool.or_eq_false_iff, decide_eq_false_iff_not, Option.isSome_eq_false_iff,
      Option.isNone_iff_eq_none] at hc
    obtain ⟨⟨hspace, hquote⟩, hchar⟩ := hc
    simp [start, hspace, hquote, hchar]
  rw [List.cons_append, lexFrom]
  simp only [step, hstart]
  rw [lexFrom_wordChars hcs, lexFrom_wordEnd hrest, List.reverse_append, List.reverse_reverse]
  rfl

/-! ### Texts and their tokens -/

/-- Whether a text is cut into tokens wherever a word may end behind it. -/
def Cuts (text : String) (ts : List Token) : Prop :=
  ∀ tokens rest, Stops rest →
    lexFrom .between tokens (text.toList ++ rest) = lexFrom .between (ts.reverse ++ tokens) rest

/-- Whether a text is cut into tokens wherever it stands. -/
def CutsOff (text : String) (ts : List Token) : Prop :=
  ∀ tokens rest,
    lexFrom .between tokens (text.toList ++ rest) = lexFrom .between (ts.reverse ++ tokens) rest

/-- Whether a text begins with a character that ends a word. -/
def Separating (text : String) : Prop := ∃ c cs, text.toList = c :: cs ∧ separates c = true

theorem CutsOff.cuts {text : String} {ts : List Token} (h : CutsOff text ts) : Cuts text ts
  := fun tokens rest _ => h tokens rest

theorem cuts_word {text : String} {ts : List Token} (hne : text.toList ≠ [])
    (h : ∀ c ∈ text.toList, separates c = false) (hword : ofWord text.toList = ts) :
  Cuts text ts
  := by
  intro tokens rest hrest
  rw [lexFrom_word hne h hrest, hword]

theorem cutsOff_string (s : String) : CutsOff (Json.renderString s) [.str s]
  := lexFrom_renderString s

theorem cutsOff_blank {text : String} (h : ∀ c ∈ text.toList, isSpace c = true) : CutsOff text []
  := by
  intro tokens rest
  rw [List.reverse_nil, List.nil_append]
  generalize text.toList = cs at h
  induction cs with
  | nil => rfl
  | cons c cs ih =>
    obtain ⟨hc, hcs⟩ := List.forall_mem_cons.mp h
    rw [List.cons_append, lexFrom]
    simp only [step, start, hc, if_true]
    exact ih hcs

namespace CutsOff

variable {a b : String} {ts us : List Token}

theorem append (ha : CutsOff a ts) (hb : CutsOff b us) : CutsOff (a ++ b) (ts ++ us)
  := by
  intro tokens rest
  rw [String.toList_append, List.append_assoc, ha, hb, List.reverse_append, List.append_assoc]

theorem append_cuts (ha : CutsOff a ts) (hb : Cuts b us) : Cuts (a ++ b) (ts ++ us)
  := by
  intro tokens rest hrest
  rw [String.toList_append, List.append_assoc, ha, hb _ _ hrest, List.reverse_append,
    List.append_assoc]

end CutsOff

namespace Cuts

variable {a b : String} {ts us : List Token}

/-- A text before which a word may end cuts off what stands in front of it. -/
theorem append_cutsOff (ha : Cuts a ts) (hb : CutsOff b us) (hfirst : Separating b) :
  CutsOff (a ++ b) (ts ++ us)
  := by
  intro tokens rest
  have hrest : Stops (b.toList ++ rest) := by
    obtain ⟨c, cs, hlist, hc⟩ := hfirst
    rw [hlist]
    rintro _ ⟨⟩
    exact hc
  rw [String.toList_append, List.append_assoc, ha _ _ hrest, hb, List.reverse_append,
    List.append_assoc]

/-- Items with a separator between them are cut into their tokens with its token between them. -/
theorem intercalate {separator : String} (hfirst : Separating separator)
    (hseparator : CutsOff separator us) {a : String} {texts : List String} {ts : List Token}
    {tss : List (List Token)} (ha : Cuts a ts) (h : List.Forall₂ Cuts texts tss) :
  Cuts (separator.intercalate (a :: texts)) (us.intercalate (ts :: tss))
  := by
  induction h generalizing a ts with
  | nil => simpa using ha
  | @cons b us' texts tss hb _ ih =>
    have hlist : separator.intercalate (a :: b :: texts)
        = a ++ separator ++ separator.intercalate (b :: texts) := by
      rw [← String.toList_inj]
      simp
    have htokens : us.intercalate (ts :: us' :: tss) = ts ++ us ++ us.intercalate (us' :: tss) := by
      simp
    rw [hlist, htokens]
    exact (ha.append_cutsOff hseparator hfirst).append_cuts (ih hb)

end Cuts

end AssetCanvas.Token
