import AssetCanvas.Json.Reader
import AssetCanvas.Proofs.Fault
import AssetCanvas.Proofs.Numerals
import AssetCanvas.Proofs.Reordering
import AssetCanvas.Proofs.Spelling
import Mathlib.Algebra.Group.Int.Defs
import Mathlib.Algebra.Group.Nat.Defs

/-!
# Reading what was written

A sequence of tokens that `Json.Yields` a value is read as the value wherever the value may stand,
and a text is `Json.ReadAs` a value if it is cut into such tokens.  Items and fields are joined
with separators, brackets and white space, `Json.readAs_arr` and `Json.readAs_obj`.  Hence a value
whose objects have distinct keys, whose integers do not have too many digits and whose floats are
read back from their shortest decimals, `Json.Lossless`, has a file and is read back from it, on one
line or with spaces for indentation, `Json.parse_document`.
-/

namespace AssetCanvas.Json

/-! ### Tokens -/

/-- Whether tokens are read as a value where a value is due, and as the first item of an array. -/
structure Yields (ts : List Token) (v : Json) : Prop where
  value : ∀ stack rest,
    ReadState.run ⟨stack, .value⟩ (ts ++ rest) = ReadState.run ⟨stack, .after v⟩ rest
  item : ∀ stack rest,
    ReadState.run ⟨stack, .item⟩ (ts ++ rest) = ReadState.run ⟨.arr [] :: stack, .after v⟩ rest

theorem yields_word (v : Json) : Yields [.word v] v := ⟨fun _ _ => rfl, fun _ _ => rfl⟩

theorem yields_str (s : String) : Yields [.str s] (.str s) := ⟨fun _ _ => rfl, fun _ _ => rfl⟩

/-- A value may begin with a token that opens it, and goes on in the mode after the token. -/
theorem yields_cons {token : Token} {mode : Mode} {ts : List Token} {v : Json}
    (hvalue : ∀ stack, ReadState.step ⟨stack, .value⟩ token = .ok ⟨stack, mode⟩)
    (hitem : ∀ stack, ReadState.step ⟨stack, .item⟩ token = .ok ⟨.arr [] :: stack, mode⟩)
    (h : ∀ stack rest,
      ReadState.run ⟨stack, mode⟩ (ts ++ rest) = ReadState.run ⟨stack, .after v⟩ rest) :
  Yields (token :: ts) v
  where
  value stack rest := by
    rw [List.cons_append, ReadState.run, hvalue, Fault.ok_bind, h]
  item stack rest := by
    rw [List.cons_append, ReadState.run, hitem, Fault.ok_bind, h]

/-- Items are read one after the other up to the end of their array. -/
theorem run_items {tss : List (List Token)} {items : List Json}
    (h : List.Forall₂ Yields tss items) (stack : List Frame) (read : List Json) (v : Json)
    (rest : List Token) :
  ReadState.run ⟨.arr read :: stack, .after v⟩
      ((tss.flatMap fun ts => .comma :: ts) ++ .closeArr :: rest)
    = ReadState.run ⟨stack, .after (.arr (read.reverse ++ v :: items))⟩ rest
  := by
  induction h generalizing read v with
  | nil =>
    have hlist : read.reverse ++ [v] = (v :: read).reverse := by simp
    rw [hlist]
    rfl
  | @cons ts w tss items hw _ ih =>
    rw [List.flatMap_cons, List.append_assoc, List.cons_append]
    calc ReadState.run ⟨.arr read :: stack, .after v⟩
          (.comma :: (ts ++ ((tss.flatMap fun ts => .comma :: ts) ++ .closeArr :: rest)))
      _ = ReadState.run ⟨.arr (v :: read) :: stack, .value⟩
          (ts ++ ((tss.flatMap fun ts => .comma :: ts) ++ .closeArr :: rest)) := rfl
      _ = ReadState.run ⟨.arr (v :: read) :: stack, .after w⟩
          ((tss.flatMap fun ts => .comma :: ts) ++ .closeArr :: rest) := hw.value _ _
      _ = ReadState.run ⟨stack, .after (.arr ((v :: read).reverse ++ w :: items))⟩ rest := ih _ _
    simp

theorem intercalate_comma (ts : List Token) (tss : List (List Token)) :
  [Token.comma].intercalate (ts :: tss) = ts ++ tss.flatMap fun ts => .comma :: ts
  := by
  induction tss generalizing ts with
  | nil => simp
  | cons us tss ih =>
    rw [List.flatMap_cons, List.cons_append, ← ih us]
    simp

/-- The tokens of the items of an array are read as the array. -/
theorem Yields.arr {tss : List (List Token)} {items : List Json}
    (h : List.Forall₂ Yields tss items) :
  Yields (.openArr :: ([Token.comma].intercalate tss ++ [.closeArr])) (.arr items)
  := by
  apply yields_cons (fun _ => rfl) (fun _ => rfl)
  intro stack rest
  rw [List.append_assoc, List.singleton_append]
  cases h with
  | nil => rfl
  | @cons ts v tss items hv htss =>
    rw [intercalate_comma, List.append_assoc, hv.item, run_items htss]
    rfl

/-- Whether tokens are read as a field of an object. -/
def YieldsField (ts : List Token) (field : Key × Json) : Prop :=
  ∃ key value, field.1 = .text key ∧ ts = .str key :: .colon :: value ∧ Yields value field.2

/-- Fields are read one after the other up to the end of their object; a new key is added at the
end. -/
theorem run_fields {tss : List (List Token)} {fields : Fields}
    (h : List.Forall₂ YieldsField tss fields) (stack : List Frame) (read : Fields) (key : String)
    (v : Json) (hdistinct : Entries.Distinct (read ++ (.text key, v) :: fields))
    (rest : List Token) :
  ReadState.run ⟨.obj read key :: stack, .after v⟩
      ((tss.flatMap fun ts => .comma :: ts) ++ .closeObj :: rest)
    = ReadState.run ⟨stack, .after (.obj (read ++ (.text key, v) :: fields))⟩ rest
  := by
  have hinsert : ∀ (read : Fields) (key : String) (v : Json) (fields : Fields),
      Entries.Distinct (read ++ (.text key, v) :: fields) →
        Entries.insert read (.text key) v = read ++ [(.text key, v)] := by
    intro read key v fields hdistinct
    apply Entries.insert_of_find?_eq_none
    rw [Entries.find?_eq_none_iff]
    intro entry hentry
    exact (Entries.distinct_append.mp hdistinct).2.2 entry hentry _ List.mem_cons_self
  induction h generalizing read key v with
  | nil =>
    rw [← hinsert read key v [] hdistinct]
    rfl
  | @cons ts field tss fields hfield _ ih =>
    obtain ⟨key', value, hkey, rfl, hvalue⟩ := hfield
    obtain ⟨_, w⟩ := field
    obtain rfl : _ = Key.text key' := hkey
    rw [List.flatMap_cons, List.append_assoc]
    calc ReadState.run ⟨.obj read key :: stack, .after v⟩ (.comma :: .str key' :: .colon
          :: (value ++ ((tss.flatMap fun ts => .comma :: ts) ++ .closeObj :: rest)))
      _ = ReadState.run ⟨.obj (Entries.insert read (.text key) v) key' :: stack, .value⟩
          (value ++ ((tss.flatMap fun ts => .comma :: ts) ++ .closeObj :: rest)) := rfl
      _ = ReadState.run ⟨.obj (Entries.insert read (.text key) v) key' :: stack, .after w⟩
          ((tss.flatMap fun ts => .comma :: ts) ++ .closeObj :: rest) := hvalue.value _ _
      _ = ReadState.run ⟨stack, .after (.obj (Entries.insert read (.text key) v
          ++ (.text key', w) :: fields))⟩ rest := by
        apply ih
        rw [hinsert read key v _ hdistinct]
        simpa using hdistinct
    rw [hinsert read key v _ hdistinct]
    simp

/-- The tokens of the fields of an object with distinct keys are read as the object. -/
theorem Yields.obj {tss : List (List Token)} {fields : Fields}
    (h : List.Forall₂ YieldsField tss fields) (hdistinct : Entries.Distinct fields) :
  Yields (.openObj :: ([Token.comma].intercalate tss ++ [.closeObj])) (.obj fields)
  := by
  apply yields_cons (fun _ => rfl) (fun _ => rfl)
  intro stack rest
  rw [List.append_assoc, List.singleton_append]
  cases h with
  | nil => rfl
  | @cons ts field tss fields hfield htss =>
    obtain ⟨key, value, hkey, rfl, hvalue⟩ := hfield
    obtain ⟨_, v⟩ := field
    obtain rfl : _ = Key.text key := hkey
    rw [intercalate_comma, List.append_assoc]
    calc ReadState.run ⟨stack, .firstKey⟩ (.str key :: .colon
          :: (value ++ ((tss.flatMap fun ts => .comma :: ts) ++ .closeObj :: rest)))
      _ = ReadState.run ⟨.obj [] key :: stack, .value⟩
          (value ++ ((tss.flatMap fun ts => .comma :: ts) ++ .closeObj :: rest)) := rfl
      _ = ReadState.run ⟨.obj [] key :: stack, .after v⟩
          ((tss.flatMap fun ts => .comma :: ts) ++ .closeObj :: rest) := hvalue.value _ _
      _ = ReadState.run ⟨stack, .after (.obj ([] ++ (.text key, v) :: fields))⟩ rest :=
        run_fields htss stack [] key v hdistinct rest

/-! ### Layouts -/

/-- Whether an indentation is one line or white space. -/
def IsBlank (indent : Option String) : Prop :=
  ∀ s, indent = some s → ∀ c ∈ s.toList, Token.isSpace c = true

section Layouts

variable {indent : Option String} (h : IsBlank indent) (depth : Nat)
include h

theorem IsBlank.lineBreak : ∀ c ∈ (lineBreak indent depth).toList, Token.isSpace c = true
  := by
  cases indent with
  | none => simp [Json.lineBreak]
  | some s =>
    intro c hc
    rw [Json.lineBreak, String.toList_append, String.toList_join, List.mem_append,
      List.mem_flatMap] at hc
    rcases hc with hc | ⟨_, hs, hc⟩
    · obtain rfl : c = '\n' := by simpa using hc
      rfl
    · obtain rfl := List.eq_of_mem_replicate hs
      exact h _ rfl c hc

theorem IsBlank.cutsOff_comma : Token.CutsOff (comma indent depth) [.comma]
  := by
  have hbreak := Token.cutsOff_blank (h.lineBreak depth)
  cases indent with
  | none =>
    have hcomma : Token.CutsOff ", " [.comma] := fun _ _ => rfl
    exact hcomma
  | some s =>
    have hcomma : Token.CutsOff "," [.comma] := fun _ _ => rfl
    exact hcomma.append hbreak

theorem IsBlank.separating_close {bracket : String} (hbracket : Token.Separating bracket) :
  Token.Separating (Json.lineBreak indent depth ++ bracket)
  := by
  obtain ⟨c, cs, hlist, hc⟩ := hbracket
  have hblank := h.lineBreak depth
  rw [Token.Separating, String.toList_append, hlist]
  cases hbreak : (Json.lineBreak indent depth).toList with
  | nil => exact ⟨c, cs, rfl, hc⟩
  | cons c' cs' =>
    rw [hbreak] at hblank
    refine ⟨c', cs' ++ c :: cs, rfl, ?_⟩
    simp [Token.separates, hblank c' (by simp)]

omit h in
theorem separating_comma : Token.Separating (comma indent depth)
  := by
  cases indent with
  | none => exact ⟨',', [' '], by simp [comma], rfl⟩
  | some s => exact ⟨',', (lineBreak (some s) depth).toList, by simp [comma], rfl⟩

/-- Items between brackets are cut into their tokens with commas between them. -/
theorem IsBlank.cuts_brackets {bracket bracket' : String} {token token' : Token}
    (hbracket : Token.CutsOff bracket [token]) (hbracket' : Token.CutsOff bracket' [token'])
    (hfirst : Token.Separating bracket') {text : String} {texts : List String} {ts : List Token}
    {tss : List (List Token)} (hts : Token.Cuts text ts)
    (htss : List.Forall₂ Token.Cuts texts tss) :
  Token.Cuts (bracket ++ Json.lineBreak indent (depth + 1)
      ++ (comma indent (depth + 1)).intercalate (text :: texts)
      ++ Json.lineBreak indent depth ++ bracket')
    (token :: ([Token.comma].intercalate (ts :: tss) ++ [token']))
  := by
  have hopen := hbracket.append (Token.cutsOff_blank (h.lineBreak (depth + 1)))
  have hitems := Token.Cuts.intercalate (separating_comma (depth + 1))
    (h.cutsOff_comma (depth + 1)) hts htss
  have hclose := (Token.cutsOff_blank (h.lineBreak depth)).append hbracket'
  have hall := (hopen.append_cuts hitems).append_cutsOff hclose (h.separating_close depth hfirst)
  rw [← String.append_assoc] at hall
  simpa using hall.cuts

end Layouts

/-! ### Texts -/

/-- Whether a text is cut into tokens that are read as a value. -/
def ReadAs (text : String) (v : Json) : Prop := ∃ ts, Token.Cuts text ts ∧ Yields ts v

theorem readAs_word {text : String} {v : Json} (h : Token.Cuts text [.word v]) : ReadAs text v
  := ⟨[.word v], h, yields_word v⟩

theorem readAs_string (s : String) : ReadAs (renderString s) (.str s)
  := ⟨[.str s], (Token.cutsOff_string s).cuts, yields_str s⟩

theorem readAs_null : ReadAs "null" .null
  := readAs_word (Token.cuts_word (by decide) (Token.forall_mem_of_all (by decide)) rfl)

theorem readAs_bool (b : Bool) : ReadAs (renderBool b) (.bool b)
  := by
  cases b <;>
    exact readAs_word (Token.cuts_word (by decide) (Token.forall_mem_of_all (by decide)) rfl)

/-- A textual key, a colon and a text that is read as a value are a field. -/
theorem ReadAs.field {text : String} {field : Key × Json} (h : ReadAs text field.2) {key : String}
    (hkey : field.1 = .text key) :
  ∃ ts, Token.Cuts (renderKey field.1 ++ ": " ++ text) ts ∧ YieldsField ts field
  := by
  obtain ⟨ts, hts, hvalue⟩ := h
  have hcolon : Token.CutsOff ": " [.colon] := fun _ _ => rfl
  use .str key :: .colon :: ts
  constructor
  · rw [hkey]
    exact ((Token.cutsOff_string key).append hcolon).append_cuts hts
  · exact ⟨key, ts, hkey, rfl, hvalue⟩

theorem renderItems_eq (indent : Option String) (depth : Nat) (items : List Json) :
  renderItems indent depth items = items.map (renderAt indent depth)
  := by
  induction items with
  | nil => rfl
  | cons v rest ih => rw [renderItems, ih, List.map_cons]

theorem renderFields_eq (indent : Option String) (depth : Nat) (fields : Fields) :
  renderFields indent depth fields
    = fields.map fun field => renderKey field.1 ++ ": " ++ renderAt indent depth field.2
  := by
  induction fields with
  | nil => rfl
  | cons field rest ih => rw [renderFields, ih, List.map_cons]

section Parts

variable {indent : Option String} (h : IsBlank indent) (depth : Nat)
include h

/-- An array is read back if its items are. -/
theorem readAs_arr {items : List Json}
    (hitems : ∀ v ∈ items, ReadAs (renderAt indent (depth + 1) v) v) :
  ReadAs (renderAt indent depth (.arr items)) (.arr items)
  := by
  have hforall : List.Forall₂ ReadAs (items.map (renderAt indent (depth + 1))) items := by
    rw [List.forall₂_map_left_iff, List.forall₂_same]
    exact hitems
  obtain ⟨tss, htexts, hyields⟩ := Fault.exists_between_of_forall₂ hforall
  refine ⟨_, ?_, Yields.arr hyields⟩
  cases items with
  | nil =>
    cases hyields
    rw [renderAt]
    exact Token.CutsOff.cuts fun _ _ => rfl
  | cons v rest =>
    obtain ⟨ts, tss, hts, htss, rfl⟩ := List.forall₂_cons_left_iff.mp htexts
    rw [renderAt, renderItems_eq]
    exact h.cuts_brackets depth (fun _ _ => rfl) (fun _ _ => rfl) ⟨']', [], rfl, rfl⟩ hts htss

/-- An object with distinct textual keys is read back if the values in it are. -/
theorem readAs_obj {fields : Fields} (hmapping : Mapping fields)
    (hfields : ∀ field ∈ fields, ReadAs (renderAt indent (depth + 1) field.2) field.2) :
  ReadAs (renderAt indent depth (.obj fields)) (.obj fields)
  := by
  have hforall : List.Forall₂
      (fun text field => ∃ ts, Token.Cuts text ts ∧ YieldsField ts field)
      (fields.map fun field => renderKey field.1 ++ ": " ++ renderAt indent (depth + 1) field.2)
      fields := by
    rw [List.forall₂_map_left_iff, List.forall₂_same]
    intro field hfield
    obtain ⟨key, hkey⟩ := hmapping.textual field hfield
    exact (hfields field hfield).field hkey
  obtain ⟨tss, htexts, hyields⟩ := Fault.exists_between_of_forall₂ hforall
  refine ⟨_, ?_, Yields.obj hyields hmapping.distinct⟩
  cases fields with
  | nil =>
    cases hyields
    rw [renderAt]
    exact Token.CutsOff.cuts fun _ _ => rfl
  | cons field rest =>
    obtain ⟨ts, tss, hts, htss, rfl⟩ := List.forall₂_cons_left_iff.mp htexts
    rw [renderAt, renderFields_eq]
    exact h.cuts_brackets depth (fun _ _ => rfl) (fun _ _ => rfl) ⟨'\x7d', [], rfl, rfl⟩ hts htss

end Parts

/-! ### Documents -/

/-- A value that a file keeps: the objects in it have distinct textual keys, the integers do not
have too many digits, and the floats are read back from their shortest decimals. -/
inductive Lossless : Json → Prop
  | null : Lossless .null
  | bool (b : Bool) : Lossless (.bool b)
  | int {n : Int} (h : n.natAbs < 10 ^ Numeral.maxIntDigits) : Lossless (.int n)
  | float {x : Float} (h : Token.ReadsBack x) : Lossless (.float x)
  | str (s : String) : Lossless (.str s)
  | arr {items : List Json} (h : ∀ v ∈ items, Lossless v) : Lossless (.arr items)
  | obj {fields : Fields} (hfields : Mapping fields) (h : ∀ field ∈ fields, Lossless field.2) :
    Lossless (.obj fields)

/-- The integers of a lossless value can be written. -/
theorem Lossless.isSpellable {v : Json} (hv : v.Lossless) : v.isSpellable = true
  := by
  induction hv with
  | int h => exact isSpellable_int_iff.mpr h
  | arr _ ih =>
    rw [Json.isSpellable, areSpellable_eq, List.all_eq_true]
    exact ih
  | obj hfields _ ih =>
    rw [Json.isSpellable, haveSpelling_eq, List.all_eq_true]
    intro field hfield
    obtain ⟨key, hkey⟩ := hfields.textual field hfield
    have hwritable : field.1.isSpellable = true := by
      rw [hkey]
      rfl
    rw [hwritable, Bool.true_and]
    exact ih field hfield
  | _ => rfl

theorem Lossless.file_eq {v : Json} (hv : v.Lossless) (indent : Option String) :
  file indent v = .ok (document indent v)
  := by
  rw [file, spelled_eq_ok hv.isSpellable, Fault.ok_bind, Fault.pure_eq_ok]

/-- A lossless value is read back at any depth. -/
theorem Lossless.readAs {v : Json} (hv : v.Lossless) {indent : Option String} (h : IsBlank indent)
    (depth : Nat) :
  ReadAs (renderAt indent depth v) v
  := by
  induction hv generalizing depth with
  | null => exact readAs_null
  | bool b => exact readAs_bool b
  | int hn => exact readAs_word (Token.cuts_int hn)
  | float hx => exact readAs_word (Token.cuts_float hx)
  | str s => exact readAs_string s
  | arr _ ih => exact readAs_arr h depth fun v hv => ih v hv (depth + 1)
  | obj hfields _ ih => exact readAs_obj h depth hfields fun f hf => ih f hf (depth + 1)

/-- The tokens of a text are those of the text with a line feed. -/
theorem lex_line {text : String} {ts : List Token} (h : Token.Cuts text ts) :
  Token.lex (text ++ "\n") = ts
  := by
  have hstops : Token.Stops ['\n'] := by
    rintro _ ⟨⟩
    rfl
  rw [Token.lex, String.toList_append]
  calc Token.lexFrom .between [] (text.toList ++ ['\n'])
    _ = Token.lexFrom .between (ts.reverse ++ []) ['\n'] := h [] _ hstops
    _ = (ts.reverse ++ []).reverse := rfl
    _ = ts := by simp

/-- A text that is read as a value, with a line feed, is a document of the value. -/
theorem ReadAs.parse_line {text : String} {v : Json} (h : ReadAs text v) :
  parse (text ++ "\n") = .ok v
  := by
  obtain ⟨ts, hcuts, hyields⟩ := h
  have hrun := hyields.value [] []
  rw [List.append_nil] at hrun
  rw [parse, lex_line hcuts, ofTokens, hrun]
  rfl

/-- A lossless value has a file and is read back from it, on one line or with any number of spaces
for each level: the order of the keys and the kinds of the numbers are kept. -/
theorem parse_document {v : Json} (hv : v.Lossless) {width : Json}
    (hwidth : width = .null ∨ ∃ n : Nat, width = .int n) :
  ∃ indent text, indentOf? width = some indent ∧ file indent v = .ok text ∧ parse text = .ok v
  := by
  rcases hwidth with rfl | ⟨n, rfl⟩
  · have hblank : IsBlank none := by
      rintro _ ⟨⟩
    exact ⟨none, _, rfl, hv.file_eq _, (hv.readAs hblank 0).parse_line⟩
  · have hblank : IsBlank (some (String.ofList (List.replicate (n : Int).toNat ' '))) := by
      rintro _ ⟨⟩ c hc
      rw [String.toList_ofList] at hc
      rw [List.eq_of_mem_replicate hc]
      rfl
    exact ⟨_, _, rfl, hv.file_eq _, (hv.readAs hblank 0).parse_line⟩

/-- An object with characters, containers and numbers of every kind. -/
def keepsake : Json :=
  .obj [(.text "a \"quote\" \\ line\n", .arr [.int (-30), .int 0, .float 0.5, .arr []]),
    (.text "", .obj [(.text "\u007Fé🌳", .str "\x00\u2028/"), (.text "b", .null)]),
    (.text "a", .arr [.bool true, .obj [], .arr [.arr [.str "\t"]]])]

theorem parse_document_keepsake :
  keepsake.Lossless
    ∧ ∃ indent text, indentOf? (.int 2) = some indent ∧ file indent keepsake = .ok text
      ∧ parse text = .ok keepsake
  := by
  have hint : ∀ n : Int, n.natAbs < 10 ^ 2 → Lossless (.int n) := fun n hn =>
    .int (Nat.lt_of_lt_of_le hn (Nat.pow_le_pow_right (by decide) (by decide)))
  have hempty : Lossless (.arr []) := .arr (by simp)
  have hnumbers : Lossless (.arr [.int (-30), .int 0, .float 0.5, .arr []]) := by
    apply Lossless.arr
    simp only [List.forall_mem_cons]
    exact ⟨hint _ (by decide), hint _ (by decide), .float ⟨"0.5", rfl, rfl⟩, hempty, by simp⟩
  have htexts : Lossless
      (.obj [(.text "\u007Fé🌳", .str "\x00\u2028/"), (.text "b", .null)]) := by
    apply Lossless.obj
    · exact ⟨by simp, by simp [Entries.Distinct, Entries.keys]⟩
    · simp only [List.forall_mem_cons]
      exact ⟨.str _, .null, by simp⟩
  have hnested : Lossless (.arr [.bool true, .obj [], .arr [.arr [.str "\t"]]]) := by
    have hinner : Lossless (.arr [.arr [.str "\t"]]) := by
      apply Lossless.arr
      rw [List.forall_mem_singleton]
      apply Lossless.arr
      rw [List.forall_mem_singleton]
      exact .str _
    apply Lossless.arr
    simp only [List.forall_mem_cons]
    exact ⟨.bool true, .obj ⟨by simp, .nil⟩ (by simp), hinner, by simp⟩
  have hlossless : keepsake.Lossless := by
    apply Lossless.obj
    · exact ⟨by simp, by simp [Entries.Distinct, Entries.keys]⟩
    · simp only [List.forall_mem_cons]
      exact ⟨hnumbers, htexts, hnested, by simp⟩
  exact ⟨hlossless, parse_document hlossless (.inr ⟨2, rfl⟩)⟩

/-- The digits of an integer that has too many of them cannot be read. -/
theorem parse_document_int {n : Int} (h : 10 ^ Numeral.maxIntDigits ≤ n.natAbs) :
  parse (document none (.int n)) = .error .unusableValue
  := by
  rw [parse, document, render, renderAt, lex_line (Token.cuts_long h)]
  rfl

/-- An integer with too many digits has no file, and would not be read back from one. -/
theorem not_parse_document_power :
  (¬ ∃ indent text, indentOf? .null = some indent
      ∧ file indent (.int (10 ^ Numeral.maxIntDigits)) = .ok text
      ∧ parse text = .ok (.int (10 ^ Numeral.maxIntDigits)))
    ∧ parse (document none (.int (10 ^ Numeral.maxIntDigits)))
      ≠ .ok (.int (10 ^ Numeral.maxIntDigits))
  := by
  constructor
  · rintro ⟨indent, text, -, hfile, -⟩
    obtain ⟨spelled, hspelled, -⟩ := Fault.bind_eq_ok_iff.mp hfile
    have hspellable := exists_spelled_iff.mp ⟨spelled, hspelled⟩
    rw [not_isSpellable_power] at hspellable
    cases hspellable
  · have hdigits : 10 ^ Numeral.maxIntDigits ≤ ((10 : Int) ^ Numeral.maxIntDigits).natAbs := by
      rw [Int.natAbs_pow]
      exact Nat.pow_le_pow_left (by decide) _
    rw [parse_document_int hdigits]
    simp

end AssetCanvas.Json
