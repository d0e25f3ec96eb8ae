import Cosmonaut.Text.Json
import Mathlib.Data.Int.Notation

/-!
# Writing JSON

`json.dump` with its default separators and without escapes for other characters than it must:
strings, integers, arrays and objects as syntax trees, with what they are read as.

* `dumpString`, `intNumber`, `dumpArray`, `dumpObject`: the writing.
* `codes_dumpString`, `load_dumpArray`, `load_dumpObject`: it is read back.
* `at_dumpObject`: what stands in a written object under a name.
* `text_dumpArray`: an array may as well be written element by element.
-/

namespace Text

/-! ## Strings -/

def hexChar (n : Fin 16) : Char := Char.ofNat (if n.val < 10 then 48 + n else 87 + n)

theorem hexValue_hexChar : ∀ n : Fin 16, hexValue (hexChar n) = some n.val := by decide

def hexDigit (n : Fin 16) : HexDigit := ⟨hexChar n, n, hexValue_hexChar n⟩

/-- The short escape that a character needs. -/
def escapeOf (c : Char) : Option ShortEscape :=
  if c = '"' then some .quote
  else if c = '\\' then some .backslash
  else if c.toNat = 0x0A then some .newline
  else if c.toNat = 0x0D then some .return
  else if c.toNat = 0x09 then some .tab
  else if c.toNat = 0x0C then some .formFeed
  else if c.toNat = 0x08 then some .backspace
  else none

theorem escapeOf_none {c : Char} (h : escapeOf c = none) : c ≠ '"' ∧ c ≠ '\\' := by
  constructor <;> rintro rfl <;> cases h

theorem escapeOf_some {c : Char} {e : ShortEscape} (h : escapeOf c = some e) :
    e.code = c.toNat := by
  unfold escapeOf at h
  split_ifs at h with h₁ h₂ h₃ h₄ h₅ h₆ h₇ <;> obtain rfl := Option.some.inj h
  · rw [h₁]
    rfl
  · rw [h₂]
    rfl
  · exact h₃.symm
  · exact h₄.symm
  · exact h₅.symm
  · exact h₆.symm
  · exact h₇.symm

def dumpChar (c : Char) : Piece :=
  match h : escapeOf c with
  | some e => .short e
  | none =>
    if hc : 0x20 ≤ c.toNat then .plain c ⟨(escapeOf_none h).1, (escapeOf_none h).2, hc⟩
    else .unicode (hexDigit 0) (hexDigit 0) (hexDigit (Fin.ofNat 16 (c.toNat / 16)))
      (hexDigit (Fin.ofNat 16 c.toNat))

def dumpString (s : String) : List Piece := s.toList.map dumpChar

theorem code_dumpChar (c : Char) : (dumpChar c).code = c.toNat := by
  unfold dumpChar
  split
  · rename_i e h
    exact escapeOf_some h
  · split
    · rfl
    · rename_i h
      simp only [Piece.code, hexDigit, Fin.val_ofNat]
      omega

/-- Characters are no surrogates. -/
theorem joinSurrogates_codesOf (l : List Char) :
    joinSurrogates (l.map Char.toNat) = l.map Char.toNat := by
  induction l with
  | nil => rfl
  | cons c l ih =>
    cases l with
    | nil => rfl
    | cons d l =>
      rw [List.map_cons, List.map_cons, joinSurrogates, if_neg, ← List.map_cons, ih]
      rintro ⟨hc, -⟩
      have hvalid : c.toNat < 0xD800 ∨ 0xDFFF < c.toNat ∧ c.toNat < 0x110000 := c.valid
      omega

/-- **A string is read back.** -/
theorem codes_dumpString (s : String) : codes (dumpString s) = codesOf s := by
  rw [codes, dumpString, List.map_map,
    show Piece.code ∘ dumpChar = Char.toNat from funext code_dumpChar,
    joinSurrogates_codesOf, codesOf]

/-! ## Integers -/

def lastDigit (n : ℕ) : Fin 10 := ⟨n % 10, Nat.mod_lt n (Nat.succ_pos 9)⟩

/-- The decimal digits, the highest first. -/
def decimalDigits : ℕ → ℕ → List (Fin 10)
  | 0, _ => []
  | k + 1, n =>
    if n < 10 then [lastDigit n] else decimalDigits k (n / 10) ++ [lastDigit n]

theorem decimalDigits_head {k n : ℕ} (hn : n < k) : ∃ d l, decimalDigits k n = d :: l ∧
    (d = 0 → n = 0) := by
  induction k generalizing n with
  | zero => omega
  | succ k ih =>
    unfold decimalDigits
    split
    · refine ⟨_, [], rfl, fun hd => ?_⟩
      have hval : n % 10 = 0 := congrArg Fin.val hd
      omega
    · obtain ⟨d, l, hl, hd⟩ := ih (n := n / 10) (by omega)
      refine ⟨d, l ++ [lastDigit n], by rw [hl, List.cons_append], fun h => ?_⟩
      have := hd h
      omega

theorem decimalDigits_ne (n : ℕ) : decimalDigits (n + 1) n ≠ [] := by
  obtain ⟨d, l, hl, -⟩ := decimalDigits_head (Nat.lt_succ_self n)
  rw [hl]
  exact List.cons_ne_nil d l

theorem decimalDigits_no_zeros (n : ℕ) (h : (decimalDigits (n + 1) n).head?.map Fin.val = some 0) :
    (decimalDigits (n + 1) n).length = 1 := by
  obtain ⟨d, l, hl, hd⟩ := decimalDigits_head (Nat.lt_succ_self n)
  rw [hl, List.head?_cons, Option.map_some, Option.some.injEq] at h
  rw [hd (Fin.ext h)]
  rfl

/-- An integer as it is written. -/
def intNumber (n : ℤ) : Number where
  minus := n < 0
  whole := decimalDigits (n.natAbs + 1) n.natAbs
  fraction := []
  exponent := none
  whole_ne := decimalDigits_ne n.natAbs
  no_zeros := decimalDigits_no_zeros n.natAbs
  exponent_ne := nofun

/-! ## Arrays and objects -/

def elementsFrom (before : Blanks) : Value → List Value → Elements
  | v, [] => .one (.mk before v [])
  | v, w :: l => .cons (.mk before v []) (elementsFrom [.space] w l)

def dumpArray : List Value → Value
  | [] => .emptyArray []
  | v :: l => .array (elementsFrom [] v l)

def membersFrom (before : Blanks) : String × Value → List (String × Value) → Members
  | m, [] => .one (.mk before (dumpString m.1) [] (.mk [.space] m.2 []))
  | m, n :: l => .cons (.mk before (dumpString m.1) [] (.mk [.space] m.2 []))
      (membersFrom [.space] n l)

def dumpObject : List (String × Value) → Value
  | [] => .emptyObject []
  | m :: l => .object (membersFrom [] m l)

/-- A string value. -/
def dumpText (s : String) : Value := .string (dumpString s)

@[simp] theorem load_dumpText (s : String) : (dumpText s).load = .string (codesOf s) := by
  rw [dumpText, Value.load, codes_dumpString]

theorem load_elementsFrom (before : Blanks) (v : Value) (l : List Value) :
    (elementsFrom before v l).load = (v :: l).map Value.load := by
  induction l generalizing before v with
  | nil => rfl
  | cons w l ih =>
    rw [elementsFrom, Elements.load, ih]
    rfl

@[simp] theorem load_dumpArray (l : List Value) :
    (dumpArray l).load = .array (l.map Value.load) := by
  cases l with
  | nil => rfl
  | cons v l => rw [dumpArray, Value.load, load_elementsFrom]

theorem load_membersFrom (before : Blanks) (m : String × Value) (l : List (String × Value)) :
    (membersFrom before m l).load = (m :: l).map fun m => (codesOf m.1, m.2.load) := by
  induction l generalizing before m with
  | nil => simp [membersFrom, Members.load, Member.load, Element.load, codes_dumpString]
  | cons n l ih =>
    rw [membersFrom, Members.load, ih]
    simp [Member.load, Element.load, codes_dumpString]

@[simp] theorem load_dumpObject (l : List (String × Value)) :
    (dumpObject l).load = .object (l.map fun m => (codesOf m.1, m.2.load)) := by
  cases l with
  | nil => rfl
  | cons m l => rw [dumpObject, Value.load, load_membersFrom]

theorem codesOf_injective : Function.Injective codesOf := by
  intro s t h
  have hlist : s.toList = t.toList := List.map_injective_iff.2 (fun c d => Char.toNat_inj.1) h
  exact String.toList_inj.1 hlist

/-- **A member is read back** under its name. -/
theorem at_dumpObject (name : String) (path : List String) (l : List (String × Value)) :
    (dumpObject l).load.at (name :: path) =
      (l.reverse.find? fun m => m.1 = name).bind fun m => m.2.load.at path := by
  have hfind : Json.get? (codesOf name) (l.map fun m => (codesOf m.1, m.2.load)) =
      (l.reverse.find? fun m => m.1 = name).map fun m => m.2.load := by
    rw [Json.get?, ← List.map_reverse, List.find?_map, Option.map_map]
    have hpred : ((fun m : List ℕ × Json => decide (m.1 = codesOf name)) ∘
        fun m : String × Value => (codesOf m.1, m.2.load)) = fun m => decide (m.1 = name) := by
      funext m
      simp [codesOf_injective.eq_iff]
    rw [hpred]
    rfl
  rw [load_dumpObject, Json.at, hfind, Option.bind_map]
  rfl

/-- A member for every name of a list. -/
theorem at_dumpObject_map {name : String} {names : List String} (h : name ∈ names)
    (path : List String) (value : String → Value) :
    (dumpObject (names.map fun n => (n, value n))).load.at (name :: path) =
      (value name).load.at path := by
  have hfind : names.reverse.find? (fun n => decide (n = name)) = some name := by
    cases hfound : names.reverse.find? (fun n => decide (n = name)) with
    | none => exact absurd (List.find?_eq_none.1 hfound name (List.mem_reverse.2 h)) (by simp)
    | some n => simpa using List.find?_some hfound
  rw [at_dumpObject, ← List.map_reverse, List.find?_map,
    show ((fun m : String × Value => decide (m.1 = name)) ∘ fun n => (n, value n)) =
      fun n => decide (n = name) from rfl, hfind]
  rfl

/-! ## What is written -/

/-- The text of a value. -/
def Value.text (v : Value) : List Char := textOf v.tokens

theorem parses_text (v : Value) : Parses v.text v.load :=
  ⟨.mk [] v [], by simp [Element.tokens, blankTokens, Value.text], rfl⟩

/-- Texts with commas between them. -/
def joined : List (List Char) → List Char
  | [] => []
  | t :: ts => t ++ ts.flatMap ([',', ' '] ++ ·)

theorem joined_two (a b : List Char) : joined [a, b] = a ++ ([',', ' '] ++ b) := by
  simp [joined]

theorem joined_three (a b c : List Char) :
    joined [a, b, c] = a ++ ([',', ' '] ++ (b ++ ([',', ' '] ++ c))) := by
  simp [joined]

/-- One more text at the end. -/
theorem joined_snoc (ts : List (List Char)) (t : List Char) :
    joined (ts ++ [t]) = joined ts ++ (if ts = [] then t else [',', ' '] ++ t) := by
  cases ts with
  | nil => simp [joined]
  | cons u ts => simp [joined]

theorem textOf_elementsFrom (before : Blanks) (v : Value) (l : List Value) :
    textOf (elementsFrom before v l).tokens =
      textOf (blankTokens before) ++ joined ((v :: l).map Value.text) := by
  induction l generalizing before v with
  | nil => simp [elementsFrom, Elements.tokens, Element.tokens, blankTokens, textOf, joined,
      Value.text]
  | cons w l ih =>
    rw [elementsFrom, Elements.tokens, textOf_append, textOf_cons, ih]
    simp [Element.tokens, blankTokens, textOf, joined, Value.text, Token.text, Mark.char,
      Blank.char]

/-- **An array is written element by element.** -/
theorem text_dumpArray (l : List Value) :
    (dumpArray l).text = '[' :: (joined (l.map Value.text) ++ [']']) := by
  cases l with
  | nil => rfl
  | cons v l =>
    rw [Value.text, dumpArray, Value.tokens, textOf_cons, textOf_append, textOf_elementsFrom]
    rfl

/-- A member of an object as it is written. -/
def memberText (m : String × Value) : List Char :=
  literal (dumpString m.1) ++ [':', ' '] ++ m.2.text

theorem textOf_membersFrom (before : Blanks) (m : String × Value) (l : List (String × Value)) :
    textOf (membersFrom before m l).tokens =
      textOf (blankTokens before) ++ joined ((m :: l).map memberText) := by
  induction l generalizing before m with
  | nil =>
    simp [membersFrom, Members.tokens, Member.tokens, Element.tokens, blankTokens, textOf, joined,
      memberText, Value.text, Token.text, Mark.char, Blank.char]
  | cons n l ih =>
    rw [membersFrom, Members.tokens, textOf_append, textOf_cons, ih]
    simp [Member.tokens, Element.tokens, blankTokens, textOf, joined, memberText, Value.text,
      Token.text, Mark.char, Blank.char]

/-- **An object is written member by member.** -/
theorem text_dumpObject (l : List (String × Value)) :
    (dumpObject l).text = '\x7b' :: (joined (l.map memberText) ++ ['\x7d']) := by
  cases l with
  | nil => rfl
  | cons m l =>
    rw [Value.text, dumpObject, Value.tokens, textOf_cons, textOf_append, textOf_membersFrom]
    rfl

/-- Characters that need no escape. -/
theorem flatMap_dumpChar {l : List Char} (h : ∀ c ∈ l, (dumpChar c).text = [c]) :
    (l.map dumpChar).flatMap Piece.text = l := by
  induction l with
  | nil => rfl
  | cons c l ih =>
    rw [List.map_cons, List.flatMap_cons, h c List.mem_cons_self,
      ih fun d hd => h d (List.mem_cons_of_mem c hd)]
    rfl

/-- The characters of a number need no escape. -/
theorem flatMap_dumpChar_number (n : Number) :
    (n.text.map dumpChar).flatMap Piece.text = n.text := by
  have hall : ∀ c ∈ wordChars, (dumpChar c).text = [c] := List.all_iff_forall_prop.1 (by decide)
  exact flatMap_dumpChar fun c hc => hall c (n.text_chars hc)

end Text
