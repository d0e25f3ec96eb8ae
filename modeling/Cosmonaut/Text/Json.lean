import Mathlib.Data.Bool.AllAny
import Mathlib.Data.List.Basic

/-!
# JSON texts

The grammar of JSON as syntax trees that keep every blank and every spelling, the tokens and the
text of a tree, and the value that it stands for.

* `Value`, `Element`, `Members`: the syntax trees.
* `Element.tokens`, `textOf`: what is written.
* `Element.load`: the value that is read, names and strings as code points.
-/

namespace Text

/-! ## The spellings -/

inductive Blank where
  | space | tab | newline | return
  deriving DecidableEq

def Blank.char : Blank → Char
  | .space => ' '
  | .tab => '\t'
  | .newline => '\n'
  | .return => '\r'

abbrev Blanks := List Blank

/-- The escapes of two characters. -/
inductive ShortEscape where
  | quote | backslash | slash | backspace | formFeed | newline | return | tab
  deriving DecidableEq

/-- The character after the backslash. -/
def ShortEscape.char : ShortEscape → Char
  | .quote => '"'
  | .backslash => '\\'
  | .slash => '/'
  | .backspace => 'b'
  | .formFeed => 'f'
  | .newline => 'n'
  | .return => 'r'
  | .tab => 't'

/-- The code point that is meant. -/
def ShortEscape.code : ShortEscape → ℕ
  | .quote => 0x22
  | .backslash => 0x5C
  | .slash => 0x2F
  | .backspace => 0x08
  | .formFeed => 0x0C
  | .newline => 0x0A
  | .return => 0x0D
  | .tab => 0x09

/-- The value of a hexadecimal digit. -/
def hexValue (c : Char) : Option ℕ :=
  if '0' ≤ c ∧ c ≤ '9' then some (c.toNat - 48)
  else if 'a' ≤ c ∧ c ≤ 'f' then some (c.toNat - 87)
  else if 'A' ≤ c ∧ c ≤ 'F' then some (c.toNat - 55)
  else none

structure HexDigit where
  char : Char
  value : ℕ
  isHex : hexValue char = some value
  deriving DecidableEq

/-- A part of a string: a character that stands for itself, or an escape. -/
inductive Piece where
  | plain (c : Char) (h : c ≠ '"' ∧ c ≠ '\\' ∧ 0x20 ≤ c.toNat)
  | short (e : ShortEscape)
  | unicode (a b c d : HexDigit)
  deriving DecidableEq

def Piece.text : Piece → List Char
  | .plain c _ => [c]
  | .short e => ['\\', e.char]
  | .unicode a b c d => ['\\', 'u', a.char, b.char, c.char, d.char]

def Piece.code : Piece → ℕ
  | .plain c _ => c.toNat
  | .short e => e.code
  | .unicode a b c d => ((a.value * 16 + b.value) * 16 + c.value) * 16 + d.value

/-- Two escapes of a pair of surrogates are one character. -/
def joinSurrogates : List ℕ → List ℕ
  | a :: b :: l =>
    if (0xD800 ≤ a ∧ a ≤ 0xDBFF) ∧ (0xDC00 ≤ b ∧ b ≤ 0xDFFF) then
      (0x10000 + (a - 0xD800) * 0x400 + (b - 0xDC00)) :: joinSurrogates l
    else a :: joinSurrogates (b :: l)
  | l => l

/-- The code points of a string. -/
def codes (s : List Piece) : List ℕ := joinSurrogates (s.map Piece.code)

/-- The code points of a text. -/
def codesOf (s : String) : List ℕ := s.toList.map Char.toNat

/-- A number is kept as it is written. -/
structure Number where
  minus : Bool
  whole : List (Fin 10)
  fraction : List (Fin 10)
  /-- The letter, the sign and the digits. -/
  exponent : Option (Bool × Option Bool × List (Fin 10))
  whole_ne : whole ≠ []
  no_zeros : whole.head?.map Fin.val = some 0 → whole.length = 1
  exponent_ne : ∀ e ∈ exponent, e.2.2 ≠ []
  deriving DecidableEq

def digitChar (d : Fin 10) : Char := Char.ofNat (48 + d)

def Number.text (n : Number) : List Char :=
  (if n.minus then ['-'] else []) ++ n.whole.map digitChar ++
    (if n.fraction = [] then [] else '.' :: n.fraction.map digitChar) ++
    match n.exponent with
    | none => []
    | some (upper, sign, digits) =>
      (if upper then ['E'] else ['e']) ++
        (match sign with
        | none => []
        | some true => ['+']
        | some false => ['-']) ++ digits.map digitChar

/-! ## Tokens -/

inductive Mark where
  | openArray | closeArray | openObject | closeObject | comma | colon
  deriving DecidableEq

def Mark.char : Mark → Char
  | .openArray => '['
  | .closeArray => ']'
  | .openObject => '\x7b'
  | .closeObject => '\x7d'
  | .comma => ','
  | .colon => ':'

inductive Token where
  | blank (b : Blank)
  | mark (m : Mark)
  | string (s : List Piece)
  | number (n : Number)
  | null
  | bool (b : Bool)
  deriving DecidableEq

/-- A string in its quotes. -/
def literal (s : List Piece) : List Char := '"' :: (s.flatMap Piece.text ++ ['"'])

def Token.text : Token → List Char
  | .blank b => [b.char]
  | .mark m => [m.char]
  | .string s => literal s
  | .number n => n.text
  | .null => ['n', 'u', 'l', 'l']
  | .bool true => ['t', 'r', 'u', 'e']
  | .bool false => ['f', 'a', 'l', 's', 'e']

def textOf (ts : List Token) : List Char := ts.flatMap Token.text

/-! ## Syntax trees -/

mutual

inductive Value where
  | null
  | bool (b : Bool)
  | number (n : Number)
  | string (s : List Piece)
  | emptyArray (blanks : Blanks)
  | array (elements : Elements)
  | emptyObject (blanks : Blanks)
  | object (members : Members)

/-- A value with the blanks around it. -/
inductive Element where
  | mk (before : Blanks) (value : Value) (after : Blanks)

inductive Elements where
  | one (element : Element)
  | cons (element : Element) (more : Elements)

inductive Member where
  | mk (before : Blanks) (name : List Piece) (after : Blanks) (element : Element)

inductive Members where
  | one (member : Member)
  | cons (member : Member) (more : Members)

end

def blankTokens (b : Blanks) : List Token := b.map .blank

mutual

def Value.tokens : Value → List Token
  | .null => [.null]
  | .bool b => [.bool b]
  | .number n => [.number n]
  | .string s => [.string s]
  | .emptyArray blanks => .mark .openArray :: (blankTokens blanks ++ [.mark .closeArray])
  | .array elements => .mark .openArray :: (elements.tokens ++ [.mark .closeArray])
  | .emptyObject blanks => .mark .openObject :: (blankTokens blanks ++ [.mark .closeObject])
  | .object members => .mark .openObject :: (members.tokens ++ [.mark .closeObject])

def Element.tokens : Element → List Token
  | .mk before value after => blankTokens before ++ value.tokens ++ blankTokens after

def Elements.tokens : Elements → List Token
  | .one element => element.tokens
  | .cons element more => element.tokens ++ .mark .comma :: more.tokens

def Member.tokens : Member → List Token
  | .mk before name after element =>
    blankTokens before ++ .string name :: (blankTokens after ++ .mark .colon :: element.tokens)

def Members.tokens : Members → List Token
  | .one member => member.tokens
  | .cons member more => member.tokens ++ .mark .comma :: more.tokens

end

def Element.text (e : Element) : List Char := textOf e.tokens

/-! ## What is read -/

/-- A value as it is loaded. -/
inductive Json where
  | null
  | bool (b : Bool)
  | number (n : Number)
  | string (s : List ℕ)
  | array (l : List Json)
  | object (l : List (List ℕ × Json))

mutual

def Value.load : Value → Json
  | .null => .null
  | .bool b => .bool b
  | .number n => .number n
  | .string s => .string (codes s)
  | .emptyArray _ => .array []
  | .array elements => .array elements.load
  | .emptyObject _ => .object []
  | .object members => .object members.load

def Element.load : Element → Json
  | .mk _ value _ => value.load

def Elements.load : Elements → List Json
  | .one element => [element.load]
  | .cons element more => element.load :: more.load

def Member.load : Member → List ℕ × Json
  | .mk _ name _ element => (codes name, element.load)

def Members.load : Members → List (List ℕ × Json)
  | .one member => [member.load]
  | .cons member more => member.load :: more.load

end

def Element.value : Element → Value
  | .mk _ value _ => value

def Member.name : Member → List Piece
  | .mk _ name _ _ => name

def Member.value : Member → Value
  | .mk _ _ _ element => element.value

/-- The blanks after the value. -/
def Member.afterValue : Member → Blanks
  | .mk _ _ _ (.mk _ _ after) => after

def Members.first : Members → Member
  | .one member => member
  | .cons member _ => member

/-- The members of a list before others. -/
def Members.prepend : List Member → Members → Members
  | [], ms => ms
  | m :: l, ms => .cons m (prepend l ms)

def Value.isArray : Value → Bool
  | .emptyArray _ | .array _ => true
  | _ => false

mutual

/-- In every object of the value, `p` holds of every member and the one after it. -/
def Value.allNext (p : Member → Member → Bool) : Value → Bool
  | .array elements => elements.allNext p
  | .object members => members.allNext p
  | _ => true

def Element.allNext (p : Member → Member → Bool) : Element → Bool
  | .mk _ value _ => value.allNext p

def Elements.allNext (p : Member → Member → Bool) : Elements → Bool
  | .one element => element.allNext p
  | .cons element more => element.allNext p && more.allNext p

def Member.allNext (p : Member → Member → Bool) : Member → Bool
  | .mk _ _ _ element => element.allNext p

def Members.allNext (p : Member → Member → Bool) : Members → Bool
  | .one member => member.allNext p
  | .cons member more => member.allNext p && p member more.first && more.allNext p

end

/-- Of several members of a name the last one counts. -/
def Json.get? (name : List ℕ) (l : List (List ℕ × Json)) : Option Json :=
  (l.reverse.find? fun m => m.1 = name).map Prod.snd

/-- The value along a path of names. -/
def Json.at : List String → Json → Option Json
  | [], j => some j
  | name :: path, .object l => (Json.get? (codesOf name) l).bind (Json.at path)
  | _ :: _, _ => none

/-- The text is that of a syntax tree of the value. -/
def Parses (text : List Char) (j : Json) : Prop :=
  ∃ e : Element, textOf e.tokens = text ∧ e.load = j

/-! ## Inside a string -/

/-- What stands between the quotes of a string: every quote and every backslash is escaped. -/
inductive Body : List Char → Prop
  | nil : Body []
  | plain {c l} : c ≠ '"' → c ≠ '\\' → Body l → Body (c :: l)
  | escape {c l} : c ≠ '\n' → Body l → Body ('\\' :: c :: l)

variable {a b l r r' : List Char} {c : Char} {s : List Piece} {ts : List Token} {t : Token}

theorem hexDigit_plain (d : HexDigit) : d.char ≠ '"' ∧ d.char ≠ '\\' := by
  obtain ⟨c, v, h⟩ := d
  constructor
  · rintro rfl
    cases h
  · rintro rfl
    cases h

theorem body_piece (p : Piece) (h : Body l) : Body (p.text ++ l) := by
  cases p with
  | plain c hc => exact .plain hc.1 hc.2.1 h
  | short e => exact .escape (by cases e <;> decide) h
  | unicode a b c d =>
    have hd := Body.plain (hexDigit_plain d).1 (hexDigit_plain d).2 h
    have hc := Body.plain (hexDigit_plain c).1 (hexDigit_plain c).2 hd
    have hb := Body.plain (hexDigit_plain b).1 (hexDigit_plain b).2 hc
    exact .escape (by decide) (.plain (hexDigit_plain a).1 (hexDigit_plain a).2 hb)

theorem body_pieces (s : List Piece) : Body (s.flatMap Piece.text) := by
  induction s with
  | nil => exact .nil
  | cons p s ih => exact body_piece p ih

/-- The body of a string ends at its closing quote. -/
theorem Body.unique (ha : Body a) (hb : Body b) (h : a ++ '"' :: r = b ++ '"' :: r') :
    a = b ∧ r = r' := by
  induction ha generalizing b with
  | nil =>
    cases hb with
    | nil => exact ⟨rfl, (List.cons.inj h).2⟩
    | plain hquote => exact absurd (List.cons.inj h).1.symm hquote
    | escape => exact absurd (List.cons.inj h).1 (by decide)
  | plain hquote hslash _ ih =>
    cases hb with
    | nil => exact absurd (List.cons.inj h).1 hquote
    | plain _ _ hb =>
      obtain ⟨rfl, htail⟩ := List.cons.inj h
      obtain ⟨rfl, hr⟩ := ih hb htail
      exact ⟨rfl, hr⟩
    | escape => exact absurd (List.cons.inj h).1 hslash
  | escape _ _ ih =>
    cases hb with
    | nil => exact absurd (List.cons.inj h).1 (by decide)
    | plain _ hslash => exact absurd (List.cons.inj h).1.symm hslash
    | escape _ hb =>
      obtain ⟨rfl, htail⟩ := List.cons.inj (List.cons.inj h).2
      obtain ⟨rfl, hr⟩ := ih hb htail
      exact ⟨rfl, hr⟩

/-- A quote in a string follows a backslash. -/
theorem Body.quote_escaped (h : Body l) (hl : l = a ++ '"' :: b) : '\\' ∈ a.getLast? := by
  induction h generalizing a with
  | nil => simp at hl
  | @plain c l hquote _ _ ih =>
    cases a with
    | nil => exact absurd (List.cons.inj hl).1 hquote
    | cons d a =>
      have hlast := ih (List.cons.inj hl).2
      rw [List.getLast?_cons, hlast]
      rfl
  | @escape c l _ _ ih =>
    cases a with
    | nil => exact absurd (List.cons.inj hl).1 (by decide)
    | cons d a =>
      obtain ⟨rfl, htail⟩ := List.cons.inj hl
      cases a with
      | nil => rfl
      | cons d' a =>
        have hlast := ih (List.cons.inj htail).2
        rw [List.getLast?_cons_cons, List.getLast?_cons, hlast]
        rfl

/-! ## Where tokens start -/

@[simp] theorem textOf_cons : textOf (t :: ts) = t.text ++ textOf ts := rfl

@[simp] theorem textOf_append (ts ts' : List Token) :
    textOf (ts ++ ts') = textOf ts ++ textOf ts' := by
  simp [textOf]

/-- The characters that start a number or a word. -/
def wordStarts : List Char := "-0123456789ntf".toList

/-- The characters of numbers and words. -/
def wordChars : List Char := "-+.0123456789eEnultrafs".toList

theorem digitChar_mem (d : Fin 10) : digitChar d ∈ wordStarts ∧ digitChar d ∈ wordChars := by
  revert d
  decide

theorem Number.text_start (n : Number) : ∃ c l, n.text = c :: l ∧ c ∈ wordStarts := by
  unfold Number.text
  split
  · exact ⟨'-', _, rfl, by decide⟩
  · obtain ⟨d, whole, hwhole⟩ := List.exists_cons_of_ne_nil n.whole_ne
    rw [hwhole]
    exact ⟨digitChar d, _, rfl, (digitChar_mem d).1⟩

theorem Number.text_chars (n : Number) (h : c ∈ n.text) : c ∈ wordChars := by
  have hdigits : ∀ l : List (Fin 10), c ∈ l.map digitChar → c ∈ wordChars := by
    intro l hc
    obtain ⟨d, -, rfl⟩ := List.mem_map.1 hc
    exact (digitChar_mem d).2
  have hmark : ∀ d ∈ wordChars, c ∈ [d] → c ∈ wordChars := by
    intro d hd hc
    rwa [List.mem_singleton.1 hc]
  simp only [Number.text, List.mem_append] at h
  rcases h with ((h | h) | h) | h
  · split at h
    · exact hmark '-' (by decide) h
    · cases h
  · exact hdigits _ h
  · split at h
    · cases h
    · rcases List.mem_cons.1 h with rfl | h
      · decide
      · exact hdigits _ h
  · split at h
    · cases h
    · simp only [List.mem_append] at h
      rcases h with (h | h) | h
      · split at h
        · exact hmark 'E' (by decide) h
        · exact hmark 'e' (by decide) h
      · split at h
        · cases h
        · exact hmark '+' (by decide) h
        · exact hmark '-' (by decide) h
      · exact hdigits _ h

/-- What the first character of a token says. -/
theorem Token.start (t : Token) : ∃ c l, t.text = c :: l ∧
    ((∃ b, t = .blank b ∧ c = b.char ∧ l = []) ∨ (∃ m, t = .mark m ∧ c = m.char ∧ l = []) ∨
      (∃ s, t = .string s ∧ c = '"' ∧ l = s.flatMap Piece.text ++ ['"']) ∨ c ∈ wordStarts) := by
  cases t with
  | blank b => exact ⟨_, _, rfl, .inl ⟨b, rfl, rfl, rfl⟩⟩
  | mark m => exact ⟨_, _, rfl, .inr (.inl ⟨m, rfl, rfl, rfl⟩)⟩
  | string s => exact ⟨_, _, rfl, .inr (.inr (.inl ⟨s, rfl, rfl, rfl⟩))⟩
  | number n =>
    obtain ⟨c, l, hl, hc⟩ := n.text_start
    exact ⟨c, l, hl, .inr (.inr (.inr hc))⟩
  | null => exact ⟨_, _, rfl, .inr (.inr (.inr (by decide)))⟩
  | bool b => cases b <;> exact ⟨_, _, rfl, .inr (.inr (.inr (by decide)))⟩

/-- Only strings have characters inside that no number and no word has. -/
theorem Token.inside {d : Char} (h : t.text = d :: l) (hc : c ∈ l) :
    (∃ s, t = .string s) ∨ c ∈ wordChars := by
  cases t with
  | blank b =>
    obtain ⟨-, rfl⟩ := List.cons.inj h
    cases hc
  | mark m =>
    obtain ⟨-, rfl⟩ := List.cons.inj h
    cases hc
  | string s => exact .inl ⟨s, rfl⟩
  | number n =>
    have hmem : c ∈ n.text := by
      rw [show n.text = d :: l from h]
      exact List.mem_cons_of_mem d hc
    exact .inr (n.text_chars hmem)
  | null =>
    obtain ⟨-, rfl⟩ := List.cons.inj h
    exact .inr (List.all_iff_forall_prop.1 (by decide) c hc)
  | bool b =>
    right
    cases b with
    | true =>
      obtain ⟨-, rfl⟩ := List.cons.inj h
      exact List.all_iff_forall_prop.1 (by decide) c hc
    | false =>
      obtain ⟨-, rfl⟩ := List.cons.inj h
      exact List.all_iff_forall_prop.1 (by decide) c hc

/-- The text of tokens starts with the text of the first one. -/
theorem textOf_eq_cons (h : textOf ts = c :: l) :
    ∃ t ts' l', ts = t :: ts' ∧ t.text = c :: l' ∧ l = l' ++ textOf ts' := by
  cases ts with
  | nil => cases h
  | cons t ts =>
    obtain ⟨d, l', hl', -⟩ := t.start
    rw [textOf_cons, hl'] at h
    obtain ⟨rfl, rfl⟩ := List.cons.inj h
    exact ⟨t, ts, l', rfl, hl', rfl⟩

theorem mark_of_text {m : Mark} (h : textOf ts = m.char :: l) :
    ∃ ts', ts = .mark m :: ts' ∧ textOf ts' = l := by
  obtain ⟨t, ts', l', rfl, ht, rfl⟩ := textOf_eq_cons h
  obtain ⟨c, k, hk, hstart⟩ := t.start
  obtain ⟨rfl, rfl⟩ := List.cons.inj (hk.symm.trans ht)
  rcases hstart with ⟨b, rfl, hc, -⟩ | ⟨m', rfl, hc, rfl⟩ | ⟨s, rfl, hc, -⟩ | hc
  · cases m <;> cases b <;> cases hc
  · obtain rfl : m = m' := by cases m <;> cases m' <;> first | rfl | cases hc
    exact ⟨ts', rfl, rfl⟩
  · cases m <;> cases hc
  · exact absurd hc (by cases m <;> decide)

theorem string_of_text (h : textOf ts = '"' :: l) :
    ∃ s ts', ts = .string s :: ts' ∧ s.flatMap Piece.text ++ '"' :: textOf ts' = l := by
  obtain ⟨t, ts', l', rfl, ht, rfl⟩ := textOf_eq_cons h
  obtain ⟨c, k, hk, hstart⟩ := t.start
  obtain ⟨rfl, rfl⟩ := List.cons.inj (hk.symm.trans ht)
  rcases hstart with ⟨b, rfl, hc, -⟩ | ⟨m, rfl, hc, -⟩ | ⟨s, rfl, -, rfl⟩ | hc
  · cases b <;> cases hc
  · cases m <;> cases hc
  · exact ⟨s, ts', rfl, by simp⟩
  · exact absurd hc (by decide)

/-- No token starts with another letter than those of the words. -/
theorem no_text_of_letter (h : textOf ts = c :: l) (hc : c ∉ wordStarts) (hletter : c.isAlpha) :
    False := by
  obtain ⟨t, ts', l', rfl, ht, rfl⟩ := textOf_eq_cons h
  obtain ⟨d, k, hk, hstart⟩ := t.start
  obtain ⟨rfl, rfl⟩ := List.cons.inj (hk.symm.trans ht)
  rcases hstart with ⟨b, rfl, rfl, -⟩ | ⟨m, rfl, rfl, -⟩ | ⟨s, rfl, rfl, -⟩ | hstart
  · cases b <;> cases hletter
  · cases m <;> cases hletter
  · cases hletter
  · exact hc hstart

/-! ## Blanks between tokens -/

/-- The tokens after the blanks. -/
def skipBlanks : List Token → List Token
  | .blank _ :: ts => skipBlanks ts
  | ts => ts

@[simp] theorem skipBlanks_blankTokens (b : Blanks) (ts : List Token) :
    skipBlanks (blankTokens b ++ ts) = skipBlanks ts := by
  induction b with
  | nil => rfl
  | cons _ b ih => exact ih

theorem skipBlanks_element (before : Blanks) (v : Value) (after : Blanks) (ts : List Token) :
    skipBlanks ((Element.mk before v after).tokens ++ ts) =
      v.tokens ++ (blankTokens after ++ ts) := by
  rw [Element.tokens, List.append_assoc, List.append_assoc, skipBlanks_blankTokens]
  cases v <;> rfl

/-- The tokens before a character that is no blank. -/
theorem textOf_skipBlanks {isSpace : Char → Bool} (hspace : ∀ b : Blank, isSpace b.char = true)
    (hstart : ∀ d ∈ wordStarts, isSpace d = false) (hmark : ∀ m : Mark, isSpace m.char = false)
    (hquote : isSpace '"' = false) {b : List Char} (hb : ∀ d ∈ b, isSpace d = true)
    (hc : isSpace c = false) (h : textOf ts = b ++ c :: l) :
    textOf (skipBlanks ts) = c :: l := by
  induction ts generalizing b with
  | nil => simp [textOf] at h
  | cons t ts ih =>
    obtain ⟨d, k, hk, hcases⟩ := t.start
    rw [textOf_cons, hk] at h
    have hnot : isSpace d = false → textOf (t :: ts) = c :: l := by
      intro hd
      cases b with
      | nil => rw [textOf_cons, hk, h, List.nil_append]
      | cons a b =>
        obtain ⟨rfl, -⟩ := List.cons.inj h
        rw [hb d List.mem_cons_self] at hd
        cases hd
    rcases hcases with ⟨a, rfl, rfl, rfl⟩ | ⟨m, rfl, rfl, -⟩ | ⟨s, rfl, rfl, -⟩ | hd
    · -- a blank of the tokens is one of the characters before
      cases b with
      | nil =>
        obtain ⟨rfl, -⟩ := List.cons.inj h
        rw [hspace a] at hc
        cases hc
      | cons a' b =>
        obtain ⟨-, htail⟩ := List.cons.inj h
        exact ih (fun d hd => hb d (List.mem_cons_of_mem a' hd)) htail
    · exact hnot (hmark m)
    · exact hnot hquote
    · have hword : skipBlanks (t :: ts) = t :: ts := by
        cases t with
        | blank a =>
          obtain ⟨rfl, -⟩ := List.cons.inj hk
          exact absurd (hstart _ hd) (by rw [hspace a]; decide)
        | mark | string | number | null | bool => rfl
      rw [hword]
      exact hnot (hstart d hd)

/-! ## Reading a literal -/

/-- The short escape with the character after the backslash. -/
def shortEscape (c : Char) : Option ShortEscape :=
  if c = '"' then some .quote
  else if c = '\\' then some .backslash
  else if c = '/' then some .slash
  else if c = 'b' then some .backspace
  else if c = 'f' then some .formFeed
  else if c = 'n' then some .newline
  else if c = 'r' then some .return
  else if c = 't' then some .tab
  else none

/-- The codes of the characters up to the closing quote, and what follows it. -/
def scanString : List Char → Option (List ℕ × List Char)
  | [] => none
  | '"' :: l => some ([], l)
  | '\\' :: 'u' :: a :: b :: c :: d :: l =>
    match hexValue a, hexValue b, hexValue c, hexValue d, scanString l with
    | some a, some b, some c, some d, some (s, l') =>
        some ((((a * 16 + b) * 16 + c) * 16 + d) :: s, l')
    | _, _, _, _, _ => none
  | '\\' :: e :: l =>
    match shortEscape e, scanString l with
    | some e, some (s, l') => some (e.code :: s, l')
    | _, _ => none
  | c :: l =>
    match scanString l with
    | some (s, l') => if 0x20 ≤ c.toNat ∧ c ≠ '\\' then some (c.toNat :: s, l') else none
    | none => none

/-- A text that is one string in its quotes. -/
def loadLiteral : List Char → Option (List ℕ)
  | '"' :: l =>
    match scanString l with
    | some (s, []) => some (joinSurrogates s)
    | _ => none
  | _ => none

theorem scanString_piece (p : Piece) {codes : List ℕ} {rest : List Char}
    (h : scanString l = some (codes, rest)) :
    scanString (p.text ++ l) = some (p.code :: codes, rest) := by
  cases p with
  | plain c hc =>
    obtain ⟨hquote, hslash, hcode⟩ := hc
    rw [show (Piece.plain c ⟨hquote, hslash, hcode⟩).text ++ l = c :: l from rfl, scanString.eq_def]
    split
    · rename_i heq
      cases heq
    · rename_i heq
      exact absurd (List.cons.inj heq).1 hquote
    · rename_i heq
      exact absurd (List.cons.inj heq).1 hslash
    · rename_i heq
      exact absurd (List.cons.inj heq).1 hslash
    · rename_i heq
      obtain ⟨rfl, rfl⟩ := List.cons.inj heq
      simp [h, hcode, hslash, Piece.code]
  | short e => cases e <;> simp [Piece.text, scanString, h, ShortEscape.char, shortEscape,
      Piece.code]
  | unicode a b c d =>
    simp [Piece.text, scanString, h, a.isHex, b.isHex, c.isHex, d.isHex, Piece.code]

theorem scanString_pieces (s : List Piece) (rest : List Char) :
    scanString (s.flatMap Piece.text ++ '"' :: rest) = some (s.map Piece.code, rest) := by
  induction s with
  | nil => rfl
  | cons p s ih =>
    rw [List.flatMap_cons, List.append_assoc]
    exact scanString_piece p ih

/-- **A literal is read back.** -/
theorem loadLiteral_literal (s : List Piece) : loadLiteral (literal s) = some (codes s) := by
  rw [literal, loadLiteral, scanString_pieces]
  rfl

end Text
