import Cosmonaut.Text.Json
import Cosmonaut.Text.Regex

/-!
# A remark after an array

The pattern with which the source looks for the remark of a response, on the text of a JSON syntax
tree: where it matches, and in which trees it matches nowhere.

* `remarkAfterElements`: the pattern.
* `remarkAfter_of_takes`, `takes_of_remarkAfter`: on the tokens of a text it matches where an array
  is followed by a member that is plainly named remark.
* `noRemark`, `quiet_members`: syntax trees without such a place.
* `search_remark`: what a search over the end of a text finds.
-/

namespace Cosmonaut

open Text

/-! ## The pattern -/

/-- `\s` in a pattern over strings. -/
def isSpace (c : Char) : Bool :=
  (9 ≤ c.toNat ∧ c.toNat ≤ 13) ∨ (28 ≤ c.toNat ∧ c.toNat ≤ 32) ∨ c.toNat = 0x85 ∨ c.toNat = 0xA0 ∨
    c.toNat = 0x1680 ∨ (0x2000 ≤ c.toNat ∧ c.toNat ≤ 0x200A) ∨ c.toNat = 0x2028 ∨ c.toNat = 0x2029 ∨
    c.toNat = 0x202F ∨ c.toNat = 0x205F ∨ c.toNat = 0x3000

/-- `\s*` -/
def spaces : Regex := .star (.set isSpace)

/-- `(?:[^"\\]|\\.)*` -/
def stringBody : Regex :=
  .star (.alt (.set fun c => c ≠ '"' ∧ c ≠ '\\') (.seq (.char '\\') (.set fun c => c ≠ '\n')))

/-- `\]\s*,\s*"remark"\s*:\s*("(?:[^"\\]|\\.)*")` -/
def remarkAfterElements : Regex :=
  .seq (.char ']') <| .seq spaces <| .seq (.char ',') <| .seq spaces <|
    .word ['"', 'r', 'e', 'm', 'a', 'r', 'k', '"'] <| .seq spaces <| .seq (.char ':') <|
    .seq spaces <| .group <| .seq (.char '"') <| .seq stringBody (.char '"')

variable {w l rest : List Char} {g g' : Option (List Char)} {ts pre post : List Token}

theorem takes_spaces : spaces.Takes w g g' ↔ (∀ c ∈ w, isSpace c = true) ∧ g' = g := takes_star_set

theorem takes_stringBody : stringBody.Takes w g g' ↔ Body w ∧ g' = g := by
  constructor
  · intro h
    unfold stringBody at h
    generalize hr : Regex.star _ = r at h
    induction h with
    | set | seq | left | right | group => cases hr
    | stop => exact ⟨.nil, rfl⟩
    | again _ hu _ _ ih =>
      obtain rfl := Regex.star.inj hr
      obtain ⟨hv, rfl⟩ := ih rfl
      rcases takes_alt.1 hu with hu | hu
      · obtain ⟨c, hc, rfl, rfl⟩ := takes_set.1 hu
        obtain ⟨hquote, hslash⟩ := of_decide_eq_true hc
        exact ⟨.plain hquote hslash hv, rfl⟩
      · obtain ⟨_, _, _, rfl, ha, hb⟩ := takes_seq.1 hu
        obtain ⟨rfl, rfl⟩ := takes_char.1 ha
        obtain ⟨c, hc, rfl, rfl⟩ := takes_set.1 hb
        exact ⟨.escape (of_decide_eq_true hc) hv, rfl⟩
  · rintro ⟨h, rfl⟩
    induction h with
    | nil => exact .stop
    | @plain c l hquote hslash _ ih =>
      exact .again (u := [c]) (List.cons_ne_nil c [])
        (.left (.set (decide_eq_true ⟨hquote, hslash⟩))) ih
    | @escape c l hc _ ih =>
      exact .again (u := ['\\', c]) (List.cons_ne_nil _ _)
        (.right (.seq (takes_char.2 ⟨rfl, rfl⟩) (.set (decide_eq_true hc)))) ih

/-- What the pattern takes. -/
theorem takes_remarkAfterElements : remarkAfterElements.Takes w g g' ↔
    ∃ a b c d body : List Char, (∀ x ∈ a, isSpace x = true) ∧ (∀ x ∈ b, isSpace x = true) ∧
      (∀ x ∈ c, isSpace x = true) ∧ (∀ x ∈ d, isSpace x = true) ∧ Body body ∧
      w = ']' :: (a ++ ',' :: (b ++ '"' :: ("remark".toList ++
        '"' :: (c ++ ':' :: (d ++ '"' :: (body ++ ['"'])))))) ∧
      g' = some ('"' :: (body ++ ['"'])) := by
  unfold remarkAfterElements
  simp only [takes_seq, takes_char, takes_spaces, takes_word, takes_group, takes_stringBody]
  constructor
  · rintro ⟨_, _, _, rfl, ⟨rfl, rfl⟩, a, _, _, rfl, ⟨ha, rfl⟩, _, _, _, rfl, ⟨rfl, rfl⟩, b,
      _, _, rfl, ⟨hb, rfl⟩, _, rfl, c, _, _, rfl, ⟨hc, rfl⟩, _, _, _, rfl, ⟨rfl, rfl⟩, d, _, _, rfl,
      ⟨hd, rfl⟩, ⟨_, _, _, _, rfl, ⟨rfl, rfl⟩, body, _, _, rfl, ⟨hbody, rfl⟩, rfl, rfl⟩, rfl⟩
    exact ⟨a, b, c, d, body, ha, hb, hc, hd, hbody, rfl, rfl⟩
  · rintro ⟨a, b, c, d, body, ha, hb, hc, hd, hbody, rfl, rfl⟩
    exact ⟨[']'], _, g, rfl, ⟨rfl, rfl⟩, a, _, g, rfl, ⟨ha, rfl⟩, [','], _, g, rfl, ⟨rfl, rfl⟩,
      b, _, g, rfl, ⟨hb, rfl⟩, _, rfl, c, _, g, rfl, ⟨hc, rfl⟩, [':'], _, g, rfl, ⟨rfl, rfl⟩, d,
      _, g, rfl, ⟨hd, rfl⟩,
      ⟨g, ['"'], _, g, rfl, ⟨rfl, rfl⟩, body, _, g, rfl, ⟨hbody, rfl⟩, rfl, rfl⟩, rfl⟩

/-! ## On tokens -/

/-- The string after a comma, the name remark without escapes, and a colon. -/
def remarkAfter (ts : List Token) : Option (List Piece) :=
  match skipBlanks ts with
  | .mark .comma :: ts =>
    match skipBlanks ts with
    | .string name :: ts =>
      if name.flatMap Piece.text = "remark".toList then
        match skipBlanks ts with
        | .mark .colon :: ts =>
          match skipBlanks ts with
          | .string remark :: _ => some remark
          | _ => none
        | _ => none
      else none
    | _ => none
  | _ => none

theorem textOf_after_spaces {b : List Char} {c : Char} (hb : ∀ d ∈ b, isSpace d = true)
    (hc : isSpace c = false) (h : textOf ts = b ++ c :: l) : textOf (skipBlanks ts) = c :: l :=
  textOf_skipBlanks (fun b => by cases b <;> decide) (List.all_iff_forall_prop.1 (by decide))
    (fun m => by cases m <;> decide) (by decide) hb hc h

/-- A match between tokens. -/
theorem remarkAfter_of_takes (htakes : remarkAfterElements.Takes w none g)
    (h : textOf ts = w ++ rest) :
    ∃ ts' r, ts = .mark .closeArray :: ts' ∧ remarkAfter ts' = some r ∧ g = some (literal r) := by
  obtain ⟨a, b, c, d, body, ha, hb, hc, hd, hbody, rfl, rfl⟩ := takes_remarkAfterElements.1 htakes
  simp only [List.cons_append, List.append_assoc, List.nil_append] at h
  obtain ⟨ts₁, rfl, h₁⟩ := mark_of_text (m := .closeArray) h
  obtain ⟨ts₂, hts₂, h₂⟩ := mark_of_text (m := .comma) (textOf_after_spaces ha (by decide) h₁)
  obtain ⟨name, ts₃, hts₃, h₃⟩ := string_of_text (textOf_after_spaces hb (by decide) h₂)
  have hremark : Body "remark".toList := by
    repeat' first | exact .nil | apply Body.plain (by decide) (by decide)
  obtain ⟨hname, h₃⟩ := (body_pieces name).unique hremark h₃
  obtain ⟨ts₄, hts₄, h₄⟩ := mark_of_text (m := .colon) (textOf_after_spaces hc (by decide) h₃)
  obtain ⟨r, ts₅, hts₅, h₅⟩ := string_of_text (textOf_after_spaces hd (by decide) h₄)
  obtain ⟨hr, -⟩ := (body_pieces r).unique hbody h₅
  refine ⟨ts₁, r, rfl, ?_, by rw [literal, hr]⟩
  simp only [remarkAfter, hts₂, hts₃, hname, hts₄, hts₅, if_true]

/-- Blanks are taken as spaces. -/
theorem text_blanks (ts : List Token) :
    ∃ a, (∀ x ∈ a, isSpace x = true) ∧ textOf ts = a ++ textOf (skipBlanks ts) := by
  induction ts with
  | nil => exact ⟨[], by simp, rfl⟩
  | cons t ts ih =>
    cases t with
    | blank b =>
      obtain ⟨a, ha, htext⟩ := ih
      refine ⟨b.char :: a, ?_, ?_⟩
      · exact List.forall_mem_cons.2 ⟨by cases b <;> decide, ha⟩
      · rw [textOf_cons, htext]
        rfl
    | mark | string | number | null | bool => exact ⟨[], by simp, rfl⟩

theorem takes_of_remarkAfter {r : List Piece} (h : remarkAfter ts = some r) :
    ∃ w rest, textOf (.mark .closeArray :: ts) = w ++ rest ∧
      remarkAfterElements.Takes w none (some (literal r)) := by
  unfold remarkAfter at h
  obtain ⟨a, ha, h₁⟩ := text_blanks ts
  split at h
  · rename_i ts₁ hts₁
    obtain ⟨b, hb, h₂⟩ := text_blanks ts₁
    split at h
    · rename_i name ts₂ hts₂
      obtain ⟨c, hc, h₃⟩ := text_blanks ts₂
      split at h
      · rename_i hname
        split at h
        · rename_i ts₃ hts₃
          obtain ⟨d, hd, h₄⟩ := text_blanks ts₃
          split at h
          · rename_i remark ts₄ hts₄
            obtain rfl := Option.some.inj h
            refine ⟨_, textOf ts₄, ?_, takes_remarkAfterElements.2
              ⟨a, b, c, d, _, ha, hb, hc, hd, body_pieces remark, rfl, rfl⟩⟩
            rw [textOf_cons, h₁, hts₁, textOf_cons, h₂, hts₂, textOf_cons, h₃, hts₃, textOf_cons,
              h₄, hts₄, textOf_cons]
            simp [Token.text, literal, hname, Mark.char]
          · cases h
        · cases h
      · cases h
    · cases h
  · cases h

/-! ## Only between tokens -/

/-- Inside a string the pattern cannot match: its first quote would be the closing one, and no token
starts with an r. -/
theorem not_takes_inside {a b : List Char} {s : List Piece} {g : Option (List Char)}
    (hs : s.flatMap Piece.text = a ++ ']' :: b)
    (htakes : remarkAfterElements.Takes w none g)
    (h : ']' :: (b ++ '"' :: textOf ts) = w ++ rest) : False := by
  obtain ⟨x, y, c, d, body, hx, hy, -, -, -, rfl, -⟩ := takes_remarkAfterElements.1 htakes
  obtain ⟨l, hl⟩ : ∃ l, b ++ '"' :: textOf ts = (x ++ ',' :: y) ++ '"' :: 'r' :: l := by
    refine ⟨"emark".toList ++ '"' :: (c ++ ':' :: (d ++ '"' :: (body ++ ['"']))) ++ rest, ?_⟩
    rw [(List.cons.inj h).2]
    simp
  have hspace : ∀ d, isSpace d = true → d ≠ '"' ∧ d ≠ '\\' := by
    intro d hd
    constructor <;> rintro rfl <;> cases hd
  have hplain : ∀ d ∈ x ++ ',' :: y, d ≠ '"' ∧ d ≠ '\\' := by
    intro d hd
    rcases List.mem_append.1 hd with hd | hd
    · exact hspace d (hx d hd)
    rcases List.mem_cons.1 hd with rfl | hd
    · decide
    · exact hspace d (hy d hd)
  rcases List.append_eq_append_iff.1 hl with ⟨u, hu, htail⟩ | ⟨u, hu, htail⟩
  · -- the string goes no further than the spaces
    cases u with
    | nil =>
      obtain ⟨-, hr⟩ := List.cons.inj htail
      exact no_text_of_letter hr (by decide) (by decide)
    | cons d u =>
      obtain ⟨rfl, -⟩ := List.cons.inj htail
      exact (hplain '"' (by rw [hu]; simp)).1 rfl
  · cases u with
    | nil =>
      obtain ⟨-, hr⟩ := List.cons.inj htail
      exact no_text_of_letter hr.symm (by decide) (by decide)
    | cons d u =>
      -- the quote is one of the string and is not escaped
      obtain ⟨rfl, -⟩ := List.cons.inj htail
      have hbody := body_pieces s
      rw [hs, hu] at hbody
      have hlast := hbody.quote_escaped (a := a ++ ']' :: (x ++ ',' :: y)) (b := u) (by simp)
      rw [List.getLast?_append_of_ne_nil _ (List.cons_ne_nil _ _),
        List.getLast?_cons_of_ne_nil (by simp)] at hlast
      exact (hplain _ (List.mem_of_getLast? hlast)).2 rfl

/-- **A match starts between tokens.** -/
theorem split_of_takes {a b : List Char} {g : Option (List Char)} (h : textOf ts = a ++ b)
    (hb : b = w ++ rest) (htakes : remarkAfterElements.Takes w none g) :
    ∃ pre post, ts = pre ++ post ∧ textOf pre = a ∧ textOf post = b := by
  induction ts generalizing a with
  | nil =>
    obtain ⟨rfl, rfl⟩ := List.append_eq_nil_iff.1 h.symm
    exact ⟨[], [], rfl, rfl, rfl⟩
  | cons t ts ih =>
    cases a with
    | nil => exact ⟨[], t :: ts, rfl, rfl, h⟩
    | cons d a =>
      rw [textOf_cons] at h
      rcases List.append_eq_append_iff.1 h with ⟨u, hu, hts⟩ | ⟨u, hu, htail⟩
      · obtain ⟨pre, post, rfl, hpre, hpost⟩ := ih hts
        exact ⟨t :: pre, post, rfl, by rw [textOf_cons, hpre, hu], hpost⟩
      · cases u with
        | nil =>
          refine ⟨[t], ts, rfl, ?_, htail.symm⟩
          rw [textOf_cons, hu]
          simp [textOf]
        | cons c u =>
          exfalso
          -- the match would start inside the token
          obtain ⟨_, _, _, _, _, -, -, -, -, -, rfl, -⟩ := takes_remarkAfterElements.1 htakes
          obtain rfl : ']' = c := by
            rw [hb] at htail
            exact (List.cons.inj htail).1
          rcases Token.inside (c := ']') hu (by simp) with ⟨s, rfl⟩ | hword
          · obtain ⟨-, hliteral⟩ := List.cons.inj hu
            rcases List.eq_nil_or_concat u with rfl | ⟨v, e, rfl⟩
            · have hends : s.flatMap Piece.text ++ ['"'] = a ++ [']'] := hliteral
              exact absurd (List.append_inj' hends rfl).2 (by decide)
            · rw [List.concat_eq_append] at hliteral htail
              have hsplit : s.flatMap Piece.text ++ ['"'] = (a ++ ']' :: v) ++ [e] := by
                rw [hliteral]
                simp
              obtain ⟨hs, he⟩ := List.append_inj' hsplit rfl
              obtain rfl := List.singleton_inj.1 he
              have hinside : ']' :: (v ++ '"' :: textOf ts) = b := by
                rw [htail]
                simp
              exact not_takes_inside hs htakes (hinside.trans hb)
          · exact absurd hword (by decide)

/-! ## Tokens without a match -/

/-- No array that closes in `pre` has a remark after it. -/
def Quiet (pre post : List Token) : Prop :=
  ∀ a b, pre = a ++ .mark .closeArray :: b → remarkAfter (b ++ post) = none

@[simp] theorem quiet_nil : Quiet [] post := by
  intro a b h
  simp at h

theorem quiet_cons {t : Token} : Quiet (t :: pre) post ↔
    (t = .mark .closeArray → remarkAfter (pre ++ post) = none) ∧ Quiet pre post := by
  constructor
  · intro h
    refine ⟨fun ht => h [] pre (by rw [ht]; rfl), fun a b hpre => h (t :: a) b ?_⟩
    rw [hpre, List.cons_append]
  · rintro ⟨hhead, htail⟩ a b hpre
    cases a with
    | nil =>
      obtain ⟨rfl, rfl⟩ := List.cons.inj hpre
      exact hhead rfl
    | cons u a =>
      obtain ⟨rfl, rfl⟩ := List.cons.inj hpre
      exact htail a b rfl

theorem quiet_cons_other {t : Token} (ht : t ≠ .mark .closeArray) (h : Quiet pre post) :
    Quiet (t :: pre) post := quiet_cons.2 ⟨fun hclose => absurd hclose ht, h⟩

theorem quiet_append {l : List Token} :
    Quiet (pre ++ l) post ↔ Quiet pre (l ++ post) ∧ Quiet l post := by
  induction pre with
  | nil => simp
  | cons t pre ih => rw [List.cons_append, quiet_cons, quiet_cons, ih, List.append_assoc, and_assoc]

/-- A search over the end of a text passes the tokens without a match. -/
theorem search_quiet {a b : List Char} (hquiet : Quiet pre post) (h : textOf pre = a ++ b) :
    remarkAfterElements.search (b ++ textOf post) = remarkAfterElements.search (textOf post) := by
  refine search_append fun c d hb hd => runs_eq_nil_iff.2 fun u v g hu htakes => ?_
  have htext : textOf (pre ++ post) = (a ++ c) ++ (d ++ textOf post) := by
    rw [textOf_append, h, hb]
    simp
  obtain ⟨x, y, hsplit, hx, hy⟩ := split_of_takes htext hu htakes
  have hlength : (textOf x).length < (textOf pre).length := by
    have hpos := List.length_pos_iff.2 hd
    rw [hx, h, hb]
    simp only [List.length_append]
    omega
  obtain ⟨z, r, rfl, hr, -⟩ := remarkAfter_of_takes htakes (hy.trans hu)
  rcases List.append_eq_append_iff.1 hsplit with ⟨e, rfl, -⟩ | ⟨e, rfl, he⟩
  · rw [textOf_append, List.length_append] at hlength
    omega
  · cases e with
    | nil =>
      rw [List.append_nil] at hlength
      omega
    | cons t e =>
      obtain ⟨rfl, rfl⟩ := List.cons.inj he
      cases (hquiet x e rfl).symm.trans hr

/-- **What a search finds** at the end of an array and after it. -/
theorem search_remark (hquiet : Quiet ts []) :
    (remarkAfterElements.search (textOf (.mark .closeArray :: ts))).map Place.group =
      (remarkAfter ts).map fun r => some (literal r) := by
  rcases hr : remarkAfter ts with _ | r
  · have hall : Quiet (.mark .closeArray :: ts) [] :=
      quiet_cons.2 ⟨fun _ => by rw [List.append_nil, hr], hquiet⟩
    have hsearch := search_quiet (a := []) (b := textOf (.mark .closeArray :: ts)) hall rfl
    rw [show textOf [] = [] from rfl, List.append_nil] at hsearch
    rw [hsearch]
    decide
  · obtain ⟨w, rest, htext, htakes⟩ := takes_of_remarkAfter hr
    rw [htext]
    apply search_of_unique htakes
    intro u v g hu htakes'
    obtain ⟨ts', r', hts, hr', rfl⟩ := remarkAfter_of_takes htakes' (htext.trans hu)
    obtain ⟨-, rfl⟩ := List.cons.inj hts
    rw [Option.some.inj (hr.symm.trans hr')]

/-! ## Trees without a match -/

/-- The name that is read, however it is spelled. -/
def isRemark (name : List Piece) : Bool := codes name = codesOf "remark"

/-- Not an array that is directly followed by a member named remark. -/
def noRemark (member next : Member) : Bool := !(member.value.isArray && isRemark next.name)

theorem isRemark_of_text {name : List Piece} (h : name.flatMap Piece.text = "remark".toList) :
    isRemark name = true := by
  have hscan := scanString_pieces name []
  have hremark : scanString ("remark".toList ++ ['"']) = some (codesOf "remark", []) := by
    decide
  rw [h, hremark] at hscan
  have hcodes : name.map Piece.code = codesOf "remark" :=
    (Prod.mk.inj (Option.some.inj hscan)).1.symm
  apply decide_eq_true
  rw [codes, hcodes]
  decide

theorem remarkAfter_blanks (b : Blanks) : remarkAfter (blankTokens b ++ ts) = remarkAfter ts := by
  simp only [remarkAfter, skipBlanks_blankTokens]

theorem quiet_blanks (b : Blanks) : Quiet (blankTokens b) post := by
  induction b with
  | nil => exact quiet_nil
  | cons a b ih => exact quiet_cons_other (by simp) ih

/-- The mark after a string that is an element of an array is no colon. -/
theorem remarkAfter_element (e : Element) {m : Mark} (hm : m ≠ .colon) :
    remarkAfter (.mark .comma :: (e.tokens ++ .mark m :: post)) = none := by
  obtain ⟨before, value, after⟩ := e
  rw [remarkAfter, skipBlanks]
  · dsimp only
    rw [skipBlanks_element]
    cases value with
    | string s =>
      rw [show Value.tokens (.string s) = [.string s] from rfl]
      simp only [List.cons_append, List.nil_append, skipBlanks_blankTokens]
      split
      · cases m <;> first | rfl | exact absurd rfl hm
      · rfl
    | null | bool | number | emptyArray | array | emptyObject | object => rfl
  · simp

/-- A member of another name. -/
theorem remarkAfter_name (b : Blanks) {name : List Piece} (hname : isRemark name = false) :
    remarkAfter (.mark .comma :: (blankTokens b ++ .string name :: post)) = none := by
  rw [remarkAfter, skipBlanks]
  · dsimp only
    rw [skipBlanks_blankTokens]
    simp only [skipBlanks]
    rw [if_neg]
    intro h
    rw [isRemark_of_text h] at hname
    cases hname
  · simp

theorem first_tokens (ms : Members) :
    ∃ b l, ms.tokens = blankTokens b ++ .string ms.first.name :: l := by
  cases ms with
  | one m =>
    cases m
    exact ⟨_, _, rfl⟩
  | cons m ms =>
    cases m
    exact ⟨_, _, by rw [Members.tokens, Member.tokens, List.append_assoc]; rfl⟩

theorem elements_tokens (es : Elements) (post : List Token) : ∃ e m l, m ≠ Mark.colon ∧
    es.tokens ++ .mark .closeArray :: post = Element.tokens e ++ .mark m :: l := by
  cases es with
  | one e => exact ⟨e, .closeArray, post, by decide, rfl⟩
  | cons e es => exact ⟨e, .comma, _, by decide,
      by simp only [Elements.tokens, List.append_assoc]; rfl⟩

mutual

/-- In a value without such a place the pattern can only match at the end of the value. -/
theorem quiet_value : ∀ (v : Value) (post : List Token), v.allNext noRemark = true →
    (v.isArray = true → remarkAfter post = none) → Quiet v.tokens post
  | .null, _, _, _ | .bool _, _, _, _ | .number _, _, _, _ | .string _, _, _, _ =>
    quiet_cons_other (by simp) quiet_nil
  | .emptyArray b, post, _, h => by
    refine quiet_cons_other (by simp)
      (quiet_append.2 ⟨quiet_blanks b, quiet_cons.2 ⟨fun _ => ?_, quiet_nil⟩⟩)
    exact h rfl
  | .array es, post, hes, h => by
    refine quiet_cons_other (by simp) (quiet_append.2
      ⟨quiet_elements es post hes, quiet_cons.2 ⟨fun _ => ?_, quiet_nil⟩⟩)
    exact h rfl
  | .emptyObject b, post, _, _ =>
    quiet_cons_other (by simp)
      (quiet_append.2 ⟨quiet_blanks b, quiet_cons_other (by simp) quiet_nil⟩)
  | .object ms, post, hms, _ =>
    quiet_cons_other (by simp) (quiet_append.2
      ⟨quiet_members ms post hms, quiet_cons_other (by simp) quiet_nil⟩)

theorem quiet_element : ∀ (e : Element) (post : List Token), e.allNext noRemark = true →
    (e.value.isArray = true → remarkAfter post = none) → Quiet e.tokens post
  | .mk before v after, post, he, h => by
    refine quiet_append.2 ⟨quiet_append.2 ⟨quiet_blanks before, quiet_value v _ he fun hv => ?_⟩,
      quiet_blanks after⟩
    rw [remarkAfter_blanks]
    exact h hv

theorem quiet_elements : ∀ (es : Elements) (post : List Token), es.allNext noRemark = true →
    Quiet es.tokens (.mark .closeArray :: post)
  | .one e, post, he => quiet_element e _ he fun _ => rfl
  | .cons e es, post, hes => by
    obtain ⟨he, hmore⟩ := Bool.and_eq_true_iff.1 hes
    refine quiet_append.2 ⟨quiet_element e _ he fun _ => ?_,
      quiet_cons_other (by simp) (quiet_elements es post hmore)⟩
    obtain ⟨e', m, l, hm, htokens⟩ := elements_tokens es post
    rw [List.cons_append, htokens]
    exact remarkAfter_element e' hm

theorem quiet_member : ∀ (m : Member) (post : List Token), m.allNext noRemark = true →
    (m.value.isArray = true → remarkAfter post = none) → Quiet m.tokens post
  | .mk before _ after e, post, he, h =>
    quiet_append.2 ⟨quiet_blanks before, quiet_cons_other (by simp) (quiet_append.2
      ⟨quiet_blanks after, quiet_cons_other (by simp) (quiet_element e post he h)⟩)⟩

theorem quiet_members : ∀ (ms : Members) (post : List Token), ms.allNext noRemark = true →
    Quiet ms.tokens (.mark .closeObject :: post)
  | .one m, post, hm => quiet_member m _ hm fun _ => rfl
  | .cons m ms, post, hms => by
    obtain ⟨hboth, hmore⟩ := Bool.and_eq_true_iff.1 hms
    obtain ⟨hm, hnext⟩ := Bool.and_eq_true_iff.1 hboth
    refine quiet_append.2 ⟨quiet_member m _ hm fun harray => ?_,
      quiet_cons_other (by simp) (quiet_members ms post hmore)⟩
    obtain ⟨b, l, hl⟩ := first_tokens ms
    rw [List.cons_append, hl, List.append_assoc]
    exact remarkAfter_name b (by simpa [noRemark, harray] using hnext)

end

/-- An array up to its closing bracket. -/
theorem array_tokens {v : Value} (harray : v.isArray = true) (hv : v.allNext noRemark = true) :
    ∃ l, v.tokens = l ++ [.mark .closeArray] ∧ ∀ post, Quiet l (.mark .closeArray :: post) := by
  cases v with
  | emptyArray b => exact ⟨_, rfl, fun post => quiet_cons_other (by simp) (quiet_blanks b)⟩
  | array es => exact ⟨_, rfl, fun post => quiet_cons_other (by simp) (quiet_elements es post hv)⟩
  | null | bool | number | string | emptyObject | object => cases harray

/-- A member that is an array, up to its closing bracket. -/
theorem arrayMember_tokens {m : Member} (harray : m.value.isArray = true)
    (hm : m.allNext noRemark = true) :
    ∃ l, m.tokens = l ++ .mark .closeArray :: blankTokens m.afterValue ∧
      (∃ b k, l = blankTokens b ++ .string m.name :: k) ∧
      ∀ post, Quiet l (.mark .closeArray :: post) := by
  obtain ⟨before, name, after, before', v, after'⟩ := m
  obtain ⟨l, hl, hquiet⟩ := array_tokens (v := v) harray hm
  refine ⟨blankTokens before ++ .string name :: (blankTokens after ++ .mark .colon ::
    (blankTokens before' ++ l)), ?_, ⟨before, _, rfl⟩, fun post => ?_⟩
  · simp [Member.tokens, Element.tokens, hl, Member.afterValue]
  · exact quiet_append.2 ⟨quiet_blanks before, quiet_cons_other (by simp) (quiet_append.2
      ⟨quiet_blanks after, quiet_cons_other (by simp) (quiet_append.2
        ⟨quiet_blanks before', hquiet post⟩)⟩)⟩

/-- The members up to the closing bracket of the last one. -/
theorem header_tokens {m : Member} (harray : m.value.isArray = true) :
    ∀ header : List Member, (Members.prepend header (.one m)).allNext noRemark = true →
      ∃ l, (∃ b k, l = blankTokens b ++ .string (Members.prepend header (.one m)).first.name :: k) ∧
        (∀ post, Quiet l (.mark .closeArray :: post)) ∧
        ∀ (ms : Members) (rest : List Token), ms.tokens = m.tokens ++ rest →
          (Members.prepend header ms).tokens =
            l ++ .mark .closeArray :: (blankTokens m.afterValue ++ rest)
  | [], hm => by
    obtain ⟨l, hl, hname, hquiet⟩ := arrayMember_tokens harray hm
    refine ⟨l, hname, hquiet, fun ms rest hms => ?_⟩
    rw [Members.prepend, hms, hl, List.append_assoc, List.cons_append]
  | a :: header, hall => by
    obtain ⟨hboth, hmore⟩ := Bool.and_eq_true_iff.1 hall
    obtain ⟨ha, hnext⟩ := Bool.and_eq_true_iff.1 hboth
    obtain ⟨l, ⟨b, k, hname⟩, hquiet, htokens⟩ := header_tokens harray header hmore
    refine ⟨a.tokens ++ .mark .comma :: l, ?_, fun post => ?_, fun ms rest hms => ?_⟩
    · obtain ⟨before, name, after, element⟩ := a
      exact ⟨before, _, by rw [Member.tokens, List.append_assoc]; rfl⟩
    · refine quiet_append.2 ⟨quiet_member a _ ha fun harray => ?_,
        quiet_cons_other (by simp) (hquiet post)⟩
      rw [List.cons_append, hname, List.append_assoc]
      exact remarkAfter_name b (by simpa [noRemark, harray] using hnext)
    · rw [Members.prepend, Members.tokens, htokens ms rest hms, List.append_assoc, List.cons_append]

end Cosmonaut
