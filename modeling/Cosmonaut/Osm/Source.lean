import Cosmonaut.Osm.Remark
import Cosmonaut.Text.Utf8

/-!
# The source of the ways

`OverpassSource.stream_ways` on the response body, read chunk by chunk through the reader that keeps
the end of the body, and parsed as it arrives.

* `streamWays`: the generator, with the parser's steps as a parameter.
* `Document`: a body with an `elements` array that at most a remark follows.
* `streamWays_document`: what is yielded, and when the partial answer is told.
* `answers_not_told`: bodies for which the remark's name is spelled with an escape, a member before
  the elements imitates a remark, and an element has no type.
-/

namespace Cosmonaut

open Text

/-- `_TAIL_BYTES` -/
def tailBytes : ℕ := 65536

/-- The last `n` bytes. -/
def lastBytes (n : ℕ) (l : List UInt8) : List UInt8 := l.drop (l.length - n)

/-- `_TailKeepingReader`, with the chunks that the raw stream still has. -/
structure TailKeepingReader where
  raw : List (List UInt8)
  tail : List UInt8

def TailKeepingReader.read (r : TailKeepingReader) : TailKeepingReader where
  raw := r.raw.tail
  tail := lastBytes tailBytes (r.tail ++ r.raw.headD [])

/-- What raises in the generator. -/
inductive SourceError where
  | keyError
  | typeError
  | jsonDecodeError
  | overpassRuntimeError (remark : List ℕ)
  deriving DecidableEq

/-- `_raise_on_runtime_error` -/
def raiseOnRuntimeError (tail : List UInt8) : Except SourceError Unit :=
  match remarkAfterElements.search (Utf8.decode tail) with
  | none => .ok ()
  | some m =>
    match m.group.bind loadLiteral with
    | none => .error .jsonDecodeError
    | some remark =>
      if (codesOf "runtime error").isPrefixOf remark then .error (.overpassRuntimeError remark)
      else .ok ()

/-- `element["type"] == "way"` -/
def isWay : Json → Except SourceError Bool
  | .object members =>
    match Json.get? (codesOf "type") members with
    | some (.string type) => .ok (type = codesOf "way")
    | some _ => .ok false
    | none => .error .keyError
  | _ => .error .typeError

/-- What the incremental parser does: it reads a chunk or yields an element. -/
inductive ParserStep where
  | read
  | item (element : Json)

/-- `OverpassSource.stream_ways` from the response on: the ways that are yielded, and the end. -/
def streamWays : List ParserStep → TailKeepingReader → List Json × Except SourceError Unit
  | [], reader => ([], raiseOnRuntimeError reader.tail)
  | .read :: steps, reader => streamWays steps reader.read
  | .item element :: steps, reader =>
    match isWay element with
    | .error e => ([], .error e)
    | .ok way =>
      let (ways, result) := streamWays steps reader
      (if way then element :: ways else ways, result)

/-! ## The tail that is kept -/

variable {α : Type} {n : ℕ} {a b : List UInt8}

theorem lastBytes_lastBytes : lastBytes n (lastBytes n a ++ b) = lastBytes n (a ++ b) := by
  unfold lastBytes
  simp only [List.length_append, List.length_drop, List.drop_append, List.drop_drop]
  congr 2 <;> omega

/-- The elements that the parser yields. -/
def itemsOf : List ParserStep → List Json
  | [] => []
  | .read :: steps => itemsOf steps
  | .item element :: steps => element :: itemsOf steps

/-- How often the parser reads. -/
def readsOf : List ParserStep → ℕ
  | [] => 0
  | .read :: steps => readsOf steps + 1
  | .item _ :: steps => readsOf steps

/-- A stream over elements that all have a type. -/
theorem streamWays_typed {way : Json → Bool} (steps : List ParserStep)
    (htypes : ∀ e ∈ itemsOf steps, isWay e = .ok (way e)) (raw : List (List UInt8))
    (tail : List UInt8) :
    streamWays steps ⟨raw, lastBytes tailBytes tail⟩ = ((itemsOf steps).filter way,
      raiseOnRuntimeError (lastBytes tailBytes (tail ++ (raw.take (readsOf steps)).flatten))) := by
  induction steps generalizing raw tail with
  | nil => simp [streamWays, itemsOf, readsOf]
  | cons s steps ih =>
    cases s with
    | read =>
      rw [streamWays, TailKeepingReader.read, lastBytes_lastBytes, ih htypes]
      cases raw with
      | nil => simp [itemsOf, readsOf]
      | cons chunk raw => simp [itemsOf, readsOf]
    | item e =>
      have he : isWay e = .ok (way e) := htypes e List.mem_cons_self
      have hrest : ∀ d ∈ itemsOf steps, isWay d = .ok (way d) :=
        fun d hd => htypes d (List.mem_cons_of_mem e hd)
      rw [streamWays, he, ih hrest, itemsOf, List.filter_cons]
      rfl

/-! ## Bodies -/

/-- A body: an object in which at most a remark follows the array `elements`. -/
structure Document where
  before : Blanks
  header : List Member
  elements : Member
  remark : Option Member
  after : Blanks
  named : codes elements.name = codesOf "elements"
  isArray : elements.value.isArray = true
  isRemark : ∀ r ∈ remark, isRemark r.name = true

namespace Document

/-- What follows the members of the header. -/
def last (doc : Document) : Members :=
  match doc.remark with
  | none => .one doc.elements
  | some r => .cons doc.elements (.one r)

def root (doc : Document) : Element :=
  .mk doc.before (.object (.prepend doc.header doc.last)) doc.after

def body (doc : Document) : List UInt8 := Utf8.encode (textOf doc.root.tokens)

/-- The elements of the array. -/
def items (doc : Document) : List Json :=
  match doc.elements.value.load with
  | .array l => l
  | _ => []

/-- What follows the array. -/
def tail (doc : Document) : List Token :=
  blankTokens doc.elements.afterValue ++
    ((match doc.remark with
      | none => []
      | some r => .mark .comma :: r.tokens) ++ .mark .closeObject :: blankTokens doc.after)

/-- The text from the end of the array on fits in the bytes that are kept. -/
def Fits (doc : Document) : Prop :=
  (Utf8.encode (textOf (.mark .closeArray :: doc.tail))).length ≤ tailBytes

instance (doc : Document) : Decidable doc.Fits := inferInstanceAs (Decidable (_ ≤ _))

/-- The remark, if it is a string. -/
def remarkString (doc : Document) : Option (List Piece) :=
  match doc.remark.map Member.value with
  | some (.string s) => some s
  | _ => none

/-- The remark, if it begins with runtime error. -/
def runtimeError (doc : Document) : Option (List ℕ) :=
  (doc.remarkString.map codes).filter (codesOf "runtime error").isPrefixOf

end Document

/-! ## What is found in a body -/

/-- The name of the remark is written without an escape. -/
def Document.Spelled (doc : Document) : Prop :=
  ∀ r ∈ doc.remark, r.name.flatMap Piece.text = "remark".toList

instance (doc : Document) : Decidable doc.Spelled :=
  inferInstanceAs (Decidable (∀ r ∈ doc.remark, r.name.flatMap Piece.text = "remark".toList))

/-- No array in the body, but the one of the elements, is directly followed by a member named
remark. -/
structure Document.Unimitated (doc : Document) : Prop where
  header : (Members.prepend doc.header (.one doc.elements)).allNext noRemark = true
  remark : ∀ r ∈ doc.remark, r.allNext noRemark = true

/-- The runtime error that the source sees. -/
def Document.told (doc : Document) : Option (List ℕ) :=
  if doc.Spelled then doc.runtimeError else none

namespace Document

variable {doc : Document}

/-- The body up to the end of the elements. -/
theorem front (h : doc.Unimitated) : ∃ l, doc.root.tokens = l ++ .mark .closeArray :: doc.tail ∧
    ∀ post, Quiet l (.mark .closeArray :: post) := by
  obtain ⟨l, -, hquiet, htokens⟩ := header_tokens doc.isArray doc.header h.header
  refine ⟨blankTokens doc.before ++ .mark .openObject :: l, ?_, fun post => ?_⟩
  · have hlast := htokens doc.last (doc.remark.elim [] fun r => .mark .comma :: r.tokens) (by
      unfold last
      cases doc.remark with
      | none => simp [Members.tokens]
      | some r => simp [Members.tokens])
    rw [root, Element.tokens, Value.tokens, hlast, tail]
    cases doc.remark <;> simp
  · exact quiet_append.2 ⟨quiet_blanks _, quiet_cons_other (by simp) (hquiet post)⟩

theorem quiet_tail (h : doc.Unimitated) : Quiet doc.tail [] := by
  unfold tail
  have hend : Quiet (.mark .closeObject :: blankTokens doc.after) [] :=
    quiet_cons_other (by simp) (quiet_blanks _)
  refine quiet_append.2 ⟨quiet_blanks _, quiet_append.2 ⟨?_, hend⟩⟩
  cases hr : doc.remark with
  | none => exact quiet_nil
  | some r =>
    exact quiet_cons_other (by simp) (quiet_member r _ (h.remark r hr) fun _ => rfl)

/-- The remark after the elements, if its name is spelled out and it is a string. -/
theorem remarkAfter_tail :
    remarkAfter doc.tail = if doc.Spelled then doc.remarkString else none := by
  rw [tail, remarkString, remarkAfter_blanks]
  cases hr : doc.remark with
  | none =>
    rw [if_pos (by simp [Spelled, hr])]
    rfl
  | some r =>
    have hspelled : doc.Spelled ↔ r.name.flatMap Piece.text = "remark".toList := by
      simp [Spelled, hr]
    obtain ⟨before, name, after, before', v, after'⟩ := r
    simp only [remarkAfter, skipBlanks, List.cons_append, Member.tokens, List.append_assoc,
      skipBlanks_blankTokens, Option.map_some]
    by_cases hname : name.flatMap Piece.text = "remark".toList
    · rw [if_pos hname, if_pos (hspelled.2 hname)]
      simp only [skipBlanks_element]
      cases v <;> rfl
    · rw [if_neg hname, if_neg fun h => hname (hspelled.1 h)]

/-- The check, on a tail in which the search finds a literal or nothing. -/
theorem raiseOnRuntimeError_of_found {tail : List UInt8} {remark : Option (List Piece)}
    (h : (remarkAfterElements.search (Utf8.decode tail)).map Place.group =
      remark.map fun r => some (literal r)) :
    raiseOnRuntimeError tail =
      match (remark.map codes).filter (codesOf "runtime error").isPrefixOf with
      | none => .ok ()
      | some remark => .error (.overpassRuntimeError remark) := by
  unfold raiseOnRuntimeError
  cases remark with
  | none =>
    rw [Option.map_none, Option.map_eq_none_iff] at h
    rw [h]
    rfl
  | some r =>
    obtain ⟨m, hm, hgroup⟩ := Option.map_eq_some_iff.1 h
    rw [hm]
    dsimp only
    rw [hgroup, Option.bind_some, loadLiteral_literal, Option.map_some, Option.filter_some]
    dsimp only
    split <;> rfl

/-- The kept bytes: some that go on with a character, and then whole characters. -/
theorem decode_lastBytes {n : ℕ} {l r : List Char} (h : (Utf8.encode r).length ≤ n) :
    ∃ k a b, Utf8.decode (lastBytes n (Utf8.encode (l ++ r))) =
      List.replicate k Utf8.replacement ++ (b ++ r) ∧ l = a ++ b := by
  have hn : (Utf8.encode (l ++ r)).length - n ≤ (Utf8.encode l).length := by
    rw [Utf8.encode_append, List.length_append]
    omega
  obtain ⟨tails, a, b, hdrop, hsplit, htails⟩ := Utf8.drop_encode hn
  refine ⟨tails.length, a, b, ?_, hsplit⟩
  rw [lastBytes]
  generalize (Utf8.encode (l ++ r)).length - n = k at hn hdrop
  rw [Utf8.encode_append, List.drop_append_of_le_length hn, hdrop, List.append_assoc,
    ← Utf8.encode_append, Utf8.decode_tails htails, Utf8.decode_encode]

/-- Replacement characters are passed by. -/
theorem search_replacements (k : ℕ) (l : List Char) :
    remarkAfterElements.search (List.replicate k Utf8.replacement ++ l) =
      remarkAfterElements.search l := by
  refine search_append fun c d hd hne => runs_eq_nil_iff.2 fun u v g hu htakes => ?_
  obtain ⟨_, _, _, _, _, -, -, -, -, -, rfl, -⟩ := takes_remarkAfterElements.1 htakes
  cases d with
  | nil => exact hne rfl
  | cons x d =>
    obtain ⟨rfl, -⟩ := List.cons.inj hu
    have hmem : ']' ∈ List.replicate k Utf8.replacement := by
      rw [hd]
      simp
    exact absurd (List.eq_of_mem_replicate hmem) (by decide)

/-- The check at the end of the stream, on the tail that was kept. -/
theorem raiseOnRuntimeError_tail (h : doc.Unimitated) (hfits : doc.Fits) :
    raiseOnRuntimeError (lastBytes tailBytes doc.body) =
      match doc.told with
      | none => .ok ()
      | some remark => .error (.overpassRuntimeError remark) := by
  obtain ⟨l, htokens, hquiet⟩ := front h
  obtain ⟨k, a, b, hdecode, hsplit⟩ := decode_lastBytes (l := textOf l) hfits
  have hfound := search_remark (quiet_tail h)
  rw [← search_quiet (hquiet doc.tail) hsplit, ← search_replacements k, ← hdecode,
    ← textOf_append, ← htokens, remarkAfter_tail] at hfound
  rw [body, raiseOnRuntimeError_of_found hfound, told, runtimeError]
  by_cases hspelled : doc.Spelled
  · rw [if_pos hspelled, if_pos hspelled]
  · rw [if_neg hspelled, if_neg hspelled]
    rfl

end Document

/-! ## The stream -/

/-- The way elements, and whether the answer is partial. -/
def Document.answer (doc : Document) (partially : Option (List ℕ)) :
    List Json × Except SourceError Unit :=
  (doc.items.filter fun e => isWay e = .ok true,
    match partially with
    | none => .ok ()
    | some remark => .error (.overpassRuntimeError remark))

/-- **What a stream over a body yields, and how it ends**, however the body is split into chunks. -/
theorem streamWays_document {doc : Document} {chunks : List (List UInt8)} {steps : List ParserStep}
    (hchunks : chunks.flatten = doc.body) (hitems : itemsOf steps = doc.items)
    (hreads : chunks.length ≤ readsOf steps) (htypes : ∀ e ∈ doc.items, ∃ b, isWay e = .ok b)
    (himitated : doc.Unimitated) (hfits : doc.Fits) :
    streamWays steps ⟨chunks, []⟩ = doc.answer doc.told := by
  have hway : ∀ e ∈ itemsOf steps, isWay e = .ok (decide (isWay e = .ok true)) := by
    intro e he
    rw [hitems] at he
    obtain ⟨b, hb⟩ := htypes e he
    rw [hb]
    cases b <;> rfl
  have hstream := streamWays_typed steps hway chunks []
  rw [List.nil_append, List.take_of_length_le hreads, hchunks, hitems,
    Document.raiseOnRuntimeError_tail himitated hfits] at hstream
  exact hstream

/-- A text without quotes, backslashes and control characters, as it is written. -/
def spelled (s : String) : List Piece :=
  s.toList.filterMap fun c =>
    if h : c ≠ '"' ∧ c ≠ '\\' ∧ 0x20 ≤ c.toNat then some (.plain c h) else none

/-- A member without blanks. -/
def member (name : List Piece) (v : Value) : Member := .mk [] name [] (.mk [] v [])

def runtimeErrorMember (name : List Piece) : Member :=
  member name (.string (spelled "runtime error"))

/-- A way, and the remark of a failed query. -/
def partialAnswer : Document where
  before := [.newline]
  header := [member (spelled "generator") (.string (spelled "Overpass API"))]
  elements := .mk [.space] (spelled "elements") [] (.mk [.space]
    (.array (.one (.mk [] (.object (.one (member (spelled "type") (.string (spelled "way"))))) [])))
    [.newline])
  remark := some (runtimeErrorMember (spelled "remark"))
  after := []
  named := by decide
  isArray := rfl
  isRemark := by decide

/-- The body comes in two chunks, and the last read finds the stream at its end. -/
theorem streamWays_partialAnswer :
    streamWays (.read :: .read :: partialAnswer.items.map .item ++ [.read])
      ⟨[partialAnswer.body.take 30, partialAnswer.body.drop 30], []⟩ =
      partialAnswer.answer partialAnswer.told :=
  streamWays_document (by simp) rfl (by decide)
    (fun e he => ⟨true, by rw [List.mem_singleton.1 he]; decide⟩)
    ⟨by decide, by decide⟩ (by decide +kernel)

/-! ## Bodies that are told wrong -/

/-- For every body in which no element has an array that is directly followed by a member named
remark, the way elements are yielded, and the answer is told to be partial exactly if the remark
begins with runtime error. -/
def AnswersAlwaysTold : Prop :=
  ∀ (doc : Document) (chunks : List (List UInt8)) (steps : List ParserStep),
    chunks.flatten = doc.body → itemsOf steps = doc.items → chunks.length ≤ readsOf steps →
    doc.elements.value.allNext noRemark = true → doc.Fits →
    streamWays steps ⟨chunks, []⟩ = doc.answer doc.runtimeError

/-- `\x7b"elements":[],"remark":"runtime error"\x7d`, with an escape in the name. -/
def escapedName : Document where
  before := []
  header := []
  elements := member (spelled "elements") (.emptyArray [])
  remark := some (runtimeErrorMember
    (.unicode ⟨'0', 0, rfl⟩ ⟨'0', 0, rfl⟩ ⟨'7', 7, rfl⟩ ⟨'2', 2, rfl⟩ :: spelled "emark"))
  after := []
  named := by decide
  isArray := rfl
  isRemark := by decide

/-- An array and a remark before the elements. -/
def imitatedBefore : Document where
  before := []
  header := [member (spelled "areas") (.emptyArray []), runtimeErrorMember (spelled "remark")]
  elements := member (spelled "elements") (.emptyArray [])
  remark := none
  after := []
  named := by decide
  isArray := rfl
  isRemark := by decide

/-- A remark that is an object with an array and a remark. -/
def imitatedInside : Document where
  before := []
  header := []
  elements := member (spelled "elements") (.emptyArray [])
  remark := some (member (spelled "remark") (.object
    (.cons (member (spelled "areas") (.emptyArray []))
      (.one (runtimeErrorMember (spelled "remark"))))))
  after := []
  named := by decide
  isArray := rfl
  isRemark := by decide

/-- An element without a type. -/
def untyped : Document where
  before := []
  header := []
  elements := member (spelled "elements") (.array (.one (.mk [] (.emptyObject []) [])))
  remark := none
  after := []
  named := by decide
  isArray := rfl
  isRemark := by decide

/-- The parser on a body that comes in one chunk. -/
def stepsOf (doc : Document) : List ParserStep := .read :: doc.items.map .item

theorem itemsOf_stepsOf (doc : Document) : itemsOf (stepsOf doc) = doc.items := by
  have hmap : ∀ l : List Json, itemsOf (l.map .item) = l := by
    intro l
    induction l with
    | nil => rfl
    | cons e l ih => rw [List.map_cons, itemsOf, ih]
  exact hmap doc.items

/-- **Answers that are told wrong**: a runtime error whose name is not spelled out, two remarks that
are none, and an element without a type. -/
theorem answers_not_told : ¬AnswersAlwaysTold ∧
    ∀ doc ∈ [escapedName, imitatedBefore, imitatedInside, untyped],
      doc.elements.value.allNext noRemark = true ∧ doc.Fits ∧
        (streamWays (stepsOf doc) ⟨[doc.body], []⟩).2 ≠ (doc.answer doc.runtimeError).2 := by
  have hwrong : ∀ doc ∈ [escapedName, imitatedBefore, imitatedInside, untyped],
      doc.elements.value.allNext noRemark = true ∧ doc.Fits ∧
        (streamWays (stepsOf doc) ⟨[doc.body], []⟩).2 ≠ (doc.answer doc.runtimeError).2 := by
    decide +kernel
  refine ⟨fun h => ?_, hwrong⟩
  obtain ⟨hnone, hfits, hne⟩ := hwrong escapedName (by simp)
  refine hne (congrArg Prod.snd (h escapedName [escapedName.body] (stepsOf escapedName) (by simp)
    (itemsOf_stepsOf escapedName) ?_ hnone hfits))
  decide

end Cosmonaut
