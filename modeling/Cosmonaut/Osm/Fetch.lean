import Cosmonaut.Osm.Source

/-!
# The ways of a whole answer

`OverpassSource.fetch_ways` parses the whole body at once, and does not look at what follows the
elements. The default `stream_ways` of a source yields what it returns.

* `fetchWays`: the ways of a body.
* `fetch_agrees_iff`: when the two ways to read a body have the same outcome;
  `streamFetched_agrees_iff`: when the default stream has that of the body's.
* `partial_answer_fetched`: a partial answer that is returned as if it were whole.
-/

namespace Cosmonaut

open Text

/-! ## `fetch_ways` -/

/-- `response.json()["elements"]` -/
def elementsOf : Json → Except SourceError Json
  | .object members =>
    match Json.get? (codesOf "elements") members with
    | some elements => .ok elements
    | none => .error .keyError
  | _ => .error .typeError

/-- What `for` runs over. -/
def iterated : Json → Except SourceError (List Json)
  | .array l => .ok l
  | .string s => .ok (s.map fun c => .string [c])
  | .object members => .ok (members.map fun m => .string m.1)
  | _ => .error .typeError

/-- `[e for e in elements if e["type"] == "way"]` -/
def waysIn : List Json → Except SourceError (List Json)
  | [] => .ok []
  | e :: l =>
    match isWay e, waysIn l with
    | .error err, _ => .error err
    | .ok _, .error err => .error err
    | .ok way, .ok ways => .ok (if way then e :: ways else ways)

/-- `OverpassSource.fetch_ways` from the response on. -/
def fetchWays (body : Json) : Except SourceError (List Json) := do
  waysIn (← iterated (← elementsOf body))

/-- `OsmSource.stream_ways`: yield what `fetch_ways` returns. -/
def streamFetched : Except SourceError (List Json) → List Json × Except SourceError Unit
  | .ok ways => (ways, .ok ())
  | .error e => ([], .error e)

/-! ## Outcomes -/

/-- What a consumer of all ways has in the end. -/
def collected (stream : List Json × Except SourceError Unit) : Except SourceError (List Json) :=
  stream.2.map fun _ => stream.1

/-- The same ways, or an error in both cases. -/
def SameOutcome (a b : Except SourceError (List Json)) : Prop :=
  a = b ∨ (∃ e, a = .error e) ∧ ∃ e, b = .error e

theorem collected_streamFetched (fetched : Except SourceError (List Json)) :
    collected (streamFetched fetched) = fetched := by
  cases fetched <;> rfl

/-- Every element is an object with a type. -/
def Typed (l : List Json) : Prop := ∀ e ∈ l, ∃ b, isWay e = .ok b

theorem not_typed_tail {e : Json} {l : List Json} {b : Bool} (h : ¬Typed (e :: l))
    (he : isWay e = .ok b) : ¬Typed l := by
  intro hl
  apply h
  intro d hd
  rcases List.mem_cons.1 hd with rfl | hd
  · exact ⟨b, he⟩
  · exact hl d hd

/-- The ways among elements that all have a type. -/
theorem waysIn_typed {l : List Json} (h : Typed l) :
    waysIn l = .ok (l.filter fun e => isWay e = .ok true) := by
  induction l with
  | nil => rfl
  | cons e l ih =>
    obtain ⟨b, hb⟩ := h e List.mem_cons_self
    rw [waysIn, hb, ih fun d hd => h d (List.mem_cons_of_mem e hd), List.filter_cons, hb]
    cases b <;> simp

theorem waysIn_untyped {l : List Json} (h : ¬Typed l) : ∃ err, waysIn l = .error err := by
  induction l with
  | nil => exact absurd (fun e he => by cases he) h
  | cons e l ih =>
    rw [waysIn]
    rcases he : isWay e with err | b
    · exact ⟨err, rfl⟩
    · obtain ⟨err, herr⟩ := ih (not_typed_tail h he)
      rw [herr]
      exact ⟨err, rfl⟩

/-- A stream over elements of which one has no type. -/
theorem streamWays_untyped {steps : List ParserStep} (h : ¬Typed (itemsOf steps))
    (reader : TailKeepingReader) : ∃ err, (streamWays steps reader).2 = .error err := by
  induction steps generalizing reader with
  | nil => exact absurd (fun e he => by cases he) h
  | cons s steps ih =>
    cases s with
    | read => exact ih h _
    | item e =>
      rw [streamWays]
      rcases he : isWay e with err | b
      · exact ⟨err, rfl⟩
      · exact ih (not_typed_tail h he) reader

/-! ## Both on one body -/

namespace Document

variable (doc : Document)

theorem load_prepend (header : List Member) (ms : Members) :
    (Members.prepend header ms).load = header.map Member.load ++ ms.load := by
  induction header with
  | nil => rfl
  | cons m header ih => rw [Members.prepend, Members.load, ih, List.map_cons, List.cons_append]

theorem load_member (m : Member) : m.load = (codes m.name, m.value.load) := by
  obtain ⟨before, name, after, before', v, after'⟩ := m
  rfl

/-- The elements are found: only a remark follows them. -/
theorem elementsOf_root : elementsOf doc.root.load = .ok doc.elements.value.load := by
  have hlast : Json.get? (codesOf "elements") (doc.header.map Member.load ++ doc.last.load) =
      some doc.elements.value.load := by
    unfold last
    cases hr : doc.remark with
    | none => simp [Json.get?, Members.load, load_member, doc.named]
    | some r =>
      have hremark : codes r.name = codesOf "remark" := by
        simpa [Cosmonaut.isRemark] using doc.isRemark r (by simp [hr])
      have hother : codesOf "remark" ≠ codesOf "elements" := by decide
      simp [Json.get?, Members.load, load_member, doc.named, hremark, hother]
  rw [root, Element.load, Value.load, load_prepend, elementsOf, hlast]

/-- `fetch_ways` on a body. -/
theorem fetchWays_root : fetchWays doc.root.load = waysIn doc.items := by
  have harray := doc.isArray
  rw [fetchWays, elementsOf_root]
  unfold items
  cases hv : doc.elements.value with
  | emptyArray | array => rfl
  | null | bool | number | string | emptyObject | object =>
    rw [hv] at harray
    cases harray

end Document

variable {doc : Document} {chunks : List (List UInt8)} {steps : List ParserStep}

/-- Where nothing imitates a remark and the end fits in the bytes that are kept, no runtime error is
told exactly if there is none, or its name is not spelled out. -/
theorem raiseOnRuntimeError_ok_iff (himitated : doc.Unimitated) (hfits : doc.Fits) :
    raiseOnRuntimeError (lastBytes tailBytes doc.body) = .ok () ↔ doc.told = none := by
  rw [Document.raiseOnRuntimeError_tail himitated hfits]
  cases doc.told <;> simp

/-- The two ways to read a body have the same outcome exactly if the end of the body tells of no
runtime error, or if an element has no type. -/
theorem sameOutcome_iff (hchunks : chunks.flatten = doc.body) (hitems : itemsOf steps = doc.items)
    (hreads : chunks.length ≤ readsOf steps) :
    SameOutcome (fetchWays doc.root.load) (collected (streamWays steps ⟨chunks, []⟩)) ↔
      raiseOnRuntimeError (lastBytes tailBytes doc.body) = .ok () ∨ ¬Typed doc.items := by
  rw [Document.fetchWays_root]
  by_cases htyped : Typed doc.items
  · have hway : ∀ e ∈ itemsOf steps, isWay e = .ok (decide (isWay e = .ok true)) := by
      intro e he
      rw [hitems] at he
      obtain ⟨b, hb⟩ := htyped e he
      rw [hb]
      cases b <;> rfl
    have hstream := streamWays_typed steps hway chunks []
    rw [List.nil_append, List.take_of_length_le hreads, hchunks, hitems] at hstream
    change streamWays steps ⟨chunks, []⟩ = _ at hstream
    rw [hstream, waysIn_typed htyped]
    cases hend : raiseOnRuntimeError (lastBytes tailBytes doc.body) with
    | ok u => simp [SameOutcome, collected, Except.map]
    | error e => simp [SameOutcome, collected, Except.map, htyped]
  · have hstream := streamWays_untyped (hitems ▸ htyped) ⟨chunks, []⟩
    obtain ⟨err, herr⟩ := hstream
    obtain ⟨err', herr'⟩ := waysIn_untyped htyped
    refine iff_of_true (.inr ⟨⟨err', herr'⟩, err, ?_⟩) (.inr htyped)
    rw [collected, herr]
    rfl

/-- **The two ways to read a body have the same outcome** exactly if the end of the body tells of no
runtime error, or if an element has no type: where nothing imitates a remark and the end fits in the
bytes that are kept, exactly if the body has no runtime error as its remark. -/
theorem fetch_agrees_iff (hchunks : chunks.flatten = doc.body) (hitems : itemsOf steps = doc.items)
    (hreads : chunks.length ≤ readsOf steps) :
    (SameOutcome (fetchWays doc.root.load) (collected (streamWays steps ⟨chunks, []⟩)) ↔
      raiseOnRuntimeError (lastBytes tailBytes doc.body) = .ok () ∨ ¬Typed doc.items) ∧
    (doc.Unimitated → doc.Fits →
      (SameOutcome (fetchWays doc.root.load) (collected (streamWays steps ⟨chunks, []⟩)) ↔
        doc.told = none ∨ ¬Typed doc.items)) := by
  have hsame := sameOutcome_iff hchunks hitems hreads
  refine ⟨hsame, fun himitated hfits => ?_⟩
  rw [hsame, raiseOnRuntimeError_ok_iff himitated hfits]

/-- The default stream of a source, which falls back to the whole answer, agrees with the stream of
the body in the same cases. -/
theorem streamFetched_agrees_iff (hchunks : chunks.flatten = doc.body)
    (hitems : itemsOf steps = doc.items) (hreads : chunks.length ≤ readsOf steps) :
    SameOutcome (collected (streamFetched (fetchWays doc.root.load)))
        (collected (streamWays steps ⟨chunks, []⟩)) ↔
      raiseOnRuntimeError (lastBytes tailBytes doc.body) = .ok () ∨ ¬Typed doc.items := by
  rw [collected_streamFetched]
  exact sameOutcome_iff hchunks hitems hreads

/-- A way, and a remark that is no runtime error. -/
def wholeAnswer : Document :=
  { partialAnswer with
    remark := some (member (spelled "remark") (.string (spelled "as of today")))
    isRemark := by decide }

theorem wholeAnswer_fetched :
    SameOutcome (fetchWays wholeAnswer.root.load)
      (collected (streamWays (stepsOf wholeAnswer) ⟨[wholeAnswer.body], []⟩)) :=
  (fetch_agrees_iff (by simp) (itemsOf_stepsOf wholeAnswer) (by decide)).1.2
    (.inl (by decide +kernel))

/-- **A partial answer is returned as if it were whole**, while the stream tells the runtime
error. -/
theorem partial_answer_fetched :
    ¬ ∀ (doc : Document) (chunks : List (List UInt8)) (steps : List ParserStep),
      chunks.flatten = doc.body → itemsOf steps = doc.items → chunks.length ≤ readsOf steps →
      SameOutcome (fetchWays doc.root.load) (collected (streamWays steps ⟨chunks, []⟩)) := by
  intro h
  have hfetched : (fetchWays partialAnswer.root.load).isOk = true := by decide +kernel
  have hstreamed : (collected (streamWays (stepsOf partialAnswer)
      ⟨[partialAnswer.body], []⟩)).isOk = false := by decide +kernel
  have hsame := h partialAnswer [partialAnswer.body] (stepsOf partialAnswer) (by simp)
    (itemsOf_stepsOf partialAnswer) (by decide)
  rcases hsame with heq | ⟨⟨e, he⟩, -⟩
  · rw [heq, hstreamed] at hfetched
    cases hfetched
  · rw [he] at hfetched
    cases hfetched

end Cosmonaut
