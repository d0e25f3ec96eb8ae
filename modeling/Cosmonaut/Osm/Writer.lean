import Cosmonaut.Interleaving.Alone
import Cosmonaut.Osm.Truncation
import Cosmonaut.Text.Dump
import Mathlib.Logic.Function.Basic

/-!
# Writing the three files of a download

`OsmDownloader.run_osm_query` in single writes: every feature is written as soon as it is made, and
the three `StreamingGeoJsonWriter` contexts are left in reverse order. Anything may raise, and what
raises leaves anything in the temporary file it works on.

* `WayFeature.value`, `collection`: the documents, as `json.dump` writes them.
* `withStreamingWriter`, `runOsmQueryFiles`: the writers, and the query on a stream of ways.
* `runOsmQuery_files`: what the files hold in the end.
-/

namespace Cosmonaut

open Interleaving Program Text

/-! ## Documents -/

/-- A feature as `way_to_feature` returns it, before its properties are taken from the tags. -/
structure WayFeature where
  id : ℤ
  nodes : List ℤ
  coordinates : List Point
  tags : List (String × String)

/-- `way_to_feature`. -/
def wayFeature (inside : Point → Bool) (way : Way) : Option WayFeature :=
  (truncateByEdge inside way.nodes way.geometry).map fun kept =>
    ⟨way.id, kept.1, kept.2, way.tags⟩

def WayFeature.properties (f : WayFeature) : Properties := buildProperties f.id f.nodes f.tags

/-- The feature of the data model. -/
def WayFeature.toFeature (f : WayFeature) : Option Feature :=
  if h : 2 ≤ f.nodes.length then some ⟨f.id, f.coordinates, f.properties, h⟩ else none

/-- The written features are those of the data model. -/
theorem wayToFeature_eq_bind (inside : Point → Bool) (way : Way) :
    wayToFeature inside way = (wayFeature inside way).bind WayFeature.toFeature := by
  unfold wayToFeature wayFeature
  cases truncateByEdge inside way.nodes way.geometry <;> rfl

theorem filterMap_wayToFeature (inside : Point → Bool) (ways : List Way) :
    ways.filterMap (wayToFeature inside) =
      (ways.filterMap (wayFeature inside)).filterMap WayFeature.toFeature := by
  rw [List.filterMap_filterMap]
  exact congrArg (List.filterMap · ways) (funext (wayToFeature_eq_bind inside))

/-- `PROPERTY_ORDER` -/
def propertyOrder : List String := [
  "osmid", "name", "highway", "nodes", "bicycle", "smoothness", "surface", "tracktype", "maxspeed",
  "sidewalk", "lanes", "lit", "motor_vehicle", "ref", "source:maxspeed", "lanes:backward",
  "traffic_calming", "oneway", "access"]

def intValue (n : ℤ) : Value := .number (intNumber n)

/-- `_build_properties`, one property. -/
def WayFeature.property (f : WayFeature) (key : String) : Value :=
  if key = "osmid" then intValue f.id
  else if key = "nodes" then dumpArray (f.nodes.map intValue)
  else if key = "oneway" then dumpText (inferOneway f.tags)
  else
    match f.tags.lookup key with
    | some v => dumpText v
    | none => .null

def WayFeature.propertiesValue (f : WayFeature) : Value :=
  dumpObject (propertyOrder.map fun key => (key, f.property key))

/-- The member with the CRS, of the transformed file only. -/
def crsMember : Option ℤ → List (String × Value)
  | none => []
  | some epsg => [("crs", dumpObject [("type", dumpText "name"), ("properties",
      dumpObject [("name", .string ("urn:ogc:def:crs:EPSG::".toList.map dumpChar ++
        (intNumber epsg).text.map dumpChar))])])]

/-- A FeatureCollection. -/
def collection (epsg : Option ℤ) (features : List Value) : Value :=
  dumpObject (("type", dumpText "FeatureCollection") ::
    (crsMember epsg ++ [("features", dumpArray features)]))

/-- The named CRS in the header. -/
def crsHeader (epsg : ℤ) : List Char :=
  "\"crs\": \x7b\"type\": \"name\", \"properties\": ".toList ++
    ("\x7b\"name\": \"urn:ogc:def:crs:EPSG::".toList ++ ((intNumber epsg).text ++
    "\"\x7d\x7d, ".toList))

def typeHeader : List Char := "\x7b\"type\": \"FeatureCollection\", ".toList

def featuresHeader : List Char := "\"features\": [".toList

/-- What a writer writes first. -/
def header (epsg : Option ℤ) : List Char :=
  typeHeader ++ epsg.elim [] crsHeader ++ featuresHeader

/-- What a writer writes last. -/
def footer : List Char := "]\x7d".toList

theorem memberText_eq {name : String} {t : List Char} (v : Value)
    (h : literal (dumpString name) ++ [':', ' '] = t) : memberText (name, v) = t ++ v.text := by
  rw [memberText, h]

/-- The member with the CRS as it is written. -/
theorem memberText_crs (epsg : ℤ) : (crsMember (some epsg)).map memberText =
    ["\"crs\": \x7b\"type\": \"name\", \"properties\": ".toList ++
      ("\x7b\"name\": \"urn:ogc:def:crs:EPSG::".toList ++ ((intNumber epsg).text ++
      "\"\x7d\x7d".toList))] := by
  have hurn : ("urn:ogc:def:crs:EPSG::".toList.map dumpChar).flatMap Piece.text =
      "urn:ogc:def:crs:EPSG::".toList := by decide
  have hname : (Value.string ("urn:ogc:def:crs:EPSG::".toList.map dumpChar ++
      (intNumber epsg).text.map dumpChar)).text =
      '"' :: ("urn:ogc:def:crs:EPSG::".toList ++ ((intNumber epsg).text ++ ['"'])) := by
    rw [Value.text, Value.tokens, textOf_cons, Token.text, literal, List.flatMap_append, hurn,
      flatMap_dumpChar_number]
    simp only [textOf, List.flatMap_nil, List.append_nil, List.append_assoc]
  have hopen : "\x7b\"name\": \"urn:ogc:def:crs:EPSG::".toList =
      '\x7b' :: ("\"name\": ".toList ++ '"' :: "urn:ogc:def:crs:EPSG::".toList) := by decide
  have hcrs : "\"crs\": \x7b\"type\": \"name\", \"properties\": ".toList =
      "\"crs\": ".toList ++ '\x7b' :: ("\"type\": \"name\"".toList ++
        ([',', ' '] ++ "\"properties\": ".toList)) := by decide
  have htype : memberText ("type", dumpText "name") = "\"type\": \"name\"".toList := by decide
  have hclose : "\"\x7d\x7d".toList = ['"', '\x7d', '\x7d'] := by decide
  rw [crsMember, List.map_cons, List.map_nil, memberText_eq (t := "\"crs\": ".toList) _ (by decide),
    text_dumpObject, List.map_cons, htype, List.map_cons, List.map_nil,
    memberText_eq (t := "\"properties\": ".toList) _ (by decide), text_dumpObject, List.map_cons,
    List.map_nil, memberText_eq (t := "\"name\": ".toList) _ (by decide), hname, hcrs,
    hopen, hclose]
  simp only [joined, List.flatMap_cons, List.flatMap_nil, List.append_assoc, List.cons_append,
    List.append_nil, List.nil_append]

/-- A collection is written header, features, footer. -/
theorem text_collection (epsg : Option ℤ) (features : List Value) :
    (collection epsg features).text =
      header epsg ++ joined (features.map Value.text) ++ footer := by
  have htype : memberText ("type", dumpText "FeatureCollection") =
      "\"type\": \"FeatureCollection\"".toList := by decide
  have hfeatures : memberText ("features", dumpArray features) =
      featuresHeader ++ (joined (features.map Value.text) ++ [']']) := by
    have harray : featuresHeader = "\"features\": ".toList ++ ['['] := by decide
    rw [memberText_eq (t := "\"features\": ".toList) _ (by decide), text_dumpArray, harray]
    simp only [List.append_assoc, List.cons_append, List.nil_append]
  have hopen : typeHeader =
      '\x7b' :: ("\"type\": \"FeatureCollection\"".toList ++ [',', ' ']) := by decide
  have hfooter : footer = [']', '\x7d'] := by decide
  have hcrs : joined ("\"type\": \"FeatureCollection\"".toList ::
      ((crsMember epsg).map memberText ++ [memberText ("features", dumpArray features)])) =
      "\"type\": \"FeatureCollection\"".toList ++ ([',', ' '] ++ (epsg.elim [] crsHeader ++
        memberText ("features", dumpArray features))) := by
    cases epsg with
    | none =>
      rw [show crsMember none = [] from rfl, List.map_nil, Option.elim_none, List.nil_append,
        List.nil_append, joined_two]
    | some epsg =>
      have hclose : "\"\x7d\x7d, ".toList = "\"\x7d\x7d".toList ++ [',', ' '] := by decide
      have hheader : crsHeader epsg = _ := congrArg (fun t =>
        "\"crs\": \x7b\"type\": \"name\", \"properties\": ".toList ++
          ("\x7b\"name\": \"urn:ogc:def:crs:EPSG::".toList ++ ((intNumber epsg).text ++ t))) hclose
      rw [memberText_crs, Option.elim_some, hheader, List.singleton_append, joined_three]
      simp only [List.append_assoc]
  rw [collection, text_dumpObject, List.map_cons, List.map_append, htype, List.map_cons,
    List.map_nil, hcrs, hfeatures, hfooter, header, hopen]
  simp only [List.append_assoc, List.cons_append, List.nil_append]

/-- How floating-point numbers are written. -/
class FloatRepr where
  repr : ℚ → Number

variable [FloatRepr]

def pointValue (p : Point) : Value :=
  dumpArray [.number (FloatRepr.repr p.1), .number (FloatRepr.repr p.2)]

def lineString (coordinates : List Point) : Value :=
  dumpObject [("type", dumpText "LineString"),
    ("coordinates", dumpArray (coordinates.map pointValue))]

def WayFeature.value (f : WayFeature) : Value :=
  dumpObject [("type", dumpText "Feature"), ("id", intValue f.id),
    ("geometry", lineString f.coordinates), ("properties", f.propertiesValue)]

/-- `project_feature` -/
def WayFeature.projectedValue (f : WayFeature) (project : Point → Point) : Value :=
  dumpObject [("type", dumpText "Feature"), ("geometry", lineString (f.coordinates.map project)),
    ("properties", f.propertiesValue)]

/-! ## The machine -/

/-- What the query does that may raise: the steps whose result is fixed, and the writers'
operations. -/
inductive WriterOp where
  | nextWay
  | wayToFeature
  | projectFeature
  | openTmp (s : StreetFile)
  | write (s : StreetFile) (text : List Char)
  | closeTmp (s : StreetFile)
  | tmpExists (s : StreetFile)
  | removeTmp (s : StreetFile)
  | replace (s : StreetFile)

def writerSig : Signature where
  Op := WriterOp
  Ans
    | .tmpExists _ => Bool
    | _ => Unit
  Fault := Unit

/-- The finished files, the temporary files, and the writers that are closed so far. -/
structure WriterFiles where
  final : StreetFile → Option (List Char)
  tmp : StreetFile → Option (List Char)
  closed : List StreetFile

/-- The temporary file becomes `t`. -/
def WriterFiles.setTmp (w : WriterFiles) (s : StreetFile) (t : Option (List Char)) : WriterFiles :=
  { w with tmp := Function.update w.tmp s t }

/-- The operation, with what it leaves in the temporary file if it raises. -/
def writerExec : (o : WriterOp) → Option (Option (List Char)) → WriterFiles →
    Except Unit (writerSig.Ans o) × WriterFiles
  | .nextWay, c, w | .wayToFeature, c, w | .projectFeature, c, w =>
    (if c.isSome then .error () else .ok (), w)
  | .openTmp s, none, w => (.ok (), w.setTmp s (some []))
  | .write s text, none, w => (.ok (), w.setTmp s ((w.tmp s).map (· ++ text)))
  | .closeTmp _, none, w => (.ok (), w)
  | .openTmp s, some t, w | .write s _, some t, w | .closeTmp s, some t, w =>
      (.error (), w.setTmp s t)
  | .tmpExists s, _, w => (.ok (w.tmp s).isSome, w)
  | .removeTmp s, none, w => (.ok (), w.setTmp s none)
  | .removeTmp _, some _, w => (.error (), w)
  | .replace s, none, w =>
    match w.tmp s with
    | some t => (.ok (), { w.setTmp s none with
        final := Function.update w.final s (some t), closed := w.closed ++ [s] })
    | none => (.error (), w)
  | .replace _, some _, w => (.error (), w)

/-- Whether an operation raises is not the program's to decide. -/
def writerMachine : Machine writerSig where
  World := WriterFiles
  Choice := Option (Option (List Char))
  exec := writerExec

abbrev Writing := Program writerSig Unit

/-- One operation. -/
def attempt (o : WriterOp) : Writing (writerSig.Ans o) :=
  Program.call (S := writerSig) (fun f => f) o

/-! ## The writers -/

/-- `StreamingGeoJsonWriter.__init__` -/
def writerInit (s : StreetFile) (epsg : Option ℤ) : Writing Unit := do
  attempt (.openTmp s)
  attempt (.write s (header epsg))

/-- The comma before every feature but the first. -/
def writeSeparator (s : StreetFile) (first : Bool) : Writing Unit :=
  if first = false then attempt (.write s [',', ' ']) else pure ()

/-- `StreamingGeoJsonWriter.write` -/
def writerWrite (s : StreetFile) (first : Bool) (feature : Value) : Writing Unit := do
  writeSeparator s first
  attempt (.write s feature.text)

/-- `StreamingGeoJsonWriter.close` -/
def writerClose (s : StreetFile) : Writing Unit := do
  attempt (.write s footer)
  attempt (.closeTmp s)
  attempt (.replace s)

/-- `StreamingGeoJsonWriter._discard` -/
def writerDiscard (s : StreetFile) : Writing Unit := do
  attempt (.closeTmp s)
  let found : Bool ← attempt (.tmpExists s)
  if found then
    attempt (.removeTmp s)

/-- A writer as a context. -/
def withStreamingWriter (s : StreetFile) (epsg : Option ℤ) (body : Writing Unit) :
    Writing Unit := do
  writerInit s epsg
  Program.tryCatch body fun e => do
    writerDiscard s
    .throw e
  writerClose s

/-- The loop of `run_osm_query`; `first` says of each writer that it has written no feature. -/
def writeWays (inside : Point → Bool) (project : Point → Point) :
    List Way → (StreetFile → Bool) → Writing Unit
  | [], _ => attempt .nextWay
  | way :: ways, first => do
    attempt .nextWay
    attempt .wayToFeature
    match wayFeature inside way with
    | none => writeWays inside project ways first
    | some f =>
      writerWrite .download (first .download) f.value
      let first := Function.update first .download false
      if trackGradeAllowed f.properties defaultTrackGrades = false then
        writeWays inside project ways first
      else
        writerWrite .edited (first .edited) f.value
        let first := Function.update first .edited false
        attempt .projectFeature
        writerWrite .transformed (first .transformed) (f.projectedValue project)
        let first := Function.update first .transformed false
        writeWays inside project ways first

/-- `run_osm_query` on a finite stream of ways. -/
def runOsmQueryFiles (inside : Point → Bool) (project : Point → Point) (epsg : ℤ)
    (ways : List Way) :
    Writing Unit :=
  withStreamingWriter .download none <|
    withStreamingWriter .edited none <|
      withStreamingWriter .transformed (some epsg) <|
        writeWays inside project ways fun _ => true

/-! ## What a writer does -/

/-- The order in which the contexts are left. -/
def closeOrder : List StreetFile := [.transformed, .edited, .download]

/-- The first `k` writers are closed and their files hold their documents, the other files are as
they were before; and what is known of the temporary files. -/
structure Closed (before : WriterFiles) (doc : StreetFile → List Char) (k : ℕ)
    (known : StreetFile → Option (List Char)) (w : WriterFiles) : Prop where
  closed : w.closed = closeOrder.take k
  final : ∀ s, w.final s = if s ∈ closeOrder.take k then some (doc s) else before.final s
  tmp : ∀ s t, known s = some t → w.tmp s = some t

/-- Nothing is known of the temporary files. -/
def unknown : StreetFile → Option (List Char) := fun _ => none

section

omit [FloatRepr]

variable {before w : WriterFiles} {doc : StreetFile → List Char} {k : ℕ}
  {known : StreetFile → Option (List Char)} {s : StreetFile} {t : List Char}

theorem Closed.forget (h : Closed before doc k known w) : Closed before doc k unknown w :=
  ⟨h.closed, h.final, nofun⟩

theorem Closed.setTmp (h : Closed before doc k known w) (s : StreetFile) (x : Option (List Char)) :
    Closed before doc k (Function.update known s x) (w.setTmp s x) where
  closed := h.closed
  final := h.final
  tmp s' t ht := by
    unfold WriterFiles.setTmp
    by_cases hs : s' = s
    · subst hs
      simpa using ht
    · rw [Function.update_of_ne hs] at ht
      simpa [Function.update_of_ne hs] using h.tmp s' t ht

/-- Every operation raises with `k` writers closed, or ends with `k` closed and `known'` known. -/
abbrev Does (before : WriterFiles) (doc : StreetFile → List Char) (k k' : ℕ) {α : Type}
    (p : Writing α) (known' : StreetFile → Option (List Char)) (w : WriterFiles) : Prop :=
  p.Keeping (M := writerMachine) (fun _ => True)
    (fun _ w => ∃ j ≤ k, Closed before doc j unknown w)
    (fun _ w => Closed before doc k' known' w) w

theorem does_step {o : WriterOp} (ho : o = .nextWay ∨ o = .wayToFeature ∨ o = .projectFeature)
    (h : Closed before doc k known w) : Does before doc k k (attempt o) known w := by
  have hexec : ∀ c, (writerExec o c w).2 = w := by
    rcases ho with rfl | rfl | rfl <;> exact fun c => rfl
  refine keeping_call (fun c a w' hc => ⟨trivial, ?_⟩) fun c f w' hc => ⟨trivial, k, le_rfl, ?_⟩
  · rw [← show w = w' from (hexec c).symm.trans (congrArg Prod.snd hc)]
    exact h
  · rw [← show w = w' from (hexec c).symm.trans (congrArg Prod.snd hc)]
    exact h.forget

/-- The rule of an operation on a temporary file, which it leaves as it happens to be if it
raises. -/
theorem does_file {o : WriterOp} {known' : StreetFile → Option (List Char)} {w₁ : WriterFiles}
    {a : writerSig.Ans o} (h : Closed before doc k known w)
    (hsome : ∀ x, writerExec o (some x) w = (.error (), w.setTmp s x))
    (hnone : writerExec o none w = (.ok a, w₁)) (h₁ : Closed before doc k known' w₁) :
    Does before doc k k (attempt o) known' w := by
  refine keeping_call (fun c a w' hc => ⟨trivial, ?_⟩) fun c f w' hc => ⟨trivial, k, le_rfl, ?_⟩
  · cases c with
    | none =>
      obtain rfl : w₁ = w' := congrArg Prod.snd (hnone.symm.trans hc)
      exact h₁
    | some x => cases (Prod.mk.inj ((hsome x).symm.trans hc)).1
  · cases c with
    | none => cases (Prod.mk.inj (hnone.symm.trans hc)).1
    | some x =>
      obtain rfl : w.setTmp s x = w' := congrArg Prod.snd ((hsome x).symm.trans hc)
      exact (h.setTmp s x).forget

theorem does_openTmp (h : Closed before doc k known w) :
    Does before doc k k (attempt (.openTmp s)) (Function.update known s (some [])) w :=
  does_file h (fun _ => rfl) (a := ()) rfl (h.setTmp s _)

theorem does_write (text : List Char) (h : Closed before doc k known w) (hs : known s = some t) :
    Does before doc k k (attempt (.write s text))
      (Function.update known s (some (t ++ text))) w := by
  refine does_file h (fun _ => rfl) (a := ()) rfl ?_
  rw [h.tmp s t hs]
  exact h.setTmp s _

theorem does_closeTmp (h : Closed before doc k known w) :
    Does before doc k k (attempt (.closeTmp s)) known w :=
  does_file h (fun _ => rfl) (a := ()) rfl h

/-- The rename: the next writer is closed, or nothing has changed. -/
theorem does_replace (h : Closed before doc k known w) (hs : known s = some (doc s))
    (hk : closeOrder[k]? = some s) :
    Does before doc k (k + 1) (attempt (.replace s)) (Function.update known s none) w := by
  have htmp := h.tmp s _ hs
  refine keeping_call (fun c a w' hc => ⟨trivial, ?_⟩) fun c f w' hc => ⟨trivial, k, le_rfl, ?_⟩
  · cases c with
    | none =>
      change (match w.tmp s with | some t => _ | none => _) = _ at hc
      rw [htmp] at hc
      obtain ⟨-, rfl⟩ := Prod.mk.inj hc
      have htake : closeOrder.take (k + 1) = closeOrder.take k ++ [s] := by
        rw [List.take_add_one, hk]
        rfl
      refine ⟨?_, fun s' => ?_, (h.setTmp s none).tmp⟩
      · rw [htake, ← h.closed]
      · rw [htake]
        by_cases hs' : s' = s
        · subst hs'
          simp
        · simp [hs', h.final s']
    | some x => cases (Prod.mk.inj hc).1
  · cases c with
    | none =>
      change (match w.tmp s with | some t => _ | none => _) = _ at hc
      rw [htmp] at hc
      cases (Prod.mk.inj hc).1
    | some x =>
      rw [← show w = w' from congrArg Prod.snd hc]
      exact h.forget

theorem Does.weaken {α : Type} {p : Writing α} {e e' k' : ℕ}
    {known' : StreetFile → Option (List Char)} (hp : Does before doc e k' p known' w) (h : e ≤ e') :
    Does before doc e' k' p known' w := by
  refine Keeping.mono hp (fun _ w' _ hfailed => ?_) fun _ _ _ h => h
  obtain ⟨j, hj, hclosed⟩ := hfailed
  exact ⟨j, by omega, hclosed⟩

theorem Does.bind {α β : Type} {p : Writing α} {f : α → Writing β} {e k k' k'' : ℕ}
    {known' known'' : StreetFile → Option (List Char)} (hp : Does before doc e k' p known' w)
    (hf : ∀ a w', Closed before doc k' known' w' → Does before doc k k'' (f a) known'' w')
    (hek : e ≤ k) : Does before doc k k'' (p >>= f) known'' w :=
  Keeping.bind (hp.weaken hek) fun a w' _ h => hf a w' h

theorem does_ite {α : Type} {c : Prop} [Decidable c] {p q : Writing α} {e k' : ℕ}
    {known' : StreetFile → Option (List Char)} (hp : c → Does before doc e k' p known' w)
    (hq : ¬c → Does before doc e k' q known' w) :
    Does before doc e k' (if c then p else q) known' w := by
  split
  · exact hp ‹_›
  · exact hq ‹_›

theorem does_writerInit (epsg : Option ℤ) (h : Closed before doc k known w) :
    Does before doc k k (writerInit s epsg) (Function.update known s (some (header epsg))) w := by
  refine Does.bind (does_openTmp h) (fun _ w' h' => ?_) le_rfl
  have hwrite := does_write (header epsg) h' (Function.update_self s (some []) known)
  rwa [Function.update_idem, List.nil_append] at hwrite

theorem does_writerClose (h : Closed before doc k known w) (hs : known s = some t)
    (ht : t ++ footer = doc s) (hk : closeOrder[k]? = some s) :
    Does before doc k (k + 1) (writerClose s) (Function.update known s none) w := by
  refine Does.bind (does_write footer h hs) (fun _ w' h' => ?_) le_rfl
  refine Does.bind (does_closeTmp h') (fun _ w' h' => ?_) le_rfl
  have hreplace := does_replace h' (by rw [Function.update_self, ht]) hk
  rwa [Function.update_idem] at hreplace

/-- Dropping a temporary file changes nothing else. -/
theorem does_writerDiscard (h : Closed before doc k unknown w) :
    Does before doc k k (writerDiscard s) unknown w := by
  refine Does.bind (does_closeTmp h) (fun _ w' h' => ?_) le_rfl
  intro _
  refine does_ite (fun _ => ?_) fun _ => ⟨trivial, h'⟩
  intro c
  cases c with
  | none => exact ⟨trivial, (h'.setTmp s none).forget⟩
  | some x => exact ⟨trivial, k, le_rfl, h'⟩

/-- **A writer as a context**: its file is the next one to be finished, or nothing more is. -/
theorem does_context {epsg : Option ℤ} {body : Writing Unit}
    (known' : StreetFile → Option (List Char)) (h : Closed before doc 0 known w)
    (hbody : ∀ w', Closed before doc 0 (Function.update known s (some (header epsg))) w' →
      Does before doc k k body known' w')
    (hs : known' s = some t) (ht : t ++ footer = doc s) (hk : closeOrder[k]? = some s) :
    Does before doc k (k + 1) (withStreamingWriter s epsg body)
    (Function.update known' s none) w := by
  refine Does.bind (does_writerInit epsg h) (fun _ w₁ h₁ => ?_) (Nat.zero_le k)
  have htry : Does before doc k k
    (body.tryCatch fun e => do writerDiscard s; .throw e) known' w₁ := by
    apply Keeping.tryCatch (hbody w₁ h₁)
    intro e w₂ _ hfailed
    obtain ⟨j, hj, hclosed⟩ := hfailed
    refine Does.bind (does_writerDiscard hclosed) (fun _ w₃ h₃ => ?_) hj
    exact ⟨trivial, j, hj, h₃⟩
  exact Does.bind htry (fun _ w₂ h₂ => does_writerClose h₂ hs ht hk) le_rfl

/-- One more feature. -/
theorem does_writerWrite (x : List Char) (ts : List (List Char)) {first : Bool} {feature : Value}
    (h : Closed before doc k known w) (hs : known s = some (x ++ joined ts))
    (hfirst : first = ts.isEmpty) :
    Does before doc k k (writerWrite s first feature)
      (Function.update known s (some (x ++ joined (ts ++ [feature.text])))) w := by
  have htext : joined (ts ++ [feature.text]) =
      joined ts ++ ((if first = false then [',', ' '] else []) ++ feature.text) := by
    rw [joined_snoc, hfirst]
    cases ts <;> simp
  rw [htext]
  unfold writerWrite
  have hseparator : Does before doc k k (writeSeparator s first) (Function.update known s
      (some (x ++ joined ts ++ if first = false then [',', ' '] else []))) w := by
    refine does_ite (fun hfalse => ?_) fun htrue => ⟨trivial, ?_⟩
    · rw [if_pos hfalse]
      exact does_write [',', ' '] h hs
    · rw [if_neg htrue, List.append_nil, ← hs, Function.update_eq_self]
      exact h
  refine Does.bind hseparator (fun _ w' h' => ?_) le_rfl
  have hwrite := does_write feature.text h' (Function.update_self s _ known)
  rwa [Function.update_idem, List.append_assoc, List.append_assoc] at hwrite

end

/-! ## The query -/

/-- The feature passes the default track-grade filter. -/
def WayFeature.graded (f : WayFeature) : Bool := trackGradeAllowed f.properties defaultTrackGrades

/-- What each file holds of the features. -/
def written (project : Point → Point) (fs : List WayFeature) : StreetFile → List Value
  | .download => fs.map WayFeature.value
  | .edited => (fs.filter WayFeature.graded).map WayFeature.value
  | .transformed => (fs.filter WayFeature.graded).map fun f => f.projectedValue project

/-- Only the transformed file names its CRS. -/
def crsOf (epsg : ℤ) : StreetFile → Option ℤ
  | .transformed => some epsg
  | _ => none

/-- The complete document. -/
def document (project : Point → Point) (epsg : ℤ) (fs : List WayFeature) (s : StreetFile) :
    List Char :=
  (collection (crsOf epsg s) (written project fs s)).text

/-- A document without its end. -/
def soFar (project : Point → Point) (epsg : ℤ) (fs : List WayFeature) (s : StreetFile) :
    Option (List Char) :=
  some (header (crsOf epsg s) ++ joined ((written project fs s).map Value.text))

section

variable {project : Point → Point} {inside : Point → Bool} {epsg : ℤ} {f : WayFeature}
  {fs : List WayFeature} {before w : WriterFiles} {doc : StreetFile → List Char}

theorem soFar_of_not_graded (hf : f.graded = false) : soFar project epsg (fs ++ [f]) =
    Function.update (soFar project epsg fs) .download (some (header none ++
      joined ((written project fs .download).map Value.text ++ [f.value.text]))) := by
  funext s
  cases s <;> simp [soFar, written, crsOf, hf]

theorem soFar_of_graded (hf : f.graded = true) : soFar project epsg (fs ++ [f]) =
    Function.update (Function.update (Function.update (soFar project epsg fs) .download
      (some (header none ++ joined
        ((written project fs .download).map Value.text ++ [f.value.text]))))
      .edited
      (some (header none ++ joined
        ((written project fs .edited).map Value.text ++ [f.value.text]))))
      .transformed (some (header (some epsg) ++
        joined ((written project fs .transformed).map Value.text ++
          [(f.projectedValue project).text]))) := by
  funext s
  cases s <;> simp [soFar, written, crsOf, hf]

/-- The loop: every feature goes to its files. -/
theorem does_writeWays (ways : List Way) {first : StreetFile → Bool}
    (hfirst : ∀ s, first s = (written project fs s).isEmpty)
    (h : Closed before doc 0 (soFar project epsg fs) w) :
    Does before doc 0 0 (writeWays inside project ways first)
      (soFar project epsg (fs ++ ways.filterMap (wayFeature inside))) w := by
  induction ways generalizing fs first w with
  | nil =>
    rw [List.filterMap_nil, List.append_nil]
    exact does_step (.inl rfl) h
  | cons way ways ih =>
    unfold writeWays
    refine Does.bind (does_step (.inl rfl) h) (fun _ w₁ h₁ => ?_) le_rfl
    refine Does.bind (does_step (.inr (.inl rfl)) h₁) (fun _ w₂ h₂ => ?_) le_rfl
    cases hway : wayFeature inside way with
    | none =>
      rw [List.filterMap_cons_none hway]
      exact ih hfirst h₂
    | some f =>
      rw [List.filterMap_cons_some hway, List.append_cons]
      dsimp only
      refine Does.bind (does_writerWrite (header none)
        ((written project fs .download).map Value.text) h₂ rfl
        (by rw [hfirst, List.isEmpty_map])) (fun _ w₃ h₃ => ?_) le_rfl
      refine does_ite (fun hf => ?_) fun hf => ?_
      · rw [← soFar_of_not_graded hf] at h₃
        refine ih (fun s => ?_) h₃
        have hgraded : f.graded = false := hf
        cases s <;> simp [hfirst, written, hgraded]
      · have hgraded : f.graded = true := by simpa [WayFeature.graded] using hf
        refine Does.bind (does_writerWrite (header none)
          ((written project fs .edited).map Value.text) h₃ (by simp [soFar, crsOf])
          (by simp [hfirst])) (fun _ w₄ h₄ => ?_) le_rfl
        refine Does.bind (does_step (.inr (.inr rfl)) h₄) (fun _ w₅ h₅ => ?_) le_rfl
        refine Does.bind (does_writerWrite (header (some epsg))
          ((written project fs .transformed).map Value.text) h₅ (by simp [soFar, crsOf])
          (by simp [hfirst])) (fun _ w₆ h₆ => ?_) le_rfl
        rw [← soFar_of_graded hgraded] at h₆
        refine ih (fun s => ?_) h₆
        cases s <;> simp [written, hgraded]

/-- **The query**: the writers are closed in turn, the last ones first, and none before everything
is written. -/
theorem does_runOsmQueryFiles (ways : List Way) (hclosed : before.closed = []) :
    Does before (document project epsg (ways.filterMap (wayFeature inside))) 2 3
      (runOsmQueryFiles inside project epsg ways) unknown before := by
  have hstart : Closed before (document project epsg (ways.filterMap (wayFeature inside))) 0 unknown
      before := ⟨hclosed, fun s => rfl, nofun⟩
  have hdocument : ∀ s t, soFar project epsg (ways.filterMap (wayFeature inside)) s = some t →
      t ++ footer = document project epsg (ways.filterMap (wayFeature inside)) s := by
    intro s t ht
    rw [← Option.some.inj ht, document, text_collection]
  refine Keeping.mono (does_context (Function.update (Function.update
    (soFar project epsg (ways.filterMap
      (wayFeature inside))) .transformed none) .edited none) hstart
    (fun w₁ h₁ => ?_) rfl (hdocument .download _ rfl) rfl) (fun _ _ _ h => h)
    fun _ _ _ h => h.forget
  refine Does.weaken (does_context (k := 1) _ h₁ (fun w₂ h₂ => ?_) rfl
    (hdocument .edited _ rfl) rfl)
    (Nat.le_succ 1)
  refine Does.weaken (does_context (k := 0) _ h₂ (fun w₃ h₃ => ?_) rfl
    (hdocument .transformed _ rfl) rfl)
    (Nat.zero_le 1)
  have hempty : (Function.update (Function.update (Function.update unknown .download
      (some (header none))) .edited (some (header none))) .transformed
      (some (header (some epsg)))) =
      soFar project epsg [] := by
    funext s
    cases s <;> simp [soFar, written, crsOf, joined]
  rw [hempty] at h₃
  have hloop : Does before _ 0 0 (writeWays inside project ways fun _ => true) _ w₃ :=
    does_writeWays ways (fun s => by cases s <;> rfl) h₃
  rwa [List.nil_append] at hloop

end

/-! ## What the files say -/

/-- A FeatureCollection as it is read. -/
def featureCollection (crs : Option ℤ) (features : List Json) : Json :=
  .object ((codesOf "type", .string (codesOf "FeatureCollection")) ::
    ((crsMember crs).map (fun m => (codesOf m.1, m.2.load)) ++
      [(codesOf "features", .array features)]))

omit [FloatRepr] in
theorem load_collection (crs : Option ℤ) (features : List Value) :
    (collection crs features).load = featureCollection crs (features.map Value.load) := by
  simp [collection, featureCollection]

/-- A feature as it is read: as many nodes as positions, at least two, and its id is the osmid. -/
structure IsRoad (j : Json) : Prop where
  nodes : ∃ nodes coordinates, j.at ["properties", "nodes"] = some (.array nodes) ∧
    j.at ["geometry", "coordinates"] = some (.array coordinates) ∧
    nodes.length = coordinates.length ∧ 2 ≤ nodes.length
  id : ∃ id, j.at ["id"] = some id ∧ j.at ["properties", "osmid"] = some id

section

variable {f : WayFeature} {way : Way} {inside : Point → Bool}

@[simp] theorem at_properties (path : List String) :
    f.value.load.at ("properties" :: path) = f.propertiesValue.load.at path := by
  rw [WayFeature.value, at_dumpObject]
  simp

@[simp] theorem at_id : f.value.load.at ["id"] = some (intValue f.id).load := by
  rw [WayFeature.value, at_dumpObject]
  simp [Json.at]

theorem at_lineString (coordinates : List Point) :
    (lineString coordinates).load.at ["coordinates"] =
    some (.array (coordinates.map fun p => (pointValue p).load)) := by
  rw [lineString, at_dumpObject]
  simp [Json.at, Function.comp_def]

@[simp] theorem at_coordinates : f.value.load.at ["geometry", "coordinates"] =
    some (.array (f.coordinates.map fun p => (pointValue p).load)) := by
  rw [← at_lineString, WayFeature.value, at_dumpObject]
  simp

/-- A property is read under its name. -/
theorem at_property (key : String) (hkey : key ∈ propertyOrder) :
    f.value.load.at ["properties", key] = some (f.property key).load := by
  rw [at_properties, WayFeature.propertiesValue, at_dumpObject_map hkey]
  rfl

omit [FloatRepr] in
theorem property_nodes : f.property "nodes" = dumpArray (f.nodes.map intValue) := by
  rw [WayFeature.property, if_neg (by decide), if_pos rfl]

omit [FloatRepr] in
/-- Every other property is the tag, or null. -/
theorem property_tag {key : String} (hkey : key ∉ ["osmid", "nodes", "oneway"]) :
    f.property key = match f.tags.lookup key with
      | some v => dumpText v
      | none => .null := by
  simp only [List.mem_cons, List.not_mem_nil, or_false, not_or] at hkey
  rw [WayFeature.property, if_neg hkey.1, if_neg hkey.2.1, if_neg hkey.2.2]

/-- A tag is read as it is. -/
theorem at_tag_iff {key v : String} (hkey : key ∉ ["osmid", "nodes", "oneway"])
    (horder : key ∈ propertyOrder) :
    f.value.load.at ["properties", key] = some (.string (codesOf v)) ↔
    f.tags.lookup key = some v := by
  rw [at_property key horder, property_tag hkey]
  cases f.tags.lookup key with
  | none => simp [Value.load]
  | some v' => simp [codesOf_injective.eq_iff]

/-- **Every feature is a road.** -/
theorem isRoad_value (hlength : way.nodes.length = way.geometry.length)
    (hf : wayFeature inside way = some f) : IsRoad f.value.load := by
  obtain ⟨kept, hkept, rfl⟩ := Option.map_eq_some_iff.1 hf
  obtain ⟨htwo, hsame, -⟩ := truncation_cut hlength hkept
  have hnodes := at_property (f := ⟨way.id, kept.1, kept.2, way.tags⟩) "nodes" (by decide)
  have hosmid := at_property (f := ⟨way.id, kept.1, kept.2, way.tags⟩) "osmid" (by decide)
  rw [property_nodes, load_dumpArray] at hnodes
  refine ⟨⟨_, _, hnodes, at_coordinates, ?_, ?_⟩, _, at_id, hosmid⟩
  · simpa using hsame
  · simpa using htwo

/-- The default track grades, as the feature is read. -/
def PassesDefaultGrades (j : Json) : Prop :=
  j.at ["properties", "highway"] = some (.string (codesOf "track")) →
    ∃ grade ∈ defaultTrackGrades, j.at ["properties", "tracktype"] = some (.string (codesOf grade))

omit [FloatRepr] in
/-- No default grade is the one of tracks without a grade. -/
theorem grade_mem_default (grade : Option String) :
    (match grade with
      | some g => if g ∈ trackGrades then g else ungradedTrackGrade
      | none => ungradedTrackGrade) ∈ defaultTrackGrades ↔
          ∃ g ∈ defaultTrackGrades, grade = some g := by
  have hungraded : ungradedTrackGrade ∉ defaultTrackGrades := by decide
  have hsub : ∀ g ∈ defaultTrackGrades, g ∈ trackGrades := by decide
  cases grade with
  | none => simp [hungraded]
  | some g =>
    have hself : (∃ g' ∈ defaultTrackGrades, some g = some g') ↔ g ∈ defaultTrackGrades := by simp
    rw [hself]
    dsimp only
    split
    · rfl
    · exact iff_of_false hungraded fun h => absurd (hsub g h) ‹_›

/-- The filter decides by what is written. -/
theorem graded_iff : f.graded = true ↔ PassesDefaultGrades f.value.load := by
  have hhighway : f.properties.highway = "track" ↔ f.tags.lookup "highway" = some "track" := by
    change (f.tags.lookup "highway").getD "" = "track" ↔ _
    cases f.tags.lookup "highway" <;> simp
  have htracktype : ∀ grade, f.value.load.at ["properties", "tracktype"] =
      some (.string (codesOf grade)) ↔ f.properties.tracktype = some grade :=
    fun grade => at_tag_iff (by decide) (by decide)
  unfold PassesDefaultGrades
  rw [at_tag_iff (by decide) (by decide), ← hhighway, WayFeature.graded, trackGradeAllowed]
  simp only [htracktype]
  by_cases h : f.properties.highway = "track"
  · rw [if_neg (not_not.2 h), decide_eq_true_iff]
    refine (grade_mem_default f.properties.tracktype).trans ?_
    exact ⟨fun hgrade _ => hgrade, fun hgrade => hgrade h⟩
  · rw [if_pos h]
    exact ⟨fun _ htrack => absurd htrack h, fun _ => rfl⟩

end

/-- A feature of the transformed file: the same properties, projected positions and no id. -/
structure IsProjected (project : Point → Point) (f : WayFeature) (j : Json) : Prop where
  properties : j.at ["properties"] = f.value.load.at ["properties"]
  coordinates : j.at ["geometry", "coordinates"] =
    some (.array ((f.coordinates.map project).map fun p => (pointValue p).load))
  id : j.at ["id"] = none

theorem isProjected_value (project : Point → Point) (f : WayFeature) :
    IsProjected project f (f.projectedValue project).load where
  properties := by
    rw [at_properties, WayFeature.projectedValue, at_dumpObject]
    simp
  coordinates := by
    rw [← at_lineString, WayFeature.projectedValue, at_dumpObject]
    simp
  id := by
    rw [WayFeature.projectedValue, at_dumpObject]
    simp

/-- The file holds a text that is read as `j`. -/
def WriterFiles.Reads (w : WriterFiles) (s : StreetFile) (j : Json) : Prop :=
  ∃ text, w.final s = some text ∧ Parses text j

/-- The three files, when `fs` are the features of the stream. -/
structure FilesAgree (project : Point → Point) (epsg : ℤ) (fs : List WayFeature) (w : WriterFiles) :
    Prop where
  download : w.Reads .download (featureCollection none (fs.map fun f => f.value.load))
  road : ∀ f ∈ fs, IsRoad f.value.load
  edited : w.Reads .edited
    (featureCollection none ((fs.filter WayFeature.graded).map fun f => f.value.load))
  grade : ∀ f ∈ fs, f.graded = true ↔ PassesDefaultGrades f.value.load
  transformed : w.Reads .transformed (featureCollection (some epsg)
    ((fs.filter WayFeature.graded).map fun f => (f.projectedValue project).load))
  projected : ∀ f ∈ fs, IsProjected project f (f.projectedValue project).load

/-- Each file has its old content or the new document, and the old one if no writer is closed
yet. -/
structure AllOrNothing (before : WriterFiles) (doc : StreetFile → List Char) (w : WriterFiles) :
    Prop where
  either : ∀ s, w.final s = before.final s ∨ w.final s = some (doc s)
  untouched : w.closed = [] → w.final = before.final

omit [FloatRepr] in
theorem Closed.allOrNothing {before w : WriterFiles} {doc : StreetFile → List Char} {k : ℕ}
    (h : Closed before doc k unknown w) : AllOrNothing before doc w where
  either s := by
    rw [h.final]
    split
    · exact .inr rfl
    · exact .inl rfl
  untouched hclosed := by
    have htake : closeOrder.take k = [] := h.closed.symm.trans hclosed
    funext s
    rw [h.final, htake, if_neg List.not_mem_nil]

theorem Closed.filesAgree {before w : WriterFiles} {project : Point → Point} {epsg : ℤ}
    {fs : List WayFeature} (h : Closed before (document project epsg fs) 3 unknown w)
    (hroad : ∀ f ∈ fs, IsRoad f.value.load) : FilesAgree project epsg fs w := by
  have hreads : ∀ s, w.Reads s
      (featureCollection (crsOf epsg s) ((written project fs s).map Value.load)) := by
    intro s
    refine ⟨document project epsg fs s, ?_, ?_⟩
    · rw [h.final, if_pos (by cases s <;> decide)]
    · rw [document, ← load_collection]
      exact parses_text _
  refine ⟨?_, hroad, ?_, fun f _ => graded_iff, ?_, fun f _ => isProjected_value project f⟩
  · simpa [written, crsOf, Function.comp_def] using hreads .download
  · simpa [written, crsOf, Function.comp_def] using hreads .edited
  · simpa [written, crsOf, Function.comp_def] using hreads .transformed

/-- **The three files of a download** agree, or each is as it was or complete. -/
theorem runOsmQuery_files (inside : Point → Bool) (project : Point → Point) (epsg : ℤ)
    (ways : List Way) (before : WriterFiles)
    (hways : ∀ way ∈ ways, way.nodes ≠ [] ∧ way.nodes.length = way.geometry.length)
    (hclosed : before.closed = []) :
    (runOsmQueryFiles inside project epsg ways).wp writerMachine
      (fun result w => match result with
        | .ok () => FilesAgree project epsg (ways.filterMap (wayFeature inside)) w
        | .error () =>
          AllOrNothing before (document project epsg (ways.filterMap (wayFeature inside))) w)
      before := by
  have hroad : ∀ f ∈ ways.filterMap (wayFeature inside), IsRoad f.value.load := by
    intro f hf
    obtain ⟨way, hway, hf⟩ := List.mem_filterMap.1 hf
    exact isRoad_value (hways way hway).2 hf
  apply wp.mono (does_runOsmQueryFiles ways hclosed)
  intro result w hw
  cases result with
  | ok _ => exact Closed.filesAgree hw.2 hroad
  | error _ =>
    obtain ⟨k, -, hk⟩ := hw.2
    exact hk.allOrNothing

/-- Whole numbers as floating-point numbers. -/
abbrev wholeFloats : FloatRepr :=
  ⟨fun q => { intNumber q.num with fraction := (intNumber 0).whole }⟩

omit [FloatRepr] in
/-- A road and a track without a grade; nothing raises. -/
theorem runOsmQuery_files_twoWays :
    let _ := wholeFloats
    let ways : List Way := [
      ⟨7, [1, 2], [(0, 0), (1, 1)], [("highway", "residential")]⟩,
      ⟨8, [2, 3], [(1, 1), (2, 1)], [("highway", "track")]⟩]
    let start : WriterFiles := ⟨fun _ => none, fun _ => none, []⟩
    let after :=
      (runOsmQueryFiles (fun _ => true) Prod.swap 25832 ways).runWith writerMachine none [] start
    after.1 = .ok () ∧
      FilesAgree Prod.swap 25832 (ways.filterMap (wayFeature fun _ => true)) after.2 := by
  intro _ ways start after
  have hok : after.1 = .ok () := by decide +kernel
  have hends := ends_runWith (M := writerMachine) none []
    (runOsmQueryFiles (fun _ => true) Prod.swap 25832 ways) start
  have hfiles := wp_iff_ends.1 (runOsmQuery_files (fun _ => true) Prod.swap 25832 ways start
    (by decide) rfl) _ _ hends
  refine ⟨hok, ?_⟩
  rw [show (Program.runWith writerMachine none [] _ start).1 = .ok () from hok] at hfiles
  exact hfiles

end Cosmonaut
