import Cosmonaut.Interleaving.Alone
import Cosmonaut.Model.Requests

/-!
# What the records and the caches vouch for

A record says that a derived file was built from a source. Wherever record files are copied, what
they say stays true of the bytes they name, and so does what the processes have cached: this is the
invariant `Sound` of everything the street selector relies on.

* `Derived`: the content the source of a derived file calls for. Features are compared through
  `look`, which may hide the tooltip.
* `Sound`: every record is true, the caches are, and no record file is half-written where it may
  not.
* `Vouched`: a pod's derived file is there, with a record for this very content.
-/

namespace Cosmonaut

open Interleaving Program

/-! ## Places -/

/-- Where a copy of the work dir lies: in object storage, or on a pod's disk. -/
abbrev Place := Option ℕ

/-- The copy of the work dir. -/
def World.copy (w : World) : Place → Files
  | none => w.stored
  | some pod => w.disk pod

@[simp] theorem World.copy_none (w : World) : w.copy none = w.stored := rfl

@[simp] theorem World.copy_some (w : World) (pod : ℕ) : w.copy (some pod) = w.disk pod := rfl

/-! ## Derived content -/

section

variable [External]

/-- The routing input of a network: its roads projected, under a CRS header unless there is none. -/
def projectRoads (epsg : ℤ) (roads : List Feature) : RoutingInput :=
  if roads = [] then ⟨none, []⟩ else ⟨some epsg, roads.map (projectFeature 4326 epsg)⟩

/-- The network the source stands for: what its intent keeps of the download it names. -/
def Source.Network (source : Source) (kept : List Feature) : Prop :=
  ∃ download, source.downloadSha256 = some (StreetFile.sha256 .download (.whole download)) ∧
    derive source.intent download = some kept

/-- The file holds what is derived from the source, as far as `look` shows it. -/
def Derived (look : Feature → Feature) (source : Source) : (s : StreetFile) → s.Doc → Prop
  | .download, _ => False
  | .edited, roads => ∃ kept, source.Network kept ∧ roads.map look = kept.map look
  | .transformed, doc => ∃ kept roads, source.Network kept ∧ roads.map look = kept.map look ∧
      doc = projectRoads source.epsg roads

/-- Every record names a source and the checksum of a content derived from it. -/
def Truthful (look : Feature → Feature) (records : Records) : Prop :=
  ∀ s source sha256, records s = some (.built source sha256) →
    ∃ doc, sha256 = s.sha256 (.whole doc) ∧ Derived look source s doc

theorem truthful_none (look : Feature → Feature) : Truthful look fun _ => none := by
  intro s source sha256 h
  cases h

variable {look : Feature → Feature} {records : Records}

theorem Truthful.drop (h : Truthful look records) (s : StreetFile) :
    Truthful look (Function.update records s none) := by
  intro t source sha256 ht
  by_cases hts : t = s
  · subst hts
    rw [Function.update_self] at ht
    cases ht
  · rw [Function.update_of_ne hts] at ht
    exact h t source sha256 ht

theorem Truthful.record (h : Truthful look records) {s : StreetFile} {source : Source} {doc : s.Doc}
    (hd : Derived look source s doc) :
    Truthful look
      (Function.update records s (some (.built source (s.sha256 (.whole doc))))) := by
  intro t source' sha256 ht
  by_cases hts : t = s
  · subst hts
    rw [Function.update_self, Option.some.injEq, Record.built.injEq] at ht
    obtain ⟨rfl, rfl⟩ := ht
    exact ⟨doc, rfl, hd⟩
  · rw [Function.update_of_ne hts] at ht
    exact h t source' sha256 ht

end

/-! ## Feature objects -/

/-- The roads a street file holds as features. The routing input is never loaded as such. -/
def StreetFile.roads : (s : StreetFile) → s.Doc → List Feature
  | .download, roads => roads
  | .edited, roads => roads
  | .transformed, _ => []

/-- The objects under the references are the features, as far as `look` shows them. -/
def Shows (look : Feature → Feature) (heap : List Feature) (refs : List ℕ) (roads : List Feature) :
    Prop :=
  refs.map (fun i => heap[i]?.map look) = roads.map fun f => some (look f)

variable {look : Feature → Feature} {heap heap' : List Feature} {refs : List ℕ}
  {roads : List Feature}

theorem Shows.of_prefix (h : Shows look heap refs roads) (hp : heap <+: heap') :
    Shows look heap' refs roads := by
  unfold Shows at h ⊢
  rw [← h]
  apply List.map_congr_left
  intro i hi
  have hi' : heap[i]?.map look ∈ roads.map fun f => some (look f) := by
    rw [← h]
    exact List.mem_map.2 ⟨i, hi, rfl⟩
  obtain ⟨f, -, hf⟩ := List.mem_map.1 hi'
  obtain ⟨g, hg, -⟩ := Option.map_eq_some_iff.1 hf.symm
  obtain ⟨l, rfl⟩ := hp
  rw [List.getElem?_append_left (List.getElem?_eq_some_iff.1 hg).1]

/-- New objects show what they were made of. -/
theorem shows_new (look : Feature → Feature) (heap roads : List Feature) :
    Shows look (heap ++ roads) (List.range' heap.length roads.length) roads := by
  apply List.ext_getElem (by simp)
  intro i h₁ h₂
  have hi : i < roads.length := by simpa using h₂
  simp [hi]

/-- Tooltips do not show where `look` hides them. -/
theorem Shows.addTooltips (hlook : ∀ f t, look (f.withTooltip t) = look f)
    (h : Shows look heap refs roads) (refs' : List ℕ) :
    Shows look (addTooltipsTo refs' heap) refs roads := by
  unfold Shows at h ⊢
  rw [← h]
  apply List.map_congr_left
  intro i _
  rw [addTooltipsTo, List.getElem?_mapIdx, Option.map_map]
  refine congrArg (fun view => Option.map view heap[i]?) (funext fun f => ?_)
  simp only [Function.comp]
  split
  · exact hlook f _
  · rfl

/-- What the objects are, in full. -/
def objects (heap : List Feature) (refs : List ℕ) : List Feature := refs.filterMap (heap[·]?)

/-- Every reference has an object. -/
theorem Shows.objects (h : Shows look heap refs roads) :
    refs.map (heap[·]?) = (objects heap refs).map some ∧
      (objects heap refs).map look = roads.map look := by
  unfold Shows at h
  induction refs generalizing roads with
  | nil =>
    have hroads : roads = [] := by simpa using h.symm
    subst hroads
    exact ⟨rfl, rfl⟩
  | cons i refs ih =>
    rcases roads with _ | ⟨f, roads⟩
    · simp at h
    simp only [List.map_cons, List.cons.injEq] at h
    obtain ⟨g, hg, hgf⟩ := Option.map_eq_some_iff.1 h.1
    have hobjects : Cosmonaut.objects heap (i :: refs) = g :: Cosmonaut.objects heap refs :=
      List.filterMap_cons_some hg
    obtain ⟨hmap, hlook⟩ := ih h.2
    rw [hobjects]
    exact ⟨by rw [List.map_cons, hg, hmap, List.map_cons],
      by rw [List.map_cons, List.map_cons, hgf, hlook]⟩

theorem objects_map_fst {kept : List (ℕ × Feature)} (h : ∀ r ∈ kept, heap[r.1]? = some r.2) :
    objects heap (kept.map Prod.fst) = kept.map Prod.snd := by
  have hkept : kept.filterMap ((heap[·]?) ∘ Prod.fst) = kept.filterMap fun r => some r.2 :=
    List.filterMap_congr h
  rw [objects, List.filterMap_map, hkept]
  exact congrFun List.filterMap_eq_map kept

/-! ## The invariant -/

/-- The files that no code leaves half-written: the download is renamed into place, and the legacy
intent is no longer written. -/
def FileName.neverTorn : FileName → Bool
  | .streetEdits | .street .download => true
  | _ => false

variable [External]

/-- Every record file tells the truth, the caches do, and record files are half-written in the
places `torn` at most. Where the process may be terminated (`crash`) they may be half-written
anywhere. -/
structure Sound (crash : Bool) (look : Feature → Feature) (torn : Place → Prop) (w : World) :
    Prop where
  records : ∀ place records, (w.copy place).content .derivedHashes = some (.whole records) →
    Truthful look records
  checksums : ∀ process s mtime sha256,
    (w.memory process).checksums s = some (mtime, sha256) → sha256 = s.sha256 mtime.content
  features : ∀ process s mtime refs, (w.memory process).features s = some (mtime, refs) →
    ∃ doc, mtime.content = .whole doc ∧ Shows look (w.memory process).heap refs (s.roads doc)
  legible : crash = false → ∀ place, (w.copy place).content .derivedHashes = some .torn → torn place
  whole : ∀ place f, f.neverTorn = true → (w.copy place).content f ≠ some .torn

variable {crash : Bool} {torn : Place → Prop} {w w' : World}

/-- What neither record files nor caches see. -/
theorem Sound.of_same (h : Sound crash look torn w)
    (hr : ∀ place, (w'.copy place) .derivedHashes = (w.copy place) .derivedHashes)
    (hw : ∀ place f, f.neverTorn = true → (w'.copy place).content f = some .torn →
      ∃ place', (w.copy place').content f = some .torn)
    (hm : w'.memory = w.memory) : Sound crash look torn w' where
  records place records hrec := h.records place records (by rwa [Files.content, ← hr place])
  checksums process s := by rw [hm]; exact h.checksums process s
  features process s := by rw [hm]; exact h.features process s
  legible hc place ht := h.legible hc place (by rwa [Files.content, ← hr place])
  whole place f hf ht := by
    obtain ⟨place', ht'⟩ := hw place f hf ht
    exact h.whole place' f hf ht'

/-- What the pod's record file says, if it can be read. -/
def World.recordsOn (w : World) (pod : ℕ) : Records :=
  match (w.disk pod).content .derivedHashes with
  | some (.whole records) => records
  | _ => fun _ => none

theorem Sound.truthful (h : Sound crash look torn w) (pod : ℕ) :
    Truthful look (w.recordsOn pod) := by
  unfold World.recordsOn
  split
  · rename_i records hrecords
    exact h.records (some pod) records hrecords
  · exact truthful_none look

/-- The derived file is there, and a record of it was written for this very content. -/
def Vouched (w : World) (pod : ℕ) (s : StreetFile) (source : Source) : Prop :=
  ∃ doc, (w.disk pod).content (.street s) = some (.whole doc) ∧
    w.recordsOn pod s = some (.built source (s.sha256 (.whole doc)))

/-- **What a record vouches for is derived from its source.** -/
theorem Sound.derived (h : Sound crash look torn w) {pod : ℕ} {s : StreetFile} {source : Source}
    (hv : Vouched w pod s source) : ∃ doc, (w.disk pod).content (.street s) = some (.whole doc) ∧
      Derived look source s doc := by
  obtain ⟨doc, hdoc, hrec⟩ := hv
  obtain ⟨doc', hsha, hderived⟩ := h.truthful pod s source _ hrec
  obtain rfl : doc = doc' := Bytes.whole.inj (s.sha256_injective hsha)
  exact ⟨doc, hdoc, hderived⟩

end Cosmonaut
