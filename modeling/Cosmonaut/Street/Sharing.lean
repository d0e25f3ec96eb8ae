import Cosmonaut.Interleaving.Rely
import Cosmonaut.Street.Derive

/-!
# Derivations that share a work dir

What `_derive` and `_project` do while other processes work on the same work dir, as long as whoever
takes the checksum of a file it has rewritten finds in it what it wrote.

* `Shared` is the invariant of the work dir and the caches, `Op.Shares` what a process may do to
  them.
* `undisturbed` is the assumption on a step, `sharing` the rules the processes keep to.
* One lemma for each function, up to `project_shares` and `deriveFiles_shares`.
-/

namespace Cosmonaut

open Interleaving Program

/-! ## Checksums of rewritten files -/

/-- The document the call writes for a street file, under its own or its temporary name. -/
def writtenDoc (s : StreetFile) : Call sig → Option s.Doc
  | ⟨.writeFile _ (.street t) doc, .ok _⟩ => if h : t = s then some (h ▸ doc) else none
  | ⟨.writeFile _ (.streetTmp t) doc, .ok _⟩ => if h : t = s then some (h ▸ doc) else none
  | _ => none

/-- What the thread has written for the street file last. -/
def lastWritten (s : StreetFile) (past : List (Call sig)) : Option s.Doc :=
  past.findSome? (writtenDoc s)

/-- The last call was a write. -/
def justWrote : List (Call sig) → Bool
  | ⟨.writeFile .., _⟩ :: _ => true
  | _ => false

/-- The street file whose checksum the call is part of: it reads the file, or looks at its time.
Right after a write the time is looked at for the feature cache. -/
def checksummed (past : List (Call sig)) : Op → Option (ℕ × StreetFile)
  | .readFile pod (.street s) => some (pod, s)
  | .mtime pod (.street s) => if justWrote past then none else some (pod, s)
  | _ => none

/-- A file whose checksum the thread takes holds what the thread has written to it, if it has. -/
def undisturbed (past : List (Call sig)) (o : Op) (w : World) : Bool :=
  (checksummed past o).all fun (pod, s) =>
    (lastWritten s past).all fun doc => (w.disk pod).content (.street s) = some (.whole doc)

variable {past : List (Call sig)} {w w' : World} {pod : ℕ} {s : StreetFile} {doc : s.Doc}

theorem content_of_undisturbed {o : Op} (h : undisturbed past o w = true)
    (ho : checksummed past o = some (pod, s)) (hdoc : lastWritten s past = some doc) :
    (w.disk pod).content (.street s) = some (.whole doc) := by
  unfold undisturbed at h
  rw [ho, Option.all_some] at h
  dsimp only at h
  rw [hdoc, Option.all_some] at h
  exact of_decide_eq_true h

/-! ## The invariant -/

variable [External] {look : Feature → Feature} {download : List Feature}

/-- The pod's download is the given one, its records are true, and so is what the processes have
cached, apart from the lists of the derived files. -/
structure Shared (look : Feature → Feature) (pod : ℕ) (download : List Feature) (w : World) :
    Prop where
  download : (w.disk pod).content (.street .download) = some (.whole download)
  records : Truthful look (w.recordsOn pod)
  checksums : ∀ process s mtime sha256,
    (w.memory process).checksums s = some (mtime, sha256) → sha256 = s.sha256 mtime.content
  features : ∀ process mtime refs, (w.memory process).features .download = some (mtime, refs) →
    ∃ doc, mtime.content = .whole doc ∧ Shows look (w.memory process).heap refs doc

/-- What a process may do. -/
def Op.Shares (look : Feature → Feature) (w : World) : Op → Prop
  | .updateInput _ | .fileExists .. | .mtime .. | .readFile .. => True
  | .cachedChecksum .. | .cachedFeatures .. | .newFeatures .. | .getFeatures .. => True
  | .openFile _ f | .removeFile _ f => f ≠ .street .download
  | .writeFile _ .derivedHashes records => Truthful look records
  | .writeFile _ f _ => f ≠ .street .download
  | .replaceFile _ s => s ≠ .download
  | .cacheChecksum _ s stat sha256 => sha256 = s.sha256 stat.content
  | .cacheFeatures site s stat refs => s = .download →
    ∃ doc, stat.content = .whole doc ∧ Shows look (w.memoryOf site).heap refs (s.roads doc)
  | _ => False

theorem Shared.setDisk (h : Shared look pod download w) {q : ℕ} {d : Files}
    (hdownload : d (.street .download) = w.disk q (.street .download))
    (hrecords : ∀ records, d.content .derivedHashes = some (.whole records) →
      (w.disk q).content .derivedHashes = some (.whole records) ∨ Truthful look records) :
    Shared look pod download (w.setDisk q d) := by
  refine ⟨?_, ?_, h.checksums, h.features⟩
  · by_cases hq : q = pod
    · subst hq
      rw [setDisk_disk_self, Files.content, hdownload]
      exact h.download
    · rw [setDisk_disk_of_ne hq]
      exact h.download
  · by_cases hq : q = pod
    · subst hq
      unfold World.recordsOn
      rw [setDisk_disk_self]
      split
      · rename_i records hd
        rcases hrecords records hd with hsame | htrue
        · have htrue := h.records
          rwa [World.recordsOn, hsame] at htrue
        · exact htrue
      · exact truthful_none look
    · rw [World.recordsOn, setDisk_disk_of_ne hq]
      exact h.records

theorem Shared.write (h : Shared look pod download w) {q : ℕ} {f : FileName} (e : Entry f)
    (hf : f ≠ .street .download)
    (hrecords : ∀ records, (((w.disk q).write f e)).content .derivedHashes = some (.whole records) →
      (w.disk q).content .derivedHashes = some (.whole records) ∨ Truthful look records) :
    Shared look pod download (w.setDisk q ((w.disk q).write f e)) :=
  h.setDisk (Files.write_other _ _ _ _ hf.symm) hrecords

omit [External] in
/-- A file that is not the record file, or is cut off. -/
theorem records_of_write {d : Files} {f : FileName} {e : Entry f} {records : Records}
    (he : f = .derivedHashes → e.content = .torn)
    (h : (d.write f e).content .derivedHashes = some (.whole records)) :
    d.content .derivedHashes = some (.whole records) := by
  by_cases hf : .derivedHashes = f
  · subst hf
    rw [content_write_self, he rfl] at h
    cases h
  · rwa [Files.content, Files.write_other _ _ _ _ hf] at h

theorem Shared.setMemory (h : Shared look pod download w) {site : Site} {m : Memory}
    (hsums : ∀ s mtime sha256, m.checksums s = some (mtime, sha256) →
      sha256 = s.sha256 mtime.content)
    (hfeatures : ∀ mtime refs, m.features .download = some (mtime, refs) →
      ∃ doc, mtime.content = .whole doc ∧ Shows look m.heap refs doc) :
    Shared look pod download (w.setMemory site m) := by
  refine ⟨h.download, h.records, fun process s mtime sha256 hsum => ?_,
    fun process mtime refs hf => ?_⟩
  · by_cases hp : process = (site.pod, site.proc)
    · subst hp
      rw [setMemory_memory_self] at hsum
      exact hsums s mtime sha256 hsum
    · rw [setMemory_memory_other hp] at hsum
      exact h.checksums process s mtime sha256 hsum
  · by_cases hp : process = (site.pod, site.proc)
    · subst hp
      rw [setMemory_memory_self] at hf ⊢
      exact hfeatures mtime refs hf
    · rw [setMemory_memory_other hp] at hf ⊢
      exact h.features process mtime refs hf

/-- The feature objects of every process stay, and new ones may come. -/
def Grown (w w' : World) : Prop :=
  ∀ process, (w.memory process).heap <+: (w'.memory process).heap

omit [External] in
theorem Grown.trans {w'' : World} (h : Grown w w') (h' : Grown w' w'') : Grown w w'' :=
  fun process => (h process).trans (h' process)

omit [External] in
theorem Grown.shows {here : Site} (h : Grown w w') {refs : List ℕ} {roads : List Feature}
    (hshows : Shows look (w.memoryOf here).heap refs roads) :
    Shows look (w'.memoryOf here).heap refs roads :=
  hshows.of_prefix (h (here.pod, here.proc))

omit [External] in
theorem Grown.objects {here : Site} (h : Grown w w') {refs : List ℕ}
    (hrefs : Valid (w.memoryOf here).heap refs) :
    objects (w'.memoryOf here).heap refs = objects (w.memoryOf here).heap refs ∧
      Valid (w'.memoryOf here).heap refs :=
  hrefs.of_prefix (h (here.pod, here.proc))

omit [External] in
theorem grown_setMemory {site : Site} {m : Memory} (h : (w.memoryOf site).heap <+: m.heap) :
    Grown w (w.setMemory site m) := by
  intro process
  by_cases hp : process = (site.pod, site.proc)
  · subst hp
    rwa [setMemory_memory_self]
  · rw [setMemory_memory_other hp]

/-- **What a process may do keeps the invariant.** -/
theorem Shared.exec (h : Shared look pod download w) {o : Op} (ho : o.Shares look w) (c : Choice) :
    Shared look pod download (exec o c w).2 ∧ Grown w (exec o c w).2 := by
  have hself : Shared look pod download w ∧ Grown w w := ⟨h, fun _ => List.prefix_rfl⟩
  rcases hf : o.fault c with _ | e
  case some =>
    rw [exec_of_fault hf]
    cases o <;> first | exact hself | exact ho.elim
  rw [exec_of_no_fault hf]
  cases o
  case fileExists | mtime | readFile | cachedChecksum | cachedFeatures | getFeatures => exact hself
  case updateInput vs =>
    simp only [perform, World.update]
    split
    · split
      · exact ⟨⟨h.download, h.records, h.checksums, h.features⟩, fun _ => List.prefix_rfl⟩
      · exact hself
    · exact hself
  case openFile site f =>
    exact ⟨h.write _ ho fun records hr => .inl (records_of_write (fun _ => rfl) hr),
      fun _ => List.prefix_rfl⟩
  case writeFile site f doc =>
    refine ⟨?_, fun _ => List.prefix_rfl⟩
    by_cases hf : f = .derivedHashes
    · subst hf
      refine h.write _ (by simp) fun records hr => .inr ?_
      rw [content_write_self] at hr
      obtain rfl := Bytes.whole.inj (Option.some.inj hr)
      exact ho
    · refine h.write _ ?_ fun records hr => .inl (records_of_write (fun hfd => absurd hfd hf) hr)
      rintro rfl
      exact ho rfl
  case replaceFile q s =>
    simp only [perform]
    split
    · refine ⟨h.setDisk ?_ fun records hr => .inl ?_, fun _ => List.prefix_rfl⟩
      · rw [Files.write_other _ _ _ _ fun hs => ho (FileName.street.inj hs).symm,
          Files.remove_other _ _ _ (by simp)]
      · have hr' := records_of_write (by simp) hr
        rwa [Files.content, Files.remove_other _ _ _ (by simp)] at hr'
    · exact hself
  case removeFile q f =>
    simp only [perform]
    split
    · refine ⟨h.setDisk (Files.remove_other _ _ _ (Ne.symm ho)) fun records hr => .inl ?_,
        fun _ => List.prefix_rfl⟩
      by_cases hf : .derivedHashes = f
      · subst hf
        rw [Files.content, Files.remove_self] at hr
        cases hr
      · rwa [Files.content, Files.remove_other _ _ _ hf] at hr
    · exact hself
  case cacheChecksum site s mtime sha256 =>
    refine ⟨h.setMemory (fun t mtime' sha' ht => ?_) (h.features _),
      grown_setMemory List.prefix_rfl⟩
    dsimp only at ht
    by_cases hts : t = s
    · subst hts
      rw [Function.update_self, Option.some.injEq, Prod.mk.injEq] at ht
      obtain ⟨rfl, rfl⟩ := ht
      exact ho
    · rw [Function.update_of_ne hts] at ht
      exact h.checksums _ t mtime' sha' ht
  case cacheFeatures site s mtime refs =>
    refine ⟨h.setMemory (h.checksums _) fun mtime' refs' hm => ?_, grown_setMemory List.prefix_rfl⟩
    dsimp only at hm
    by_cases hs : .download = s
    · subst hs
      rw [Function.update_self, Option.some.injEq, Prod.mk.injEq] at hm
      obtain ⟨rfl, rfl⟩ := hm
      exact ho rfl
    · rw [Function.update_of_ne hs] at hm
      exact h.features _ mtime' refs' hm
  case newFeatures site features =>
    refine ⟨h.setMemory (h.checksums _) fun mtime refs hm => ?_,
      grown_setMemory (List.prefix_append ..)⟩
    obtain ⟨doc, hdoc, hshows⟩ := h.features _ mtime refs hm
    exact ⟨doc, hdoc, hshows.of_prefix (List.prefix_append ..)⟩
  all_goals exact ho.elim

/-! ## The rules -/

/-- The rules the processes on the pod keep to. -/
def sharing (look : Feature → Feature) (pod : ℕ) (download : List Feature) : Rules machine where
  inv := Shared look pod download
  moves := Grown
  allows := fun past o w => undisturbed past o w = true
  refl _ _ := List.prefix_rfl
  trans := Grown.trans

/-- Among others that share the work dir, every step of the program keeps to the rules, and it ends
with `F` of what it returns. -/
abbrev SharesDir {α : Type} (look : Feature → Feature) (pod : ℕ) (download : List Feature)
    (F : α → List (Call sig) → World → Prop) (p : App α) (past : List (Call sig)) (w : World) :
    Prop :=
  p.Abides (sharing look pod download) F past w

variable {α : Type} {here : Site}

/-- The rule of a single operation. -/
theorem shares_ask {o : Op} {F : o.Ans → List (Call sig) → World → Prop}
    (ho : ∀ w₁, Grown w w₁ → o.Shares look w₁)
    (hF : ∀ w₁ c a w₂, Grown w w₁ → Shared look pod download w₁ → undisturbed past o w₁ = true →
      perform o c w₁ = (.ok a, w₂) → F a (answered o a :: past) w₂) :
    SharesDir look pod download F (ask o) past w := by
  apply abides_call
  intro w₁ hgrown hshared hallows c
  obtain ⟨hinv, hmoves⟩ := hshared.exec (ho w₁ hgrown) c
  refine ⟨hinv, hmoves, fun a ha => ?_⟩
  have hexec := exec_ok ha
  apply hF w₁ c a _ hgrown hshared hallows
  change exec o c w₁ = _ at hexec
  rw [← hexec]
  exact Prod.ext ha rfl

/-! ## Files -/

theorem shares_readFile (f : FileName) : SharesDir look here.pod download
    (fun a past' _ => past' = answered (.readFile here.pod f) a :: past ∧ ∃ w₁, Grown w w₁ ∧
      Shared look here.pod download w₁ ∧ undisturbed past (.readFile here.pod f) w₁ = true ∧
      (w₁.disk here.pod).content f = some a)
    (ask (.readFile here.pod f)) past w := by
  refine shares_ask (o := .readFile here.pod f) (fun _ _ => trivial)
    fun w₁ c a w₂ hgrown hshared hund h => ?_
  rcases file_cases h with ⟨e, he, hr⟩ | ⟨-, hr⟩
  · obtain ⟨ha, -⟩ := Prod.mk.inj hr
    refine ⟨rfl, w₁, hgrown, hshared, hund, ?_⟩
    rw [Files.content, he, Except.ok.inj ha]
    rfl
  · cases hr

theorem shares_mtime (f : FileName) : SharesDir look here.pod download
    (fun a past' _ => past' = answered (.mtime here.pod f) a :: past ∧ ∃ w₁, Grown w w₁ ∧
      Shared look here.pod download w₁ ∧ undisturbed past (.mtime here.pod f) w₁ = true ∧
      (w₁.disk here.pod).content f = some a.content)
    (ask (.mtime here.pod f)) past w := by
  refine shares_ask (o := .mtime here.pod f) (fun _ _ => trivial)
    fun w₁ c a w₂ hgrown hshared hund h => ?_
  rcases file_cases h with ⟨e, he, hr⟩ | ⟨-, hr⟩
  · obtain ⟨ha, -⟩ := Prod.mk.inj hr
    refine ⟨rfl, w₁, hgrown, hshared, hund, ?_⟩
    rw [Files.content, he, Except.ok.inj ha]
    rfl
  · cases hr

/-- What is loaded was the content of the file at some moment. -/
theorem loadFile_shares (f : FileName) : SharesDir look here.pod download
    (fun doc _ _ => ∃ w₁, Shared look here.pod download w₁ ∧
      (w₁.disk here.pod).content f = some (.whole doc)) (loadFile here f) past w := by
  refine (shares_readFile f).bind ?_
  rintro b past' w' - ⟨-, w₁, -, hshared, -, hb⟩
  cases b with
  | torn => exact abides_throw
  | whole doc => exact abides_ret ⟨w₁, hshared, hb⟩

theorem shares_openFile {f : FileName} (hf : f ≠ .street .download) :
    SharesDir look pod download (fun _ _ _ => True) (ask (.openFile here f)) past w :=
  shares_ask (o := .openFile here f) (fun _ _ => hf) fun _ _ _ _ _ _ _ _ => trivial

theorem shares_writeFile {f : FileName} {doc : f.Doc}
    (hwrite : ∀ w₁, Op.Shares look w₁ (.writeFile here f doc)) :
    SharesDir look pod download
    (fun _ past' _ => past' = answered (.writeFile here f doc) () :: past)
      (ask (.writeFile here f doc)) past w :=
  shares_ask (o := .writeFile here f doc) (fun w₁ _ => hwrite w₁) fun _ _ _ _ _ _ _ _ => rfl

/-! ## Checksums and records -/

/-- **The checksum of a rewritten file is that of what was written.** -/
theorem fileSha256_shares (hdoc : lastWritten s past = some doc) (hlast : justWrote past = false) :
    SharesDir look here.pod download (fun a _ _ => a = s.sha256 (.whole doc))
      (fileSha256 here s) past w := by
  refine (shares_mtime (.street s)).bind ?_
  rintro stat past' w' - ⟨rfl, w₁, -, -, hund, hstat⟩
  have hchecked : checksummed past (.mtime here.pod (.street s)) = some (here.pod, s) := by
    rw [checksummed, hlast]
    rfl
  have hcontent : stat.content = .whole doc :=
    Option.some.inj (hstat.symm.trans (content_of_undisturbed hund hchecked hdoc))
  refine (shares_ask (o := .cachedChecksum here s) (F := fun cached past'' _ =>
    past'' = answered (.cachedChecksum here s) cached :: answered
      (.mtime here.pod (.street s)) stat ::
      past ∧ ∀ mtime sha256, cached = some (mtime, sha256) → sha256 = s.sha256 mtime.content)
    (fun _ _ => trivial) fun w₁ c a w₂ _ hshared _ h => ?_).bind ?_
  · obtain ⟨ha, -⟩ := Prod.mk.inj h
    refine ⟨rfl, fun mtime sha256 hm => ?_⟩
    exact hshared.checksums _ s mtime sha256 ((Except.ok.inj ha).trans hm)
  rintro cached past'' w'' - ⟨rfl, hcached⟩
  split
  · rename_i mtime checksum hfilter
    obtain ⟨hsome, hmtime⟩ := Option.filter_eq_some_iff.1 hfilter
    obtain rfl : mtime = stat := of_decide_eq_true hmtime
    apply abides_ret
    rw [hcached _ _ hsome, hcontent]
  · refine (shares_readFile (.street s)).bind ?_
    rintro b past''' w''' - ⟨rfl, w₁, -, -, hund', hb⟩
    obtain rfl : b = .whole doc :=
      Option.some.inj (hb.symm.trans (content_of_undisturbed hund' rfl hdoc))
    refine (shares_ask (o := .cacheChecksum here s stat (s.sha256 (.whole doc)))
      (F := fun _ _ _ => True) (fun _ _ => ?_) fun _ _ _ _ _ _ _ _ => trivial).bind ?_
    · change _ = s.sha256 stat.content
      rw [hcontent]
    · rintro - past'''' w'''' - -
      exact abides_ret rfl

theorem records_shares : SharesDir look here.pod download (fun records _ _ => Truthful look records)
    (StreetSelector.records here) past w := by
  refine (shares_ask (o := .fileExists here.pod .derivedHashes) (F := fun _ _ _ => True)
    (fun _ _ => trivial) fun _ _ _ _ _ _ _ _ => trivial).bind ?_
  rintro a past' w' - -
  split
  · refine (loadFile_shares .derivedHashes).mono ?_
    rintro records past'' w'' - ⟨w₁, hshared, hrecords⟩
    have htrue := hshared.records
    rwa [World.recordsOn, hrecords] at htrue
  · exact abides_ret (truthful_none look)

theorem writeRecords_shares {records : Records} (h : Truthful look records) :
    SharesDir look here.pod download (fun _ _ _ => True)
      (StreetSelector.writeRecords here records) past w := by
  refine (shares_openFile (by simp)).bind ?_
  rintro - past' w' - -
  exact (shares_writeFile (f := .derivedHashes) fun _ => h).mono fun _ _ _ _ _ => trivial

/-! ## Feature lists -/

/-- The objects show the download. -/
theorem loadDownloadFeatures_shares : SharesDir look here.pod download
    (fun refs _ w' => Shows look (w'.memoryOf here).heap refs download)
    (StreetSelector.loadDownloadFeatures here) past w := by
  refine (shares_mtime (.street .download)).bind ?_
  rintro mtime past' w' - ⟨-, w₁, -, hshared, -, hmtime⟩
  have hcontent : mtime.content = .whole download :=
    Option.some.inj (hmtime.symm.trans hshared.download)
  refine (shares_ask (o := .cachedFeatures here .download) (F := fun cached _ w'' =>
    ∀ mtime refs, cached = some (mtime, refs) →
      ∃ doc, mtime.content = .whole doc ∧ Shows look (w''.memoryOf here).heap refs doc)
    (fun _ _ => trivial) fun w₁ c a w₂ _ hshared _ h mtime refs hm => ?_).bind ?_
  · obtain ⟨ha, rfl⟩ := Prod.mk.inj h
    exact hshared.features _ mtime refs ((Except.ok.inj ha).trans hm)
  rintro cached past'' w'' - hcached
  split
  · rename_i mtime' refs hfilter
    obtain ⟨hsome, hsame⟩ := Option.filter_eq_some_iff.1 hfilter
    obtain rfl : mtime' = mtime := of_decide_eq_true hsame
    obtain ⟨doc, hdoc, hshows⟩ := hcached _ _ hsome
    obtain rfl : doc = download := Bytes.whole.inj (hdoc.symm.trans hcontent)
    exact abides_ret hshows
  · refine (loadFile_shares (.street .download)).bind ?_
    rintro doc past''' w₁ - ⟨w₀, hshared, hdoc⟩
    obtain rfl : doc = download :=
      Bytes.whole.inj (Option.some.inj (hdoc.symm.trans hshared.download))
    refine (shares_ask (o := .newFeatures here doc) (F := fun refs _ w₂ =>
      Shows look (w₂.memoryOf here).heap refs doc) (fun _ _ => trivial)
      fun w₁ c a w₂ _ _ _ h => ?_).bind ?_
    · obtain ⟨ha, rfl⟩ := Prod.mk.inj h
      obtain rfl := Except.ok.inj ha
      rw [memoryOf_setMemory]
      exact shows_new look _ _
    rintro refs past₂ w₂ - hshows
    refine (shares_ask (o := .cacheFeatures here .download mtime refs) (F := fun _ _ _ => True)
      (fun w₃ hgrown _ => ⟨doc, hcontent, hgrown.shows hshows⟩)
      fun _ _ _ _ _ _ _ _ => trivial).bind ?_
    rintro - past₃ w₃ hgrown -
    exact abides_ret (hgrown.shows hshows)

/-- The features are those of the objects at some moment. -/
theorem shares_getFeatures (refs : List ℕ) : SharesDir look here.pod download
    (fun a past' w' => past' = answered (.getFeatures here refs) a :: past ∧
      a = objects (w'.memoryOf here).heap refs) (ask (.getFeatures here refs)) past w := by
  apply shares_ask (o := .getFeatures here refs) (fun _ _ => trivial)
  intro w₁ c a w₂ _ _ _ h
  obtain ⟨ha, rfl⟩ := Prod.mk.inj h
  exact ⟨rfl, (Except.ok.inj ha).symm⟩

/-- The thread has written the document, and has called something else since. -/
def Wrote (s : StreetFile) (doc : s.Doc) (past : List (Call sig)) : Prop :=
  lastWritten s past = some doc ∧ justWrote past = false

/-- The feature cache of a derived file, which nothing here relies on. -/
theorem warmCache_shares (hs : s ≠ .download) {refs : List ℕ}
    (hdoc : lastWritten s past = some doc) :
    SharesDir look here.pod download (fun _ past' _ => Wrote s doc past')
      (do
        let mtime ← ask (.mtime here.pod (.street s))
        ask (.cacheFeatures here s mtime refs)) past w := by
  refine (shares_mtime (.street s)).bind ?_
  rintro mtime past' w' - ⟨rfl, -⟩
  refine shares_ask (o := .cacheFeatures here s mtime refs) (fun _ _ hd => absurd hd hs)
    fun _ _ _ _ _ _ _ _ => ⟨hdoc, rfl⟩

theorem saveEditFile_shares {refs : List ℕ} (hrefs : Valid (w.memoryOf here).heap refs) :
    SharesDir look here.pod download
      (fun _ past' _ => Wrote .edited (objects (w.memoryOf here).heap refs) past')
      (StreetSelector.saveEditFile here refs) past w := by
  refine (shares_openFile (by simp)).bind ?_
  rintro - past' w' hgrown -
  refine (shares_getFeatures refs).bind ?_
  rintro features past'' w'' hgrown' ⟨rfl, rfl⟩
  have hsame : objects (w''.memoryOf here).heap refs = objects (w.memoryOf here).heap refs :=
    ((hgrown.trans hgrown').objects hrefs).1
  rw [hsame]
  refine (shares_writeFile (f := .street .edited) fun _ => by simp [Op.Shares]).bind ?_
  rintro - past''' w''' - rfl
  exact warmCache_shares (by simp) rfl

theorem saveNoRoutingInput_shares : SharesDir look here.pod download
    (fun _ past' _ => Wrote .transformed ⟨none, []⟩ past')
    (StreetSelector.saveNoRoutingInput here) past w := by
  refine (Abides.bind (shares_openFile (by simp)) ?_ : SharesDir look here.pod download
    (fun _ past' _ => lastWritten .transformed past' = some ⟨none, []⟩)
    (rewriteFile here (.street .transformed) ⟨none, []⟩) past w).bind ?_
  · rintro - past' w' - -
    refine (shares_writeFile (f := .street .transformed) fun _ => by simp [Op.Shares]).mono ?_
    rintro - past'' w'' - rfl
    rfl
  rintro - past' w' - hdoc
  exact warmCache_shares (by simp) hdoc

theorem projectFeaturesToFile_shares {refs : List ℕ} (hrefs : Valid (w.memoryOf here).heap refs)
    (srcEpsg dstEpsg : ℤ) : SharesDir look here.pod download
      (fun _ past' _ => Wrote .transformed ⟨some dstEpsg,
        (objects (w.memoryOf here).heap refs).map (projectFeature srcEpsg dstEpsg)⟩ past')
      (StreetSelector.projectFeaturesToFile here refs srcEpsg dstEpsg) past w := by
  refine (shares_openFile (by simp)).bind ?_
  rintro - past' w' hgrown -
  refine (Abides.tryCatch (F := fun r _ _ => r.1 = ⟨some dstEpsg,
    (objects (w.memoryOf here).heap refs).map (projectFeature srcEpsg dstEpsg)⟩) ?_ ?_).bind ?_
  · refine (shares_getFeatures refs).bind ?_
    rintro features past'' w'' hgrown' ⟨-, rfl⟩
    apply abides_ret
    have hsame := (Grown.objects (Grown.trans hgrown hgrown') hrefs).1
    rw [← hsame]
  · rintro e past'' w'' -
    split
    · exact abides_throw
    · refine (shares_ask (o := .fileExists here.pod (.streetTmp .transformed))
        (F := fun _ _ _ => True)
        (fun _ _ => trivial) fun _ _ _ _ _ _ _ _ => trivial).bind ?_
      rintro a past₁ w₁ - -
      split
      · refine (shares_ask (o := .removeFile here.pod (.streetTmp .transformed))
          (F := fun _ _ _ => True) (fun _ _ => by simp [Op.Shares])
          fun _ _ _ _ _ _ _ _ => trivial).bind ?_
        rintro - past₂ w₂ - -
        exact abides_throw
      · exact abides_throw
  rintro ⟨doc, u⟩ past'' w'' - hdoc
  dsimp only at hdoc ⊢
  subst hdoc
  refine (shares_writeFile (f := .streetTmp .transformed) fun _ => by simp [Op.Shares]).bind ?_
  rintro - past₁ w₁ - rfl
  refine (shares_ask (o := .replaceFile here.pod .transformed) (F := fun _ past' _ =>
    Wrote .transformed ⟨some dstEpsg,
      (objects (w.memoryOf here).heap refs).map (projectFeature srcEpsg dstEpsg)⟩ past')
    (fun _ _ => by simp [Op.Shares]) fun _ _ _ _ _ _ _ _ => ⟨rfl, rfl⟩).bind ?_
  rintro - past₂ w₂ - hwrote
  exact abides_ret hwrote

/-! ## Rewriting a derived file -/

/-- **Where the body writes what the source calls for, the record is true.** -/
theorem rewriting_shares {source : Source} {body : App Unit} (hderived : Derived look source s doc)
    (hbody : ∀ past w₁, Grown w w₁ →
      SharesDir look here.pod download (fun _ past' _ => Wrote s doc past') body past w₁) :
    SharesDir look here.pod download (fun _ _ _ => True)
      (StreetSelector.rewriting here s source body) past w := by
  apply records_shares.bind
  intro records past' w' hgrown htrue
  have hrest : ∀ past₁ w₁, Grown w w₁ → SharesDir look here.pod download (fun _ _ _ => True)
      (do
        body
        let checksum ← fileSha256 here s
        StreetSelector.writeRecords here
          (Function.update records s (some (.built source checksum)))) past₁ w₁ := by
    intro past₁ w₁ hgrown₁
    refine (hbody past₁ w₁ hgrown₁).bind ?_
    rintro - past₂ w₂ - ⟨hdoc, hlast⟩
    refine (fileSha256_shares hdoc hlast).bind ?_
    rintro checksum past₃ w₃ - rfl
    exact writeRecords_shares (htrue.record hderived)
  split
  · refine (writeRecords_shares (htrue.drop s)).bind ?_
    rintro - past₁ w₁ hgrown₁ -
    exact hrest past₁ w₁ (Grown.trans hgrown hgrown₁)
  · exact hrest past' w' hgrown

/-! ## Deriving and projecting -/

theorem project_shares {sel : StreetSelector} {refs : List ℕ} {source : Source}
    {kept : List Feature} (hepsg : source.epsg = sel.job.epsg) (hkept : source.Network kept)
    (hrefs : Valid (w.memoryOf here).heap refs)
    (hroads : (objects (w.memoryOf here).heap refs).map look = kept.map look) :
    SharesDir look here.pod download (fun _ _ _ => True) (sel.project here refs source) past w := by
  refine rewriting_shares ⟨kept, _, hkept, hroads, rfl⟩ fun past₁ w₁ hgrown => ?_
  obtain ⟨hsame, hvalid⟩ := hgrown.objects hrefs
  split
  · rename_i hnil
    refine saveNoRoutingInput_shares.mono ?_
    rintro - past' w' - hwrote
    rwa [projectRoads, if_pos (hrefs.eq_nil_iff.1 hnil)]
  · rename_i hnil
    refine (projectFeaturesToFile_shares hvalid 4326 sel.job.epsg).mono ?_
    rintro - past' w' - hwrote
    rw [projectRoads, if_neg (mt hrefs.eq_nil_iff.2 hnil), hepsg]
    exact hsame ▸ hwrote

theorem deriveFiles_shares (hlook : ∀ f g, look f = look g → SameRoad f g) {sel : StreetSelector}
    {sha256 : Option Sha256} {defer : Bool}
    (hsha : sha256 = some (StreetFile.sha256 .download (.whole download))) :
    SharesDir look here.pod download (fun _ _ _ => True)
    (sel.deriveFiles here sha256 defer) past w := by
  apply loadDownloadFeatures_shares.bind
  rintro refs past₁ w₁ - hshows
  refine (shares_getFeatures refs).bind ?_
  rintro features past₂ w₂ hgrown ⟨-, rfl⟩
  obtain ⟨hvalid, hroads⟩ := (Grown.shows hgrown hshows).objects
  obtain ⟨keptRefs, kept, shown, hkeptRefs, hkept, -, hshownkept, hkeptObjects, hkeptValid⟩ :=
    derive_objects hlook sel.edits hvalid hroads
  rw [hkeptRefs]
  dsimp only
  have hnetwork : (sel.source sha256).Network kept := ⟨download, hsha, hkept⟩
  have hedited : Derived look (sel.source sha256) .edited shown := ⟨kept, hnetwork, hshownkept⟩
  refine (rewriting_shares (s := .edited) hedited
    fun past₃ w₃ hgrown => ?_).bind ?_
  · obtain ⟨hsame, hvalid₃⟩ := hgrown.objects hkeptValid
    refine (saveEditFile_shares hvalid₃).mono ?_
    rintro - past' w' - hwrote
    rwa [hsame.trans hkeptObjects] at hwrote
  rintro - past₃ w₃ hgrown₃ -
  cases defer with
  | true => exact abides_ret trivial
  | false =>
    obtain ⟨hsame, hvalid₃⟩ := Grown.objects hgrown₃ hkeptValid
    refine (project_shares rfl hnetwork hvalid₃ ?_).bind ?_
    · rw [hsame, hkeptObjects, hshownkept]
    · rintro - past₄ w₄ - -
      exact abides_ret trivial

end Cosmonaut
