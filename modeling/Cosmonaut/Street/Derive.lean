import Cosmonaut.Street.Steady

/-!
# What the street selector's functions do

One lemma for each function of the street selector, about a call that nothing disturbs: what it
returns and what it changes. Everything else follows from these.

* `Apart`, `Only`: the files a call may change.
-/

namespace Cosmonaut

open Interleaving Program

/-! ## What a call leaves alone -/

/-- The call has left storage alone but for the legacy intent, the pod's files but `fs`, and the
feature objects there were. -/
structure Apart (here : Site) (fs : List FileName) (w w' : World) : Prop where
  stored : ∀ f, f ≠ .streetEdits → w'.stored f = w.stored f
  disk : ∀ f, f ∉ fs → w'.disk here.pod f = w.disk here.pod f
  heap : (w.memoryOf here).heap <+: (w'.memoryOf here).heap

/-- The call has left the row alone as well. -/
structure Only (here : Site) (fs : List FileName) (w w' : World) : Prop
    extends Apart here fs w w' where
  row : w'.row = w.row

variable {here : Site} {fs gs : List FileName} {w w' w'' : World}

theorem Apart.refl (here : Site) (fs : List FileName) (w : World) : Apart here fs w w :=
  ⟨fun _ _ => rfl, fun _ _ => rfl, List.prefix_rfl⟩

theorem Apart.trans (h : Apart here fs w w') (h' : Apart here fs w' w'') : Apart here fs w w'' :=
  ⟨fun f hf => (h'.stored f hf).trans (h.stored f hf),
    fun f hf => (h'.disk f hf).trans (h.disk f hf), h.heap.trans h'.heap⟩

theorem Apart.mono (h : Apart here fs w w') (hsub : fs ⊆ gs) : Apart here gs w w' :=
  ⟨h.stored, fun f hf => h.disk f fun hfs => hf (hsub hfs), h.heap⟩

theorem Apart.content (h : Apart here fs w w') {f : FileName} (hf : f ∉ fs) :
    (w'.disk here.pod).content f = (w.disk here.pod).content f := by
  rw [Files.content, h.disk f hf, Files.content]

theorem Apart.recordsOn (h : Apart here fs w w') (hf : .derivedHashes ∉ fs) :
    w'.recordsOn here.pod = w.recordsOn here.pod := by
  rw [World.recordsOn, h.content hf, World.recordsOn]

theorem Only.refl (here : Site) (fs : List FileName) (w : World) : Only here fs w w :=
  ⟨.refl here fs w, rfl⟩

theorem Only.trans (h : Only here fs w w') (h' : Only here fs w' w'') : Only here fs w w'' :=
  ⟨h.toApart.trans h'.toApart, h'.row.trans h.row⟩

theorem Only.mono (h : Only here fs w w') (hsub : fs ⊆ gs) : Only here gs w w' :=
  ⟨h.toApart.mono hsub, h.row⟩

theorem only_setDisk {d : Files} (h : ∀ f, f ∉ fs → d f = w.disk here.pod f) :
    Only here fs w (w.setDisk here.pod d) :=
  ⟨⟨fun _ _ => rfl, fun f hf => by rw [setDisk_disk_self, h f hf], List.prefix_rfl⟩, rfl⟩

theorem only_write {f : FileName} (e : Entry f) (hf : f ∈ fs) :
    Only here fs w (w.setDisk here.pod ((w.disk here.pod).write f e)) :=
  only_setDisk fun _ hg => Files.write_other _ _ _ _ fun hgf => hg (hgf ▸ hf)

theorem memoryOf_setMemory (w : World) (here : Site) (m : Memory) :
    (w.setMemory here m).memoryOf here = m := setMemory_memory_self

theorem only_setMemory {m : Memory} (h : (w.memoryOf here).heap <+: m.heap) :
    Only here fs w (w.setMemory here m) :=
  ⟨⟨fun _ _ => rfl, fun _ _ => rfl, by rwa [memoryOf_setMemory]⟩, rfl⟩

/-! ## Checksums and records -/

variable [External] {crash : Bool} {look : Feature → Feature} {torn : Place → Prop} {err : Prop}
  {s : StreetFile}

theorem fileSha256_settles (hs : Sound crash look torn w)
    (hmissing : w.disk here.pod (.street s) = none → err) :
    Settles crash look torn err (fun a w' => Only here [] w w' ∧
      ∃ b, (w.disk here.pod).content (.street s) = some b ∧ a = s.sha256 b)
      (fileSha256 here s) w := by
  refine (settles_mtime hs _ hmissing).bind ?_
  rintro stat w' hs' ⟨rfl, e, he, rfl⟩
  have hcontent : (w'.disk here.pod).content (.street s) = some e.content := by
    rw [Files.content, he]
    rfl
  refine (settles_cachedChecksum hs' s).bind ?_
  rintro cached w'' - ⟨rfl, rfl⟩
  split
  · rename_i mtime checksum hcached
    obtain ⟨hcached, hmtime⟩ := Option.filter_eq_some_iff.1 hcached
    obtain rfl : mtime = e.mtime := of_decide_eq_true hmtime
    exact settles_ret hs' ⟨.refl _ _ _, e.content, hcontent, hs'.checksums _ s _ _ hcached⟩
  · refine (settles_readFile hs' _ fun hnone => hmissing hnone).bind ?_
    rintro b w' - ⟨rfl, hb⟩
    have hbe : e.content = b := Option.some.inj (hcontent.symm.trans hb)
    refine (settles_cacheChecksum hs' (by rw [← hbe]; rfl)).bind ?_
    rintro - w'' hs'' ⟨sums, rfl⟩
    exact settles_ret hs'' ⟨only_setMemory List.prefix_rfl, b, hb, rfl⟩

/-- The record file, when it is read. -/
theorem records_settles (hs : Sound crash look torn w)
    (htorn : (w.disk here.pod).content .derivedHashes = some .torn → err) :
    Settles crash look torn err (fun a w' => w' = w ∧ a = w.recordsOn here.pod)
      (StreetSelector.records here) w := by
  refine (settles_fileExists hs _).bind ?_
  rintro a w' - ⟨rfl, rfl⟩
  split
  · rename_i hexists
    refine (settles_loadFile hs _ (fun hnone => by simp [hnone] at hexists) htorn).mono
      (fun _ _ _ h => h) ?_
    rintro records w'' - ⟨rfl, hrecords⟩
    exact ⟨rfl, by rw [World.recordsOn, hrecords]⟩
  · rename_i hexists
    have hnone : w'.disk here.pod .derivedHashes = none := by simpa using hexists
    refine settles_ret hs ⟨rfl, ?_⟩
    rw [World.recordsOn, Files.content, hnone]
    rfl

/-- **The freshness test accepts exactly what a record vouches for.** -/
theorem isCurrent_settles (hs : Sound crash look torn w) (source : Source)
    (htorn : (w.disk here.pod).content .derivedHashes = some .torn →
      w.disk here.pod (.street s) ≠ none → err) :
    Settles crash look torn err
      (fun a w' => Only here [] w w' ∧ (a = true ↔ Vouched w here.pod s source))
      (StreetSelector.isCurrent here s source) w := by
  refine (settles_fileExists hs _).bind ?_
  rintro a w' - ⟨rfl, rfl⟩
  split
  · rename_i hexists
    have hfile : w'.disk here.pod (.street s) ≠ none := Option.isSome_iff_ne_none.1 hexists
    refine (records_settles hs fun ht => htorn ht hfile).bind ?_
    rintro records w'' - ⟨rfl, rfl⟩
    split
    · rename_i record hrecord
      refine (fileSha256_settles hs fun hnone => by simp [hnone] at hexists).bind ?_
      rintro checksum w''' hs''' ⟨honly, b, hb, rfl⟩
      refine settles_ret hs''' ⟨honly, ?_⟩
      rw [decide_eq_true_iff]
      constructor
      · rintro rfl
        -- a checksum in a record is that of a whole file
        obtain ⟨doc, hsha, -⟩ := hs.truthful here.pod s source _ hrecord
        obtain rfl := s.sha256_injective hsha
        exact ⟨doc, hb, hrecord⟩
      · rintro ⟨doc, hdoc, hrec⟩
        rw [hdoc] at hb
        rw [hrecord] at hrec
        rw [← Option.some.inj hb, Option.some.inj hrec]
    · rename_i hrecord
      refine settles_ret hs ⟨.refl _ _ _, by simp, ?_⟩
      rintro ⟨doc, -, hrec⟩
      rw [hrecord] at hrec
      cases hrec
  · rename_i hexists
    refine settles_ret hs ⟨.refl _ _ _, by simp, ?_⟩
    rintro ⟨doc, hdoc, -⟩
    have hnone : w'.disk here.pod (.street s) = none := by simpa using hexists
    rw [Files.content, hnone] at hdoc
    cases hdoc

/-! ## Feature lists -/

omit [External] in
theorem objects_new (heap roads : List Feature) :
    objects (heap ++ roads) (List.range' heap.length roads.length) = roads := by
  have h := (shows_new id heap roads).objects.2
  rwa [List.map_id, List.map_id] at h

/-- The objects are those the process has cached for the file, or new ones. -/
theorem cachedLoad_settles (hs : Sound crash look torn w) {features : s.Doc → List Feature}
    (hfeatures : features = s.roads) (hmissing : w.disk here.pod (.street s) = none → err)
    (htorn : (w.disk here.pod).content (.street s) = some .torn → err) :
    Settles crash look torn err (fun refs w' => Only here [] w w' ∧
      ∃ doc, (w.disk here.pod).content (.street s) = some (.whole doc) ∧
        Shows look (w'.memoryOf here).heap refs (s.roads doc) ∧
        ((∃ mtime, (w.memoryOf here).features s = some (mtime, refs) ∧
            mtime.content = .whole doc ∧ w' = w) ∨
          objects (w'.memoryOf here).heap refs = s.roads doc))
      (StreetSelector.cachedLoad here s features) w := by
  subst hfeatures
  refine (settles_mtime hs _ hmissing).bind ?_
  rintro mtime w' hs' ⟨rfl, e, he, rfl⟩
  have hcontent : (w'.disk here.pod).content (.street s) = some e.content := by
    rw [Files.content, he]
    rfl
  refine (settles_cachedFeatures hs' s).bind ?_
  rintro cached w'' - ⟨rfl, rfl⟩
  split
  · rename_i mtime refs hcached
    obtain ⟨hcached, hmtime⟩ := Option.filter_eq_some_iff.1 hcached
    obtain rfl : mtime = e.mtime := of_decide_eq_true hmtime
    obtain ⟨doc, hdoc, hshows⟩ := hs'.features _ s _ _ hcached
    exact settles_ret hs' ⟨.refl _ _ _, doc, hcontent.trans (congrArg some hdoc), hshows,
      .inl ⟨_, hcached, hdoc, rfl⟩⟩
  · refine (settles_loadFile hs' _ (fun hnone => hmissing hnone) htorn).bind ?_
    rintro doc w' - ⟨rfl, hdoc⟩
    refine (settles_newFeatures hs' (s.roads doc)).bind ?_
    rintro refs w'' hs'' ⟨rfl, rfl⟩
    have hmtime : e.mtime.content = .whole doc := Option.some.inj (hcontent.symm.trans hdoc)
    have hshows : Shows look ((w'.setMemory here { w'.memoryOf here with
        heap := (w'.memoryOf here).heap ++ s.roads doc }).memoryOf here).heap
        (List.range' (w'.memoryOf here).heap.length (s.roads doc).length) (s.roads doc) := by
      rw [memoryOf_setMemory]
      exact shows_new look _ _
    refine (settles_cacheFeatures hs'' hmtime hshows).bind ?_
    rintro - w''' hs''' rfl
    refine settles_ret hs''' ⟨(only_setMemory (List.prefix_append ..)).trans
      (only_setMemory List.prefix_rfl), doc, hdoc, ?_, .inr ?_⟩
    · rwa [memoryOf_setMemory]
    · rw [memoryOf_setMemory, memoryOf_setMemory]
      exact objects_new _ _

/-- Every reference has an object. -/
def Valid (heap : List Feature) (refs : List ℕ) : Prop :=
  refs.map (heap[·]?) = (objects heap refs).map some

omit [External] in
theorem Valid.shows {heap : List Feature} {refs : List ℕ} (h : Valid heap refs) :
    Shows look heap refs (objects heap refs) := by
  unfold Valid at h
  have hmap := congrArg (List.map (Option.map look)) h
  rw [List.map_map, List.map_map] at hmap
  exact hmap

omit [External] in
theorem Valid.of_prefix {heap heap' : List Feature} {refs : List ℕ} (h : Valid heap refs)
    (hp : heap <+: heap') : objects heap' refs = objects heap refs ∧ Valid heap' refs := by
  have hshows : Shows id heap' refs (objects heap refs) := h.shows.of_prefix hp
  obtain ⟨hvalid, hobjects⟩ := hshows.objects
  rw [List.map_id, List.map_id] at hobjects
  exact ⟨hobjects, hvalid⟩

theorem saveEditFile_settles (hs : Sound crash look torn w) {refs : List ℕ}
    (hrefs : Valid (w.memoryOf here).heap refs) :
    Settles crash look torn err (fun _ w' => Only here [.street .edited] w w' ∧
      (w'.disk here.pod).content (.street .edited) =
        some (.whole (objects (w.memoryOf here).heap refs)))
      (StreetSelector.saveEditFile here refs) w := by
  refine (settles_openFile hs rfl).bind ?_
  rintro - w₁ hs₁ ⟨time, rfl⟩
  refine (settles_getFeatures hs₁ refs).bind ?_
  rintro features w₂ hs₂ ⟨rfl, rfl⟩
  refine (settles_writeFile hs₂ _ rfl).bind ?_
  rintro - w₃ hs₃ ⟨time', rfl⟩
  refine (settles_mtime hs₃ _ fun hnone => ?_).bind ?_
  · rw [setDisk_disk_self, Files.write_self] at hnone
    cases hnone
  rintro mtime w₄ hs₄ ⟨rfl, e, he, rfl⟩
  rw [setDisk_disk_self, Files.write_self, Option.some.injEq] at he
  subst he
  refine (settles_cacheFeatures hs₄ rfl hrefs.shows).mono (fun _ _ _ h => h) ?_
  rintro - w₅ hs₅ rfl
  refine ⟨((only_write _ (by simp)).trans (only_write _ (by simp))).trans
    (only_setMemory List.prefix_rfl), ?_⟩
  exact (congrArg (fun d : Files => d.content (.street .edited)) setDisk_disk_self).trans
    (content_write_self _ _)

/-- The routing input that is written, from the objects as they are. -/
theorem projected_settles (hs : Sound crash look torn w) (here : Site) (refs : List ℕ)
    (srcEpsg dstEpsg : ℤ) : Settles crash look torn False (fun r w' => w' = w ∧ r.1 = ⟨some dstEpsg,
        (objects (w.memoryOf here).heap refs).map (projectFeature srcEpsg dstEpsg)⟩)
      (do
        let features ← ask (.getFeatures here refs)
        return (⟨some dstEpsg, features.map (projectFeature srcEpsg dstEpsg)⟩, ()) :
        App (RoutingInput × Unit)) w := by
  refine (settles_getFeatures hs refs).bind ?_
  rintro features w₂ hs₂ ⟨rfl, rfl⟩
  exact settles_ret hs₂ ⟨rfl, rfl⟩

theorem projectFeaturesToFile_settles (hs : Sound crash look torn w) (refs : List ℕ)
    (srcEpsg dstEpsg : ℤ) :
    Settles crash look torn err (fun _ w' =>
      Only here [.streetTmp .transformed, .street .transformed] w w' ∧
      (w'.disk here.pod).content (.street .transformed) = some (.whole ⟨some dstEpsg,
        (objects (w.memoryOf here).heap refs).map (projectFeature srcEpsg dstEpsg)⟩))
      (StreetSelector.projectFeaturesToFile here refs srcEpsg dstEpsg) w := by
  refine (settles_openFile hs rfl).bind ?_
  rintro - w₁ hs₁ ⟨time, rfl⟩
  refine (settles_tryExcept (projected_settles hs₁ here refs srcEpsg dstEpsg)).bind ?_
  rintro ⟨doc, u⟩ w₂ hs₂ ⟨rfl, hdoc⟩
  dsimp only at hdoc
  subst hdoc
  refine (settles_writeFile hs₂ _ rfl).bind ?_
  rintro - w₃ hs₃ ⟨time', rfl⟩
  refine (settles_replaceFile hs₃ (by rw [setDisk_disk_self, Files.write_self]) rfl).bind ?_
  rintro - w₄ hs₄ rfl
  refine settles_ret hs₄ ⟨((only_write _ (by simp)).trans (only_write _ (by simp))).trans
    (only_setDisk fun f hf => ?_), ?_⟩
  · simp only [List.mem_cons, List.not_mem_nil, or_false, not_or] at hf
    rw [Files.write_other _ _ _ _ hf.2, Files.remove_other _ _ _ hf.1]
  · rw [setDisk_disk_self]
    exact content_write_self _ _

theorem saveNoRoutingInput_settles (hs : Sound crash look torn w) :
    Settles crash look torn err (fun _ w' => Only here [.street .transformed] w w' ∧
      (w'.disk here.pod).content (.street .transformed) = some (.whole ⟨none, []⟩))
      (StreetSelector.saveNoRoutingInput here) w := by
  refine (Keeping.bind (settles_openFile hs rfl) ?_ :
    Settles crash look torn err (fun _ w' => ∃ time, w' = w.setDisk here.pod
      ((w.disk here.pod).write (.street .transformed) ⟨.whole ⟨none, []⟩, time, here.run⟩))
      (rewriteFile here (.street .transformed) ⟨none, []⟩) w).bind ?_
  · rintro - w₁ hs₁ ⟨time, rfl⟩
    refine (settles_writeFile hs₁ _ rfl).mono (fun _ _ _ h => h) ?_
    rintro - w₂ - ⟨time', rfl⟩
    exact ⟨time', by rw [setDisk_setDisk, setDisk_disk_self, write_write]⟩
  rintro - w₁ hs₁ ⟨time, rfl⟩
  refine (settles_mtime hs₁ _ fun hnone => ?_).bind ?_
  · rw [setDisk_disk_self, Files.write_self] at hnone
    cases hnone
  rintro mtime w₂ hs₂ ⟨rfl, e, he, rfl⟩
  rw [setDisk_disk_self, Files.write_self, Option.some.injEq] at he
  subst he
  refine (settles_cacheFeatures hs₂ rfl (show Shows look _ [] [] from rfl)).mono
    (fun _ _ _ h => h) ?_
  rintro - w₃ hs₃ rfl
  refine ⟨(only_write _ (by simp)).trans (only_setMemory List.prefix_rfl), ?_⟩
  exact (congrArg (fun d : Files => d.content (.street .transformed)) setDisk_disk_self).trans
    (content_write_self _ _)

/-! ## The filters on objects -/

theorem deriveBy_subset {α : Type} {view : α → Feature} {edits : StreetEdits} {roads kept : List α}
    (h : deriveBy view edits roads = some kept) : kept ⊆ roads := by
  intro r hr
  simp only [deriveBy] at h
  split at h
  · obtain ⟨largest, -, rfl⟩ := Option.map_eq_some_iff.1 h
    exact List.mem_of_mem_filter (List.mem_of_mem_filter hr)
  · obtain rfl := Option.some.inj h
    exact List.mem_of_mem_filter hr

/-- What the filters keep of a list of objects is what they keep of the roads these show. -/
theorem derive_shown (hlook : ∀ f g, look f = look g → SameRoad f g) {edits : StreetEdits}
    {roads download kept : List Feature} (h : roads.map look = download.map look)
    (hkept : derive edits download = some kept) :
    ∃ kept', derive edits roads = some kept' ∧ kept'.map look = kept.map look := by
  have hlength : roads.length = download.length := by simpa using congrArg List.length h
  have hpairs : ∀ p ∈ roads.zip download, look p.1 = look p.2 := by
    intro p hp
    obtain ⟨i, hi, rfl⟩ := List.getElem_of_mem hp
    have hi' : i < roads.length := by
      rw [List.length_zip] at hi
      omega
    have hget := congrArg (·[i]?) h
    simpa [List.getElem?_eq_getElem hi', List.getElem?_eq_getElem (hlength ▸ hi')] using hget
  obtain ⟨pairs, hderive⟩ := deriveBy_total Prod.fst edits (roads.zip download)
  have hfst := deriveBy_map Prod.fst edits (roads.zip download)
  have hsnd := deriveBy_map Prod.snd edits (roads.zip download)
  rw [← deriveBy_congr fun p hp => hlook _ _ (hpairs p hp)] at hsnd
  rw [hderive, List.map_fst_zip (by omega)] at hfst
  rw [hderive, List.map_snd_zip (by omega), hkept] at hsnd
  refine ⟨pairs.map Prod.fst, hfst.symm, ?_⟩
  rw [← Option.some.inj hsnd, List.map_map, List.map_map]
  exact List.map_congr_left fun p hp => hpairs p (deriveBy_subset hderive hp)

omit [External] in
theorem Valid.eq_nil_iff {heap : List Feature} {refs : List ℕ} (h : Valid heap refs) :
    refs = [] ↔ objects heap refs = [] := by
  have hlength := congrArg List.length h
  rw [List.length_map, List.length_map] at hlength
  rw [← List.length_eq_zero_iff, hlength, List.length_eq_zero_iff]

/-- What the filters keep of objects that show a download: the objects that show what they keep of
it. -/
theorem derive_objects (hlook : ∀ f g, look f = look g → SameRoad f g) (edits : StreetEdits)
    {heap download : List Feature} {refs : List ℕ} (hvalid : Valid heap refs)
    (hroads : (objects heap refs).map look = download.map look) :
    ∃ keptRefs kept shown,
      deriveBy Prod.snd edits (refs.zip (objects heap refs)) = some keptRefs ∧
      derive edits download = some kept ∧ derive edits (objects heap refs) = some shown ∧
      shown.map look = kept.map look ∧ objects heap (keptRefs.map Prod.fst) = shown ∧
      Valid heap (keptRefs.map Prod.fst) := by
  generalize hobjects : objects heap refs = features at hroads
  rw [Valid, hobjects] at hvalid
  have hlength : refs.length = features.length := by simpa using congrArg List.length hvalid
  obtain ⟨keptRefs, hkeptRefs⟩ := deriveBy_total Prod.snd edits (refs.zip features)
  obtain ⟨kept, hkept⟩ := deriveBy_total id edits download
  obtain ⟨shown, hshown, hshownkept⟩ := derive_shown hlook hroads hkept
  have hsnd := deriveBy_map Prod.snd edits (refs.zip features)
  rw [hkeptRefs, List.map_snd_zip (by omega), hshown] at hsnd
  have hsnd' : keptRefs.map Prod.snd = shown := Option.some.inj hsnd
  have hheld : ∀ r ∈ keptRefs, heap[r.1]? = some r.2 := by
    intro r hr
    obtain ⟨i, hi, rfl⟩ := List.getElem_of_mem (deriveBy_subset hkeptRefs hr)
    have hi' : i < refs.length := by
      rw [List.length_zip] at hi
      omega
    have hget := congrArg (·[i]?) hvalid
    simpa [List.getElem?_eq_getElem hi', List.getElem?_eq_getElem (hlength ▸ hi')] using hget
  have hkeptObjects : objects heap (keptRefs.map Prod.fst) = shown := by
    rw [objects_map_fst hheld, hsnd']
  refine ⟨keptRefs, kept, shown, hkeptRefs, hkept, hshown, hshownkept, hkeptObjects, ?_⟩
  rw [Valid, objects_map_fst hheld, List.map_map, List.map_map]
  exact List.map_congr_left hheld

/-! ## Rewriting a derived file -/

omit [External] in
theorem recordsOn_write (w : World) (pod : ℕ) (records : Records) (time : ℕ) (run : Option ℕ) :
    (w.setDisk pod ((w.disk pod).write .derivedHashes ⟨.whole records, time, run⟩)).recordsOn pod =
      records := by
  rw [World.recordsOn, setDisk_disk_self, content_write_self]

omit [External] in
theorem ne_none_of_content {d : Files} {f : FileName} {b : Bytes f.Doc} (h : d.content f = some b) :
    d f ≠ none := by
  intro hnone
  rw [Files.content, hnone] at h
  cases h

/-- **A rewritten file is recorded**: where the body writes what the source calls for, the record
written after it is true. -/
theorem rewriting_settles (fs : List FileName) (hs : Sound crash look torn w) {source : Source}
    {doc : s.Doc}
    {body : App Unit} (htorn : (w.disk here.pod).content .derivedHashes = some .torn → err)
    (hderived : Derived look source s doc)
    (hbody : ∀ w₁, Sound crash look torn w₁ → Only here [.derivedHashes] w w₁ →
      Settles crash look torn err (fun _ w₂ => Only here fs w₁ w₂ ∧
        (w₂.disk here.pod).content (.street s) = some (.whole doc)) body w₁) :
    Settles crash look torn err (fun _ w' => Only here (.derivedHashes :: fs) w w' ∧
      (w'.disk here.pod).content (.street s) = some (.whole doc) ∧
      w'.recordsOn here.pod = Function.update (w.recordsOn here.pod) s
        (some (.built source (s.sha256 (.whole doc)))))
      (StreetSelector.rewriting here s source body) w := by
  have htrue := hs.truthful here.pod
  refine (records_settles hs htorn).bind ?_
  rintro records w' - ⟨rfl, rfl⟩
  have hrest : ∀ w₁, Sound crash look torn w₁ → Only here [.derivedHashes] w' w₁ →
      Settles crash look torn err (fun _ w₂ => Only here (.derivedHashes :: fs) w' w₂ ∧
        (w₂.disk here.pod).content (.street s) = some (.whole doc) ∧
        w₂.recordsOn here.pod = Function.update (w'.recordsOn here.pod) s
          (some (.built source (s.sha256 (.whole doc)))))
        (do
          body
          let checksum ← fileSha256 here s
          StreetSelector.writeRecords here
            (Function.update (w'.recordsOn here.pod) s (some (.built source checksum)))) w₁ := by
    intro w₁ hs₁ h₁
    refine (hbody w₁ hs₁ h₁).bind ?_
    rintro - w₂ hs₂ ⟨h₂, hdoc⟩
    refine (fileSha256_settles hs₂ fun hnone => absurd hnone (ne_none_of_content hdoc)).bind ?_
    rintro checksum w₃ hs₃ ⟨h₃, b, hb, rfl⟩
    obtain rfl : .whole doc = b := Option.some.inj (hdoc.symm.trans hb)
    refine (settles_writeRecords hs₃ (htrue.record hderived)).mono (fun _ _ _ h => h) ?_
    rintro - w₄ - ⟨time, rfl⟩
    refine ⟨(h₁.mono (by simp)).trans ((h₂.mono (by simp)).trans ((h₃.mono (by simp)).trans
      (only_write _ (by simp)))), ?_, recordsOn_write ..⟩
    rw [setDisk_disk_self, Files.content, Files.write_other _ _ _ _ (by simp)]
    exact (h₃.content (by simp)).trans hdoc
  split
  · refine (settles_writeRecords hs (htrue.drop s)).bind ?_
    rintro - w₁ hs₁ ⟨time, rfl⟩
    exact hrest _ hs₁ (only_write _ (by simp))
  · exact hrest w' hs (.refl _ _ _)

/-- The files the projection writes. -/
def projectionFiles : List FileName := [.streetTmp .transformed, .street .transformed]

theorem project_settles (hs : Sound crash look torn w) {sel : StreetSelector} {refs : List ℕ}
    {source : Source} {kept : List Feature}
    (htorn : (w.disk here.pod).content .derivedHashes = some .torn → err)
    (hepsg : source.epsg = sel.job.epsg) (hkept : source.Network kept)
    (hrefs : Valid (w.memoryOf here).heap refs)
    (hroads : (objects (w.memoryOf here).heap refs).map look = kept.map look) :
    Settles crash look torn err (fun _ w' =>
      Only here (.derivedHashes :: projectionFiles) w w' ∧
      (w'.disk here.pod).content (.street .transformed) =
        some (.whole (projectRoads source.epsg (objects (w.memoryOf here).heap refs))) ∧
      w'.recordsOn here.pod = Function.update (w.recordsOn here.pod) .transformed
        (some (.built source (StreetFile.sha256 .transformed
          (.whole (projectRoads source.epsg (objects (w.memoryOf here).heap refs)))))))
      (sel.project here refs source) w := by
  refine rewriting_settles projectionFiles hs htorn ⟨kept, _, hkept, hroads, rfl⟩
    fun w₁ hs₁ h₁ => ?_
  have hobjects : objects (w₁.memoryOf here).heap refs = objects (w.memoryOf here).heap refs :=
    (hrefs.of_prefix h₁.heap).1
  split
  · rename_i hnil
    refine (saveNoRoutingInput_settles hs₁).mono (fun _ _ _ h => h) ?_
    rintro - w₂ - ⟨h₂, hdoc⟩
    refine ⟨h₂.mono (by simp [projectionFiles]), ?_⟩
    rw [hdoc, projectRoads, if_pos (hrefs.eq_nil_iff.1 hnil)]
  · rename_i hnil
    refine (projectFeaturesToFile_settles hs₁ refs 4326 sel.job.epsg).mono (fun _ _ _ h => h) ?_
    rintro - w₂ - ⟨h₂, hdoc⟩
    refine ⟨h₂, ?_⟩
    rw [hdoc, hobjects, projectRoads, if_neg (mt hrefs.eq_nil_iff.2 hnil), hepsg]

/-! ## Deriving -/

/-- The files a derivation writes. -/
def derivedFiles : List FileName := [
  .derivedHashes, .street .edited, .streetTmp .transformed, .street .transformed]

/-- **A derivation makes the derived files current** for the download it was made from. -/
theorem deriveFiles_settles (hlook : ∀ f g, look f = look g → SameRoad f g)
    (hs : Sound crash look torn w) {sel : StreetSelector} {sha256 : Option Sha256} {defer : Bool}
    (htorn : (w.disk here.pod).content .derivedHashes = some .torn → err)
    (hmissing : w.disk here.pod (.street .download) = none → err)
    (hsha : ∀ download, (w.disk here.pod).content (.street .download) = some (.whole download) →
      sha256 = some (StreetFile.sha256 .download (.whole download))) :
    Settles crash look torn err (fun a w' => Only here derivedFiles w w' ∧
      ∃ download kept, (w.disk here.pod).content (.street .download) = some (.whole download) ∧
        derive sel.edits download = some kept ∧ a = decide (kept ≠ []) ∧
        (defer = true → Only here [.derivedHashes, .street .edited] w w') ∧
        Vouched w' here.pod .edited (sel.source sha256) ∧
        (defer = false → Vouched w' here.pod .transformed (sel.source sha256)))
      (sel.deriveFiles here sha256 defer) w := by
  refine (cachedLoad_settles hs rfl hmissing fun ht => absurd ht
    (hs.whole (some here.pod) _ rfl)).bind ?_
  rintro refs w₁ hs₁ ⟨h₁, download, hdownload, hshows, -⟩
  refine (settles_getFeatures hs₁ refs).bind ?_
  rintro features w' - ⟨rfl, rfl⟩
  obtain ⟨hvalid, hroads⟩ := hshows.objects
  obtain ⟨keptRefs, kept, shown, hkeptRefs, hkept, -, hshownkept, hkeptObjects, hkeptValid⟩ :=
    derive_objects hlook sel.edits hvalid hroads
  rw [hkeptRefs]
  dsimp only
  have hnetwork : (sel.source sha256).Network kept := ⟨download, hsha download hdownload, hkept⟩
  have htorn' : (w'.disk here.pod).content .derivedHashes = some .torn → err := by
    rw [h₁.content (by simp)]
    exact htorn
  have hempty : keptRefs.map Prod.fst = [] ↔ kept = [] := by
    rw [hkeptValid.eq_nil_iff, hkeptObjects, ← List.map_eq_nil_iff (f := look), hshownkept,
      List.map_eq_nil_iff]
  have hresult : decide (keptRefs.map Prod.fst ≠ []) = decide (kept ≠ []) :=
    decide_eq_decide.2 (not_congr hempty)
  have hedited : Derived look (sel.source sha256) .edited shown := ⟨kept, hnetwork, hshownkept⟩
  refine (rewriting_settles [.street .edited] hs₁ htorn' hedited
    fun w₂ hs₂ h₂ => ?_).bind ?_
  · obtain ⟨hsame, hvalid₂⟩ := hkeptValid.of_prefix h₂.heap
    refine (saveEditFile_settles hs₂ hvalid₂).mono (fun _ _ _ h => h) ?_
    rintro - w₃ - ⟨h₃, hdoc⟩
    exact ⟨h₃, by rw [hdoc, hsame, hkeptObjects]⟩
  rintro - w₂ hs₂ ⟨h₂, hdoc, hrecords⟩
  have hvouched : Vouched w₂ here.pod .edited (sel.source sha256) :=
    ⟨shown, hdoc, by rw [hrecords, Function.update_self]⟩
  have hwithin : Only here derivedFiles w w₂ :=
    (h₁.mono (by simp)).trans (h₂.mono (by simp [derivedFiles]))
  cases defer with
  | true =>
    exact settles_ret hs₂ ⟨hwithin, download, kept, hdownload, hkept, hresult,
      fun _ => (h₁.mono (by simp)).trans h₂, hvouched, nofun⟩
  | false =>
    obtain ⟨hsame, hvalid₂⟩ := hkeptValid.of_prefix h₂.heap
    have htorn₂ : (w₂.disk here.pod).content .derivedHashes = some .torn → err := by
      intro ht
      rw [World.recordsOn, ht] at hrecords
      have := congrFun hrecords .edited
      rw [Function.update_self] at this
      cases this
    refine (project_settles hs₂ htorn₂ rfl hnetwork hvalid₂
      (by rw [hsame, hkeptObjects, hshownkept])).bind ?_
    rintro - w₃ hs₃ ⟨h₃, hdoc₃, hrecords₃⟩
    refine settles_ret hs₃ ⟨hwithin.trans (h₃.mono (by simp [derivedFiles, projectionFiles])),
      download, kept, hdownload, hkept, hresult, nofun, ⟨shown, ?_, ?_⟩, fun _ => ⟨_, hdoc₃, ?_⟩⟩
    · rw [h₃.content (by simp [projectionFiles]), hdoc]
    · rw [hrecords₃, Function.update_of_ne (by simp), hrecords, Function.update_self]
    · rw [hrecords₃, Function.update_self]

end Cosmonaut
