import Cosmonaut.Street.Exact

/-!
# Calls that keep the files exact

The street selector's functions write objects of its caches. Where none of these carries a tooltip,
the files they leave are exact.

* `Spares` is the judgement: the call ends in a sound world with exact files, whatever happens.
* `DownloadUnviewed`, `EditedUnviewed`: what the caches must not have shown on the map.
* `refresh_spares`, and one lemma for each function below it.
-/

namespace Cosmonaut

open Interleaving Program

variable [External] {α β : Type} {crash : Bool} {torn : Place → Prop} {w w' : World} {here : Site}
  {s : StreetFile} {source : Source} {sel : StreetSelector}

/-- Whatever happens, the call ends in a sound world whose files are exact, with `F` of what it
returns. -/
abbrev Spares (crash : Bool) (torn : Place → Prop) (here : Site) (F : α → World → Prop) (p : App α)
    (w : World) : Prop :=
  Keeping (M := steady crash) (fun v => Sound crash Feature.bare torn v ∧ Untouched here.pod v)
    (fun _ _ => True) F p w

/-- What a process has cached, checksums aside. -/
def World.lists (w : World) (here : Site) : Memory :=
  { w.memoryOf here with checksums := fun _ => none }

/-- The operation changes cached lists or their objects. -/
def Op.changesLists : Op → Bool
  | .cacheFeatures .. | .newFeatures .. | .addTooltips .. => true
  | _ => false

/-- The operation keeps the files exact wherever it is made, and the cached lists as they are. -/
def Op.Looks (o : Op) : Prop := (∀ w, o.Spares w) ∧ o.changesLists = false

/-! ## The rules -/

theorem spares_ret {F : α → World → Prop} {a : α} (hs : Sound crash Feature.bare torn w)
    (hw : Untouched here.pod w) (h : F a w) : Spares crash torn here F (ret a) w :=
  keeping_ret ⟨hs, hw⟩ h

theorem spares_raise {F : α → World → Prop} {e : Err} (hs : Sound crash Feature.bare torn w)
    (hw : Untouched here.pod w) : Spares crash torn here F (raise e) w :=
  keeping_throw ⟨hs, hw⟩ trivial

/-- The rule of a single operation. -/
theorem spares_ask {o : Op} {F : o.Ans → World → Prop}
    (h : Settles crash Feature.bare torn True F (ask o) w) (ho : o.Spares w)
    (hw : Untouched here.pod w) : Spares crash torn here F (ask o) w := by
  intro c
  have hc := h c
  have hexact : Untouched here.pod ((steady crash).exec o c w).2 := ho.exec hw
  rcases hexec : (steady crash).exec o c w with ⟨f | a, w'⟩ <;> rw [hexec] at hc hexact
  · exact ⟨⟨hc.1, hexact⟩, trivial⟩
  · exact ⟨⟨hc.1, hexact⟩, hc.2⟩

/-- The rule of calls that only make operations which keep the files exact anyway. -/
theorem Settles.spares {F : α → World → Prop} {p : App α}
    (h : Settles crash Feature.bare torn True F p w) (hp : Calls (fun o => ∀ w, o.Spares w) p)
    (hw : Untouched here.pod w) : Spares crash torn here F p w :=
  (h.frame hp.always (J := Untouched here.pod) (fun _ hc _ v hv => (hc v).exec hv) hw).mono
    (fun _ _ _ _ => trivial) fun _ _ _ h => h

omit [External] in
theorem exec_lists {o : Op} {c : Choice} (h : o.changesLists = false) :
    (exec o c w).2.lists here = w.lists here := by
  rcases hfault : o.fault c with _ | e
  case some =>
    rw [exec_of_fault hfault]
    cases o
    case submitJob => simp only [interrupted]; split <;> rfl
    all_goals rfl
  rw [exec_of_no_fault hfault]
  cases o
  case cacheFeatures | newFeatures | addTooltips => cases h
  case cacheChecksum site s mtime sha256 =>
    by_cases hsite : (here.pod, here.proc) = (site.pod, site.proc)
    · simp only [perform, World.lists, World.memoryOf, hsite, setMemory_memory_self]
    · simp only [perform, World.lists, World.memoryOf, setMemory_memory_other hsite]
  case updateColumns | raiseStage =>
    simp only [perform, World.require]
    split <;> rfl
  case updateInput | setStreetProcessingOfTask | updateMembershipUploadOfTask | markStartFailed |
      markPending | finish =>
    simp only [perform, World.update]
    split <;> (try split) <;> rfl
  case loadRow | writeRow | markEndNotified | markQueued | markCancelled | sweep | claim |
      deleteJob | submitJob | receive | replaceFile | removeFile | sendMail =>
    simp only [perform]
    split <;> (try split) <;> (try split) <;> rfl
  all_goals rfl

/-- The rule of calls that leave the cached lists alone as well. -/
theorem Settles.spares_looking {F : α → World → Prop} {p : App α}
    (h : Settles crash Feature.bare torn True F p w) (hp : Calls Op.Looks p)
    (hw : Untouched here.pod w) :
    Spares crash torn here (fun a w' => F a w' ∧ w'.lists here = w.lists here) p w := by
  have hlists : Keeping (M := steady crash) (fun v => Sound crash Feature.bare torn v ∧
      (Untouched here.pod v ∧ v.lists here = w.lists here)) (fun _ _ => True) F p w :=
    (h.frame hp.always (fun _ hc _ v hv => ⟨(hc.1 v).exec hv.1, (exec_lists hc.2).trans hv.2⟩)
      ⟨hw, rfl⟩).mono (fun _ _ _ _ => trivial) fun _ _ _ h => h
  refine wp.mono hlists fun r w' hr => ⟨⟨hr.1.1, hr.1.2.1⟩, ?_⟩
  cases r with
  | ok a => exact ⟨hr.2, hr.1.2.2⟩
  | error e => trivial

/-! ## Functions that only look -/

theorem lookMenu_looks : LookMenu here Op.Looks where
  pull := ⟨fun _ => rfl, rfl⟩
  fileExists _ _ := ⟨fun _ => trivial, rfl⟩
  mtime _ := ⟨fun _ => trivial, rfl⟩
  readFile _ _ := ⟨fun _ => trivial, rfl⟩
  cachedChecksum _ := ⟨fun _ => trivial, rfl⟩
  cacheChecksum _ _ _ := ⟨fun _ => trivial, rfl⟩

theorem adoptsDownload_looks : AdoptsDownload Op.Looks := fun _ _ => ⟨fun _ => trivial, rfl⟩

/-- A list is loaded into the cache. -/
theorem cachedLoad_calls (s : StreetFile) (features : s.Doc → List Feature) :
    Calls (fun o => ∀ w, o.Spares w) (StreetSelector.cachedLoad here s features) := by
  refine .bind (calls_ask fun _ => trivial) fun mtime => .bind (calls_ask fun _ => trivial)
    fun cached => ?_
  split
  · exact calls_ret _
  · exact .bind ((lookMenu_looks.loadFile rfl).mono fun _ h => h.1) fun _ =>
      .bind (calls_ask fun _ => trivial) fun _ => .bind (calls_ask fun _ => trivial)
        fun _ => calls_ret _

/-! ## Writing -/

theorem Exact.derived_bare {doc : s.Doc} (h : Exact source s doc) :
    Derived Feature.bare source s doc := by
  obtain ⟨hd, -⟩ := h
  have hbare : ∀ {roads kept : List Feature}, roads.map id = kept.map id →
      roads.map Feature.bare = kept.map Feature.bare := by
    intro roads kept hid
    rw [List.map_id, List.map_id] at hid
    rw [hid]
  cases s with
  | download => exact hd
  | edited =>
    obtain ⟨kept, hkept, hroads⟩ := hd
    exact ⟨kept, hkept, hbare hroads⟩
  | transformed =>
    obtain ⟨kept, roads, hkept, hroads, hdoc⟩ := hd
    exact ⟨kept, roads, hkept, hbare hroads, hdoc⟩

theorem ExactRecords.truthful {records : Records} (h : ExactRecords records) :
    Truthful Feature.bare records := by
  intro s source sha256 hrec
  obtain ⟨doc, hsha, hexact⟩ := h s source sha256 hrec
  exact ⟨doc, hsha, hexact.derived_bare⟩

theorem writeRecords_spares (hs : Sound crash Feature.bare torn w) (hw : Untouched here.pod w)
    {records : Records} (hrecords : ExactRecords records) :
    Spares crash torn here (fun _ w' => ∃ time, w' = w.setDisk here.pod
      ((w.disk here.pod).write .derivedHashes ⟨.whole records, time, here.run⟩))
      (StreetSelector.writeRecords here records) w := by
  have hsettles : Settles crash Feature.bare torn True _ (StreetSelector.writeRecords here _) w :=
    settles_writeRecords hs hrecords.truthful
  -- in between the record file is cut off, which is exact
  intro c
  have hopen : Untouched here.pod ((steady crash).exec (.openFile here .derivedHashes) c w).2 :=
    Op.Spares.exec trivial hw
  have hc := hsettles c
  rcases hexec : (steady crash).exec (.openFile here .derivedHashes) c w with ⟨f | a, w₁⟩ <;>
    rw [hexec] at hc hopen
  · exact ⟨⟨hc.1, hopen⟩, trivial⟩
  · intro c'
    have hwrite : Untouched here.pod
        ((steady crash).exec (.writeFile here .derivedHashes records) c' w₁).2 :=
      Op.Spares.exec (o := .writeFile here .derivedHashes records) hrecords hopen
    have hc' := hc c'
    rcases hexec' : (steady crash).exec (.writeFile here .derivedHashes records) c' w₁ with
      ⟨f | a, w₂⟩ <;> rw [hexec'] at hc' hwrite
    · exact ⟨⟨hc'.1, hwrite⟩, trivial⟩
    · exact ⟨⟨hc'.1, hwrite⟩, hc'.2⟩

/-- The body has left the file with the content, in the world in which the checksum is taken. -/
structure Rewritten (here : Site) (fs : List FileName) (s : StreetFile) (doc : s.Doc)
    (G : World → Prop) (w w' : World) : Prop where
  only : Only here fs w w'
  content : (w'.disk here.pod).content (.street s) = some (.whole doc)
  extra : G w'

theorem rewriting_spares (fs : List FileName) {doc : s.Doc} {G : World → Prop} {body : App Unit}
    (hs : Sound crash Feature.bare torn w) (hw : Untouched here.pod w) (hexact : Exact source s doc)
    (hbody : ∀ w₁, Sound crash Feature.bare torn w₁ → Untouched here.pod w₁ →
      Only here [.derivedHashes] w w₁ → w₁.lists here = w.lists here →
      Spares crash torn here (fun _ w₂ => Rewritten here fs s doc G w₁ w₂) body w₁) :
    Spares crash torn here (fun _ w' => Only here (.derivedHashes :: fs) w w' ∧
      w'.recordsOn here.pod = Function.update (w.recordsOn here.pod) s
        (some (.built source (s.sha256 (.whole doc)))) ∧
      ∃ w₂, Rewritten here (.derivedHashes :: fs) s doc G w w₂ ∧
        Only here [.derivedHashes] w₂ w' ∧ w'.lists here = w₂.lists here)
      (StreetSelector.rewriting here s source body) w := by
  refine ((records_settles hs fun _ => trivial).spares_looking lookMenu_looks.records hw).bind ?_
  rintro records w' - ⟨⟨rfl, rfl⟩, -⟩
  have hrecords := hw.recordsOn
  have hrest : ∀ w₁, Sound crash Feature.bare torn w₁ → Untouched here.pod w₁ →
      Only here [.derivedHashes] w' w₁ → w₁.lists here = w'.lists here →
      Spares crash torn here (fun _ v => Only here (.derivedHashes :: fs) w' v ∧
        v.recordsOn here.pod = Function.update (w'.recordsOn here.pod) s
          (some (.built source (s.sha256 (.whole doc)))) ∧
        ∃ w₂, Rewritten here (.derivedHashes :: fs) s doc G w' w₂ ∧
          Only here [.derivedHashes] w₂ v ∧ v.lists here = w₂.lists here)
        (do
          body
          let checksum ← fileSha256 here s
          StreetSelector.writeRecords here
            (Function.update (w'.recordsOn here.pod) s (some (.built source checksum)))) w₁ := by
    intro w₁ hs₁ hw₁ h₁ hlists₁
    refine (hbody w₁ hs₁ hw₁ h₁ hlists₁).bind ?_
    rintro - w₂ ⟨hs₂, hw₂⟩ ⟨h₂, hdoc, hG⟩
    have h₁₂ : Only here (.derivedHashes :: fs) w' w₂ :=
      (h₁.mono (by simp)).trans (h₂.mono (by simp))
    refine ((fileSha256_settles hs₂ fun _ => trivial).spares_looking
      (lookMenu_looks.fileSha256 s) hw₂).bind ?_
    rintro checksum w₃ ⟨hs₃, hw₃⟩ ⟨⟨h₃, b, hb, rfl⟩, hlists₃⟩
    obtain rfl : .whole doc = b := Option.some.inj (hdoc.symm.trans hb)
    refine (writeRecords_spares hs₃ hw₃ (hrecords.record hexact)).mono (fun _ _ _ h => h) ?_
    rintro - w₄ - ⟨time, rfl⟩
    have h₃₄ : Only here [.derivedHashes] w₂ (w₃.setDisk here.pod ((w₃.disk here.pod).write
        .derivedHashes ⟨.whole (Function.update (w'.recordsOn here.pod) s
          (some (.built source (s.sha256 (.whole doc))))), time, here.run⟩)) :=
      (h₃.mono (by simp)).trans (only_write _ (by simp))
    exact ⟨h₁₂.trans (h₃₄.mono (by simp)), recordsOn_write .., w₂, ⟨h₁₂, hdoc, hG⟩, h₃₄, hlists₃⟩
  split
  · refine (writeRecords_spares hs hw (hrecords.drop s)).bind ?_
    rintro - w₁ ⟨hs₁, hw₁⟩ ⟨time, rfl⟩
    exact hrest _ hs₁ hw₁ (only_write _ (by simp)) rfl
  · exact hrest w' hs hw (.refl _ _ _) rfl

/-- The cached objects of the edited file carry no tooltip. -/
def EditedUnviewed (here : Site) (w : World) : Prop :=
  ∀ mtime refs, (w.memoryOf here).features .edited = some (mtime, refs) →
    (w.disk here.pod).content (.street .edited) = some mtime.content →
    Plain (objects (w.memoryOf here).heap refs)

omit [External] in
theorem of_lists_eq (h : w'.lists here = w.lists here) :
    (w'.memoryOf here).features = (w.memoryOf here).features ∧
      (w'.memoryOf here).heap = (w.memoryOf here).heap := by
  change (w'.lists here).features = (w.lists here).features ∧
    (w'.lists here).heap = (w.lists here).heap
  rw [h]
  exact ⟨rfl, rfl⟩

omit [External] in
theorem EditedUnviewed.of_lists (h : EditedUnviewed here w) (hlists : w'.lists here = w.lists here)
    (hcontent : (w'.disk here.pod).content (.street .edited) =
      (w.disk here.pod).content (.street .edited)) : EditedUnviewed here w' := by
  obtain ⟨hfeatures, hheap⟩ := of_lists_eq hlists
  intro mtime refs hcached hc
  rw [hfeatures] at hcached
  rw [hheap]
  exact h mtime refs hcached (hcontent.symm.trans hc)

omit [External] in
theorem editedUnviewed_cached {mtime : Mtime (.street .edited)} {refs : List ℕ}
    (h : Plain (objects (w.memoryOf here).heap refs)) :
    EditedUnviewed here (w.setMemory here { w.memoryOf here with
      features := Function.update (w.memoryOf here).features .edited (some (mtime, refs)) }) := by
  rintro mtime' refs' hcached -
  rw [memoryOf_setMemory] at hcached ⊢
  dsimp only at hcached ⊢
  rw [Function.update_self, Option.some.injEq, Prod.mk.injEq] at hcached
  obtain ⟨-, rfl⟩ := hcached
  exact h

theorem saveEditFile_spares (hs : Sound crash Feature.bare torn w) (hw : Untouched here.pod w)
    {refs : List ℕ} {roads : List Feature} (hrefs : Valid (w.memoryOf here).heap refs)
    (hroads : objects (w.memoryOf here).heap refs = roads) (hexact : Exact source .edited roads) :
    Spares crash torn here
      (fun _ w' => Rewritten here [.street .edited] .edited roads (EditedUnviewed here) w w')
      (StreetSelector.saveEditFile here refs) w := by
  refine (spares_ask (settles_openFile hs rfl) (by trivial) hw).bind ?_
  rintro - w₁ ⟨hs₁, hw₁⟩ ⟨time, rfl⟩
  refine (spares_ask (settles_getFeatures hs₁ refs) (by trivial) hw₁).bind ?_
  rintro features w₂ ⟨hs₂, hw₂⟩ ⟨rfl, rfl⟩
  have hfeatures : objects ((w.setDisk here.pod ((w.disk here.pod).write (.street .edited)
      ⟨.torn, time, here.run⟩)).memoryOf here).heap refs = roads := hroads
  rw [hfeatures]
  refine (spares_ask (settles_writeFile hs₂ _ rfl) (by exact ⟨source, hexact⟩) hw₂).bind ?_
  rintro - w₃ ⟨hs₃, hw₃⟩ ⟨time', rfl⟩
  refine (spares_ask (settles_mtime hs₃ _ fun _ => trivial) (by trivial) hw₃).bind ?_
  rintro mtime w₄ ⟨hs₄, hw₄⟩ ⟨rfl, e, he, rfl⟩
  rw [setDisk_disk_self, Files.write_self, Option.some.injEq] at he
  subst he
  have hshows : Shows Feature.bare (w.memoryOf here).heap refs roads := hroads ▸ hrefs.shows
  refine (spares_ask (settles_cacheFeatures (s := .edited) hs₄ rfl hshows) (by trivial) hw₄).mono
    (fun _ _ _ h => h) ?_
  rintro - w₅ - rfl
  refine ⟨((only_write _ (by simp)).trans (only_write _ (by simp))).trans
    (only_setMemory List.prefix_rfl), ?_, editedUnviewed_cached ?_⟩
  · exact (congrArg (fun d : Files => d.content (.street .edited)) setDisk_disk_self).trans
      (content_write_self _ _)
  · have hplain := hexact.plain
    rw [← hroads] at hplain
    exact hplain

theorem saveNoRoutingInput_spares (hs : Sound crash Feature.bare torn w)
    (hw : Untouched here.pod w) (hexact : Exact source .transformed ⟨none, []⟩) :
    Spares crash torn here
      (fun _ w' => Rewritten here [.street .transformed] .transformed ⟨none, []⟩
        (fun _ => True) w w')
      (StreetSelector.saveNoRoutingInput here) w := by
  refine (Keeping.bind (spares_ask (settles_openFile hs rfl) (by trivial) hw) ?_ :
    Spares crash torn here (fun _ w' => ∃ time, w' = w.setDisk here.pod
      ((w.disk here.pod).write (.street .transformed) ⟨.whole ⟨none, []⟩, time, here.run⟩))
      (rewriteFile here (.street .transformed) ⟨none, []⟩) w).bind ?_
  · rintro - w₁ ⟨hs₁, hw₁⟩ ⟨time, rfl⟩
    refine (spares_ask (settles_writeFile hs₁ _ rfl) (by exact ⟨source, hexact⟩) hw₁).mono
      (fun _ _ _ h => h) ?_
    rintro - w₂ - ⟨time', rfl⟩
    exact ⟨time', by rw [setDisk_setDisk, setDisk_disk_self, write_write]⟩
  rintro - w₁ ⟨hs₁, hw₁⟩ ⟨time, rfl⟩
  refine (spares_ask (settles_mtime hs₁ _ fun _ => trivial) (by trivial) hw₁).bind ?_
  rintro mtime w₂ ⟨hs₂, hw₂⟩ ⟨rfl, e, he, rfl⟩
  rw [setDisk_disk_self, Files.write_self, Option.some.injEq] at he
  subst he
  refine (spares_ask (settles_cacheFeatures hs₂ rfl (show Shows Feature.bare _ [] [] from rfl))
    (by trivial) hw₂).mono (fun _ _ _ h => h) ?_
  rintro - w₃ - rfl
  refine ⟨(only_write _ (by simp)).trans (only_setMemory List.prefix_rfl), ?_, trivial⟩
  exact (congrArg (fun d : Files => d.content (.street .transformed)) setDisk_disk_self).trans
    (content_write_self _ _)

theorem projectFeaturesToFile_spares (hs : Sound crash Feature.bare torn w)
    (hw : Untouched here.pod w) (refs : List ℕ) (srcEpsg dstEpsg : ℤ)
    (hexact : Exact source .transformed ⟨some dstEpsg,
      (objects (w.memoryOf here).heap refs).map (projectFeature srcEpsg dstEpsg)⟩) :
    Spares crash torn here (fun _ w' => Rewritten here projectionFiles .transformed ⟨some dstEpsg,
        (objects (w.memoryOf here).heap refs).map (projectFeature srcEpsg dstEpsg)⟩
        (fun _ => True) w w')
      (StreetSelector.projectFeaturesToFile here refs srcEpsg dstEpsg) w := by
  refine (spares_ask (settles_openFile hs rfl) (by trivial) hw).bind ?_
  rintro - w₁ ⟨hs₁, hw₁⟩ ⟨time, rfl⟩
  have hbody := (projected_settles hs₁ here refs srcEpsg dstEpsg).frame
    (J := Untouched here.pod) (Calls.always (.bind (calls_ask (P := fun o => ∀ w, o.Spares w)
      fun _ => trivial) fun _ => calls_ret _)) (fun _ hc _ v hv => (hc v).exec hv) hw₁
  refine (hbody.tryCatch fun e w' hI he => ?_).bind ?_
  · -- only the end of the process comes up here, and no handler sees it
    obtain ⟨rfl, -⟩ := he.resolve_right id
    rw [if_pos rfl]
    exact spares_raise hI.1 hI.2
  rintro ⟨doc, u⟩ w₂ ⟨hs₂, hw₂⟩ ⟨rfl, hdoc⟩
  dsimp only at hdoc
  subst hdoc
  refine (spares_ask (settles_writeFile hs₂ _ rfl) (by trivial) hw₂).bind ?_
  rintro - w₃ ⟨hs₃, hw₃⟩ ⟨time', rfl⟩
  refine (spares_ask (settles_replaceFile hs₃ (by rw [setDisk_disk_self, Files.write_self]) rfl)
    (fun doc hdoc => ⟨source, ?_⟩) hw₃).bind ?_
  · rw [setDisk_disk_self, content_write_self] at hdoc
    rw [← Bytes.whole.inj (Option.some.inj hdoc)]
    exact hexact
  rintro - w₄ ⟨hs₄, hw₄⟩ rfl
  refine spares_ret hs₄ hw₄ ⟨((only_write _ (by simp [projectionFiles])).trans
    (only_write _ (by simp [projectionFiles]))).trans (only_setDisk fun f hf => ?_), ?_, trivial⟩
  · simp only [projectionFiles, List.mem_cons, List.not_mem_nil, or_false, not_or] at hf
    rw [Files.write_other _ _ _ _ hf.2, Files.remove_other _ _ _ hf.1]
  · rw [setDisk_disk_self]
    exact content_write_self _ _

/-- The projection of exact roads. -/
theorem project_spares (hs : Sound crash Feature.bare torn w) (hw : Untouched here.pod w)
    {refs : List ℕ} {roads : List Feature} (hepsg : source.epsg = sel.job.epsg)
    (hrefs : Valid (w.memoryOf here).heap refs)
    (hroads : objects (w.memoryOf here).heap refs = roads) (hexact : Exact source .edited roads) :
    Spares crash torn here (fun _ _ => True) (sel.project here refs source) w := by
  refine (rewriting_spares (G := fun _ => True) projectionFiles hs hw hexact.project
    fun w₁ hs₁ hw₁ h₁ _ => ?_).mono (fun _ _ _ h => h) fun _ _ _ _ => trivial
  have hobjects : objects (w₁.memoryOf here).heap refs = roads :=
    (hrefs.of_prefix h₁.heap).1.trans hroads
  have hempty : refs = [] ↔ roads = [] := by rw [hrefs.eq_nil_iff, hroads]
  have hprojected := hexact.project
  split
  · rename_i hnil
    rw [projectRoads, if_pos (hempty.1 hnil)] at hprojected ⊢
    refine (saveNoRoutingInput_spares hs₁ hw₁ hprojected).mono (fun _ _ _ h => h) ?_
    rintro - w₂ - h₂
    exact ⟨h₂.only.mono (by simp [projectionFiles]), h₂.content, trivial⟩
  · rename_i hnil
    rw [projectRoads, if_neg (mt hempty.2 hnil), hepsg, ← hobjects] at hprojected ⊢
    exact projectFeaturesToFile_spares hs₁ hw₁ refs 4326 sel.job.epsg hprojected

/-! ## Deriving, refreshing, projecting -/

/-- What the intent keeps of the objects cached for the download that the pod works with carries no
tooltip. -/
def DownloadUnviewed (here : Site) (edits : StreetEdits) (upload : MembershipUpload) (w : World) :
    Prop :=
  ∀ mtime refs kept, (w.memoryOf here).features .download = some (mtime, refs) →
    w.got here.pod (w.adopted here.pod upload) = some mtime.content →
    derive edits (objects (w.memoryOf here).heap refs) = some kept → Plain kept

/-- **A derivation from objects without tooltips** leaves exact files. -/
theorem deriveFiles_spares (hs : Sound crash Feature.bare torn w) (hw : Untouched here.pod w)
    {sha256 : Option Sha256} {defer : Bool}
    (hunviewed : ∀ mtime refs kept, (w.memoryOf here).features .download = some (mtime, refs) →
      (w.disk here.pod).content (.street .download) = some mtime.content →
      derive sel.edits (objects (w.memoryOf here).heap refs) = some kept → Plain kept)
    (hsha : ∀ download, (w.disk here.pod).content (.street .download) = some (.whole download) →
      sha256 = some (StreetFile.sha256 .download (.whole download))) :
    Spares crash torn here (fun _ w' => defer = true → EditedUnviewed here w' ∧
      Vouched w' here.pod .edited (sel.source sha256)) (sel.deriveFiles here sha256 defer) w := by
  refine ((cachedLoad_settles hs rfl (fun _ => trivial) fun _ => trivial).spares
    (cachedLoad_calls _ _) hw).bind ?_
  rintro refs w₁ ⟨hs₁, hw₁⟩ ⟨h₁, download, hdownload, hshows, hobjects⟩
  refine (spares_ask (settles_getFeatures hs₁ refs) (by trivial) hw₁).bind ?_
  rintro features w' - ⟨rfl, rfl⟩
  obtain ⟨hvalid, hroads⟩ := hshows.objects
  obtain ⟨keptRefs, kept, shown, hkeptRefs, hkept, hshown, hshownkept, hkeptObjects, hkeptValid⟩ :=
    derive_objects (fun _ _ h => h) sel.edits hvalid hroads
  have hdownloadPlain := hw.download download hdownload
  -- the objects are the cached ones, or new ones without tooltips
  have hplain : Plain shown := by
    rcases hobjects with ⟨mtime, hcached, hmtime, rfl⟩ | hnew
    · exact hunviewed mtime refs shown hcached (hdownload.trans (congrArg some hmtime.symm)) hshown
    · rw [hnew] at hshown
      exact hdownloadPlain.of_subset (derive_subset hshown)
  obtain rfl : shown = kept := hplain.eq (hdownloadPlain.of_subset (derive_subset hkept)) hshownkept
  have hexact : Exact (sel.source sha256) .edited shown :=
    exact_edited hdownloadPlain (hsha download hdownload) hkept
  rw [hkeptRefs]
  dsimp only
  refine (rewriting_spares (G := EditedUnviewed here) [.street .edited] hs₁ hw₁ hexact
    fun w₂ hs₂ hw₂ h₂ _ => ?_).bind ?_
  · obtain ⟨hsame, hvalid₂⟩ := hkeptValid.of_prefix h₂.heap
    exact saveEditFile_spares hs₂ hw₂ hvalid₂ (hsame.trans hkeptObjects) hexact
  rintro - w₃ ⟨hs₃, hw₃⟩ ⟨h₃, hrecords, w₂, hbody, h₂₃, hlists⟩
  have hcontent := h₂₃.content (f := .street .edited) (by simp)
  cases defer with
  | true =>
    refine spares_ret hs₃ hw₃ fun _ => ⟨hbody.extra.of_lists hlists hcontent, shown, ?_, ?_⟩
    · exact hcontent.trans hbody.content
    · rw [hrecords, Function.update_self]
  | false =>
    obtain ⟨hsame, hvalid₃⟩ := hkeptValid.of_prefix h₃.heap
    refine (project_spares hs₃ hw₃ rfl hvalid₃ (hsame.trans hkeptObjects) hexact).bind ?_
    rintro - w₄ ⟨hs₄, hw₄⟩ -
    exact spares_ret hs₄ hw₄ nofun

/-- What a refresh leaves for a projection: it has derived the edited network from objects without
tooltips, or found it current. -/
structure RefreshSpared (here : Site) (sel sel' : StreetSelector) (current : Bool) (w w' : World) :
    Prop where
  edits : sel'.edits = sel.edits
  epsg : sel'.job.epsg = sel.job.epsg
  current : current = true → ∃ h, Vouched w' here.pod .edited (sel.source h) ∧
    (EditedUnviewed here w' ∨ h = w.adopted here.pod sel.job.membershipUpload ∧
      Vouched w here.pod .edited (sel.source h) ∧
      (Vouched w' here.pod .transformed (sel.source h) ↔
        Vouched w here.pod .transformed (sel.source h)) ∧
      (EditedUnviewed here w → EditedUnviewed here w'))

theorem refresh_spares (hs : Sound crash Feature.bare torn w) (hw : Untouched here.pod w)
    (hunviewed : w.adopted here.pod sel.job.membershipUpload ≠ none →
      ¬Vouched w here.pod .edited (sel.source (w.adopted here.pod sel.job.membershipUpload)) →
      DownloadUnviewed here sel.edits sel.job.membershipUpload w) :
    Spares crash torn here (fun r w' => RefreshSpared here sel r.1 r.2 w w')
    (sel.refresh here) w := by
  refine ((downloadSha256_settles hs fun _ => trivial).spares_looking
    (lookMenu_looks.downloadSha256 adoptsDownload_looks sel) hw).bind ?_
  rintro sel' m ⟨hsm, hwm⟩ ⟨⟨hedits, hadopted⟩, hlists⟩
  have hsource : ∀ h, sel'.source h = sel.source h := by
    intro h
    rw [StreetSelector.source, hedits, hadopted.epsg, StreetSelector.source]
  have hnamed := hadopted.named
  split
  · exact spares_ret hsm hwm ⟨hedits, hadopted.epsg, nofun⟩
  rename_i k hk
  change sel'.job.named = some k at hk
  have hne : sel'.job.named ≠ none := by
    rw [hk]
    simp
  refine ((isCurrent_settles hsm _ fun _ _ => trivial).spares_looking
    (lookMenu_looks.isCurrent _ _) hwm).bind ?_
  rintro current w₁ ⟨hs₁, hw₁⟩ ⟨⟨h₁, hcurrent⟩, hlists₁⟩
  rw [← hk, hsource, hadopted.apart.vouched_iff (by simp) (by simp)] at hcurrent
  split
  · rename_i htrue
    have hvouched := hcurrent.1 htrue
    have hsame : Apart here [.street .download] w w₁ :=
      hadopted.apart.trans (h₁.toApart.mono (by simp))
    refine spares_ret hs₁ hw₁ ⟨hedits, hadopted.epsg, fun _ => ⟨sel'.job.named, ?_, .inr ⟨hnamed,
      hvouched, hsame.vouched_iff (by simp) (by simp), fun h => h.of_lists
        (hlists₁.trans hlists) (hsame.content (by simp))⟩⟩⟩
    exact hvouched.of_apart hsame (by simp) (by simp)
  · rename_i hfalse
    have hunviewed' := hunviewed (hnamed ▸ hne) fun h => hfalse (hcurrent.2 (hnamed ▸ h))
    refine ((pullDownloadIfOther_settles hs₁ fun _ => trivial).spares_looking
      (lookMenu_looks.pullDownloadIfOther adoptsDownload_looks _) hw₁).bind ?_
    rintro ⟨sel'', localSha256⟩ w₂ ⟨hs₂, hw₂⟩
      ⟨⟨hedits₂, m₂, hadopted₂, h₂, hlocal, hcontent⟩, hlists₂⟩
    dsimp only at hedits₂ hadopted₂ hlocal hcontent
    obtain ⟨hjob, hm₂⟩ := hadopted₂.eq_of_named hne
    obtain rfl : sel'' = sel' := by
      obtain ⟨job'', edits''⟩ := sel''
      obtain ⟨job', edits'⟩ := sel'
      dsimp only at hjob hedits₂
      rw [hjob, hedits₂]
    have hgot : (w₂.disk here.pod).content (.street .download) =
        w.got here.pod (w.adopted here.pod sel.job.membershipUpload) := by
      rw [hcontent, h₁.toApart.got (h₁.content (by simp)), hadopted.got, hnamed]
    dsimp only
    rcases localSha256 with _ | h
    · exact spares_ret hs₂ hw₂ ⟨hedits, hadopted.epsg, nofun⟩
    have hlists₂' : w₂.lists here = w.lists here := hlists₂.trans (hlists₁.trans hlists)
    refine (deriveFiles_spares hs₂ hw₂ (fun mtime refs kept hcached hc hkept => ?_)
      fun download hdownload => ?_).bind ?_
    · obtain ⟨hfeatures, hheap⟩ := of_lists_eq hlists₂'
      rw [hfeatures] at hcached
      rw [hheap, hedits] at hkept
      exact hunviewed' mtime refs kept hcached (hgot.symm.trans hc) hkept
    · rw [hlocal, hdownload]
      rfl
    · rintro - w₃ ⟨hs₃, hw₃⟩ hderived
      obtain ⟨hedited, hvouched⟩ := hderived rfl
      rw [hsource] at hvouched
      exact spares_ret hs₃ hw₃ ⟨hedits, hadopted.epsg, fun _ => ⟨_, hvouched, .inl hedited⟩⟩

end Cosmonaut
