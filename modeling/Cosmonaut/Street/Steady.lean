import Cosmonaut.Street.Records

/-!
# Undisturbed calls

The street selector's functions when nothing fails and no other process interferes. With `crash` the
process may still be terminated at any operation, and then leaves a sound world behind.

* `steady` is the machine, `Settles` the judgement: the call ends in a sound world, with `F` of what
  it returns; it raises an exception only if `err`.
* One rule for each operation the street selector asks for.
-/

namespace Cosmonaut

open Interleaving Program

/-- The machine on which no operation fails, except that with `crash` the process may be terminated
at any of them. -/
abbrev steady (crash : Bool) : Machine sig :=
  machine.restrict fun c => c.fault = none ∨ crash = true ∧ c.fault = some .killed

/-- Nothing special happens. -/
def steadyChoice (crash : Bool) : (steady crash).Choice := ⟨.usual, .inl rfl⟩

instance (crash : Bool) : Nonempty (steady crash).Choice := ⟨steadyChoice crash⟩

variable [External]

/-- Alone, and with no failures but those `steady` allows, the call ends in a sound world, with `F`
of what it returns. It raises something only if `err`. -/
abbrev Settles {α : Type} (crash : Bool) (look : Feature → Feature) (torn : Place → Prop)
    (err : Prop) (F : α → World → Prop) (p : App α) (w : World) : Prop :=
  Keeping (M := steady crash) (Sound crash look torn)
    (fun e _ => e = .fault .killed ∧ crash = true ∨ err) F p w

variable {α β : Type} {crash : Bool} {look : Feature → Feature} {torn : Place → Prop} {err : Prop}
  {w w' : World} {here : Site} {pod : ℕ}

/-! ## The rules -/

theorem settles_ret {F : α → World → Prop} {a : α} (hs : Sound crash look torn w) (h : F a w) :
    Settles crash look torn err F (ret a) w :=
  keeping_ret hs h

theorem settles_raise {F : α → World → Prop} {e : Err} (hs : Sound crash look torn w) (h : err) :
    Settles crash look torn err F (raise e) w :=
  keeping_throw hs (.inr h)

omit [External] in
theorem steady_exec_cases (o : Op) (c : (steady crash).Choice) (w : World) :
    (steady crash).exec o c w = perform o c.1 w ∨
      crash = true ∧ (steady crash).exec o c w = (.error .killed, interrupted o c.1 w) := by
  obtain ⟨c, hc | ⟨hcrash, hc⟩⟩ := c
  · exact .inl (exec_of_no_fault (by rw [Op.fault, hc]))
  · exact .inr ⟨hcrash, exec_of_fault (by rw [Op.fault, hc])⟩

/-- A handler of a call that raises nothing by itself does nothing: it does not see the end of the
process. -/
theorem settles_tryExcept {p : App α} {handler : Err → App α} {F : α → World → Prop}
    (h : Settles crash look torn False F p w) :
    Settles crash look torn err F (tryExcept p handler) w := by
  apply h.tryCatch
  intro e w' hs he
  obtain ⟨rfl, hcrash⟩ := he.resolve_right id
  rw [if_pos rfl]
  exact ⟨hs, .inl ⟨rfl, hcrash⟩⟩

/-- The rule of a single operation. -/
theorem settles_ask {o : Op} {F : o.Ans → World → Prop} (hs : Sound crash look torn w)
    (hok : ∀ c a w', perform o c w = (.ok a, w') → Sound crash look torn w' ∧ F a w')
    (herr : ∀ c f w', perform o c w = (.error f, w') → w' = w ∧ err)
    (hkill : ∀ c, Sound crash look torn (interrupted o c w)) :
    Settles crash look torn err F (ask o) w := by
  refine keeping_call (fun c a w' h => ?_) fun c f w' h => ?_
  · rcases steady_exec_cases o c w with hc | ⟨-, hc⟩
    · exact hok _ a w' (hc ▸ h)
    · rw [hc] at h
      cases h
  · rcases steady_exec_cases o c w with hc | ⟨hcrash, hc⟩
    · obtain ⟨rfl, he⟩ := herr _ f w' (hc ▸ h)
      exact ⟨hs, .inr he⟩
    · rw [hc] at h
      obtain ⟨hf, rfl⟩ := Prod.mk.inj h
      exact ⟨hkill _, .inl ⟨by rw [← Except.error.inj hf], hcrash⟩⟩

/-- An operation that only looks. -/
theorem settles_look {o : Op} {F : o.Ans → World → Prop} (hs : Sound crash look torn w)
    (hok : ∀ c a w', perform o c w = (.ok a, w') → w' = w ∧ F a w)
    (herr : ∀ c f w', perform o c w = (.error f, w') → w' = w ∧ err)
    (hkill : ∀ c, interrupted o c w = w) :
    Settles crash look torn err F (ask o) w := by
  refine settles_ask hs (fun c a w' h => ?_) herr fun c => by rw [hkill]; exact hs
  obtain ⟨rfl, hF⟩ := hok c a w' h
  exact ⟨hs, hF⟩

/-- An operation that never fails and is not half done when the process is terminated. -/
theorem settles_do {o : Op} (a : o.Ans) (next : Choice → World) (hs : Sound crash look torn w)
    (hdo : ∀ c, perform o c w = (.ok a, next c)) (hkill : ∀ c, interrupted o c w = w)
    (hnext : ∀ c, Sound crash look torn (next c)) :
    Settles crash look torn err (fun r w' => r = a ∧ ∃ c, w' = next c) (ask o) w := by
  refine settles_ask hs (fun c r w' h => ?_) (fun c f w' h => ?_) fun c => by rw [hkill]; exact hs
  · rw [hdo] at h
    obtain ⟨hr, rfl⟩ := Prod.mk.inj h
    exact ⟨hnext c, (Except.ok.inj hr).symm, c, rfl⟩
  · rw [hdo] at h
    cases h

/-! ## Looking at files -/

theorem settles_fileExists (hs : Sound crash look torn w) (f : FileName) :
    Settles crash look torn err (fun a w' => w' = w ∧ a = (w.disk pod f).isSome)
      (ask (.fileExists pod f)) w := by
  refine settles_look (o := .fileExists pod f) hs (fun c a w' h => ?_) (fun c f w' h => ?_)
    fun c => rfl
  · obtain ⟨ha, rfl⟩ := Prod.mk.inj h
    exact ⟨rfl, rfl, (Except.ok.inj ha).symm⟩
  · cases h

omit [External] in
/-- What a step on a file that may be missing sees of it. -/
theorem file_cases {f : FileName} {g : Entry f → β} {r : Except Fault β × World}
    (h : ((w.file pod f).map g, w) = r) :
    (∃ e, w.disk pod f = some e ∧ r = (.ok (g e), w)) ∨
      w.disk pod f = none ∧ r = (.error .fileNotFound, w) := by
  rw [← h, World.file]
  rcases hd : w.disk pod f with _ | e
  · exact .inr ⟨rfl, rfl⟩
  · exact .inl ⟨e, rfl, rfl⟩

theorem settles_mtime (hs : Sound crash look torn w) (f : FileName)
    (hmissing : w.disk pod f = none → err) :
    Settles crash look torn err
      (fun a w' => w' = w ∧ ∃ e, w.disk pod f = some e ∧ a = e.mtime) (ask (.mtime pod f)) w := by
  refine settles_look (o := .mtime pod f) hs (fun c a w' h => ?_) (fun c f w' h => ?_) fun c => rfl
  · rcases file_cases h with ⟨e, he, hr⟩ | ⟨-, hr⟩
    · obtain ⟨ha, rfl⟩ := Prod.mk.inj hr
      exact ⟨rfl, rfl, e, he, Except.ok.inj ha⟩
    · cases hr
  · rcases file_cases h with ⟨e, -, hr⟩ | ⟨hd, hr⟩
    · cases hr
    · exact ⟨(Prod.mk.inj hr).2, hmissing hd⟩

theorem settles_readFile (hs : Sound crash look torn w) (f : FileName)
    (hmissing : w.disk pod f = none → err) :
    Settles crash look torn err
      (fun a w' => w' = w ∧ (w.disk pod).content f = some a) (ask (.readFile pod f)) w := by
  refine settles_look (o := .readFile pod f) hs (fun c a w' h => ?_) (fun c f w' h => ?_)
    fun c => rfl
  · rcases file_cases h with ⟨e, he, hr⟩ | ⟨-, hr⟩
    · obtain ⟨ha, rfl⟩ := Prod.mk.inj hr
      refine ⟨rfl, rfl, ?_⟩
      rw [Files.content, he, Except.ok.inj ha]
      rfl
    · cases hr
  · rcases file_cases h with ⟨e, -, hr⟩ | ⟨hd, hr⟩
    · cases hr
    · exact ⟨(Prod.mk.inj hr).2, hmissing hd⟩

theorem settles_decode (hs : Sound crash look torn w) {b : Bytes α} (htorn : b = .torn → err) :
    Settles crash look torn err (fun a w' => w' = w ∧ b = .whole a) (decode b) w := by
  cases b with
  | torn => exact settles_raise hs (htorn rfl)
  | whole doc => exact settles_ret hs ⟨rfl, rfl⟩

theorem settles_loadFile (hs : Sound crash look torn w) (f : FileName)
    (hmissing : w.disk here.pod f = none → err)
    (htorn : (w.disk here.pod).content f = some .torn → err) :
    Settles crash look torn err
      (fun a w' => w' = w ∧ (w.disk here.pod).content f = some (.whole a)) (loadFile here f) w := by
  refine (settles_readFile hs f hmissing).bind ?_
  rintro b w' hs' ⟨rfl, hb⟩
  refine (settles_decode hs' fun h => htorn (h ▸ hb)).mono (fun _ _ _ h => h) ?_
  rintro a w'' - ⟨rfl, rfl⟩
  exact ⟨rfl, hb⟩

/-! ## Writing files -/

omit [External] in
theorem copy_setDisk (w : World) (pod : ℕ) (d : Files) (place : Place) :
    (w.setDisk pod d).copy place = if place = some pod then d else w.copy place := by
  rcases place with _ | q
  · rfl
  · by_cases hq : q = pod
    · subst hq
      simp
    · have hne : pod ≠ q := fun h => hq h.symm
      simp [hq, hne]

/-- The files whose content the invariant speaks of. -/
def FileName.watched : FileName → Bool
  | .derivedHashes | .streetEdits | .street .download => true
  | _ => false

omit [External] in
theorem FileName.watched_of_neverTorn {f : FileName} (h : f.neverTorn = true) :
    f.watched = true := by
  cases f with
  | street s => cases s <;> first | rfl | cases h
  | _ => first | rfl | cases h

/-- A change of a pod's other files. -/
theorem Sound.setDisk (hs : Sound crash look torn w) {d : Files}
    (hr : d .derivedHashes = w.disk pod .derivedHashes)
    (hw : ∀ f, f.neverTorn = true → d.content f = some .torn →
      ∃ place, (w.copy place).content f = some .torn) :
    Sound crash look torn (w.setDisk pod d) := by
  refine hs.of_same (fun place => ?_) (fun place f hf ht => ?_) rfl
  · rw [copy_setDisk]
    split
    · rename_i hp
      rw [hr, hp, World.copy_some]
    · rfl
  · rw [copy_setDisk] at ht
    split at ht
    · exact hw f hf ht
    · exact ⟨place, ht⟩

theorem Sound.setDisk_of_unwatched (hs : Sound crash look torn w) {d : Files}
    (h : ∀ f, f.watched = true → d f = w.disk pod f) : Sound crash look torn (w.setDisk pod d) := by
  refine hs.setDisk (h _ rfl) fun f hf ht => ⟨some pod, ?_⟩
  rwa [Files.content, h f (FileName.watched_of_neverTorn hf)] at ht

theorem Sound.write (hs : Sound crash look torn w) {f : FileName} (e : Entry f)
    (hf : f.watched = false) : Sound crash look torn (w.setDisk pod ((w.disk pod).write f e)) := by
  refine hs.setDisk_of_unwatched fun g hg => Files.write_other _ _ _ _ fun hgf => ?_
  rw [hgf, hf] at hg
  cases hg

theorem settles_openFile (hs : Sound crash look torn w) {f : FileName}
    (hf : f.watched = false) :
    Settles crash look torn err
      (fun _ w' => ∃ time, w' = w.setDisk here.pod
        ((w.disk here.pod).write f ⟨.torn, time, here.run⟩))
      (ask (.openFile here f)) w := by
  refine (settles_do (o := .openFile here f) () (fun c => w.setDisk here.pod
    ((w.disk here.pod).write f ⟨.torn, c.time f, here.run⟩)) hs (fun c => rfl) (fun c => rfl)
    fun c => ?_).mono (fun _ _ _ h => h) ?_
  · exact hs.write _ hf
  · rintro a w' - ⟨-, c, rfl⟩
    exact ⟨c.time f, rfl⟩

theorem settles_writeFile (hs : Sound crash look torn w) {f : FileName} (doc : f.Doc)
    (hf : f.watched = false) :
    Settles crash look torn err
      (fun _ w' => ∃ time, w' = w.setDisk here.pod
        ((w.disk here.pod).write f ⟨.whole doc, time, here.run⟩))
      (ask (.writeFile here f doc)) w := by
  refine (settles_do (o := .writeFile here f doc) () (fun c => w.setDisk here.pod
    ((w.disk here.pod).write f ⟨.whole doc, c.time f, here.run⟩)) hs (fun c => rfl) (fun c => rfl)
    fun c => ?_).mono (fun _ _ _ h => h) ?_
  · exact hs.write _ hf
  · rintro a w' - ⟨-, c, rfl⟩
    exact ⟨c.time f, rfl⟩

omit [External] in
theorem content_write_self (d : Files) {f : FileName} (e : Entry f) :
    (d.write f e).content f = some e.content := by
  rw [Files.content, Files.write_self]
  rfl

/-- A whole temporary file is renamed into place. -/
theorem Sound.replaced (hs : Sound crash look torn w) {s : StreetFile} {e : Entry (.streetTmp s)}
    {doc : s.Doc} (hwhole : e.content = .whole doc) :
    Sound crash look torn (w.setDisk pod (((w.disk pod).remove (.streetTmp s)).write (.street s)
      ⟨e.content, e.time, e.author⟩)) := by
  refine hs.setDisk ?_ fun f hf ht => ?_
  · rw [Files.write_other _ _ _ _ (by simp), Files.remove_other _ _ _ (by simp)]
  · by_cases hfs : f = .street s
    · subst hfs
      rw [content_write_self, hwhole] at ht
      cases ht
    · have htmp : f ≠ .streetTmp s := by
        rintro rfl
        cases hf
      rw [Files.content, Files.write_other _ _ _ _ hfs, Files.remove_other _ _ _ htmp] at ht
      exact ⟨some pod, ht⟩

theorem settles_replaceFile (hs : Sound crash look torn w) {s : StreetFile}
    {e : Entry (.streetTmp s)}
    {doc : s.Doc} (htmp : w.disk pod (.streetTmp s) = some e) (hwhole : e.content = .whole doc) :
    Settles crash look torn err
      (fun _ w' => w' = w.setDisk pod (((w.disk pod).remove (.streetTmp s)).write (.street s)
        ⟨e.content, e.time, e.author⟩))
      (ask (.replaceFile pod s)) w := by
  have hdo : ∀ c, perform (.replaceFile pod s) c w = (.ok (), w.setDisk pod
      (((w.disk pod).remove (.streetTmp s)).write (.street s) ⟨e.content, e.time, e.author⟩)) := by
    intro c
    simp only [perform, htmp]
  refine (settles_do (o := .replaceFile pod s) () (fun _ => _) hs hdo (fun c => rfl)
    fun c => hs.replaced hwhole).mono (fun _ _ _ h => h) ?_
  rintro a w' - ⟨-, c, rfl⟩
  rfl

theorem whole_setDisk_records (hs : Sound crash look torn w) (e : Entry .derivedHashes)
    (place : Place) {f : FileName} (hf : f.neverTorn = true) :
    ((w.setDisk pod ((w.disk pod).write .derivedHashes e)).copy place).content f ≠ some .torn := by
  rw [copy_setDisk]
  split
  · have hne : f ≠ .derivedHashes := by
      rintro rfl
      cases hf
    rw [Files.content, Files.write_other _ _ _ _ hne]
    exact hs.whole (some pod) f hf
  · exact hs.whole place f hf

/-- What the process may leave of the records when it is terminated between emptying and writing
them. -/
theorem Sound.openRecords (hs : Sound true look torn w) (time : ℕ) :
    Sound true look torn (w.setDisk here.pod
      ((w.disk here.pod).write .derivedHashes ⟨.torn, time, here.run⟩)) where
  records place records h := by
    rw [copy_setDisk] at h
    split at h
    · simp [Files.content] at h
    · exact hs.records place records h
  checksums := hs.checksums
  features := hs.features
  legible h := by cases h
  whole place f hf := whole_setDisk_records hs _ place hf

theorem Sound.writeRecords (hs : Sound crash look torn w) {records : Records}
    (htrue : Truthful look records) (time : ℕ) :
    Sound crash look torn (w.setDisk here.pod
      ((w.disk here.pod).write .derivedHashes ⟨.whole records, time, here.run⟩)) where
  records place records' h := by
    rw [copy_setDisk] at h
    split at h
    · rw [Files.content, Files.write_self] at h
      obtain rfl : records = records' := by simpa using h
      exact htrue
    · exact hs.records place records' h
  checksums := hs.checksums
  features := hs.features
  legible hc place h := by
    rw [copy_setDisk] at h
    split at h
    · rw [Files.content, Files.write_self] at h
      simp at h
    · exact hs.legible hc place h
  whole place f hf := whole_setDisk_records hs _ place hf

omit [External] in
theorem setDisk_setDisk (w : World) (pod : ℕ) (d d' : Files) :
    (w.setDisk pod d).setDisk pod d' = w.setDisk pod d' := by
  simp [World.setDisk]

omit [External] in
theorem write_write (d : Files) (f : FileName) (e e' : Entry f) :
    (d.write f e).write f e' = d.write f e' := by
  simp [Files.write]

/-- The record file may be left half-written only where the process may be terminated. -/
theorem settles_writeRecords (hs : Sound crash look torn w) {records : Records}
    (htrue : Truthful look records) :
    Settles crash look torn err
      (fun _ w' => ∃ time, w' = w.setDisk here.pod
        ((w.disk here.pod).write .derivedHashes ⟨.whole records, time, here.run⟩))
      (StreetSelector.writeRecords here records) w := by
  intro c
  rcases steady_exec_cases (.openFile here .derivedHashes) c w with h | ⟨hcrash, h⟩ <;> rw [h]
  · intro c'
    rcases steady_exec_cases (.writeFile here .derivedHashes records) c'
      (perform (.openFile here .derivedHashes) c.1 w).2 with h' | ⟨hcrash, h'⟩ <;> rw [h']
    · refine ⟨?_, c'.1.time .derivedHashes, ?_⟩ <;>
        simp only [perform, setDisk_setDisk, setDisk_disk_self, write_write]
      exact hs.writeRecords htrue _
    · subst hcrash
      exact ⟨hs.openRecords _, .inl ⟨rfl, rfl⟩⟩
  · exact ⟨hs, .inl ⟨rfl, hcrash⟩⟩

/-! ## Caches -/

theorem settles_cachedChecksum (hs : Sound crash look torn w) (s : StreetFile) :
    Settles crash look torn err (fun a w' => w' = w ∧ a = (w.memoryOf here).checksums s)
      (ask (.cachedChecksum here s)) w := by
  refine settles_look (o := .cachedChecksum here s) hs (fun c a w' h => ?_) (fun c f w' h => ?_)
    fun c => rfl
  · obtain ⟨ha, rfl⟩ := Prod.mk.inj h
    exact ⟨rfl, rfl, (Except.ok.inj ha).symm⟩
  · cases h

theorem settles_cachedFeatures (hs : Sound crash look torn w) (s : StreetFile) :
    Settles crash look torn err (fun a w' => w' = w ∧ a = (w.memoryOf here).features s)
      (ask (.cachedFeatures here s)) w := by
  refine settles_look (o := .cachedFeatures here s) hs (fun c a w' h => ?_) (fun c f w' h => ?_)
    fun c => rfl
  · obtain ⟨ha, rfl⟩ := Prod.mk.inj h
    exact ⟨rfl, rfl, (Except.ok.inj ha).symm⟩
  · cases h

theorem settles_getFeatures (hs : Sound crash look torn w) (refs : List ℕ) :
    Settles crash look torn err (fun a w' => w' = w ∧ a = objects (w.memoryOf here).heap refs)
      (ask (.getFeatures here refs)) w := by
  refine settles_look (o := .getFeatures here refs) hs (fun c a w' h => ?_) (fun c f w' h => ?_)
    fun c => rfl
  · obtain ⟨ha, rfl⟩ := Prod.mk.inj h
    exact ⟨rfl, rfl, (Except.ok.inj ha).symm⟩
  · cases h

/-- What holds of the caches before and of the new ones of one process. -/
theorem Sound.setMemory (hs : Sound crash look torn w) {m : Memory}
    (hsums : ∀ s mtime sha256, m.checksums s = some (mtime, sha256) →
      sha256 = s.sha256 mtime.content)
    (hfeatures : ∀ s mtime refs, m.features s = some (mtime, refs) →
      ∃ doc, mtime.content = .whole doc ∧ Shows look m.heap refs (s.roads doc)) :
    Sound crash look torn (w.setMemory here m) where
  records := hs.records
  checksums process s mtime sha256 h := by
    by_cases hp : process = (here.pod, here.proc)
    · subst hp
      rw [setMemory_memory_self] at h
      exact hsums s mtime sha256 h
    · rw [setMemory_memory_other hp] at h
      exact hs.checksums process s mtime sha256 h
  features process s mtime refs h := by
    by_cases hp : process = (here.pod, here.proc)
    · subst hp
      rw [setMemory_memory_self] at h ⊢
      exact hfeatures s mtime refs h
    · rw [setMemory_memory_other hp] at h ⊢
      exact hs.features process s mtime refs h
  legible := hs.legible
  whole := hs.whole

theorem settles_cacheChecksum (hs : Sound crash look torn w) {s : StreetFile}
    {mtime : Mtime (.street s)} {sha256 : Sha256} (hsha : sha256 = s.sha256 mtime.content) :
    Settles crash look torn err (fun _ w' => ∃ sums, w' = w.setMemory here
      { w.memoryOf here with checksums := sums })
      (ask (.cacheChecksum here s mtime sha256)) w := by
  refine (settles_do (o := .cacheChecksum here s mtime sha256) () (fun _ => w.setMemory here
    { w.memoryOf here with
      checksums := Function.update (w.memoryOf here).checksums s (some (mtime, sha256)) })
    hs (fun c => rfl) (fun c => rfl) fun c => ?_).mono (fun _ _ _ h => h) ?_
  · refine hs.setMemory (fun t mtime' sha' h => ?_) (hs.features _)
    dsimp only at h
    by_cases hts : t = s
    · subst hts
      rw [Function.update_self, Option.some.injEq, Prod.mk.injEq] at h
      obtain ⟨rfl, rfl⟩ := h
      exact hsha
    · rw [Function.update_of_ne hts] at h
      exact hs.checksums _ t mtime' sha' h
  · rintro a w' - ⟨-, c, rfl⟩
    exact ⟨_, rfl⟩

theorem settles_cacheFeatures (hs : Sound crash look torn w) {s : StreetFile}
    {mtime : Mtime (.street s)} {refs : List ℕ} {doc : s.Doc} (hdoc : mtime.content = .whole doc)
    (hshows : Shows look (w.memoryOf here).heap refs (s.roads doc)) :
    Settles crash look torn err (fun _ w' => w' = w.setMemory here { w.memoryOf here with
      features := Function.update (w.memoryOf here).features s (some (mtime, refs)) })
      (ask (.cacheFeatures here s mtime refs)) w := by
  refine (settles_do (o := .cacheFeatures here s mtime refs) () (fun _ => w.setMemory here
    { w.memoryOf here with
      features := Function.update (w.memoryOf here).features s (some (mtime, refs)) })
    hs (fun c => rfl) (fun c => rfl) fun c => ?_).mono (fun _ _ _ h => h) ?_
  · refine hs.setMemory (hs.checksums _) fun t mtime' refs' h => ?_
    dsimp only at h
    by_cases hts : t = s
    · subst hts
      rw [Function.update_self, Option.some.injEq, Prod.mk.injEq] at h
      obtain ⟨rfl, rfl⟩ := h
      exact ⟨doc, hdoc, hshows⟩
    · rw [Function.update_of_ne hts] at h
      exact hs.features _ t mtime' refs' h
  · rintro a w' - ⟨-, c, rfl⟩
    rfl

theorem settles_newFeatures (hs : Sound crash look torn w) (roads : List Feature) :
    Settles crash look torn err (fun a w' =>
      a = List.range' (w.memoryOf here).heap.length roads.length ∧
      w' = w.setMemory here
        { w.memoryOf here with heap := (w.memoryOf here).heap ++ roads })
      (ask (.newFeatures here roads)) w := by
  refine (settles_do (o := .newFeatures here roads)
    (List.range' (w.memoryOf here).heap.length roads.length) (fun _ => w.setMemory here
      { w.memoryOf here with heap := (w.memoryOf here).heap ++ roads })
    hs (fun c => rfl) (fun c => rfl) fun c => ?_).mono (fun _ _ _ h => h) ?_
  · refine hs.setMemory (hs.checksums _) fun t mtime refs h => ?_
    obtain ⟨doc, hdoc, hshows⟩ := hs.features _ t mtime refs h
    exact ⟨doc, hdoc, hshows.of_prefix (List.prefix_append ..)⟩
  · rintro a w' - ⟨rfl, c, rfl⟩
    exact ⟨rfl, rfl⟩

theorem settles_addTooltips (hlook : ∀ f t, look (f.withTooltip t) = look f)
    (hs : Sound crash look torn w) (refs : List ℕ) :
    Settles crash look torn err (fun _ w' => w' = w.setMemory here
      { w.memoryOf here with heap := addTooltipsTo refs (w.memoryOf here).heap })
      (ask (.addTooltips here refs)) w := by
  refine (settles_do (o := .addTooltips here refs) () (fun _ => w.setMemory here
      { w.memoryOf here with heap := addTooltipsTo refs (w.memoryOf here).heap })
    hs (fun c => rfl) (fun c => rfl) fun c => ?_).mono (fun _ _ _ h => h) ?_
  · refine hs.setMemory (hs.checksums _) fun t mtime refs' h => ?_
    obtain ⟨doc, hdoc, hshows⟩ := hs.features _ t mtime refs' h
    exact ⟨doc, hdoc, hshows.addTooltips hlook refs⟩
  · rintro a w' - ⟨-, c, rfl⟩
    rfl

/-! ## Copies and the row -/

omit [External] in
/-- A pulled file holds what the stored copy holds, or what it held before. -/
theorem content_pull_cases (d d' : Files) (fs : FileName → Bool) (time : FileName → ℕ)
    (f : FileName) : (d.pull d' fs time).content f = d.content f ∨
      (d.pull d' fs time).content f = d'.content f := by
  rcases Files.pull_cases d d' f fs time with ⟨h, -⟩ | ⟨e, -, he, h⟩
  · exact .inl (by rw [Files.content, h, Files.content])
  · exact .inr (by rw [Files.content, h, Files.content, he]; rfl)

theorem Sound.pulled (hs : Sound crash look torn w) {fs : FileName → Bool} (time : FileName → ℕ)
    (hr : fs .derivedHashes = false) : Sound crash look torn (w.pulled pod fs time) := by
  apply hs.setDisk (pull_other hr)
  intro f hf ht
  rcases content_pull_cases (w.disk pod) w.stored fs time f with h | h
  · exact ⟨some pod, h.symm.trans ht⟩
  · exact ⟨none, h.symm.trans ht⟩

theorem settles_pullDownload (hs : Sound crash look torn w) :
    Settles crash look torn err
      (fun _ w' => ∃ time, w' = w.pulled pod (fun g => g = .street .download) time)
      (ask (.pullFile pod (.street .download))) w := by
  refine settles_ask (o := .pullFile pod (.street .download)) hs (fun c a w' h => ?_)
    (fun c f w' h => ?_) fun c => hs.pulled _ (by simp)
  · obtain ⟨-, rfl⟩ := Prod.mk.inj h
    exact ⟨hs.pulled _ (by simp), c.time, rfl⟩
  · cases h

theorem Sound.withRow (hs : Sound crash look torn w) (row : Option Row) :
    Sound crash look torn { w with row } :=
  hs.of_same (fun place => by cases place <;> rfl)
    (fun place f _ ht => ⟨place, by cases place <;> exact ht⟩) rfl

theorem settles_updateColumns (hs : Sound crash look torn w) (vs : List ColumnValue)
    (hmissing : w.row = none → err) :
    Settles crash look torn err
      (fun _ w' => ∃ r, w.row = some r ∧ w' = { w with row := some (r.putAll vs) })
      (ask (.updateColumns vs)) w := by
  refine settles_ask (o := .updateColumns vs) hs (fun c a w' h => ?_) (fun c f w' h => ?_)
    fun c => hs
  · rcases hr : w.row with _ | r
    · simp [perform, World.require, hr] at h
    · simp only [perform, World.require, hr, Prod.mk.injEq, true_and] at h
      exact ⟨h ▸ hs.withRow _, r, rfl, h.symm⟩
  · rcases hr : w.row with _ | r
    · simp only [perform, World.require, hr, Prod.mk.injEq] at h
      exact ⟨h.2.symm, hmissing hr⟩
    · simp [perform, World.require, hr] at h

theorem settles_updateInput (hs : Sound crash look torn w) (vs : List ColumnValue) :
    Settles crash look torn err
      (fun a w' => (a = true ∧ ∃ r, w.row = some r ∧ r.status = .pending ∧
          w' = { w with row := some (r.putAll vs) }) ∨
        a = false ∧ w' = w ∧ ∀ r, w.row = some r → r.status ≠ .pending)
      (ask (.updateInput vs)) w := by
  refine settles_ask (o := .updateInput vs) hs (fun c a w' h => ?_) (fun c f w' h => ?_)
    fun c => hs
  · rcases hr : w.row with _ | r
    · simp only [perform, World.update, hr, Prod.mk.injEq, Except.ok.injEq] at h
      obtain ⟨rfl, rfl⟩ := h
      exact ⟨hs, .inr ⟨rfl, rfl, fun r h => by cases h⟩⟩
    · simp only [perform, World.update, hr] at h
      split at h
      · rename_i hpending
        obtain ⟨ha, rfl⟩ := Prod.mk.inj h
        exact ⟨hs.withRow _, .inl ⟨(Except.ok.inj ha).symm, r, rfl, of_decide_eq_true hpending,
          rfl⟩⟩
      · rename_i hpending
        obtain ⟨ha, rfl⟩ := Prod.mk.inj h
        refine ⟨hs, .inr ⟨(Except.ok.inj ha).symm, rfl, fun r' hr' => ?_⟩⟩
        obtain rfl := Option.some.inj hr'
        exact fun hp => hpending (decide_eq_true hp)
  · simp only [perform, World.update] at h
    split at h
    · split at h <;> cases h
    · cases h

omit [External] in
theorem content_delete {d : Files} {fs : FileName → Bool} {f : FileName} {b : Bytes f.Doc}
    (h : (d.delete fs).content f = some b) : d.content f = some b := by
  rcases hf : fs f with _ | _
  · rwa [Files.content, Files.delete_other _ _ _ hf] at h
  · rw [Files.content, Files.delete_of _ _ _ hf] at h
    cases h

theorem Sound.deleted (hs : Sound crash look torn w) {fs fs' : FileName → Bool}
    (hr : fs .derivedHashes = false) (hr' : fs' .derivedHashes = false) :
    Sound crash look torn (w.deleted pod fs fs') := by
  have hs' : Sound crash look torn (w.setDisk pod ((w.disk pod).delete fs)) :=
    hs.setDisk (Files.delete_other _ _ _ hr) fun f _ ht => ⟨some pod, content_delete ht⟩
  refine hs'.of_same (fun place => ?_) (fun place f _ ht => ?_) rfl
  · cases place with
    | none => exact Files.delete_other _ _ _ hr'
    | some q => rfl
  · cases place with
    | none => exact ⟨none, content_delete ht⟩
    | some q => exact ⟨some q, ht⟩

theorem settles_deleteLegacyEdits (hs : Sound crash look torn w) :
    Settles crash look torn err
      (fun _ w' => w' = w.deleted pod (· ∈ [.streetEdits]) (· ∈ [.streetEdits]))
      (ask (.deleteFiles pod [.streetEdits])) w := by
  refine settles_ask (o := .deleteFiles pod [.streetEdits]) hs (fun c a w' h => ?_)
    (fun c f w' h => ?_) fun c => hs.deleted rfl rfl
  · obtain ⟨-, rfl⟩ := Prod.mk.inj h
    exact ⟨hs.deleted rfl rfl, rfl⟩
  · cases h

end Cosmonaut
