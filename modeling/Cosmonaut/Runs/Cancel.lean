import Cosmonaut.Runs.RowTask

/-!
# The task a cancel revokes

A cancel revokes the task its job object names, and then ends the run in the row. The object was
loaded earlier, from a row that may have named another run's task, or none.

* `cancels_revoke_iff`: the run ended is the one revoked exactly when the job object was loaded
  after the run's task was named.
* `old_cancel_revokes_another`: a cancel with an old job object.
-/

namespace Cosmonaut

open Interleaving Program

/-- A cancel that ends a run has revoked the task that was named for it. -/
def CancelsRevoke (es : List (Event machine)) : Prop :=
  ∀ l k r l₀ g m n id, es = l ++ k :: r → k.call = answered .markCancelled true →
    CurrentRun l l₀ g m → n ∈ m → n.thread = g.thread → Names n id →
      answered (.revokeJob id) () ∈ callsOf k.thread l

/-- A cancel that ends a run whose task is named has loaded its job after the task was named, and
the row named no other task meanwhile. -/
def FreshCancels (es : List (Event machine)) : Prop :=
  ∀ l k r l₀ g m n id, es = l ++ k :: r → k.call.op = .markCancelled → (∃ a, k.call.ans = .ok a) →
    k.before.running → CurrentRun l l₀ g m → n ∈ m → n.thread = g.thread → Names n id →
      ∃ m₁ m₂ d m₃, m = m₁ ++ n :: (m₂ ++ d :: m₃) ∧ d.thread = k.thread ∧ d.call.op = .loadRow ∧
        ∀ a ∈ m₂, a.after.task = a.before.task

/-- A cancel revokes the run it ends, whatever submits, cancels, resets and workers do. -/
def CancelsAlwaysRevoke [External] : Prop :=
  ∀ (w : World) (requests : List (Site × Request)) (es : List (Event machine))
    (p' : Pool machine Err Unit), (∀ q ∈ requests, q.2.handlesRun = true) → IdsDrawn w →
      Run (serving w requests) es p' → CancelsRevoke es

variable {w : World} {requests : List (Site × Request)} {es : List (Event machine)}
  {p' : Pool machine Err Unit}

/-- A cancel ends a run exactly when there is one. -/
theorem cancelled_iff {k : Event machine} (he : k.Allowed) {done : Bool}
    (hc : k.call = answered .markCancelled done) : done = true ↔ k.before.running := by
  obtain ⟨choice, hafter⟩ := after_of_answered he hc
  simp only [perform] at hafter
  split at hafter
  · rename_i r hr
    split at hafter
    · rename_i hstatus
      simp only [Prod.mk.injEq, Except.ok.injEq] at hafter
      exact ⟨fun _ => ⟨r, hr, hstatus⟩, fun _ => hafter.1.symm⟩
    · rename_i hnot
      simp only [Prod.mk.injEq, Except.ok.injEq] at hafter
      constructor
      · intro h
        rw [← hafter.1] at h
        cases h
      · rintro ⟨r', hr', hstatus⟩
        obtain rfl := Option.some.inj (hr.symm.trans hr')
        exact absurd hstatus hnot
  · rename_i hr
    simp only [Prod.mk.injEq, Except.ok.injEq] at hafter
    constructor
    · intro h
      rw [← hafter.1] at h
      cases h
    · rintro ⟨r', hr', -⟩
      rw [hr] at hr'
      cases hr'

variable [External]

/-- The id of a run's task is new. -/
theorem Names.fresh {n : Event machine} {id : TaskId} (h : Names n id)
    (hrequests : ∀ q ∈ requests, q.2.handlesRun = true) (hids : IdsDrawn w)
    (hrun : Run (serving w requests) es p') (hn : n ∈ es) : w.task ≠ some id := by
  intro htask
  obtain ⟨l, r, rfl⟩ := List.append_of_mem hn
  obtain ⟨l₀, s, r₀, rfl, -, hc, -⟩ := h.sent hrequests hrun
  have hs : s ∈ l₀ ++ s :: r₀ ++ n :: r := by simp
  obtain ⟨hid, -, -⟩ := submitJob_answered (hrun.allowed hs) hc
  obtain rfl := Option.some.inj hid
  obtain ⟨row, hrow, hnamed⟩ := Option.bind_eq_some_iff.1 htask
  have hlt := hids.named row _ hrow hnamed
  exact absurd (nextId_le_of_mem hrun hs) (not_le.2 hlt)

/-- A cancel that revokes what it ends has loaded its job after the run's task was named. -/
theorem CancelsRevoke.freshCancels (h : CancelsRevoke es)
    (hrequests : ∀ q ∈ requests, q.2.handlesRun = true) (hids : IdsDrawn w)
    (hrun : Run (serving w requests) es p') : FreshCancels es := by
  rintro l k r l₀ g m n id rfl hop hok hrunning hcurrent hn hthread hnames
  obtain ⟨done, hc⟩ := answered_of_ok hop hok
  obtain rfl := (cancelled_iff (hrun.allowed (by simp)) hc).2 hrunning
  have hmem := h l k r l₀ g m n id rfl hc hcurrent hn hthread hnames
  have hnl : n ∈ l := by rw [hcurrent.split]; simp [hn]
  have hfresh := hnames.fresh hrequests hids hrun (by simp [hnl])
  obtain ⟨q, hq⟩ := hrun.upto
  -- the revoked task is that of the row the job was loaded from
  obtain ⟨v, hv, hvthread, hrevoke⟩ := mem_callsOf.1 hmem
  obtain ⟨k₁, k₂, rfl⟩ := List.append_of_mem hv
  have horder := event_runOrder hrequests hq
  rw [hrevoke] at horder
  obtain ⟨row, hpast, hrow⟩ := horder
  obtain ⟨x, d, y, rfl, hdthread, hload, -, -⟩ := callsOf_eq_cons hpast
  have hd : d.before.task = some id := by
    rw [World.task, (row_of_loaded (hrun.allowed (by simp)) hload).1]
    exact hrow
  obtain ⟨n', hn', hnames'⟩ := (named_before hrequests hfresh hq).2 x d (y ++ v :: k₂)
    (by simp) hd
  obtain ⟨m₁, m₂, rfl⟩ := List.append_of_mem hn
  have hl : (l₀ ++ g :: m₁) ++ n :: m₂ = x ++ d :: (y ++ v :: k₂) := by
    have hsplit := hcurrent.split
    simp only [List.append_assoc, List.cons_append] at hsplit ⊢
    exact hsplit.symm
  have hq' : Run (serving w requests) ((l₀ ++ g :: m₁) ++ n :: m₂) q := by
    rw [hl]
    simpa using hq
  rcases places hl with ⟨u, rfl, rfl⟩ | ⟨-, rfl, -⟩ | ⟨u, hx, -⟩
  · refine ⟨m₁, u, d, y ++ v :: k₂, rfl, hdthread.trans hvthread, by rw [hload], ?_⟩
    rcases last_change World.task u with hsame | ⟨u₁, a, u₂, rfl, hchange, hsame⟩
    · exact hsame
    -- the last change before the load brings the task back
    have hq'' : Run (serving w requests)
        ((l₀ ++ g :: m₁) ++ n :: (u₁ ++ a :: (u₂ ++ d :: (y ++ v :: k₂)))) q := by
      simpa using hq'
    have hafter : a.after.task = some id := by
      have hchain := hq''.chain.beyond.beyond.upto
      rw [← hd]
      exact (hchain.preserves (f := World.task) fun b hb _ => hsame b hb).symm
    have hbefore := not_restored hrequests hfresh hq'' hnames
      (fun b hb => hcurrent.last b (by simp [hb])) hafter
    exact absurd (hafter.trans hbefore.symm) hchange
  · rw [Names, hload] at hnames
    cases hnames
  · exact absurd hnames' (named_once hrequests hq' hnames (by rw [hx]; simp [hn']))

/-- A cancel that has loaded its job since the run's task was named revokes the run. -/
theorem FreshCancels.cancelsRevoke (h : FreshCancels es)
    (hrequests : ∀ q ∈ requests, q.2.handlesRun = true) (hrun : Run (serving w requests) es p') :
    CancelsRevoke es := by
  rintro l k r l₀ g m n id rfl hc hcurrent hn hthread hnames
  have hop : k.call.op = .markCancelled := by rw [hc]
  have hk : k ∈ l ++ k :: r := by simp
  have hrunning := (cancelled_iff (hrun.allowed hk) hc).1 rfl
  obtain ⟨m₁, m₂, d, m₃, rfl, hdthread, hdop, hsame⟩ := h l k r l₀ g m n id rfl hop
    (by rw [hc]; exact ⟨true, rfl⟩) hrunning hcurrent hn hthread hnames
  obtain rfl := hcurrent.split
  have horder := event_runOrder hrequests hrun
  rw [hc] at horder
  have hsplit : l₀ ++ g :: (m₁ ++ n :: (m₂ ++ d :: m₃)) ++ k :: r =
      (l₀ ++ g :: m₁) ++ n :: (m₂ ++ d :: (m₃ ++ k :: r)) := by simp
  have hd : d ∈ l₀ ++ g :: (m₁ ++ n :: (m₂ ++ d :: m₃)) := by simp
  -- the row the job was loaded from names the task
  have htask : d.before.task = some id := by
    have hchain := hrun.chain
    rw [hsplit] at hchain
    have hkept := hchain.beyond.upto.preserves (f := World.task) fun a ha _ => hsame a ha
    rw [hkept]
    exact hnames.task (hrun.allowed (by simp))
  have hpast : d.call ∈ callsOf k.thread (l₀ ++ g :: (m₁ ++ n :: (m₂ ++ d :: m₃))) :=
    mem_callsOf.2 ⟨d, hd, hdthread, rfl⟩
  have hloaded : ∀ {row : Row}, d.call = answered .loadRow row →
      row.columns.celeryTaskId = some id := by
    intro row hload
    rw [World.task, (row_of_loaded (hrun.allowed (by simp)) hload).1] at htask
    exact htask
  obtain ⟨row, ⟨id', hcalls, hrow⟩ | ⟨hcalls, hrow⟩⟩ := horder
  · rw [hcalls] at hpast ⊢
    rcases List.mem_cons.1 hpast with heq | heq
    · rw [heq] at hdop
      cases hdop
    · have hid := (hloaded (List.mem_singleton.1 heq)).symm.trans hrow
      obtain rfl := Option.some.inj hid
      exact List.mem_cons_self ..
  · rw [hcalls] at hpast
    have hid := (hloaded (List.mem_singleton.1 hpast)).symm.trans hrow
    cases hid

/-- **A cancel revokes the run it ends, exactly when its job was loaded after the run's task was
named.** -/
theorem cancels_revoke_iff (hrequests : ∀ q ∈ requests, q.2.handlesRun = true) (hids : IdsDrawn w)
    (hrun : Run (serving w requests) es p') : CancelsRevoke es ↔ FreshCancels es :=
  ⟨fun h => h.freshCancels hrequests hids hrun, fun h => h.cancelsRevoke hrequests hrun⟩

omit [External]

/-! ## An old job object -/

/-- A tab submits, two tabs cancel, and another one submits again. -/
def cancelTwice : List (Site × Request) :=
  [(⟨0, 0, none⟩, .startComputation), (⟨0, 1, none⟩, .cancelComputation),
    (⟨0, 2, none⟩, .cancelComputation), (⟨0, 3, none⟩, .startComputation)]

def cancelTwicePool : Pool machine Err Unit :=
  let _ := External.plain
  serving (.fresh (.ofModel .blank)) cancelTwice

/-- The task the call has named. -/
def namedTask : Call sig → Option TaskId
  | ⟨.updateColumns [.celeryTaskId (some id)], .ok ()⟩ => some id
  | _ => none

theorem namedTask_iff {n : Event machine} {id : TaskId} :
    namedTask n.call = some id ↔ Names n id := by
  unfold Names
  generalize n.call = c
  constructor
  · intro h
    unfold namedTask at h
    split at h
    · cases h
      rfl
    · cases h
  · rintro rfl
    rfl

/-- Whether the call is a cancel's transition that applied. -/
def cancelledRun : Call sig → Bool
  | ⟨.markCancelled, .ok true⟩ => true
  | _ => false

theorem cancelledRun_iff {c : Call sig} :
    cancelledRun c = true ↔ c = answered .markCancelled true := by
  constructor
  · intro h
    unfold cancelledRun at h
    split at h
    · rfl
    · cases h
  · rintro rfl
    rfl

def Op.revokes (id : TaskId) : Op → Bool
  | .revokeJob id' => id' = id
  | _ => false

def Op.cancels : Op → Bool
  | .markCancelled => true
  | _ => false

def Op.loads : Op → Bool
  | .loadRow => true
  | _ => false

theorem idsDrawn_fresh {row : Row} (h : row.columns.celeryTaskId = none) :
    IdsDrawn (.fresh row) := by
  constructor
  · intro id hid
    cases hid
  · intro r id hr hid
    cases hr
    rw [h] at hid
    cases hid

/-- A submit, and a cancel that has loaded the job afterwards. -/
theorem cancels_revoke_alone :
    let es := (cancelTwicePool.play (usually (List.replicate 10 0 ++ [1, 1, 1]))).1
    (es.any fun e => e.call.op.cancels) = true ∧ CancelsRevoke es := by
  intro es
  let _ := External.plain
  have hrun : Run (serving cancelTwicePool.world cancelTwice) es _ := Run.of_play _ cancelTwicePool
  have hnamed : ∀ i < 13, es[i]?.any (fun e => (namedTask e.call).isSome) = true → i = 9 := by
    decide +kernel
  have hcancel : ∀ i < 13, es[i]?.any (fun e => e.call.op.cancels) = true → i = 12 := by
    decide +kernel
  have hload : es[10]?.map (fun e => (e.thread, e.call.op.loads)) = some (1, true) := by
    decide +kernel
  have hthread : es[12]?.map (fun e => e.thread) = some 1 := by decide +kernel
  have hlength : es.length = 13 := by decide +kernel
  refine ⟨by decide +kernel, (cancels_revoke_iff (by decide) ?_ hrun).2 ?_⟩
  · exact idsDrawn_fresh rfl
  intro l k r l₀ g m n id hes hop _ _ hcurrent hn _ hnames
  obtain ⟨m₁, m₂, rfl⟩ := List.append_of_mem hn
  have hsplit : es = (l₀ ++ g :: m₁) ++ n :: (m₂ ++ k :: r) := by
    rw [hes, hcurrent.split]
    simp
  have hatn : es[(l₀ ++ g :: m₁).length]? = some n := by rw [hsplit]; simp
  have hatk : es[l.length]? = some k := by rw [hes]; simp
  have hi : (l₀ ++ g :: m₁).length = 9 := by
    have hlt := (List.getElem?_eq_some_iff.1 hatn).1
    apply hnamed _ (by omega)
    rw [hatn, Option.any_some, namedTask_iff.2 hnames]
    rfl
  have hk : l.length = 12 := by
    have hlt := (List.getElem?_eq_some_iff.1 hatk).1
    apply hcancel _ (by omega)
    rw [hatk, Option.any_some, hop]
    rfl
  have hm₂ : m₂.length = 2 := by
    have hlen := congrArg List.length hcurrent.split
    simp only [List.length_append, List.length_cons] at hlen hi
    omega
  obtain ⟨d, m₃, rfl⟩ : ∃ d m₃, m₂ = d :: m₃ := by
    cases m₂ with
    | nil => cases hm₂
    | cons d m₃ => exact ⟨d, m₃, rfl⟩
  have hatd : es[10]? = some d := by
    rw [hsplit, List.getElem?_append_right (by omega), hi]
    rfl
  rw [hk] at hatk
  rw [hatd] at hload
  rw [hatk] at hthread
  obtain ⟨hd, hloads⟩ := Prod.mk.inj (Option.some.inj hload)
  refine ⟨m₁, [], d, m₃, rfl, hd.trans (Option.some.inj hthread).symm, ?_, fun a ha => by cases ha⟩
  unfold Op.loads at hloads
  split at hloads
  · assumption
  · cases hloads

/-- The second cancel has loaded the job before the first one ends that run, and goes on when a
later run is under way. -/
def oldJobSchedule : List (ℕ × Choice) :=
  usually (List.replicate 10 0 ++ [1] ++ [2, 2, 2] ++ List.replicate 10 3 ++ [1, 1])

/-- **A cancel revokes an old run's task** and ends the run that computes. -/
theorem old_cancel_revokes_another : ¬ @CancelsAlwaysRevoke External.plain := by
  intro h
  let _ := External.plain
  have hrun : Run (serving cancelTwicePool.world cancelTwice) _ _ :=
    Run.of_play oldJobSchedule cancelTwicePool
  have hcancels := h _ cancelTwice _ _ (by decide) (idsDrawn_fresh rfl) hrun
  have hcancel : (cancelTwicePool.play oldJobSchedule).1[25]?.map
      (fun e => (e.thread, cancelledRun e.call)) = some (1, true) := by
    decide +kernel
  have hnamed : ((cancelTwicePool.play oldJobSchedule).1.take 25)[23]?.map
      (fun e => (e.thread, namedTask e.call)) = some (3, some 1) := by
    decide +kernel
  have hguard : (((cancelTwicePool.play oldJobSchedule).1.take 25).filter
      fun e => wonGuard e.call).getLast?.map (·.thread) = some 3 := by
    decide +kernel
  have hrevokes : ∀ e ∈ (cancelTwicePool.play oldJobSchedule).1, e.thread = 1 →
      e.call.op.revokes 1 = false := by
    decide +kernel
  obtain ⟨k, hk, hkcall⟩ := Option.map_eq_some_iff.1 hcancel
  obtain ⟨hkthread, hkcall⟩ := Prod.mk.inj hkcall
  obtain ⟨n, hn, hncall⟩ := Option.map_eq_some_iff.1 hnamed
  obtain ⟨hnthread, hncall⟩ := Prod.mk.inj hncall
  obtain ⟨g, hg, -⟩ := Option.map_eq_some_iff.1 hguard
  obtain ⟨l₀, g, m, hcurrent⟩ : ∃ l₀ g m,
      CurrentRun ((cancelTwicePool.play oldJobSchedule).1.take 25) l₀ g m := by
    have hmem := List.mem_filter.1 (List.mem_of_getLast? hg)
    exact CurrentRun.exists_of_guard ⟨g, hmem.1, wonGuard_iff.1 hmem.2⟩
  rw [hcurrent.last_guard, Option.map_some, Option.some.injEq] at hguard
  have hnames := namedTask_iff.1 hncall
  have hnm : n ∈ m := by
    have hrun' := hrun
    rw [eq_append_of_getElem hk] at hrun'
    obtain ⟨q, hq⟩ := hrun'.upto
    have hmem := List.mem_of_getElem? hn
    rw [hcurrent.split] at hq hmem
    apply mem_behind_guard (by decide) hq hcurrent.won hmem (hnthread.trans hguard.symm)
    intro past horder
    rw [hnames] at horder
    rcases horder (some 1) (by simp) with ⟨hnone, -⟩ | ⟨-, hwon, -⟩
    · cases hnone
    · exact hwon
  have hmem := hcancels _ k _ l₀ g m n 1 (eq_append_of_getElem hk) (cancelledRun_iff.1 hkcall)
    hcurrent hnm (hnthread.trans hguard.symm) hnames
  obtain ⟨v, hv, hvthread, hrevoke⟩ := mem_callsOf.1 hmem
  have hfalse := hrevokes v (List.mem_of_mem_take hv) (hvthread.trans hkthread)
  rw [hrevoke] at hfalse
  cases hfalse

end Cosmonaut
