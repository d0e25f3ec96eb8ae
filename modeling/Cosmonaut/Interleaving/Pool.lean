import Cosmonaut.Interleaving.Program
import Mathlib.Data.List.Induction
import Mathlib.Order.Defs.PartialOrder

/-!
# Pools of programs

A pool is a world and a list of threads, each a program with what it still has to do. One step of
a pool is one atomic operation of one thread, so a run of a pool is an interleaving of its threads.
A program that starts late is a thread that takes its first step late, and a thread need not run
to its end.

* `Run p es p'`: the pool `p` can become `p'` through the events `es`, in this order.
* `Pool.play` runs a pool along a schedule, so that single interleavings can be evaluated.
* `Run.trail`: what a program's calls always satisfy (`Program.Trail`), the events of its thread
  satisfy in every run.
* `play_erase`: a thread whose steps nobody can see may be left out of the schedule.
-/

namespace Interleaving

variable {S : Signature} {ε α β : Type}

/-- A world and the threads that work on it. -/
structure Pool (M : Machine S) (ε α : Type) where
  world : M.World
  threads : List (Program S ε α)

/-- What one step did: which thread called what, and the worlds around the call. -/
structure Event (M : Machine S) where
  thread : ℕ
  call : Call S
  before : M.World
  after : M.World

variable {M : Machine S}

/-- The event is one the machine allows. -/
def Event.Allowed (e : Event M) : Prop :=
  ∃ c, M.exec e.call.op c e.before = (e.call.ans, e.after)

/-- One step of thread `t`, unless it has ended. -/
def Pool.step (p : Pool M ε α) (t : ℕ) (c : M.Choice) : Option (Event M × Pool M ε α) :=
  match p.threads[t]? with
  | some (.op o k) =>
    let r := M.exec o c p.world
    some (⟨t, ⟨o, r.1⟩, p.world, r.2⟩, ⟨r.2, p.threads.set t (k r.1)⟩)
  | _ => none

theorem Pool.step_cases {p p' : Pool M ε α} {t : ℕ} {c : M.Choice} {e : Event M}
    (h : p.step t c = some (e, p')) :
    ∃ o k, p.threads[t]? = some (.op o k) ∧
      e = ⟨t, ⟨o, (M.exec o c p.world).1⟩, p.world, (M.exec o c p.world).2⟩ ∧
      p' = ⟨(M.exec o c p.world).2, p.threads.set t (k (M.exec o c p.world).1)⟩ := by
  unfold Pool.step at h
  split at h
  · rename_i o k hk
    obtain ⟨rfl, rfl⟩ := Prod.mk.inj (Option.some.inj h)
    exact ⟨o, k, hk, rfl, rfl⟩
  · cases h

theorem Pool.step_op {p : Pool M ε α} {t : ℕ} {o : S.Op}
    {k : Except S.Fault (S.Ans o) → Program S ε α}
    (h : p.threads[t]? = some (.op o k)) (c : M.Choice) :
    p.step t c = some (⟨t, ⟨o, (M.exec o c p.world).1⟩, p.world, (M.exec o c p.world).2⟩,
      ⟨(M.exec o c p.world).2, p.threads.set t (k (M.exec o c p.world).1)⟩) := by
  rw [step, h]

/-- The program has returned or raised. -/
def Program.Ended : Program S ε α → Prop
  | .ret _ | .throw _ => True
  | .op .. => False

instance (p : Program S ε α) : Decidable p.Ended :=
  match p with
  | .ret _ | .throw _ => isTrue trivial
  | .op .. => isFalse id

/-- No thread is in the middle of its program: it has not begun, or it has ended. -/
def Pool.Idle (p p' : Pool M ε α) : Prop :=
  ∀ (t : ℕ) (prog : Program S ε α), p'.threads[t]? = some prog →
    p.threads[t]? = some prog ∨ prog.Ended

/-- The pool `p` becomes the last pool through the events, in this order. -/
inductive Run (p : Pool M ε α) : List (Event M) → Pool M ε α → Prop
  | nil : Run p [] p
  | snoc {es e p' p''} (t : ℕ) (c : M.Choice) :
      Run p es p' → p'.step t c = some (e, p'') → Run p (es ++ [e]) p''

/-- Every state of a run is reached by the run cut off there. -/
theorem Run.upto {p p' : Pool M ε α} {l l' : List (Event M)} (h : Run p (l ++ l') p') :
    ∃ q, Run p l q := by
  induction l' using List.reverseRecOn generalizing p' with
  | nil => exact ⟨p', by simpa using h⟩
  | append_singleton l' e ih =>
    rw [← List.append_assoc] at h
    generalize hes : l ++ l' ++ [e] = es at h
    cases h with
    | nil => simp at hes
    | snoc t c h₀ _ =>
      obtain ⟨rfl, -⟩ := List.append_inj' hes rfl
      exact ih h₀

/-- The pool an event of a run happened in. -/
theorem Run.at {p p' : Pool M ε α} {l l' : List (Event M)} {e : Event M}
    (h : Run p (l ++ e :: l') p') :
    ∃ q c q', Run p l q ∧ q.step e.thread c = some (e, q') := by
  obtain ⟨q, hq⟩ : ∃ q, Run p (l ++ [e]) q := by
    rw [show l ++ e :: l' = (l ++ [e]) ++ l' by simp] at h
    exact h.upto
  generalize hes : l ++ [e] = es at hq
  cases hq with
  | nil => simp at hes
  | @snoc es' e' q' q'' u c hr hst =>
    obtain ⟨rfl, hee⟩ := List.append_inj' hes rfl
    obtain rfl := List.singleton_inj.1 hee
    obtain ⟨o, k, -, he, -⟩ := Pool.step_cases hst
    refine ⟨q', c, q, hr, ?_⟩
    rwa [show e.thread = u by rw [he]]

theorem eq_append_of_getElem {es : List (Event M)} {i : ℕ} {e : Event M} (h : es[i]? = some e) :
    es = es.take i ++ e :: es.drop (i + 1) := by
  obtain ⟨hi, rfl⟩ := List.getElem?_eq_some_iff.1 h
  rw [← List.drop_eq_getElem_cons hi, List.take_append_drop]

theorem Run.at_getElem {p p' : Pool M ε α} {es : List (Event M)} {i : ℕ} {e : Event M}
    (h : Run p es p') (he : es[i]? = some e) :
    ∃ q c q', Run p (es.take i) q ∧ q.step e.thread c = some (e, q') := by
  rw [eq_append_of_getElem he] at h
  exact h.at

/-! ## The worlds of a run -/

/-- The events lead from world to world, each starting where the last one ended. -/
def Chain : M.World → List (Event M) → M.World → Prop
  | w, [], w' => w = w'
  | w, e :: es, w' => e.before = w ∧ e.Allowed ∧ Chain e.after es w'

theorem chain_append {w w' : M.World} {l l' : List (Event M)} :
    Chain w (l ++ l') w' ↔ ∃ m, Chain w l m ∧ Chain m l' w' := by
  induction l generalizing w with
  | nil => simp [Chain]
  | cons e l ih => simp only [List.cons_append, Chain, ih]; tauto

theorem Run.chain {p p' : Pool M ε α} {es : List (Event M)} (h : Run p es p') :
    Chain p.world es p'.world := by
  induction h with
  | nil => rfl
  | snoc t c _ hst ih =>
    obtain ⟨o, k, -, rfl, rfl⟩ := Pool.step_cases hst
    exact chain_append.2 ⟨_, ih, rfl, ⟨c, rfl⟩, rfl⟩

theorem Chain.allowed {w w' : M.World} {es : List (Event M)} (h : Chain w es w') {e : Event M}
    (he : e ∈ es) : e.Allowed := by
  induction es generalizing w with
  | nil => cases he
  | cons a l ih =>
    rcases List.mem_cons.1 he with rfl | he
    · exact h.2.1
    · exact ih h.2.2 he

theorem Run.allowed {p p' : Pool M ε α} {es : List (Event M)} (h : Run p es p') {e : Event M}
    (he : e ∈ es) : e.Allowed := h.chain.allowed he

/-- What every event of a stretch keeps, holds at its end. -/
theorem Chain.keeps {I : M.World → Prop} {w w' : M.World} {es : List (Event M)}
    (h : Chain w es w') (hw : I w) (hI : ∀ e ∈ es, e.Allowed → I e.before → I e.after) : I w' := by
  induction es generalizing w with
  | nil => exact (show w = w' from h) ▸ hw
  | cons a l ih =>
    obtain ⟨rfl, ha, hl⟩ := h
    exact ih hl (hI a (by simp) ha hw) fun e he => hI e (by simp [he])

/-- The rule of invariants, with all earlier worlds in view. -/
theorem Chain.keeps_past {I : M.World → Prop} {w w' : M.World} {es : List (Event M)}
    (h : Chain w es w') (h₀ : I w)
    (hs : ∀ (j : ℕ) (e : Event M), es[j]? = some e → e.Allowed →
      (∀ (i : ℕ) (a : Event M), i ≤ j → es[i]? = some a → I a.before) → I e.after) :
    (∀ e ∈ es, I e.before ∧ I e.after) ∧ I w' := by
  induction es using List.reverseRecOn generalizing w' with
  | nil =>
    obtain rfl : w = w' := h
    exact ⟨(fun e he => by cases he), h₀⟩
  | append_singleton es e ih =>
    obtain ⟨m, hes, rfl, he, rfl⟩ := chain_append.1 h
    have hleft : ∀ {j : ℕ} {a : Event M}, es[j]? = some a → (es ++ [e])[j]? = some a :=
      fun {j a} ha => by
      rw [List.getElem?_append_left (List.getElem?_eq_some_iff.1 ha).1, ha]
    obtain ⟨hall, hbefore⟩ := ih hes fun j a ha hallowed hpast =>
      hs j a (hleft ha) hallowed fun i b hij hb => hpast i b hij (by
        rw [List.getElem?_append_left] at hb
        · exact hb
        · have := (List.getElem?_eq_some_iff.1 ha).1
          omega)
    have hlast : ∀ (i : ℕ) (a : Event M), (es ++ [e])[i]? = some a → I a.before := by
      intro i a ha
      rcases List.mem_append.1 (List.mem_of_getElem? ha) with hmem | hmem
      · exact (hall a hmem).1
      · rw [List.mem_singleton.1 hmem]
        exact hbefore
    have hafter : I e.after := hs es.length e (by simp) he fun i a _ ha => hlast i a ha
    refine ⟨fun a ha => ?_, hafter⟩
    rcases List.mem_append.1 ha with ha | ha
    · exact hall a ha
    · rw [List.mem_singleton.1 ha]
      exact ⟨hbefore, hafter⟩

/-- What no event of a stretch changes, is the same at its two ends. -/
theorem Chain.preserves {f : M.World → β} {w w' : M.World} {es : List (Event M)}
    (h : Chain w es w') (hf : ∀ e ∈ es, e.Allowed → f e.after = f e.before) : f w' = f w :=
  h.keeps (I := fun v => f v = f w) rfl fun e he ha hI => (hf e he ha).trans hI

/-- What no event of a stretch lowers, is at least as high at its end. -/
theorem Chain.mono [Preorder β] {f : M.World → β} {w w' : M.World} {es : List (Event M)}
    (h : Chain w es w') (hf : ∀ e ∈ es, e.Allowed → f e.before ≤ f e.after) : f w ≤ f w' :=
  h.keeps (I := fun v => f w ≤ f v) le_rfl fun e he ha hI =>
    le_trans hI (hf e he ha)

/-- The stretch up to an event. -/
theorem Chain.upto {w w' : M.World} {l r : List (Event M)} {e : Event M}
    (h : Chain w (l ++ e :: r) w') : Chain w l e.before := by
  obtain ⟨m, hl, rfl, -⟩ := chain_append.1 h
  exact hl

/-- The stretch after an event. -/
theorem Chain.beyond {w w' : M.World} {l r : List (Event M)} {e : Event M}
    (h : Chain w (l ++ e :: r) w') : Chain e.after r w' := by
  obtain ⟨m, -, -, -, hr⟩ := chain_append.1 h
  exact hr

/-- Of two places in a list one comes first, unless they are the same. -/
theorem places {l₁ l₂ r₁ r₂ : List β} {a b : β} (h : l₁ ++ a :: r₁ = l₂ ++ b :: r₂) :
    (∃ u, l₂ = l₁ ++ a :: u ∧ r₁ = u ++ b :: r₂) ∨ (l₁ = l₂ ∧ a = b ∧ r₁ = r₂) ∨
      ∃ u, l₁ = l₂ ++ b :: u ∧ r₂ = u ++ a :: r₁ := by
  rcases List.append_eq_append_iff.1 h with ⟨u, hl, hr⟩ | ⟨u, hl, hr⟩
  · cases u with
    | nil =>
      obtain ⟨rfl, rfl⟩ := List.cons.inj hr
      exact .inr (.inl ⟨by simpa using hl.symm, rfl, rfl⟩)
    | cons c u =>
      obtain ⟨rfl, rfl⟩ := List.cons.inj hr
      exact .inl ⟨u, hl, rfl⟩
  · cases u with
    | nil =>
      obtain ⟨rfl, rfl⟩ := List.cons.inj hr
      exact .inr (.inl ⟨by simpa using hl, rfl, rfl⟩)
    | cons c u =>
      obtain ⟨rfl, rfl⟩ := List.cons.inj hr
      exact .inr (.inr ⟨u, hl, rfl⟩)

/-- The last event of a kind, unless there is none. -/
theorem last_such (P : Event M → Prop) (es : List (Event M)) :
    (∀ e ∈ es, ¬P e) ∨ ∃ l e r, es = l ++ e :: r ∧ P e ∧ ∀ e' ∈ r, ¬P e' := by
  induction es using List.reverseRecOn with
  | nil => exact .inl fun e he => by cases he
  | append_singleton es e ih =>
    by_cases he : P e
    · exact .inr ⟨es, e, [], rfl, he, fun a ha => by cases ha⟩
    · rcases ih with h | ⟨l, a, r, rfl, ha, hr⟩
      · refine .inl fun a ha => ?_
        rcases List.mem_append.1 ha with ha | ha
        · exact h a ha
        · rwa [List.mem_singleton.1 ha]
      · refine .inr ⟨l, a, r ++ [e], by simp, ha, fun b hb => ?_⟩
        rcases List.mem_append.1 hb with hb | hb
        · exact hr b hb
        · rwa [List.mem_singleton.1 hb]

/-- The last event that changed a part of the world, unless none has. -/
theorem last_change (f : M.World → β) (es : List (Event M)) :
    (∀ e ∈ es, f e.after = f e.before) ∨
      ∃ l e r, es = l ++ e :: r ∧ f e.after ≠ f e.before ∧ ∀ e' ∈ r, f e'.after = f e'.before := by
  simpa only [ne_eq, not_not] using last_such (fun e : Event M => f e.after ≠ f e.before) es

/-- Between two positions something changes last, or nothing does. -/
theorem last_change_between (f : M.World → β) (es : List (Event M)) (i j : ℕ) :
    (∀ n d, i < n → n < j → es[n]? = some d → f d.after = f d.before) ∨
      ∃ m c, i < m ∧ m < j ∧ es[m]? = some c ∧ f c.after ≠ f c.before ∧
        ∀ n d, m < n → n < j → es[n]? = some d → f d.after = f d.before := by
  have hmid : ∀ k, i + 1 + k < j → ((es.take j).drop (i + 1))[k]? = es[i + 1 + k]? := fun k hk => by
    rw [List.getElem?_drop, List.getElem?_take_of_lt hk]
  rcases last_change f ((es.take j).drop (i + 1)) with hno | ⟨l, c, r, heq, hne, hr⟩
  · refine .inl fun n d hin hnj hd => hno d (List.mem_iff_getElem?.2 ⟨n - (i + 1), ?_⟩)
    rw [hmid _ (by omega), show i + 1 + (n - (i + 1)) = n by omega, hd]
  · have hlt : i + 1 + l.length < j := by
      have hlength := congrArg List.length heq
      simp only [List.length_drop, List.length_take, List.length_append, List.length_cons]
        at hlength
      omega
    refine .inr ⟨i + 1 + l.length, c, by omega, hlt, ?_, hne, fun n d hmn hnj hd => hr d ?_⟩
    · rw [← hmid _ hlt, heq]
      simp
    · refine List.mem_iff_getElem?.2 ⟨n - (i + 1) - (l.length + 1), ?_⟩
      have hn := hmid (n - (i + 1)) (by omega)
      rw [heq, show i + 1 + (n - (i + 1)) = n by omega, hd, List.getElem?_append_right (by omega),
        show n - (i + 1) - l.length = n - (i + 1) - (l.length + 1) + 1 by omega,
        List.getElem?_cons_succ] at hn
      exact hn

/-- What the events between two positions keep up, holds before the latter if after the former. -/
theorem Chain.keeps_between {I : M.World → Prop} {w w' : M.World} {es : List (Event M)}
    (h : Chain w es w') {i k : ℕ} {a b : Event M} (hi : es[i]? = some a) (hk : es[k]? = some b)
    (hik : i < k) (ha : I a.after)
    (hI : ∀ (m : ℕ) (e : Event M), i < m → m < k → es[m]? = some e → e.Allowed →
      I e.before → I e.after) : I b.before := by
  rw [eq_append_of_getElem hk] at h
  have hi' : (es.take k)[i]? = some a := by rw [List.getElem?_take_of_lt hik, hi]
  have hupto := h.upto
  rw [eq_append_of_getElem hi'] at hupto
  apply hupto.beyond.keeps ha
  intro e he
  obtain ⟨m, hm⟩ := List.mem_iff_getElem?.1 he
  rw [List.getElem?_drop] at hm
  have hmk : i + 1 + m < k := by
    by_contra hle
    rw [List.getElem?_take_eq_none (by omega)] at hm
    cases hm
  rw [List.getElem?_take_of_lt hmk] at hm
  exact hI (i + 1 + m) e (by omega) hmk hm

/-- What no event between two positions changes, is the same after the one and before the other. -/
theorem Chain.preserves_between {f : M.World → β} {w w' : M.World} {es : List (Event M)}
    (h : Chain w es w') {i k : ℕ} {a b : Event M} (hi : es[i]? = some a) (hk : es[k]? = some b)
    (hik : i < k)
    (hf : ∀ m e, i < m → m < k → es[m]? = some e → e.Allowed → f e.after = f e.before) :
    f b.before = f a.after :=
  h.keeps_between (I := fun w => f w = f a.after) hi hk hik rfl fun m e him hmk hm he hbefore =>
    (hf m e him hmk hm he).trans hbefore

/-- What is before an event is what an earlier event left, or the last change since then. -/
theorem Chain.last_change_between {w w' : M.World} {es : List (Event M)} (h : Chain w es w')
    {i j : ℕ} {a b : Event M} (hi : es[i]? = some a) (hj : es[j]? = some b) (hij : i < j)
    (f : M.World → β) : f b.before = f a.after ∨
      ∃ m c, i < m ∧ m < j ∧ es[m]? = some c ∧ f c.after ≠ f c.before ∧
        (∀ n d, m < n → n < j → es[n]? = some d → f d.after = f d.before) ∧
        f b.before = f c.after := by
  rcases Interleaving.last_change_between f es i j with hno | ⟨m, c, him, hmj, hc, hne, hlast⟩
  · exact .inl (h.preserves_between hi hj hij fun n d hin hnj hd _ => hno n d hin hnj hd)
  · exact .inr ⟨m, c, him, hmj, hc, hne, hlast,
      h.preserves_between hc hj hmj fun n d hmn hnj hd _ => hlast n d hmn hnj hd⟩

/-! ## The events of one thread -/

/-- The calls thread `t` has made, the last one first. -/
def callsOf (t : ℕ) (es : List (Event M)) : List (Call S) :=
  ((es.filter fun e => e.thread = t).map Event.call).reverse

@[simp] theorem callsOf_nil (t : ℕ) : callsOf t ([] : List (Event M)) = [] := rfl

theorem callsOf_snoc_self {t : ℕ} {es : List (Event M)} {e : Event M} (h : e.thread = t) :
    callsOf t (es ++ [e]) = e.call :: callsOf t es := by
  simp [callsOf, h]

theorem callsOf_snoc_other {t : ℕ} {es : List (Event M)} {e : Event M} (h : e.thread ≠ t) :
    callsOf t (es ++ [e]) = callsOf t es := by
  simp [callsOf, h]

theorem callsOf_append (t : ℕ) (l l' : List (Event M)) :
    callsOf t (l ++ l') = callsOf t l' ++ callsOf t l := by
  simp [callsOf]

/-- The first call of a thread stays its first call. -/
theorem getLast?_callsOf_take {t i j : ℕ} (hij : i ≤ j) {es : List (Event M)} {c : Call S}
    (h : (callsOf t (es.take i)).getLast? = some c) :
    (callsOf t (es.take j)).getLast? = some c := by
  obtain ⟨k, rfl⟩ := Nat.exists_eq_add_of_le hij
  rw [List.take_add, callsOf_append, List.getLast?_append, h]
  rfl

theorem mem_callsOf {t : ℕ} {es : List (Event M)} {c : Call S} :
    c ∈ callsOf t es ↔ ∃ e ∈ es, e.thread = t ∧ e.call = c := by
  simp [callsOf, and_assoc]

/-- The event of one of a thread's calls, and what the thread has called before and after it. -/
theorem callsOf_eq_append {t : ℕ} {es : List (Event M)} {later past : List (Call S)} {c : Call S}
    (h : callsOf t es = later ++ c :: past) :
    ∃ l e r, es = l ++ e :: r ∧ e.thread = t ∧ e.call = c ∧ callsOf t l = past ∧
      callsOf t r = later := by
  induction es using List.reverseRecOn generalizing later with
  | nil => simp at h
  | append_singleton es e ih =>
    by_cases he : e.thread = t
    · rw [callsOf_snoc_self he] at h
      cases later with
      | nil =>
        obtain ⟨hc, hpast⟩ := List.cons.inj h
        exact ⟨es, e, [], rfl, he, hc, hpast, rfl⟩
      | cons a later =>
        obtain ⟨rfl, hpast⟩ := List.cons.inj h
        obtain ⟨l, b, r, rfl, hb, hc, hpast, hr⟩ := ih hpast
        exact ⟨l, b, r ++ [e], by simp, hb, hc, hpast, by rw [callsOf_snoc_self he, hr]⟩
    · rw [callsOf_snoc_other he] at h
      obtain ⟨l, b, r, rfl, hb, hc, hpast, hr⟩ := ih h
      exact ⟨l, b, r ++ [e], by simp, hb, hc, hpast, by rw [callsOf_snoc_other he, hr]⟩

/-- The event of a thread's last call. -/
theorem callsOf_eq_cons {t : ℕ} {es : List (Event M)} {c : Call S} {past : List (Call S)}
    (h : callsOf t es = c :: past) :
    ∃ l e r, es = l ++ e :: r ∧ e.thread = t ∧ e.call = c ∧ callsOf t l = past ∧
      ∀ a ∈ r, a.thread ≠ t := by
  have h' : callsOf t es = [] ++ c :: past := h
  obtain ⟨l, e, r, hes, he, hc, hpast, hr⟩ := callsOf_eq_append h'
  refine ⟨l, e, r, hes, he, hc, hpast, fun a ha hthread => ?_⟩
  have hmem : a.call ∈ callsOf t r := mem_callsOf.2 ⟨a, ha, hthread, rfl⟩
  rw [hr] at hmem
  cases hmem

variable {P : List (Call S) → Call S → Prop} {Q : List (Call S) → Except ε α → Prop}

/-- What thread `t` still has to do satisfies `P` and `Q` after what it has done. -/
theorem Run.residual {p p' : Pool M ε α} {es : List (Event M)} (h : Run p es p') {t : ℕ}
    {prog : Program S ε α} (ht : p.threads[t]? = some prog) (hp : prog.Trail P Q []) :
    ∃ rest, p'.threads[t]? = some rest ∧ rest.Trail P Q (callsOf t es) := by
  induction h with
  | nil => exact ⟨prog, ht, hp⟩
  | @snoc es e q q' u c _ hst ih =>
    obtain ⟨rest, hr, hrest⟩ := ih
    obtain ⟨o, k, hk, rfl, rfl⟩ := Pool.step_cases hst
    by_cases hut : u = t
    · subst hut
      obtain rfl := Option.some.inj (hk.symm.trans hr)
      have hlt : u < q.threads.length := (List.getElem?_eq_some_iff.1 hk).1
      refine ⟨_, List.getElem?_set_self hlt, ?_⟩
      rw [callsOf_snoc_self (by rfl)]
      exact (hrest _).2
    · refine ⟨rest, by rw [List.getElem?_set_ne hut]; exact hr, ?_⟩
      rwa [callsOf_snoc_other hut]

/-- **A thread's events satisfy what its program's calls satisfy**, in every run. -/
theorem Run.trail {p p' : Pool M ε α} {l l' : List (Event M)} {e : Event M}
    (h : Run p (l ++ e :: l') p') {prog : Program S ε α} (ht : p.threads[e.thread]? = some prog)
    (hp : prog.Trail P Q []) : P (callsOf e.thread l) e.call := by
  obtain ⟨q, c, q', hr, hst⟩ := h.at
  obtain ⟨rest, hrest, htr⟩ := hr.residual ht hp
  obtain ⟨o, k, hk, he, -⟩ := Pool.step_cases hst
  obtain rfl := Option.some.inj (hk.symm.trans hrest)
  rw [show e.call = ⟨o, (M.exec o c q.world).1⟩ by rw [he]]
  exact (htr _).1

/-- What a thread has called by the time it ends. -/
theorem Run.ended {p p' : Pool M ε α} {es : List (Event M)} (h : Run p es p') {t : ℕ}
    {prog rest : Program S ε α} (ht : p.threads[t]? = some prog) (hp : prog.Trail P Q [])
    (hrest : p'.threads[t]? = some rest) (hend : rest.Ended) :
    ∃ r, rest = .ofExcept r ∧ Q (callsOf t es) r := by
  obtain ⟨rest', hrest', htrail⟩ := h.residual ht hp
  obtain rfl := Option.some.inj (hrest.symm.trans hrest')
  cases rest with
  | ret a => exact ⟨.ok a, rfl, htrail⟩
  | throw e => exact ⟨.error e, rfl, htrail⟩
  | op o k => cases hend

/-- `Run.trail` for the step at a position. -/
theorem Run.trail_getElem {p p' : Pool M ε α} {es : List (Event M)} {i : ℕ} {e : Event M}
    (h : Run p es p') (he : es[i]? = some e) {prog : Program S ε α}
    (ht : p.threads[e.thread]? = some prog) (hp : prog.Trail P Q []) :
    P (callsOf e.thread (es.take i)) e.call := by
  rw [eq_append_of_getElem he] at h
  exact h.trail ht hp

/-- What a thread has called before a position. -/
theorem mem_callsOf_take {t j : ℕ} {es : List (Event M)} {c : Call S} :
    c ∈ callsOf t (es.take j) ↔ ∃ i e, i < j ∧ es[i]? = some e ∧ e.thread = t ∧ e.call = c := by
  rw [mem_callsOf]
  constructor
  · rintro ⟨e, he, hthread, hcall⟩
    obtain ⟨i, hi⟩ := List.mem_iff_getElem?.1 he
    have hij : i < j := by
      by_contra hle
      rw [List.getElem?_take_eq_none (by omega)] at hi
      cases hi
    rw [List.getElem?_take_of_lt hij] at hi
    exact ⟨i, e, hij, hi, hthread, hcall⟩
  · rintro ⟨i, e, hij, hi, hthread, hcall⟩
    exact ⟨e, List.mem_of_getElem? (by rw [List.getElem?_take_of_lt hij, hi]), hthread, hcall⟩

theorem Program.Always.trail {A : Call S → Prop} {prog : Program S ε α} (h : prog.Always A)
    (past : List (Call S)) : prog.Trail (fun _ c => A c) (fun _ _ => True) past := by
  induction prog generalizing past with
  | ret a => trivial
  | throw e => trivial
  | op o k ih => exact fun r => ⟨(h r).1, ih r (h r).2 _⟩

/-- A program whose calls keep up what holds of the calls made so far. -/
theorem Program.Always.trail_keeps {A : Call S → Prop} {P : List (Call S) → Call S → Prop}
    {I : List (Call S) → Prop} {prog : Program S ε α} {past : List (Call S)} (h : prog.Always A)
    (hP : ∀ past c, I past → A c → P past c) (hI : ∀ past c, A c → I past → I (c :: past))
    (hpast : I past) : prog.Trail P (fun past _ => I past) past := by
  induction prog generalizing past with
  | ret a => exact hpast
  | throw e => exact hpast
  | op o k ih => exact fun r => ⟨hP _ _ hpast (h r).1, ih r (h r).2 (hI _ _ (h r).1 hpast)⟩

/-- A program that makes its calls after those of `past`, whatever else was called meanwhile. -/
theorem Program.Always.trail_after {A : Call S → Prop} {P : List (Call S) → Call S → Prop}
    {prog : Program S ε α} {past₀ past : List (Call S)} (h : prog.Always A)
    (hA : ∀ past c, past₀ ⊆ past → A c → P past c) (hpast : past₀ ⊆ past) :
    prog.Trail P (fun past _ => past₀ ⊆ past) past :=
  h.trail_keeps hA (fun _ _ _ hsub => List.subset_cons_of_subset _ hsub) hpast

/-- A program whose beginning satisfies `P` whatever came before. -/
theorem Program.Always.trail_bind {A : Call S → Prop} {P : List (Call S) → Call S → Prop}
    {p : Program S ε β} {f : β → Program S ε α} (hp : p.Always A)
    (hA : ∀ past c, A c → P past c) (hf : ∀ a past, (f a).Trail P (fun _ _ => True) past)
    (past : List (Call S)) : (p >>= f).Trail P (fun _ _ => True) past := by
  exact ((hp.trail past).mono hA fun _ _ h => h).seq hf

/-- A program whose calls all satisfy `A`, as those before it did. -/
theorem Program.Always.trail_all {A : Call S → Prop} {P : List (Call S) → Call S → Prop}
    {prog : Program S ε α} {past : List (Call S)} (h : prog.Always A) (hpast : ∀ c ∈ past, A c)
    (hA : ∀ past c, (∀ a ∈ past, A a) → A c → P past c) :
    prog.Trail P (fun past _ => ∀ c ∈ past, A c) past :=
  h.trail_keeps hA (fun _ _ hc hpast => List.forall_mem_cons.2 ⟨hc, hpast⟩) hpast

/-- A beginning whose calls all satisfy `A`, as those before it did: what comes next has them in
view. -/
theorem Program.Always.trail_bind_all {A : Call S → Prop} {P : List (Call S) → Call S → Prop}
    {p : Program S ε β} {f : β → Program S ε α} {past : List (Call S)} (hp : p.Always A)
    (hpast : ∀ c ∈ past, A c) (hA : ∀ past c, (∀ a ∈ past, A a) → A c → P past c)
    (hf : ∀ a past, (∀ c ∈ past, A c) → (f a).Trail P (fun _ _ => True) past) :
    (p >>= f).Trail P (fun _ _ => True) past := by
  refine (Program.trail_bind p f).2 ((hp.trail_all hpast hA).mono (fun _ _ h => h) ?_)
  intro past r h
  cases r with
  | ok a => exact hf a past h
  | error e => trivial

theorem Program.Raises.trail {R : ε → Prop} {prog : Program S ε α} (h : prog.Raises R)
    (past : List (Call S)) :
    prog.Trail (fun _ _ => True) (fun _ r => ∀ e, r = .error e → R e) past := by
  induction prog generalizing past with
  | ret a => exact fun _ he => by cases he
  | throw e => exact fun _ he => by cases he; exact h
  | op o k ih => exact fun r => ⟨trivial, ih r (h r) _⟩

/-- A program whose first call is `o`, and whose later calls satisfy what `o` answered calls for. -/
theorem Program.trail_call_bind {raise : S.Fault → ε} {o : S.Op} {A : S.Ans o → Call S → Prop}
    {f : S.Ans o → Program S ε α} (h : ∀ a, (f a).Always (A a)) :
    (Program.call raise o >>= f).Trail
      (fun past c => c.op = o ∨ ∃ a, past.getLast? = some ⟨o, .ok a⟩ ∧ A a c)
      (fun _ _ => True) [] := by
  intro r
  refine ⟨.inl rfl, ?_⟩
  cases r with
  | error e => trivial
  | ok a =>
    refine Program.Trail.mono ((h a).trail_keeps (I := fun past => past.getLast? = some ⟨o, .ok a⟩)
      (fun past c hlast hc => .inr ⟨a, hlast, hc⟩) (fun past c _ hlast => ?_) rfl)
      (fun _ _ h => h) fun _ _ _ => trivial
    rw [List.getLast?_cons, hlast]
    rfl

theorem Run.always {A : Call S → Prop} {p p' : Pool M ε α} {es : List (Event M)} {e : Event M}
    (h : Run p es p') (he : e ∈ es) {prog : Program S ε α}
    (ht : p.threads[e.thread]? = some prog) (hp : prog.Always A) : A e.call := by
  obtain ⟨l, l', rfl⟩ := List.append_of_mem he
  exact h.trail ht (hp.trail [])

/-- Every event belongs to a thread of the pool the run started from. -/
theorem Run.thread_mem {p p' : Pool M ε α} {es : List (Event M)} (h : Run p es p') {e : Event M}
    (he : e ∈ es) : ∃ prog, p.threads[e.thread]? = some prog := by
  have hlen : ∀ {es p'}, Run p es p' → p'.threads.length = p.threads.length := by
    intro es p' h
    induction h with
    | nil => rfl
    | snoc t c _ hst ih =>
      obtain ⟨o, k, -, -, rfl⟩ := Pool.step_cases hst
      simpa using ih
  induction h with
  | nil => cases he
  | snoc t c hr hst ih =>
    rcases List.mem_append.1 he with he | he
    · exact ih he
    · obtain ⟨o, k, hk, rfl, -⟩ := Pool.step_cases hst
      rw [List.mem_singleton.1 he]
      have := (List.getElem?_eq_some_iff.1 hk).1
      rw [hlen hr] at this
      exact ⟨_, List.getElem?_eq_getElem this⟩

/-! ## Schedules -/

/-- Run a pool along a schedule: which thread steps next, and with what choice. An entry for a
thread that has ended is skipped. -/
def Pool.play : List (ℕ × M.Choice) → Pool M ε α → List (Event M) × Pool M ε α
  | [], p => ([], p)
  | (t, c) :: s, p =>
    match p.step t c with
    | none => play s p
    | some (e, p') => (e :: (play s p').1, (play s p').2)

theorem Pool.play_none {s : List (ℕ × M.Choice)} {p : Pool M ε α} {t : ℕ} {c : M.Choice}
    (h : p.step t c = none) : p.play ((t, c) :: s) = p.play s := by
  rw [play, h]

theorem Pool.play_some {s : List (ℕ × M.Choice)} {p p' : Pool M ε α} {t : ℕ} {c : M.Choice}
    {e : Event M} (h : p.step t c = some (e, p')) :
    p.play ((t, c) :: s) = (e :: (p'.play s).1, (p'.play s).2) := by
  rw [play, h]

theorem Run.cons {p p' p'' : Pool M ε α} {e : Event M} {es : List (Event M)} {t : ℕ} {c : M.Choice}
    (hst : p.step t c = some (e, p')) (h : Run p' es p'') : Run p (e :: es) p'' := by
  induction h with
  | nil =>
    change Run p ([] ++ [e]) p'
    exact .snoc t c .nil hst
  | @snoc es e' q q' u d _ hst' ih =>
    change Run p ((e :: es) ++ [e']) q'
    exact .snoc u d ih hst'

theorem Run.of_play (s : List (ℕ × M.Choice)) (p : Pool M ε α) :
    Run p (p.play s).1 (p.play s).2 := by
  induction s generalizing p with
  | nil => exact .nil
  | cons tc s ih =>
    obtain ⟨t, c⟩ := tc
    rcases hst : p.step t c with _ | ⟨e, p'⟩
    · rw [Pool.play_none hst]
      exact ih p
    · rw [Pool.play_some hst]
      exact .cons hst (ih p')

theorem Pool.play_append (s s' : List (ℕ × M.Choice)) (p : Pool M ε α) :
    p.play (s ++ s') = ((p.play s).1 ++ ((p.play s).2.play s').1, ((p.play s).2.play s').2) := by
  induction s generalizing p with
  | nil => rfl
  | cons m s ih =>
    obtain ⟨t, c⟩ := m
    rw [List.cons_append]
    rcases hst : p.step t c with _ | ⟨e, p'⟩
    · rw [play_none hst, play_none hst, ih]
    · rw [play_some hst, play_some hst, ih]
      rfl

/-- An event happened at some entry of the schedule, between the two worlds played up to there. -/
theorem Pool.mem_play {s : List (ℕ × M.Choice)} {p : Pool M ε α} {e : Event M}
    (h : e ∈ (p.play s).1) :
    ∃ s₁ c s₂, s = s₁ ++ (e.thread, c) :: s₂ ∧ (p.play s₁).2.world = e.before ∧
      (p.play (s₁ ++ [(e.thread, c)])).2.world = e.after := by
  induction s generalizing p with
  | nil => cases h
  | cons m s ih =>
    obtain ⟨t, c⟩ := m
    rcases hst : p.step t c with _ | ⟨e', p'⟩
    · rw [play_none hst] at h
      obtain ⟨s₁, d, s₂, rfl, hb, ha⟩ := ih h
      refine ⟨(t, c) :: s₁, d, s₂, rfl, ?_, ?_⟩
      · rw [play_none hst, hb]
      · rw [List.cons_append, play_none hst, ha]
    · rw [play_some hst] at h
      rcases List.mem_cons.1 h with rfl | h
      · obtain ⟨o, k, -, rfl, rfl⟩ := step_cases hst
        refine ⟨[], c, s, rfl, rfl, ?_⟩
        rw [List.nil_append, play_some hst]
        rfl
      · obtain ⟨s₁, d, s₂, rfl, hb, ha⟩ := ih h
        refine ⟨(t, c) :: s₁, d, s₂, rfl, ?_, ?_⟩
        · rw [play_some hst, hb]
        · rw [List.cons_append, play_some hst, ha]

/-! ## Leaving a thread out -/

/-- The operation cannot tell related worlds apart and keeps them related. -/
def Respects (M : Machine S) (R : M.World → M.World → Prop) (o : S.Op) : Prop :=
  ∀ c w w', R w w' → (M.exec o c w).1 = (M.exec o c w').1 ∧ R (M.exec o c w).2 (M.exec o c w').2

/-- The schedule without the steps of thread `t`. -/
def erase (t : ℕ) (s : List (ℕ × M.Choice)) : List (ℕ × M.Choice) := s.filter fun m => m.1 ≠ t

/-- Two pools that differ in nothing the threads other than `t` can see. -/
structure AgreeBut (R : M.World → M.World → Prop) (t : ℕ) (p q : Pool M ε α) : Prop where
  world : R p.world q.world
  threads : ∀ i, i ≠ t → p.threads[i]? = q.threads[i]?
  respects : ∀ i prog, i ≠ t → p.threads[i]? = some prog → prog.Always fun c => Respects M R c.op

theorem AgreeBut.step_other {R : M.World → M.World → Prop} {t i : ℕ} {c : M.Choice}
    {p q p' : Pool M ε α} {e : Event M} (h : AgreeBut R t p q) (hi : i ≠ t)
    (hst : p.step i c = some (e, p')) :
    ∃ e' q', q.step i c = some (e', q') ∧ AgreeBut R t p' q' := by
  obtain ⟨o, k, hk, rfl, rfl⟩ := Pool.step_cases hst
  have hk' : q.threads[i]? = some (.op o k) := (h.threads i hi).symm.trans hk
  have hsee := h.respects i _ hi hk
  obtain ⟨hans, hw⟩ := (hsee (M.exec o c p.world).1).1 c _ _ h.world
  simp only at hans hw
  refine ⟨_, _, Pool.step_op hk' c, hw, fun j hj => ?_, fun j prog hj hprog => ?_⟩
  · by_cases hij : i = j
    · subst hij
      simp only
      rw [List.getElem?_set_self (List.getElem?_eq_some_iff.1 hk).1,
        List.getElem?_set_self (List.getElem?_eq_some_iff.1 hk').1, hans]
    · simp only
      rw [List.getElem?_set_ne hij, List.getElem?_set_ne hij, h.threads j hj]
  · simp only at hprog
    by_cases hij : i = j
    · subst hij
      rw [List.getElem?_set_self (List.getElem?_eq_some_iff.1 hk).1] at hprog
      obtain rfl := Option.some.inj hprog
      exact (hsee _).2
    · rw [List.getElem?_set_ne hij] at hprog
      exact h.respects j prog hj hprog

theorem AgreeBut.step_none {R : M.World → M.World → Prop} {t i : ℕ} {c : M.Choice}
    {p q : Pool M ε α} (h : AgreeBut R t p q) (hi : i ≠ t) (hst : p.step i c = none) :
    q.step i c = none := by
  rcases hq : q.step i c with _ | ⟨e, q'⟩
  · rfl
  · obtain ⟨o, k, hk, -, -⟩ := Pool.step_cases hq
    rw [Pool.step_op ((h.threads i hi).trans hk)] at hst
    cases hst

/-- **A thread nobody can see may be left out.** If no step of thread `t` leads out of the
relation `R` (an equivalence), and the other threads only use operations that cannot tell related
worlds apart, then the schedule without `t` ends in a related world. -/
theorem play_erase {R : M.World → M.World → Prop} (hR : Equivalence R) {t : ℕ}
    (s : List (ℕ × M.Choice)) {p q : Pool M ε α} (h : AgreeBut R t p q)
    (hsilent : ∀ e ∈ (p.play s).1, e.thread = t → R e.before e.after) :
    R (p.play s).2.world (q.play (erase t s)).2.world := by
  induction s generalizing p q with
  | nil => exact h.world
  | cons m s ih =>
    obtain ⟨i, c⟩ := m
    by_cases hi : i = t
    · subst hi
      rw [show erase i ((i, c) :: s) = erase i s by simp [erase]]
      rcases hst : p.step i c with _ | ⟨e, p'⟩
      · rw [Pool.play_none hst] at hsilent ⊢
        exact ih h hsilent
      · rw [Pool.play_some hst] at hsilent ⊢
        have hquiet := hsilent e (by simp)
        obtain ⟨o, k, hk, rfl, rfl⟩ := Pool.step_cases hst
        refine ih ⟨hR.trans (hR.symm (hquiet rfl)) h.world, fun j hj => ?_, fun j prog hj hp => ?_⟩
          fun e he => hsilent e (by simp [he])
        · simp only
          rw [List.getElem?_set_ne (Ne.symm hj), h.threads j hj]
        · simp only at hp
          rw [List.getElem?_set_ne (Ne.symm hj)] at hp
          exact h.respects j prog hj hp
    · rw [show erase t ((i, c) :: s) = (i, c) :: erase t s by simp [erase, hi]]
      rcases hst : p.step i c with _ | ⟨e, p'⟩
      · rw [Pool.play_none hst] at hsilent ⊢
        rw [Pool.play_none (h.step_none hi hst)]
        exact ih h hsilent
      · rw [Pool.play_some hst] at hsilent ⊢
        obtain ⟨e', q', hst', h'⟩ := h.step_other hi hst
        rw [Pool.play_some hst']
        exact ih h' fun a ha => hsilent a (by simp [ha])

end Interleaving
