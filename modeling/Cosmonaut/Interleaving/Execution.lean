import Cosmonaut.Interleaving.Pool

/-!
# Executions of one program

An execution of a program is the list of the events of its own calls, from its first call to its
end. What happens between the calls is left open, so these are its executions in any pool.

* `Program.Executes p es r`: the program can make the calls of `es`, in this order, and end in `r`.
* `executes_bind` and `executes_tryCatch` split an execution where the program is composed.
* `Executes.unique`: the calls and their answers determine how far a program goes and how it ends.
* `Straight`: programs that raise what their last call raises, and nothing else; `Unhandled`:
  programs that return only if all their calls have answered.
* `Run.executes`: in every run of a pool, the events of a thread that has ended are an execution of
  its program.
-/

namespace Interleaving

variable {S : Signature} {ε α β : Type} {M : Machine S}

namespace Program

/-- The program can make the calls of the events, in this order, and end in the outcome. -/
inductive Executes : Program S ε α → List (Event M) → Except ε α → Prop
  | ret (a : α) : Executes (.ret a) [] (.ok a)
  | throw (e : ε) : Executes (.throw e) [] (.error e)
  | op (o : S.Op) (k : Except S.Fault (S.Ans o) → Program S ε α) {t : ℕ} {w w' : M.World}
      {ans : Except S.Fault (S.Ans o)} {es : List (Event M)} {r : Except ε α} :
      Event.Allowed ⟨t, ⟨o, ans⟩, w, w'⟩ → Executes (k ans) es r →
      Executes (.op o k) (⟨t, ⟨o, ans⟩, w, w'⟩ :: es) r

variable {p : Program S ε α} {es : List (Event M)} {e : Event M}

theorem executes_ret {a : α} {r : Except ε α} :
    (ret a : Program S ε α).Executes es r ↔ es = [] ∧ r = .ok a := by
  constructor
  · intro h
    cases h
    exact ⟨rfl, rfl⟩
  · rintro ⟨rfl, rfl⟩
    exact .ret a

theorem executes_throw {x : ε} {r : Except ε α} :
    (throw x : Program S ε α).Executes es r ↔ es = [] ∧ r = .error x := by
  constructor
  · intro h
    cases h
    exact ⟨rfl, rfl⟩
  · rintro ⟨rfl, rfl⟩
    exact .throw x

/-- **The rule of sequencing.** -/
theorem executes_bind {f : α → Program S ε β} {r : Except ε β} :
    (p >>= f).Executes es r ↔ (∃ x, p.Executes es (.error x) ∧ r = .error x) ∨
      ∃ a l l', es = l ++ l' ∧ p.Executes l (.ok a) ∧ (f a).Executes l' r := by
  induction p generalizing es with
  | ret a =>
    constructor
    · exact fun h => .inr ⟨a, [], es, rfl, .ret a, h⟩
    · rintro (⟨x, h, -⟩ | ⟨b, l, l', rfl, h, hf⟩)
      · cases h
      · cases h
        exact hf
  | throw x =>
    constructor
    · intro h
      cases h
      exact .inl ⟨x, .throw x, rfl⟩
    · rintro (⟨y, h, rfl⟩ | ⟨b, l, l', -, h, -⟩)
      · cases h
        exact .throw x
      · cases h
  | op o k ih =>
    constructor
    · intro h
      cases h with
      | op o k hallowed h =>
        rcases (ih _).1 h with ⟨x, hx, rfl⟩ | ⟨a, l, l', rfl, ha, hf⟩
        · exact .inl ⟨x, .op o k hallowed hx, rfl⟩
        · exact .inr ⟨a, _ :: l, l', rfl, .op o k hallowed ha, hf⟩
    · rintro (⟨x, h, rfl⟩ | ⟨a, l, l', rfl, h, hf⟩)
      · cases h with
        | op o k hallowed h => exact .op o _ hallowed ((ih _).2 (.inl ⟨x, h, rfl⟩))
      · cases h with
        | op o k hallowed h => exact .op o _ hallowed ((ih _).2 (.inr ⟨a, _, l', rfl, h, hf⟩))

/-- **The rule of handlers.** -/
theorem executes_tryCatch {h : ε → Program S ε α} {r : Except ε α} :
    (p.tryCatch h).Executes es r ↔ (∃ a, p.Executes es (.ok a) ∧ r = .ok a) ∨
      ∃ x l l', es = l ++ l' ∧ p.Executes l (.error x) ∧ (h x).Executes l' r := by
  induction p generalizing es with
  | ret a =>
    constructor
    · intro hr
      cases hr
      exact .inl ⟨a, .ret a, rfl⟩
    · rintro (⟨b, hr, rfl⟩ | ⟨x, l, l', -, hr, -⟩)
      · cases hr
        exact .ret a
      · cases hr
  | throw x =>
    constructor
    · exact fun hr => .inr ⟨x, [], es, rfl, .throw x, hr⟩
    · rintro (⟨b, hr, -⟩ | ⟨y, l, l', rfl, hr, hh⟩)
      · cases hr
      · cases hr
        exact hh
  | op o k ih =>
    constructor
    · intro hr
      cases hr with
      | op o k hallowed hr =>
        rcases (ih _).1 hr with ⟨a, ha, rfl⟩ | ⟨x, l, l', rfl, hx, hh⟩
        · exact .inl ⟨a, .op o k hallowed ha, rfl⟩
        · exact .inr ⟨x, _ :: l, l', rfl, .op o k hallowed hx, hh⟩
    · rintro (⟨a, hr, rfl⟩ | ⟨x, l, l', rfl, hr, hh⟩)
      · cases hr with
        | op o k hallowed hr => exact .op o _ hallowed ((ih _).2 (.inl ⟨a, hr, rfl⟩))
      · cases hr with
        | op o k hallowed hr => exact .op o _ hallowed ((ih _).2 (.inr ⟨x, _, l', rfl, hr, hh⟩))

/-- **The rule of a single operation.** -/
theorem executes_call {raise : S.Fault → ε} {o : S.Op} {r : Except ε (S.Ans o)}
    (h : (call raise o).Executes es r) :
    ∃ e, es = [e] ∧ e.Allowed ∧
      ((∃ a, e.call = ⟨o, .ok a⟩ ∧ r = .ok a) ∨ ∃ f, e.call = ⟨o, .error f⟩ ∧
        r = .error (raise f)) := by
  cases h with
  | @op _ _ t w w' ans es _ hallowed h =>
    cases ans with
    | ok a =>
      cases h
      exact ⟨_, rfl, hallowed, .inl ⟨a, rfl, rfl⟩⟩
    | error f =>
      cases h
      exact ⟨_, rfl, hallowed, .inr ⟨f, rfl, rfl⟩⟩

/-- An operation, and then what its answer leads to. -/
theorem executes_call_bind {raise : S.Fault → ε} {o : S.Op} {f : S.Ans o → Program S ε β}
    {r : Except ε β} (h : (call raise o >>= f).Executes es r) :
    (∃ e x, es = [e] ∧ e.Allowed ∧ e.call = ⟨o, .error x⟩ ∧ r = .error (raise x)) ∨
      ∃ e es' a, es = e :: es' ∧ e.Allowed ∧ e.call = ⟨o, .ok a⟩ ∧ (f a).Executes es' r := by
  rcases executes_bind.1 h with ⟨x, hx, rfl⟩ | ⟨a, l, l', rfl, ha, hf⟩
  · obtain ⟨e, rfl, hallowed, ⟨a, -, ha⟩ | ⟨y, hy, hxy⟩⟩ := executes_call hx
    · cases ha
    · cases hxy
      exact .inl ⟨e, y, rfl, hallowed, hy, rfl⟩
  · obtain ⟨e, rfl, hallowed, ⟨b, hb, hab⟩ | ⟨y, -, hy⟩⟩ := executes_call ha
    · cases hab
      exact .inr ⟨e, l', _, rfl, hallowed, hb, hf⟩
    · cases hy

theorem Executes.allowed {r : Except ε α} (h : p.Executes es r) (he : e ∈ es) : e.Allowed := by
  induction h with
  | ret a => cases he
  | throw x => cases he
  | op o k hallowed _ ih =>
    rcases List.mem_cons.1 he with rfl | he
    · exact hallowed
    · exact ih he

/-- The calls of an execution are calls the program can make. -/
theorem Always.executes {A : Call S → Prop} {r : Except ε α} (h : p.Always A)
    (hes : p.Executes es r) (he : e ∈ es) : A e.call := by
  induction hes with
  | ret a => cases he
  | throw x => cases he
  | op o k _ _ ih =>
    rcases List.mem_cons.1 he with rfl | he
    · exact (h _).1
    · exact ih (h _).2 he

/-- **How far a program goes and how it ends is determined by its calls and their answers.** -/
theorem Executes.unique {l l' t t' : List (Event M)} {r r' : Except ε α} (h : p.Executes l r)
    (h' : p.Executes l' r') (heq : l ++ t = l' ++ t') : l = l' ∧ r = r' ∧ t = t' := by
  induction h generalizing l' with
  | ret a =>
    cases h'
    exact ⟨rfl, rfl, heq⟩
  | throw x =>
    cases h'
    exact ⟨rfl, rfl, heq⟩
  | op o k _ _ ih =>
    cases h' with
    | op o k _ h' =>
      obtain ⟨he, htail⟩ := List.cons.inj heq
      cases he
      obtain ⟨rfl, rfl, rfl⟩ := ih h' htail
      exact ⟨rfl, rfl, rfl⟩

/-! ## Straight-line programs -/

/-- The call has answered. -/
def Replied (e : Event M) : Prop := ∃ a, e.call.ans = .ok a

/-- The program raises what its last call has raised, and nothing else. -/
def Straight (raise : S.Fault → ε) (M : Machine S) (p : Program S ε α) : Prop :=
  ∀ (es : List (Event M)) r, p.Executes es r →
    ((∃ a, r = .ok a) ∧ ∀ e ∈ es, Replied e) ∨
      ∃ l e f, es = l ++ [e] ∧ (∀ a ∈ l, Replied a) ∧ e.call.ans = .error f ∧ r = .error (raise f)

variable {raise : S.Fault → ε}

theorem straight_ret (a : α) : (ret a : Program S ε α).Straight raise M := by
  intro es r h
  obtain ⟨rfl, rfl⟩ := executes_ret.1 h
  exact .inl ⟨⟨a, rfl⟩, by simp⟩

theorem straight_call (o : S.Op) : (call raise o).Straight raise M := by
  intro es r h
  obtain ⟨e, rfl, -, ⟨a, hc, rfl⟩ | ⟨f, hc, rfl⟩⟩ := executes_call h
  · refine .inl ⟨⟨a, rfl⟩, fun e' he => ?_⟩
    rw [List.mem_singleton.1 he, Replied, hc]
    exact ⟨a, rfl⟩
  · exact .inr ⟨[], e, f, rfl, by simp, by rw [hc], rfl⟩

theorem Straight.bind {f : α → Program S ε β} (hp : p.Straight raise M)
    (hf : ∀ a, (f a).Straight raise M) : (p >>= f).Straight raise M := by
  intro es r h
  rcases executes_bind.1 h with ⟨x, hx, rfl⟩ | ⟨a, l, l', rfl, ha, hrest⟩
  · rcases hp es _ hx with ⟨⟨a, ha⟩, -⟩ | ⟨l, e, f, rfl, hl, hf, hr⟩
    · cases ha
    · exact .inr ⟨l, e, f, rfl, hl, hf, by rw [Except.error.inj hr]⟩
  · rcases hp l _ ha with ⟨-, hl⟩ | ⟨l, e, f, rfl, hl, hf, hr⟩
    case inr => cases hr
    rcases hf a l' r hrest with ⟨hr, hl'⟩ | ⟨l', e, f, rfl, hl', hf, hr⟩
    · refine .inl ⟨hr, fun e he => ?_⟩
      rcases List.mem_append.1 he with he | he
      · exact hl e he
      · exact hl' e he
    · refine .inr ⟨l ++ l', e, f, by simp, fun e he => ?_, hf, hr⟩
      rcases List.mem_append.1 he with he | he
      · exact hl e he
      · exact hl' e he

/-- Where the program returns, all its calls have answered. -/
def Unhandled (M : Machine S) (p : Program S ε α) : Prop :=
  ∀ (es : List (Event M)) a, p.Executes es (.ok a) → ∀ e ∈ es, Replied e

theorem unhandled_ret (a : α) : (ret a : Program S ε α).Unhandled M := by
  intro es b h
  obtain ⟨rfl, -⟩ := executes_ret.1 h
  simp

theorem unhandled_throw (x : ε) : (throw x : Program S ε α).Unhandled M := by
  intro es b h
  cases (executes_throw.1 h).2

theorem Straight.unhandled (h : p.Straight raise M) : p.Unhandled M := by
  intro es a hes
  rcases h es _ hes with ⟨-, hall⟩ | ⟨l, e, f, -, -, -, hr⟩
  · exact hall
  · cases hr

theorem Unhandled.bind {f : α → Program S ε β} (hp : p.Unhandled M) (hf : ∀ a, (f a).Unhandled M) :
    (p >>= f).Unhandled M := by
  intro es b h
  rcases executes_bind.1 h with ⟨x, -, hr⟩ | ⟨a, l, l', rfl, ha, hrest⟩
  · cases hr
  · intro e he
    rcases List.mem_append.1 he with he | he
    · exact hp l a ha e he
    · exact hf a l' b hrest e he

theorem unhandled_ite {c : Prop} [Decidable c] {q : Program S ε α} (hp : p.Unhandled M)
    (hq : q.Unhandled M) : (if c then p else q).Unhandled M := by
  split
  · exact hp
  · exact hq

end Program

/-- What the thread has still to do completes its events to an execution of its program. -/
theorem Run.executes_rest {p p' : Pool M ε α} {es : List (Event M)} (h : Run p es p') {t : ℕ}
    {prog : Program S ε α} (ht : p.threads[t]? = some prog) :
    ∃ rest, p'.threads[t]? = some rest ∧ ∀ es' r, rest.Executes es' r →
      prog.Executes (es.filter (·.thread = t) ++ es') r := by
  induction h with
  | nil => exact ⟨prog, ht, fun es' r hrest => hrest⟩
  | @snoc es e q q' u c _ hst ih =>
    obtain ⟨rest, hr, hrest⟩ := ih
    obtain ⟨o, k, hk, rfl, rfl⟩ := Pool.step_cases hst
    by_cases hut : u = t
    · subst hut
      obtain rfl := Option.some.inj (hk.symm.trans hr)
      have hlt : u < q.threads.length := (List.getElem?_eq_some_iff.1 hk).1
      refine ⟨_, List.getElem?_set_self hlt, fun es' r hk' => ?_⟩
      have hallowed : Event.Allowed (M := M) ⟨u, ⟨o, (M.exec o c q.world).1⟩, q.world,
          (M.exec o c q.world).2⟩ := ⟨c, rfl⟩
      have hexecutes := hrest (_ :: es') r (.op o k hallowed hk')
      simpa using hexecutes
    · refine ⟨rest, by rw [List.getElem?_set_ne hut]; exact hr, fun es' r hk' => ?_⟩
      have hexecutes := hrest es' r hk'
      simpa [hut] using hexecutes

/-- **The events of a thread that has ended are an execution of its program**, in every run. -/
theorem Run.executes {p p' : Pool M ε α} {es : List (Event M)} (h : Run p es p') {t : ℕ}
    {prog : Program S ε α} {r : Except ε α} (ht : p.threads[t]? = some prog)
    (hend : p'.threads[t]? = some (.ofExcept r)) :
    prog.Executes (es.filter (·.thread = t)) r := by
  obtain ⟨rest, hrest, hexecutes⟩ := h.executes_rest ht
  obtain rfl := Option.some.inj (hend.symm.trans hrest)
  have hnil : (Program.ofExcept r : Program S ε α).Executes (M := M) [] r := by
    cases r with
    | ok a => exact .ret a
    | error x => exact .throw x
  simpa using hexecutes [] r hnil

/-- The events of a pool of one thread are an execution of its program, with nothing in between. -/
theorem Run.executes_alone {w : M.World} {prog : Program S ε α} {p' : Pool M ε α}
    {es : List (Event M)}
    {r : Except ε α} (h : Run ⟨w, [prog]⟩ es p') (hend : p'.threads = [.ofExcept r]) :
    prog.Executes es r ∧ Chain w es p'.world := by
  have hthread : ∀ e ∈ es, e.thread = 0 := by
    intro e he
    obtain ⟨prog', hprog⟩ := h.thread_mem he
    simpa using (List.getElem?_eq_some_iff.1 hprog).1
  refine ⟨?_, h.chain⟩
  have hexecutes := @Run.executes _ _ _ _ _ _ _ h 0 prog r rfl (by rw [hend]; rfl)
  rwa [List.filter_eq_self.2 (by simpa using hthread)] at hexecutes

end Interleaving
