import Cosmonaut.Interleaving.Pool

/-!
# Assumptions on answers

What a program asks for may depend on what it was answered before. If the world keeps an invariant,
the answers are as the invariant has them; if the answers are so, the program asks for nothing that
breaks the invariant. Neither half is circular: an answer comes before what is asked for next.

* `Program.Under A P F`: as long as the answers are as `A` assumes, all operations the program asks
  for satisfy `P`, and what it returns satisfies `F`.
* `Run.under`: threads that are so keep an invariant under which the assumption holds.
* `Run.under_thread`: what one thread asks for, once the answers of a run are known to be so.
-/

namespace Interleaving

variable {S : Signature} {ε α β : Type} {M : Machine S}

namespace Program

/-- As long as the answers are as assumed, the operations asked for satisfy `P` and the value
returned `F`. -/
def Under (A : Call S → Prop) (P : S.Op → Prop) (F : α → Prop) : Program S ε α → Prop
  | ret a => F a
  | throw _ => True
  | op o k => P o ∧ ∀ r, A ⟨o, r⟩ → Under A P F (k r)

variable {A : Call S → Prop} {P : S.Op → Prop} {F : α → Prop} {G : β → Prop}
  {p : Program S ε α}

theorem under_call {raise : S.Fault → ε} {o : S.Op} {F : S.Ans o → Prop} (ho : P o)
    (h : ∀ a, A ⟨o, .ok a⟩ → F a) : (call raise o).Under A P F := by
  refine ⟨ho, fun r hr => ?_⟩
  cases r with
  | ok a => exact h a hr
  | error f => trivial

/-- The rule of sequencing. -/
theorem Under.bind {f : α → Program S ε β} (hp : p.Under A P F)
    (hf : ∀ a, F a → (f a).Under A P G) : (p >>= f).Under A P G := by
  induction p with
  | ret a => exact hf a hp
  | throw e => trivial
  | op o k ih => exact ⟨hp.1, fun r hr => ih r (hp.2 r hr)⟩

/-- The rule of handlers. -/
theorem Under.tryCatch {h : ε → Program S ε α} (hp : p.Under A P F)
    (hh : ∀ e, (h e).Under A P F) : (p.tryCatch h).Under A P F := by
  induction p with
  | ret a => exact hp
  | throw e => exact hh e
  | op o k ih => exact ⟨hp.1, fun r hr => ih r (hp.2 r hr)⟩

theorem under_ite {c : Prop} [Decidable c] {q : Program S ε α} (hp : c → p.Under A P F)
    (hq : ¬c → q.Under A P F) : (if c then p else q).Under A P F := by
  split
  · exact hp ‹_›
  · exact hq ‹_›

/-- A program that asks for nothing else anyway. -/
theorem Always.under [Nonempty S.Fault] (h : p.Always fun c => P c.op) :
    p.Under A P fun _ => True := by
  induction p with
  | ret a => trivial
  | throw e => trivial
  | op o k ih => exact ⟨(h (.error (Classical.arbitrary S.Fault))).1, fun r _ => ih r (h r).2⟩

/-- What else the program only asks for. -/
theorem Under.and_always [Nonempty S.Fault] {P' : S.Op → Prop} (h : p.Under A P F)
    (h' : p.Always fun c => P' c.op) : p.Under A (fun o => P o ∧ P' o) F := by
  induction p with
  | ret a => exact h
  | throw e => trivial
  | op o k ih =>
    exact ⟨⟨h.1, (h' (.error (Classical.arbitrary S.Fault))).1⟩,
      fun r hr => ih r (h.2 r hr) (h' r).2⟩

theorem Under.mono_op {P' : S.Op → Prop} (h : p.Under A P F) (hP : ∀ o, P o → P' o) :
    p.Under A P' F := by
  induction p with
  | ret a => exact h
  | throw e => trivial
  | op o k ih => exact ⟨hP o h.1, fun r hr => ih r (h.2 r hr)⟩

/-- Behind answers that are as assumed comes what satisfies `P`. -/
theorem Under.trail {past : List (Call S)} (h : (∀ c ∈ past, A c) → p.Under A P F) :
    p.Trail (fun past c => (∀ a ∈ past, A a) → P c.op) (fun _ _ => True) past := by
  induction p generalizing past with
  | ret a => trivial
  | throw e => trivial
  | op o k ih =>
    refine fun r => ⟨fun hpast => (h hpast).1, ih r fun hall => ?_⟩
    obtain ⟨hr, hpast⟩ := List.forall_mem_cons.1 hall
    exact (h hpast).2 r hr

end Program

open Program

/-- In a run whose answers are all as assumed, a thread asks for what satisfies `P`. -/
theorem Run.under_thread {A : Call S → Prop} {P : S.Op → Prop} {F : α → Prop}
    {p p' : Pool M ε α} {es : List (Event M)} (h : Run p es p') (hA : ∀ e ∈ es, A e.call)
    {e : Event M} (he : e ∈ es) {prog : Program S ε α} (ht : p.threads[e.thread]? = some prog)
    (hp : prog.Under A P F) : P e.call.op := by
  obtain ⟨l, r, rfl⟩ := List.append_of_mem he
  refine h.trail ht (Under.trail fun _ => hp) fun a ha => ?_
  obtain ⟨d, hd, -, rfl⟩ := mem_callsOf.1 ha
  exact hA d (List.mem_append_left _ hd)

/-- **Threads that are under an assumption keep an invariant that implies it**, in every run: each
event was asked for in a world with the invariant, by an operation that satisfies `P`. -/
theorem Run.under {A : Call S → Prop} {P : S.Op → Prop} {I : M.World → Prop} {p p' : Pool M ε α}
    {es : List (Event M)} (h : Run p es p') (hI : I p.world)
    (hthreads : ∀ prog : Program S ε α, prog ∈ p.threads → prog.Under A P fun _ => True)
    (hstep : ∀ e ∈ es, e.Allowed → P e.call.op → I e.before → A e.call ∧ I e.after) :
    I p'.world ∧ (∀ prog : Program S ε α, prog ∈ p'.threads → prog.Under A P fun _ => True) ∧
      ∀ e ∈ es, P e.call.op ∧ I e.before ∧ I e.after := by
  induction h with
  | nil => exact ⟨hI, hthreads, fun e he => by cases he⟩
  | @snoc es e q q' t c _ hst ih =>
    obtain ⟨hq, hprogs, hes⟩ := ih fun e he => hstep e (by simp [he])
    obtain ⟨o, k, hk, rfl, rfl⟩ := Pool.step_cases hst
    obtain ⟨ho, hnext⟩ := hprogs _ (List.mem_of_getElem? hk)
    obtain ⟨hA, hafter⟩ := hstep _ (List.mem_append_right _ (List.mem_singleton_self _))
      ⟨c, rfl⟩ ho hq
    refine ⟨hafter, fun prog hprog => ?_, fun a ha => ?_⟩
    · rcases List.mem_or_eq_of_mem_set hprog with hmem | rfl
      · exact hprogs prog hmem
      · exact hnext _ hA
    · rcases List.mem_append.1 ha with ha | ha
      · exact hes a ha
      · rw [List.mem_singleton.1 ha]
        exact ⟨ho, hq, hafter⟩

end Interleaving
