import Cosmonaut.Interleaving.Pool

/-!
# Programs among others

A program that other threads interrupt at every step. What they may do to the world in between is
bounded by a relation, which the program's own steps keep to as well.

* `Rules`: the invariant, the relation, and what is assumed of a step; the assumption may look at
  what the thread has called before.
* `Program.Abides L F`: whatever the others do, every step of the program keeps to the rules, and
  what it returns satisfies `F`.
* `Run.abides`: if all threads abide, the invariant holds in every state of a run whose steps are as
  assumed.
-/

namespace Interleaving

variable {S : Signature} {ε α β : Type} {M : Machine S}

/-- The invariant of the world, what a step may do to it, and the assumption on a call: it may
depend on what the thread has called before, the last call first. -/
structure Rules (M : Machine S) where
  inv : M.World → Prop
  moves : M.World → M.World → Prop
  allows : List (Call S) → S.Op → M.World → Prop
  refl : ∀ w, moves w w
  trans : ∀ {u v w}, moves u v → moves v w → moves u w

namespace Program

variable {L : Rules M} {F F' : α → List (Call S) → M.World → Prop}
  {G : β → List (Call S) → M.World → Prop} {past : List (Call S)} {w w' : M.World}

/-- Wherever the others take the world in between, the steps of the program keep to the rules, and
what it returns satisfies `F`. -/
def Abides (L : Rules M) (F : α → List (Call S) → M.World → Prop) :
    Program S ε α → List (Call S) → M.World → Prop
  | ret a, past, w => F a past w
  | throw _, _, _ => True
  | op o k, past, w => ∀ w₁, L.moves w w₁ → L.inv w₁ → L.allows past o w₁ → ∀ c,
    L.inv (M.exec o c w₁).2 ∧ L.moves w₁ (M.exec o c w₁).2 ∧
      Abides L F (k (M.exec o c w₁).1) (⟨o, (M.exec o c w₁).1⟩ :: past) (M.exec o c w₁).2

theorem abides_ret {a : α} (h : F a past w) : (ret a : Program S ε α).Abides L F past w := h

theorem abides_throw {e : ε} : (throw e : Program S ε α).Abides L F past w := trivial

/-- The rule of a single operation. -/
theorem abides_call {raise : S.Fault → ε} {o : S.Op} {F : S.Ans o → List (Call S) → M.World → Prop}
    (h : ∀ w₁, L.moves w w₁ → L.inv w₁ → L.allows past o w₁ → ∀ c,
      L.inv (M.exec o c w₁).2 ∧ L.moves w₁ (M.exec o c w₁).2 ∧
        ∀ a, (M.exec o c w₁).1 = .ok a → F a (⟨o, .ok a⟩ :: past) (M.exec o c w₁).2) :
    (call raise o).Abides L F past w := by
  intro w₁ hmoves hinv hallows c
  obtain ⟨hinv', hmoves', hF⟩ := h w₁ hmoves hinv hallows c
  refine ⟨hinv', hmoves', ?_⟩
  generalize M.exec o c w₁ = r at hF
  rcases r with ⟨f | a, w₂⟩
  · exact trivial
  · exact hF a rfl

theorem Abides.mono {p : Program S ε α} (h : p.Abides L F past w)
    (hF : ∀ a past' w', L.moves w w' → F a past' w' → F' a past' w') : p.Abides L F' past w := by
  induction p generalizing past w with
  | ret a => exact hF a past w (L.refl w) h
  | throw e => trivial
  | op o k ih =>
    intro w₁ hmoves hinv hallows c
    obtain ⟨hinv', hmoves', hk⟩ := h w₁ hmoves hinv hallows c
    refine ⟨hinv', hmoves', ih _ hk fun a past' w' hm => hF a past' w' ?_⟩
    exact L.trans hmoves (L.trans hmoves' hm)

/-- The rule of sequencing. -/
theorem Abides.bind {p : Program S ε α} {f : α → Program S ε β} (h : p.Abides L F past w)
    (hf : ∀ a past' w', L.moves w w' → F a past' w' → (f a).Abides L G past' w') :
    (p >>= f).Abides L G past w := by
  induction p generalizing past w with
  | ret a => exact hf a past w (L.refl w) h
  | throw e => trivial
  | op o k ih =>
    intro w₁ hmoves hinv hallows c
    obtain ⟨hinv', hmoves', hk⟩ := h w₁ hmoves hinv hallows c
    refine ⟨hinv', hmoves', ih _ hk fun a past' w' hm => hf a past' w' ?_⟩
    exact L.trans hmoves (L.trans hmoves' hm)

theorem Abides.tryCatch {p : Program S ε α} {h : ε → Program S ε α} (hp : p.Abides L F past w)
    (hh : ∀ e past' w', L.moves w w' → (h e).Abides L F past' w') :
    (p.tryCatch h).Abides L F past w := by
  induction p generalizing past w with
  | ret a => exact hp
  | throw e => exact hh e past w (L.refl w)
  | op o k ih =>
    intro w₁ hmoves hinv hallows c
    obtain ⟨hinv', hmoves', hk⟩ := hp w₁ hmoves hinv hallows c
    refine ⟨hinv', hmoves', ih _ hk fun e past' w' hm => hh e past' w' ?_⟩
    exact L.trans hmoves (L.trans hmoves' hm)

/-- The others' steps do no harm. -/
theorem Abides.moved {p : Program S ε α} (h : p.Abides L (fun _ _ _ => True) past w)
    (hmoves : L.moves w w') : p.Abides L (fun _ _ _ => True) past w' := by
  cases p with
  | ret a => trivial
  | throw e => trivial
  | op o k => exact fun w₁ hm => h w₁ (L.trans hmoves hm)

end Program

open Program

/-- **Threads that abide keep the invariant** in every run whose steps are as assumed. -/
theorem Run.abides {L : Rules M} {p p' : Pool M ε α} {es : List (Event M)} (h : Run p es p')
    (hinv : L.inv p.world)
    (hthreads : ∀ prog : Program S ε α, prog ∈ p.threads →
      prog.Abides L (fun _ _ _ => True) [] p.world)
    (hallows : ∀ l e r, es = l ++ e :: r → L.allows (callsOf e.thread l) e.call.op e.before) :
    L.inv p'.world ∧ ∀ (t : ℕ) (prog : Program S ε α), p'.threads[t]? = some prog →
      prog.Abides L (fun _ _ _ => True) (callsOf t es) p'.world := by
  induction h with
  | nil => exact ⟨hinv, fun t prog ht => hthreads prog (List.mem_of_getElem? ht)⟩
  | @snoc es e q q' u c _ hst ih =>
    obtain ⟨hq, hbefore⟩ := ih fun l a r hl => hallows l a (r ++ [e]) (by rw [hl]; simp)
    obtain ⟨o, k, hk, rfl, rfl⟩ := Pool.step_cases hst
    have hstep := hbefore u _ hk q.world (L.refl _) hq (hallows es _ [] rfl) c
    refine ⟨hstep.1, fun t prog ht => ?_⟩
    by_cases htu : u = t
    · subst htu
      rw [List.getElem?_set_self (List.getElem?_eq_some_iff.1 hk).1, Option.some.injEq] at ht
      subst ht
      rw [callsOf_snoc_self (by rfl)]
      exact hstep.2.2
    · rw [List.getElem?_set_ne htu] at ht
      rw [callsOf_snoc_other htu]
      exact (hbefore t prog ht).moved hstep.2.1

end Interleaving
