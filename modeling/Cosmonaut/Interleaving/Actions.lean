import Cosmonaut.Interleaving.Pool

/-!
# What a run does to an abstract state

Some calls of a run act on an abstract state of the world, the others leave it alone. What a run
makes of the abstract state is what the actions make of it, in the order of the run.

* `Follows` and `Chain.follows`.
* `InTurn`: one thread is done with the abstract state before another begins, so that their actions
  come one after the other.
-/

namespace Interleaving

variable {S : Signature} {M : Machine S} {A σ : Type} {ε α : Type}

/-- The actions lead from one state to the other. -/
def Follows (step : A → σ → σ → Prop) : σ → List A → σ → Prop
  | s, [], s' => s = s'
  | s, a :: l, s' => ∃ m, step a s m ∧ Follows step m l s'

theorem follows_append {step : A → σ → σ → Prop} {s s' : σ} {l l' : List A} :
    Follows step s (l ++ l') s' ↔ ∃ m, Follows step s l m ∧ Follows step m l' s' := by
  induction l generalizing s with
  | nil => simp [Follows]
  | cons a l ih =>
    simp only [List.cons_append, Follows, ih]
    constructor
    · rintro ⟨m, ha, m', hl, hl'⟩
      exact ⟨m', ⟨m, ha, hl⟩, hl'⟩
    · rintro ⟨m', ⟨m, ha, hl⟩, hl'⟩
      exact ⟨m, ha, m', hl, hl'⟩

/-- What no action changes, is the same at the end. -/
theorem Follows.preserves {step : A → σ → σ → Prop} {β : Type} {f : σ → β} {s s' : σ} {l : List A}
    (h : Follows step s l s') (hf : ∀ a ∈ l, ∀ s s', step a s s' → f s' = f s) : f s' = f s := by
  induction l generalizing s with
  | nil => exact congrArg f (show s = s' from h).symm
  | cons a l ih =>
    obtain ⟨m, ha, hl⟩ := h
    exact (ih hl fun b hb => hf b (by simp [hb])).trans (hf a (by simp) _ _ ha)

/-- The actions among the calls of some events. -/
def actions (look : Call S → Option A) (es : List (Event M)) : List A :=
  es.filterMap fun e => look e.call

/-- The actions of one thread. -/
def actionsOf (look : Call S → Option A) (t : ℕ) (es : List (Event M)) : List A :=
  actions look (es.filter fun e => e.thread = t)

variable {look : Call S → Option A} {es l r : List (Event M)} {t j k : ℕ}

theorem actions_append : actions look (l ++ r) = actions look l ++ actions look r :=
  List.filterMap_append

theorem actionsOf_append :
    actionsOf look t (l ++ r) = actionsOf look t l ++ actionsOf look t r := by
  rw [actionsOf, List.filter_append, actions_append, actionsOf, actionsOf]

theorem actionsOf_eq : actionsOf look t es = ((callsOf t es).reverse).filterMap look := by
  rw [callsOf, List.reverse_reverse, List.filterMap_map]
  rfl

theorem mem_actions {a : A} : a ∈ actions look es ↔ ∃ e ∈ es, look e.call = some a :=
  List.mem_filterMap

theorem actions_mid {e : Event M} {a : A} (ha : look e.call = some a) :
    actions look (l ++ e :: r) = actions look l ++ a :: actions look r := by
  simp only [actions, List.filterMap_append, List.filterMap_cons, ha]

theorem actionsOf_mid {e : Event M} {a : A} (ht : e.thread = t) (ha : look e.call = some a) :
    actionsOf look t (l ++ e :: r) = actionsOf look t l ++ a :: actionsOf look t r := by
  rw [actionsOf, List.filter_append, List.filter_cons_of_pos (by simpa using ht), actions_mid ha]
  rfl

/-- A thread's actions are among the actions of the run. -/
theorem mem_actions_of_mem {a : A} (h : a ∈ actionsOf look t es) : a ∈ actions look es := by
  obtain ⟨e, he, ha⟩ := mem_actions.1 h
  exact mem_actions.2 ⟨e, (List.mem_filter.1 he).1, ha⟩

/-- Only the events that act count. -/
theorem actionsOf_eq_actions (h : ∀ e ∈ es, (look e.call).isSome → e.thread = t) :
    actionsOf look t es = actions look es := by
  rw [actionsOf, actions, List.filterMap_filter]
  apply List.filterMap_congr
  intro e he
  rcases hlook : look e.call with _ | a
  · rw [ite_self]
  · rw [if_pos (decide_eq_true (h e he (by rw [hlook]; rfl)))]

theorem actionsOf_eq_nil (h : ∀ e ∈ es, (look e.call).isSome → e.thread ≠ t) :
    actionsOf look t es = [] := by
  rw [actionsOf, actions, List.filterMap_eq_nil_iff]
  intro e he
  obtain ⟨hes, ht⟩ := List.mem_filter.1 he
  by_contra hne
  exact h e hes (Option.isSome_iff_ne_none.2 hne) (of_decide_eq_true ht)

/-- One thread is done with the abstract state before the other begins. -/
def InTurn (look : Call S → Option A) (es : List (Event M)) (j k : ℕ) : Prop :=
  ∃ l r, es = l ++ r ∧ (∀ e ∈ l, (look e.call).isSome → e.thread ≠ k) ∧
    ∀ e ∈ r, (look e.call).isSome → e.thread ≠ j

/-- **In turn the actions come one thread after the other.** -/
theorem InTurn.actions_eq (h : InTurn look es j k)
    (hthreads : ∀ e ∈ es, e.thread = j ∨ e.thread = k) :
    actions look es = actionsOf look j es ++ actionsOf look k es := by
  obtain ⟨l, r, rfl, hl, hr⟩ := h
  have hlj : ∀ e ∈ l, (look e.call).isSome → e.thread = j := fun e he hs =>
    (hthreads e (by simp [he])).resolve_right (hl e he hs)
  have hrk : ∀ e ∈ r, (look e.call).isSome → e.thread = k := fun e he hs =>
    (hthreads e (by simp [he])).resolve_left (hr e he hs)
  rw [actions_append, actionsOf_append, actionsOf_append, actionsOf_eq_actions hlj,
    actionsOf_eq_actions hrk, actionsOf_eq_nil hr, actionsOf_eq_nil hl, List.append_nil,
    List.nil_append]

/-- **What a run makes of the abstract state is what its actions make of it.** -/
theorem Chain.follows {step : A → σ → σ → Prop} {abs : M.World → σ} {w w' : M.World}
    (h : Chain w es w')
    (hact : ∀ e ∈ es, e.Allowed → ∀ a, look e.call = some a → step a (abs e.before) (abs e.after))
    (hidle : ∀ e ∈ es, e.Allowed → look e.call = none → abs e.after = abs e.before) :
    Follows step (abs w) (actions look es) (abs w') := by
  induction es generalizing w with
  | nil => exact congrArg abs h
  | cons e es ih =>
    obtain ⟨rfl, hallowed, hes⟩ := h
    have hrest := ih hes (fun e he => hact e (by simp [he])) fun e he => hidle e (by simp [he])
    rw [actions, List.filterMap_cons]
    rcases hlook : look e.call with _ | a
    · rw [hidle e (by simp) hallowed hlook] at hrest
      exact hrest
    · exact ⟨abs e.after, hact e (by simp) hallowed a hlook, hrest⟩

end Interleaving
