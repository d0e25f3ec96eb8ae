import Cosmonaut.Interleaving.Pool
import Mathlib.Order.Basic
import Mathlib.Order.Nat

/-!
# The order of a program's calls

Two judgements about the order in which one thread makes its calls, whatever they answer.

* `Program.Ascends rank hi lo`: the ranked operations a program asks for have ranks from `lo` up to
  `hi`, each higher than the ones before, so that it asks for none twice (`Run.rank_lt`).
* `Program.Passes calls`: a program that returns has made these calls, in this order, and
  `called_of_sublist` finds them among the events of a run.
-/

namespace Interleaving

variable {S : Signature} {ε α β : Type} {M : Machine S}

namespace Program

/-! ## Ranked operations -/

/-- The least rank that may come after the operation. -/
def rankAfter (rank : S.Op → Option ℕ) (lo : ℕ) (o : S.Op) : ℕ := ((rank o).map (· + 1)).getD lo

/-- The ranked operations the program asks for have ranks from `lo` up to `hi`, in ascending
order. -/
def Ascends (rank : S.Op → Option ℕ) (hi : ℕ) : ℕ → Program S ε α → Prop
  | _, ret _ => True
  | _, throw _ => True
  | lo, op o k => ∀ r, (∀ n ∈ rank o, lo ≤ n ∧ n < hi) ∧ Ascends rank hi (rankAfter rank lo o) (k r)

variable {rank : S.Op → Option ℕ} {lo lo' m hi : ℕ} {p : Program S ε α} {o : S.Op}

theorem rankAfter_mono (h : lo' ≤ lo) : rankAfter rank lo' o ≤ rankAfter rank lo o := by
  unfold rankAfter
  cases rank o with
  | none => exact h
  | some n => exact le_rfl

theorem rankAfter_le (h : lo ≤ m) (ho : ∀ n ∈ rank o, n < m) : rankAfter rank lo o ≤ m := by
  unfold rankAfter
  cases hr : rank o with
  | none => exact h
  | some n => exact ho n hr

theorem lt_rankAfter {n : ℕ} (h : n ∈ rank o) : n < rankAfter rank lo o := by
  rw [rankAfter, Option.mem_def.1 h]
  exact Nat.lt_succ_self n

theorem le_rankAfter (h : ∀ n ∈ rank o, lo ≤ n) : lo ≤ rankAfter rank lo o := by
  unfold rankAfter
  cases hr : rank o with
  | none => exact le_rfl
  | some n => exact (h n hr).trans (Nat.le_succ n)

theorem Ascends.weaken (h : p.Ascends rank hi lo) (hlo : lo' ≤ lo) : p.Ascends rank hi lo' := by
  induction p generalizing lo lo' with
  | ret a => trivial
  | throw e => trivial
  | op o k ih =>
    exact fun r => ⟨fun n hn => ⟨hlo.trans ((h r).1 n hn).1, ((h r).1 n hn).2⟩,
      ih r (h r).2 (rankAfter_mono hlo)⟩

/-- The rule of sequencing. -/
theorem Ascends.bind {f : α → Program S ε β} (hp : p.Ascends rank m lo)
    (hf : ∀ a, (f a).Ascends rank hi m) (hlo : lo ≤ m) (hmid : m ≤ hi) :
    (p >>= f).Ascends rank hi lo := by
  induction p generalizing lo with
  | ret a => exact (hf a).weaken hlo
  | throw e => trivial
  | op o k ih =>
    intro r
    obtain ⟨ho, hk⟩ := hp r
    exact ⟨fun n hn => ⟨(ho n hn).1, (ho n hn).2.trans_le hmid⟩,
      ih r hk (rankAfter_le hlo fun n hn => (ho n hn).2)⟩

/-- The rule of handlers. -/
theorem Ascends.tryCatch {h : ε → Program S ε α} (hp : p.Ascends rank m lo)
    (hh : ∀ e, (h e).Ascends rank hi m) (hlo : lo ≤ m) (hmid : m ≤ hi) :
    (p.tryCatch h).Ascends rank hi lo := by
  induction p generalizing lo with
  | ret a => trivial
  | throw e => exact (hh e).weaken hlo
  | op o k ih =>
    intro r
    obtain ⟨ho, hk⟩ := hp r
    exact ⟨fun n hn => ⟨(ho n hn).1, (ho n hn).2.trans_le hmid⟩,
      ih r hk (rankAfter_le hlo fun n hn => (ho n hn).2)⟩

/-- A program that asks for no ranked operation. -/
theorem Always.ascends (h : p.Always fun c => rank c.op = none) : p.Ascends rank hi lo := by
  induction p generalizing lo with
  | ret a => trivial
  | throw e => trivial
  | op o k ih =>
    refine fun r => ⟨fun n hn => ?_, ih r (h r).2⟩
    rw [show rank o = none from (h r).1] at hn
    cases hn

theorem ascends_call {raise : S.Fault → ε} (h : ∀ n ∈ rank o, lo ≤ n ∧ n < hi) :
    (call raise o).Ascends rank hi lo :=
  fun r => ⟨h, by cases r <;> trivial⟩

theorem ascends_ite {c : Prop} [Decidable c] {q : Program S ε α} (hp : c → p.Ascends rank hi lo)
    (hq : ¬c → q.Ascends rank hi lo) : (if c then p else q).Ascends rank hi lo := by
  split
  · exact hp ‹_›
  · exact hq ‹_›

/-- What ascends, asks for higher ranks than all before. -/
theorem Ascends.trail {past : List (Call S)} (h : p.Ascends rank hi lo)
    (hpast : ∀ a ∈ past, ∀ m ∈ rank a.op, m < lo) :
    p.Trail (fun past c => ∀ n ∈ rank c.op, ∀ a ∈ past, ∀ m ∈ rank a.op, m < n)
      (fun _ _ => True) past := by
  induction p generalizing lo past with
  | ret a => trivial
  | throw e => trivial
  | op o k ih =>
    intro r
    obtain ⟨ho, hk⟩ := h r
    refine ⟨fun n hn a ha m hm => (hpast a ha m hm).trans_le (ho n hn).1, ih r hk ?_⟩
    intro a ha m hm
    rcases List.mem_cons.1 ha with rfl | ha
    · exact lt_rankAfter hm
    · exact (hpast a ha m hm).trans_le (le_rankAfter fun n hn => (ho n hn).1)

/-! ## Calls a program has passed when it returns -/

/-- Two judgements about the calls of a program, taken together. -/
theorem Trail.and {P P' : List (Call S) → Call S → Prop}
    {Q Q' : List (Call S) → Except ε α → Prop} {past : List (Call S)} (h : p.Trail P Q past)
    (h' : p.Trail P' Q' past) :
    p.Trail (fun past c => P past c ∧ P' past c) (fun past r => Q past r ∧ Q' past r) past := by
  induction p generalizing past with
  | ret a => exact ⟨h, h'⟩
  | throw e => exact ⟨h, h'⟩
  | op o k ih => exact fun r => ⟨⟨(h r).1, (h' r).1⟩, ih r (h r).2 (h' r).2⟩

/-- A program that returns has made these calls, in this order. -/
def Passes : List (Call S) → Program S ε α → Prop
  | calls, ret _ => calls = []
  | _, throw _ => True
  | calls, op o k => ∀ r, Passes calls (k r) ∨ ∃ rest, calls = ⟨o, r⟩ :: rest ∧ Passes rest (k r)

variable {calls calls' : List (Call S)}

theorem passes_nil (p : Program S ε α) : p.Passes [] := by
  induction p with
  | ret a => rfl
  | throw e => trivial
  | op o k ih => exact fun r => .inl (ih r)

/-- The rule of sequencing. -/
theorem Passes.bind {f : α → Program S ε β} (hp : p.Passes calls)
    (hf : ∀ a, (f a).Passes calls') : (p >>= f).Passes (calls ++ calls') := by
  induction p generalizing calls with
  | ret a =>
    rw [show calls = [] from hp]
    exact hf a
  | throw e => trivial
  | op o k ih =>
    intro r
    rcases hp r with h | ⟨rest, rfl, h⟩
    · exact .inl (ih r h)
    · exact .inr ⟨rest ++ calls', rfl, ih r h⟩

/-- The calls may come behind what comes first. -/
theorem Passes.last {f : α → Program S ε β} (hf : ∀ a, (f a).Passes calls) :
    (p >>= f).Passes calls :=
  (passes_nil p).bind hf

/-- The calls may come before what comes last. -/
theorem Passes.first {f : α → Program S ε β} (hp : p.Passes calls) :
    (p >>= f).Passes calls := by
  rw [← List.append_nil calls]
  exact hp.bind fun a => passes_nil (f a)

theorem passes_call {raise : S.Fault → ε} {c : Call S} (h : ∀ a, ⟨o, .ok a⟩ = c) :
    (call raise o).Passes [c] := by
  rintro (f | a)
  · exact .inl trivial
  · exact .inr ⟨[], by rw [h a], rfl⟩

/-- What a program that has returned has called behind what was called before. -/
theorem Passes.trail {past past' : List (Call S)} (h : p.Passes calls)
    (hpast : past.Sublist past') :
    p.Trail (fun _ _ => True) (fun past' r => r.isOk = true →
      (calls.reverse ++ past).Sublist past') past' := by
  induction p generalizing calls past past' with
  | ret a =>
    intro _
    rw [show calls = [] from h]
    exact hpast
  | throw e => exact fun hok => by cases hok
  | op o k ih =>
    intro r
    refine ⟨trivial, ?_⟩
    rcases h r with hk | ⟨rest, rfl, hk⟩
    · exact ih r hk (hpast.cons _)
    · simpa using ih r hk (hpast.cons_cons ⟨o, r⟩)

end Program

open Program

variable {p p' : Pool M ε α} {es : List (Event M)}

/-- **A thread that ascends asks for no rank twice**: its ranks rise from event to event. -/
theorem Run.rank_lt {rank : S.Op → Option ℕ} {hi i j m n : ℕ} {a b : Event M}
    {prog : Program S ε α} (h : Run p es p') (ht : p.threads[b.thread]? = some prog)
    (hp : prog.Ascends rank hi 0) (ha : es[i]? = some a) (hb : es[j]? = some b)
    (hthread : a.thread = b.thread) (hij : i < j) (hm : m ∈ rank a.call.op)
    (hn : n ∈ rank b.call.op) : m < n :=
  h.trail_getElem hb ht (hp.trail (fun a ha => by cases ha)) n hn a.call
    (mem_callsOf_take.2 ⟨i, a, hij, ha, hthread, rfl⟩) m hm

/-- The event of a thread's call, and what it had called before. -/
theorem called_of_sublist {t j : ℕ} {c : Call S} {past : List (Call S)}
    (h : (c :: past).Sublist (callsOf t (es.take j))) :
    ∃ i e, i < j ∧ es[i]? = some e ∧ e.thread = t ∧ e.call = c ∧
      past.Sublist (callsOf t (es.take i)) := by
  obtain ⟨later, before, hsplit, hmem, hpast⟩ := List.cons_sublist_iff.1 h
  obtain ⟨front, back, rfl⟩ := List.append_of_mem hmem
  rw [List.append_assoc, List.cons_append] at hsplit
  obtain ⟨l, e, r, hes, hthread, hcall, hl, -⟩ := callsOf_eq_append hsplit
  have hlength := congrArg List.length hes
  simp only [List.length_take, List.length_append, List.length_cons] at hlength
  have hlt : l.length < j := by omega
  refine ⟨l.length, e, hlt, ?_, hthread, hcall, ?_⟩
  · rw [← List.getElem?_take_of_lt hlt, hes]
    simp
  · have htake : es.take l.length = l := by
      rw [show l.length = min l.length j by omega, ← List.take_take, hes]
      simp
    rw [htake, hl]
    exact hpast.trans (List.sublist_append_right back before)

end Interleaving
