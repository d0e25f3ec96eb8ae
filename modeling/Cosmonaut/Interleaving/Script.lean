import Cosmonaut.Interleaving.Alone

/-!
# Scripted answers

A machine on which a script answers some of the operations, which then do nothing else; the others
are performed as before. So a program can be run against one particular behaviour of a service that
some of its operations ask.

* `Machine.scripted`: the machine.
* `Keeping.scripted`, `keeping_scripted`: programs without a scripted operation, and the scripted
  operations themselves.
* `Keeping.of_exec`: a machine of which every step is one of another.
-/

namespace Interleaving

variable {S : Signature} {ε α : Type}

/-- The machine on which the script answers the operations it knows. -/
@[reducible] def Machine.scripted (M : Machine S)
    (script : (o : S.Op) → Option (Except S.Fault (S.Ans o))) : Machine S where
  World := M.World
  Choice := M.Choice
  exec o c w :=
    match script o with
    | some r => (r, w)
    | none => M.exec o c w

namespace Program

variable {M : Machine S} {script : (o : S.Op) → Option (Except S.Fault (S.Ans o))}
  {I : M.World → Prop} {E : ε → M.World → Prop} {F : α → M.World → Prop} {p : Program S ε α}
  {w : M.World}

/-- A program that asks for no scripted operation runs as without the script. -/
theorem Keeping.scripted (h : p.Keeping I E F w) (hp : p.Always fun c => script c.op = none) :
    p.Keeping (M := M.scripted script) I E F w := by
  induction p generalizing w with
  | ret a => exact h
  | throw e => exact h
  | op o k ih =>
    intro c
    obtain ⟨ho, hk⟩ := hp (M.exec o c w).1
    have hexec : (M.scripted script).exec o c w = M.exec o c w := by
      simp only [ho]
    rw [hexec]
    exact ih _ (h c) hk

variable (script) in
/-- A scripted operation. -/
theorem keeping_scripted {raise : S.Fault → ε} {o : S.Op} {r : Except S.Fault (S.Ans o)}
    {F : S.Ans o → M.World → Prop} (ho : script o = some r) (hI : I w)
    (h : outcome E F (r.mapError raise) w) :
    (call raise o).Keeping (M := M.scripted script) I E F w := by
  refine keeping_call (M := M.scripted script) (fun c a w' hexec => ?_) fun c f w' hexec => ?_
  all_goals
    simp only [ho, Prod.mk.injEq] at hexec
    obtain ⟨rfl, rfl⟩ := hexec
    exact ⟨hI, h⟩

/-- What holds on a machine holds on another of which every step is one of it. -/
theorem Keeping.of_exec {C : Type}
    {exec : (o : S.Op) → C → M.World → Except S.Fault (S.Ans o) × M.World}
    (h : p.Keeping I E F w) (hexec : ∀ o c w, ∃ c', M.exec o c' w = exec o c w) :
    p.Keeping (M := ⟨M.World, C, exec⟩) I E F w := by
  induction p generalizing w with
  | ret a => exact h
  | throw e => exact h
  | op o k ih =>
    intro c
    obtain ⟨c', hc'⟩ := hexec o c w
    have hk : (k (exec o c w).1).Keeping I E F (exec o c w).2 := by
      rw [← hc']
      exact h c'
    exact ih _ hk

end Program

end Interleaving
