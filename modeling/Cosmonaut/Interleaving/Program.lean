import Mathlib.Data.List.Basic
import Mathlib.Tactic.Common

/-!
# Programs over atomic operations

A program is a tree: it has returned, it has raised, or it asks for one atomic operation and goes
on with what the operation answers, which may be a fault. What the operations do is left to a
machine (`Machine`), so that one program has two meanings: `Program.wp` runs it alone, and the pools
of `Pool.lean` run it in small steps among other programs.

* `Program.tryCatch` is `try … except`.
* `Program.Always P` says that every call the program can ever make satisfies `P`, whatever the
  operations answer; `Program.Trail P` says the same with the calls made before in view.
* `Program.wp` is the weakest precondition of a run that nothing interrupts.
-/

namespace Interleaving

/-- The atomic operations, what each one answers, and the faults they may end in instead. -/
structure Signature where
  Op : Type
  Ans : Op → Type
  Fault : Type

/-- A program that asks for operations of `S`, raises exceptions of `ε` and returns an `α`. -/
inductive Program (S : Signature) (ε α : Type) : Type
  | ret (a : α)
  | throw (e : ε)
  | op (o : S.Op) (k : Except S.Fault (S.Ans o) → Program S ε α)

/-- A call a program has made: the operation and what it answered. -/
structure Call (S : Signature) where
  op : S.Op
  ans : Except S.Fault (S.Ans op)

namespace Program

variable {S : Signature} {ε α β γ : Type}

/-- Run `p`, then `f` on what it returned. An exception of `p` skips `f`. -/
def bind : Program S ε α → (α → Program S ε β) → Program S ε β
  | ret a, f => f a
  | throw e, _ => throw e
  | op o k, f => op o fun r => bind (k r) f

/-- Run `p`, and `h` on the exception it raised, if any. -/
def tryCatch : Program S ε α → (ε → Program S ε α) → Program S ε α
  | ret a, _ => ret a
  | throw e, h => h e
  | op o k, h => op o fun r => tryCatch (k r) h

instance : Monad (Program S ε) where
  pure := ret
  bind := bind

/-- A value returned or an exception raised. -/
def ofExcept : Except ε α → Program S ε α
  | .ok a => ret a
  | .error e => throw e

/-- Ask for one operation, and raise `raise f` if it ends in the fault `f`. -/
def call (raise : S.Fault → ε) (o : S.Op) : Program S ε (S.Ans o) :=
  op o fun
    | .ok a => ret a
    | .error f => throw (raise f)

@[simp] theorem pure_eq (a : α) : (pure a : Program S ε α) = ret a := rfl

@[simp] theorem ret_bind (a : α) (f : α → Program S ε β) : (ret a >>= f) = f a := rfl

@[simp] theorem throw_bind (e : ε) (f : α → Program S ε β) :
    ((throw e : Program S ε α) >>= f) = throw e := rfl

@[simp] theorem op_bind (o : S.Op) (k : Except S.Fault (S.Ans o) → Program S ε α)
    (f : α → Program S ε β) : (op o k >>= f) = op o fun r => k r >>= f := rfl

@[simp] theorem tryCatch_ret (a : α) (h : ε → Program S ε α) : (ret a).tryCatch h = ret a := rfl

@[simp] theorem tryCatch_throw (e : ε) (h : ε → Program S ε α) : (throw e).tryCatch h = h e := rfl

@[simp] theorem tryCatch_op (o : S.Op) (k : Except S.Fault (S.Ans o) → Program S ε α)
    (h : ε → Program S ε α) : (op o k).tryCatch h = op o fun r => (k r).tryCatch h := rfl

@[simp] theorem ofExcept_ok (a : α) : (ofExcept (.ok a) : Program S ε α) = ret a := rfl

@[simp] theorem ofExcept_error (e : ε) : (ofExcept (.error e) : Program S ε α) = throw e := rfl

protected theorem bind_ret (p : Program S ε α) : p.bind ret = p := by
  induction p with
  | ret a => rfl
  | throw e => rfl
  | op o k ih => exact congrArg (op o) (funext ih)

protected theorem bind_assoc (p : Program S ε α) (f : α → Program S ε β) (g : β → Program S ε γ) :
    (p.bind f).bind g = p.bind fun a => (f a).bind g := by
  induction p with
  | ret a => rfl
  | throw e => rfl
  | op o k ih => exact congrArg (op o) (funext ih)

instance : LawfulMonad (Program S ε) :=
  LawfulMonad.mk' (Program S ε) (fun p => Program.bind_ret p) (fun _ _ => rfl) Program.bind_assoc

/-! ## What a program can ever call -/

/-- Every call the program can make satisfies `P past`, where `past` are the calls made before,
the last one first, and every outcome satisfies `Q` of all the calls made. -/
def Trail (P : List (Call S) → Call S → Prop) (Q : List (Call S) → Except ε α → Prop) :
    List (Call S) → Program S ε α → Prop
  | past, ret a => Q past (.ok a)
  | past, throw e => Q past (.error e)
  | past, op o k => ∀ r, P past ⟨o, r⟩ ∧ Trail P Q (⟨o, r⟩ :: past) (k r)

variable {P P' : List (Call S) → Call S → Prop}

theorem Trail.mono {Q Q' : List (Call S) → Except ε α → Prop} {past : List (Call S)}
    {p : Program S ε α} (h : p.Trail P Q past) (hP : ∀ past c, P past c → P' past c)
    (hQ : ∀ past r, Q past r → Q' past r) : p.Trail P' Q' past := by
  induction p generalizing past with
  | ret a => exact hQ _ _ h
  | throw e => exact hQ _ _ h
  | op o k ih => exact fun r => ⟨hP _ _ (h r).1, ih r (h r).2⟩

/-- The rule of sequencing: `f` starts with the calls `p` has made in view. -/
theorem trail_bind {Q : List (Call S) → Except ε β → Prop} {past : List (Call S)}
    (p : Program S ε α) (f : α → Program S ε β) :
    (p >>= f).Trail P Q past ↔
      p.Trail P (fun past' r => match r with
        | .ok a => (f a).Trail P Q past'
        | .error e => Q past' (.error e)) past := by
  induction p generalizing past with
  | ret a => rfl
  | throw e => rfl
  | op o k ih => exact forall_congr' fun r => and_congr_right fun _ => ih r

/-- The rule of sequencing for what holds whatever was called before. -/
theorem Trail.seq {p : Program S ε α} {f : α → Program S ε β} {past : List (Call S)}
    (hp : p.Trail P (fun _ _ => True) past)
    (hf : ∀ a past, (f a).Trail P (fun _ _ => True) past) :
    (p >>= f).Trail P (fun _ _ => True) past := by
  refine (trail_bind p f).2 (hp.mono (fun _ _ h => h) fun past' r _ => ?_)
  cases r with
  | ok a => exact hf a past'
  | error e => trivial

theorem trail_tryCatch {Q : List (Call S) → Except ε α → Prop} {past : List (Call S)}
    (p : Program S ε α) (h : ε → Program S ε α) :
    (p.tryCatch h).Trail P Q past ↔
      p.Trail P (fun past' r => match r with
        | .ok a => Q past' (.ok a)
        | .error e => (h e).Trail P Q past') past := by
  induction p generalizing past with
  | ret a => rfl
  | throw e => rfl
  | op o k ih => exact forall_congr' fun r => and_congr_right fun _ => ih r

/-- The rule of handlers for what holds whatever was called before. -/
theorem Trail.handle {p : Program S ε α} {h : ε → Program S ε α} {past : List (Call S)}
    (hp : p.Trail P (fun _ _ => True) past)
    (hh : ∀ e past, (h e).Trail P (fun _ _ => True) past) :
    (p.tryCatch h).Trail P (fun _ _ => True) past := by
  refine (trail_tryCatch p h).2 (hp.mono (fun _ _ h => h) fun past' r _ => ?_)
  cases r with
  | ok a => trivial
  | error e => exact hh e past'

/-- Every call the program can ever make satisfies `P`. -/
def Always (P : Call S → Prop) : Program S ε α → Prop
  | ret _ => True
  | throw _ => True
  | op o k => ∀ r, P ⟨o, r⟩ ∧ Always P (k r)

variable {A A' : Call S → Prop}

@[simp] theorem always_ret (a : α) : (ret a : Program S ε α).Always A := trivial

@[simp] theorem always_throw (e : ε) : (throw e : Program S ε α).Always A := trivial

theorem always_of_forall (h : ∀ c, A c) (p : Program S ε α) : p.Always A := by
  induction p with
  | ret a => trivial
  | throw e => trivial
  | op o k ih => exact fun r => ⟨h _, ih r⟩

theorem Always.mono {p : Program S ε α} (h : p.Always A) (hA : ∀ c, A c → A' c) : p.Always A' := by
  induction p with
  | ret a => trivial
  | throw e => trivial
  | op o k ih => exact fun r => ⟨hA _ (h r).1, ih r (h r).2⟩

theorem always_call {raise : S.Fault → ε} {o : S.Op} (h : ∀ r, A ⟨o, r⟩) :
    (call raise o).Always A :=
  fun r => ⟨h r, by cases r <;> trivial⟩

theorem Always.bind {p : Program S ε α} {f : α → Program S ε β} (hp : p.Always A)
    (hf : ∀ a, (f a).Always A) : (p >>= f).Always A := by
  induction p with
  | ret a => exact hf a
  | throw e => trivial
  | op o k ih => exact fun r => ⟨(hp r).1, ih r (hp r).2⟩

/-- Every value the program can ever return satisfies `R`. -/
def Returns (R : α → Prop) : Program S ε α → Prop
  | ret a => R a
  | throw _ => True
  | op _ k => ∀ r, Returns R (k r)

theorem returns_call {raise : S.Fault → ε} {o : S.Op} {R : S.Ans o → Prop} (h : ∀ a, R a) :
    (call raise o).Returns R
  | .ok a => h a
  | .error _ => trivial

theorem Returns.bind {R : α → Prop} {R' : β → Prop} {p : Program S ε α} {f : α → Program S ε β}
    (hp : p.Returns R) (hf : ∀ a, R a → (f a).Returns R') : (p >>= f).Returns R' := by
  induction p with
  | ret a => exact hf a hp
  | throw e => trivial
  | op o k ih => exact fun r => ih r (hp r)

/-- What comes last returns the value. -/
theorem Returns.last {R : β → Prop} {p : Program S ε α} {f : α → Program S ε β}
    (hf : ∀ a, (f a).Returns R) : (p >>= f).Returns R := by
  induction p with
  | ret a => exact hf a
  | throw e => trivial
  | op o k ih => exact fun r => ih r

theorem Returns.tryCatch {R : α → Prop} {p : Program S ε α} {h : ε → Program S ε α}
    (hp : p.Returns R) (hh : ∀ e, (h e).Returns R) : (p.tryCatch h).Returns R := by
  induction p with
  | ret a => exact hp
  | throw e => exact hh e
  | op o k ih => exact fun r => ih r (hp r)

/-- What a program returns, with what it has called in view. -/
theorem Trail.returns {P : List (Call S) → Call S → Prop} {Q : List (Call S) → Except ε α → Prop}
    {R : α → Prop} {p : Program S ε α} {past : List (Call S)} (h : p.Trail P Q past)
    (hr : p.Returns R) :
    p.Trail P (fun past res => Q past res ∧ ∀ a, res = .ok a → R a) past := by
  induction p generalizing past with
  | ret a => exact ⟨h, fun b hb => by cases hb; exact hr⟩
  | throw e => exact ⟨h, fun b hb => by cases hb⟩
  | op o k ih => exact fun r => ⟨(h r).1, ih r (h r).2 (hr r)⟩

/-- Every exception the program can ever raise satisfies `R`. -/
def Raises (R : ε → Prop) : Program S ε α → Prop
  | ret _ => True
  | throw e => R e
  | op _ k => ∀ r, Raises R (k r)

theorem raises_call {raise : S.Fault → ε} {o : S.Op} {R : ε → Prop} (h : ∀ f, R (raise f)) :
    (call raise o).Raises R
  | .ok _ => trivial
  | .error f => h f

theorem Raises.bind {R : ε → Prop} {p : Program S ε α} {f : α → Program S ε β}
    (hp : p.Raises R) (hf : ∀ a, (f a).Raises R) : (p >>= f).Raises R := by
  induction p with
  | ret a => exact hf a
  | throw e => exact hp
  | op o k ih => exact fun r => ih r (hp r)

theorem raises_ite {R : ε → Prop} {c : Prop} [Decidable c] {p q : Program S ε α}
    (hp : c → p.Raises R) (hq : ¬c → q.Raises R) : (if c then p else q).Raises R := by
  split
  · exact hp ‹_›
  · exact hq ‹_›

/-- The rule of sequencing, with what `p` returns in view. -/
theorem Always.bind_returns {R : α → Prop} {p : Program S ε α} {f : α → Program S ε β}
    (hp : p.Always A) (hr : p.Returns R) (hf : ∀ a, R a → (f a).Always A) :
    (p >>= f).Always A := by
  induction p with
  | ret a => exact hf a hr
  | throw e => trivial
  | op o k ih => exact fun r => ⟨(hp r).1, ih r (hp r).2 (hr r)⟩

theorem Always.tryCatch {p : Program S ε α} {h : ε → Program S ε α} (hp : p.Always A)
    (hh : ∀ e, (h e).Always A) : (p.tryCatch h).Always A := by
  induction p with
  | ret a => trivial
  | throw e => exact hh e
  | op o k ih => exact fun r => ⟨(hp r).1, ih r (hp r).2⟩

theorem always_ite {c : Prop} [Decidable c] {p q : Program S ε α} (hp : c → p.Always A)
    (hq : ¬c → q.Always A) : (if c then p else q).Always A := by
  split
  · exact hp ‹_›
  · exact hq ‹_›

/-- Every call the program can ever make satisfies `A`, and every exception it can raise `R`. -/
def Within (A : Call S → Prop) (R : ε → Prop) (p : Program S ε α) : Prop :=
  p.Always A ∧ p.Raises R

variable {R : ε → Prop}

@[simp] theorem within_ret (a : α) : (ret a : Program S ε α).Within A R := ⟨trivial, trivial⟩

theorem within_throw {e : ε} (h : R e) : (throw e : Program S ε α).Within A R := ⟨trivial, h⟩

theorem within_call {raise : S.Fault → ε} {o : S.Op} (h : ∀ r, A ⟨o, r⟩)
    (hr : ∀ f, R (raise f)) : (call raise o).Within A R :=
  ⟨always_call h, raises_call hr⟩

theorem Within.bind {p : Program S ε α} {f : α → Program S ε β} (hp : p.Within A R)
    (hf : ∀ a, (f a).Within A R) : (p >>= f).Within A R :=
  ⟨hp.1.bind fun a => (hf a).1, hp.2.bind fun a => (hf a).2⟩

theorem Within.tryCatch {p : Program S ε α} {h : ε → Program S ε α} (hp : p.Within A R)
    (hh : ∀ e, R e → (h e).Within A R) : (p.tryCatch h).Within A R := by
  induction p with
  | ret a => exact within_ret a
  | throw e => exact hh e hp.2
  | op o k ih =>
    have hk : ∀ r, ((k r).tryCatch h).Within A R := fun r => ih r ⟨(hp.1 r).2, hp.2 r⟩
    exact ⟨fun r => ⟨(hp.1 r).1, (hk r).1⟩, fun r => (hk r).2⟩

theorem within_ite {c : Prop} [Decidable c] {p q : Program S ε α} (hp : c → p.Within A R)
    (hq : ¬c → q.Within A R) : (if c then p else q).Within A R :=
  ⟨always_ite (fun h => (hp h).1) fun h => (hq h).1,
    raises_ite (fun h => (hp h).2) fun h => (hq h).2⟩

theorem Within.mono {p : Program S ε α} (h : p.Within A R) (hA : ∀ c, A c → A' c) :
    p.Within A' R :=
  ⟨h.1.mono hA, h.2⟩

end Program

/-! ## Machines -/

/-- What the operations do: a step of the world, which also depends on a choice that is not the
program's to make (a failing service, what a remote query brings). -/
structure Machine (S : Signature) where
  World : Type
  Choice : Type
  exec : (o : S.Op) → Choice → World → Except S.Fault (S.Ans o) × World

namespace Program

variable {S : Signature} {ε α β : Type} (M : Machine S)

/-- The weakest precondition of a run of the program alone: whatever the choices, the run ends in
an outcome and a world that satisfy `Q`. -/
def wp (Q : Except ε α → M.World → Prop) : Program S ε α → M.World → Prop
  | ret a, w => Q (.ok a) w
  | throw e, w => Q (.error e) w
  | op o k, w => ∀ c, wp Q (k (M.exec o c w).1) (M.exec o c w).2

variable {M}

theorem wp_bind {Q : Except ε β → M.World → Prop} (p : Program S ε α) (f : α → Program S ε β)
    (w : M.World) :
    (p >>= f).wp M Q w ↔
      p.wp M (fun r w' => match r with
        | .ok a => (f a).wp M Q w'
        | .error e => Q (.error e) w') w := by
  induction p generalizing w with
  | ret a => rfl
  | throw e => rfl
  | op o k ih => exact forall_congr' fun c => ih _ _

theorem wp_tryCatch {Q : Except ε α → M.World → Prop} (p : Program S ε α)
    (h : ε → Program S ε α) (w : M.World) :
    (p.tryCatch h).wp M Q w ↔
      p.wp M (fun r w' => match r with
        | .ok a => Q (.ok a) w'
        | .error e => (h e).wp M Q w') w := by
  induction p generalizing w with
  | ret a => rfl
  | throw e => rfl
  | op o k ih => exact forall_congr' fun c => ih _ _

theorem wp.mono {Q Q' : Except ε α → M.World → Prop} {p : Program S ε α} {w : M.World}
    (h : p.wp M Q w) (hQ : ∀ r w, Q r w → Q' r w) : p.wp M Q' w := by
  induction p generalizing w with
  | ret a => exact hQ _ _ h
  | throw e => exact hQ _ _ h
  | op o k ih => exact fun c => ih _ (h c)

/-- The frame rule: what no call of the program breaks, holds when it ends. -/
theorem Always.wp {I : M.World → Prop} {A : Call S → Prop} {p : Program S ε α} {w : M.World}
    (h : p.Always A)
    (hI : ∀ o c w, A ⟨o, (M.exec o c w).1⟩ → I w → I (M.exec o c w).2) (hw : I w) :
    p.wp M (fun _ w => I w) w := by
  induction p generalizing w with
  | ret a => exact hw
  | throw e => exact hw
  | op o k ih => exact fun c => ih _ (h _).2 (hI o c w (h _).1 hw)

end Program

end Interleaving
