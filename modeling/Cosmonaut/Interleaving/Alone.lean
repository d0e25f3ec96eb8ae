import Cosmonaut.Interleaving.Program

/-!
# Programs that run alone

A program that nothing interrupts runs from a world to an outcome and a world. The machine may be
left with some of its choices only (`Machine.restrict`), for example with those in which nothing
fails.

* `Machine.recording` is a machine that also records what its choices bring.
* `Program.Ends` says how the program can end, and `Program.wp` speaks about all of these ways
  (`wp_iff_ends`); `Program.runWith` runs the program along given choices.
* `Program.Reaches` says that the program comes to a call, and in which world.
* `Program.Keeping I E F` is the judgement for programs that keep an invariant `I`: whatever the
  choices, `I` holds in the end, with `F` of what is returned or `E` of what is raised.
-/

namespace Interleaving

variable {S : Signature} {ε α β : Type}

/-- The machine that is left with the choices that satisfy `P`. -/
@[reducible] def Machine.restrict (M : Machine S) (P : M.Choice → Prop) : Machine S where
  World := M.World
  Choice := {c : M.Choice // P c}
  exec o c w := M.exec o c.1 w

/-- The machine that keeps a record of what its choices bring. -/
@[reducible] def Machine.recording (M : Machine S) {R : Type} (record : S.Op → M.Choice → R → R) :
    Machine S where
  World := M.World × R
  Choice := M.Choice
  exec o c w := ((M.exec o c w.1).1, (M.exec o c w.1).2, record o c w.2)

namespace Program

variable (M : Machine S)

/-- Alone, from `w`, the program can end in the outcome `r` and the world `w'`. -/
inductive Ends : Program S ε α → M.World → Except ε α → M.World → Prop
  | ret (a : α) (w : M.World) : Ends (.ret a) w (.ok a) w
  | throw (e : ε) (w : M.World) : Ends (.throw e) w (.error e) w
  | op (o : S.Op) (k : Except S.Fault (S.Ans o) → Program S ε α) (c : M.Choice) {w w' : M.World}
      {r : Except ε α} : Ends (k (M.exec o c w).1) (M.exec o c w).2 r w' → Ends (.op o k) w r w'

/-- Run the program along the choices `cs`, and then always with the choice `d`. -/
def runWith (d : M.Choice) : List M.Choice → Program S ε α → M.World → Except ε α × M.World
  | _, ret a, w => (.ok a, w)
  | _, throw e, w => (.error e, w)
  | cs, op o k, w =>
    let r := M.exec o (cs.headD d) w
    runWith d cs.tail (k r.1) r.2

variable {M}

theorem ends_runWith (d : M.Choice) (cs : List M.Choice) (p : Program S ε α) (w : M.World) :
    p.Ends M w (p.runWith M d cs w).1 (p.runWith M d cs w).2 := by
  induction p generalizing cs w with
  | ret a => exact .ret a w
  | throw e => exact .throw e w
  | op o k ih => exact .op o k (cs.headD d) (ih _ _ _)

/-- **The weakest precondition speaks about all the ways the program can end.** -/
theorem wp_iff_ends {Q : Except ε α → M.World → Prop} {p : Program S ε α} {w : M.World} :
    p.wp M Q w ↔ ∀ r w', p.Ends M w r w' → Q r w' := by
  constructor
  · intro h r w' hends
    induction hends with
    | ret a w => exact h
    | throw e w => exact h
    | op o k c _ ih => exact ih (h c)
  · intro h
    induction p generalizing w with
    | ret a => exact h _ _ (.ret a w)
    | throw e => exact h _ _ (.throw e w)
    | op o k ih => exact fun c => ih _ fun r w' hends => h r w' (.op o k c hends)

/-- A program always ends somehow. -/
theorem exists_ends [Nonempty M.Choice] (p : Program S ε α) (w : M.World) :
    ∃ r w', p.Ends M w r w' :=
  ⟨_, _, ends_runWith (Classical.arbitrary M.Choice) [] p w⟩

theorem ends_ret {a : α} {w w' : M.World} {r : Except ε α} :
    (ret a : Program S ε α).Ends M w r w' ↔ r = .ok a ∧ w' = w := by
  constructor
  · intro h
    cases h
    exact ⟨rfl, rfl⟩
  · rintro ⟨rfl, rfl⟩
    exact .ret a _

theorem ends_bind {p : Program S ε α} {f : α → Program S ε β} {w w' : M.World} {r : Except ε β} :
    (p >>= f).Ends M w r w' ↔ (∃ e, p.Ends M w (.error e) w' ∧ r = .error e) ∨
      ∃ a m, p.Ends M w (.ok a) m ∧ (f a).Ends M m r w' := by
  induction p generalizing w with
  | ret a =>
    refine ⟨fun h => .inr ⟨a, w, .ret a w, h⟩, ?_⟩
    rintro (⟨e, h, -⟩ | ⟨b, m, h, hf⟩)
    · cases h
    · cases h
      exact hf
  | throw e =>
    constructor
    · intro h
      cases h
      exact .inl ⟨e, .throw e _, rfl⟩
    · rintro (⟨e', h, rfl⟩ | ⟨b, m, h, -⟩)
      · cases h
        exact .throw e _
      · cases h
  | op o k ih =>
    constructor
    · intro h
      cases h with
      | op o k c h =>
        rcases (ih _).1 h with ⟨e, he, rfl⟩ | ⟨a, m, ha, hf⟩
        · exact .inl ⟨e, .op o k c he, rfl⟩
        · exact .inr ⟨a, m, .op o k c ha, hf⟩
    · rintro (⟨e, h, rfl⟩ | ⟨a, m, h, hf⟩)
      · cases h with
        | op o k c h => exact .op o _ c ((ih _).2 (.inl ⟨e, h, rfl⟩))
      · cases h with
        | op o k c h => exact .op o _ c ((ih _).2 (.inr ⟨a, m, h, hf⟩))

theorem ends_call {raise : S.Fault → ε} {o : S.Op} {w w' : M.World} {r : Except ε (S.Ans o)} :
    (call raise o).Ends M w r w' ↔
      ∃ c, r = (M.exec o c w).1.mapError raise ∧ w' = (M.exec o c w).2 := by
  constructor
  · intro h
    cases h with
    | op o k c h =>
      refine ⟨c, ?_⟩
      generalize M.exec o c w = res at h
      rcases res with ⟨f | a, w₁⟩ <;> cases h <;> exact ⟨rfl, rfl⟩
  · rintro ⟨c, rfl, rfl⟩
    refine .op o _ c ?_
    generalize M.exec o c w = res
    rcases res with ⟨f | a, w₁⟩
    · exact .throw _ _
    · exact .ret _ _

theorem Ends.bind_ok {p : Program S ε α} {f : α → Program S ε β} {w w' : M.World} {b : β}
    (h : (p >>= f).Ends M w (.ok b) w') :
    ∃ a m, p.Ends M w (.ok a) m ∧ (f a).Ends M m (.ok b) w' := by
  rcases ends_bind.1 h with ⟨e, -, he⟩ | ha
  · cases he
  · exact ha

theorem Ends.call_ok {raise : S.Fault → ε} {o : S.Op} {w w' : M.World} {a : S.Ans o}
    (h : (call raise o).Ends M w (.ok a) w') : ∃ c, M.exec o c w = (.ok a, w') := by
  obtain ⟨c, ha, rfl⟩ := ends_call.1 h
  refine ⟨c, Prod.ext ?_ rfl⟩
  generalize (M.exec o c w).1 = r at ha
  cases r with
  | error f => cases ha
  | ok b => rw [Except.ok.inj ha]

/-! ## The calls a program comes to -/

variable (M) in
/-- Alone, from the first world, the program can come to the call of `o`, in the second world. -/
inductive Reaches (o : S.Op) : Program S ε α → M.World → M.World → Prop
  | now (k : Except S.Fault (S.Ans o) → Program S ε α) (w : M.World) : Reaches o (.op o k) w w
  | later (o' : S.Op) (k : Except S.Fault (S.Ans o') → Program S ε α) (c : M.Choice)
      {w m : M.World} : Reaches o (k (M.exec o' c w).1) (M.exec o' c w).2 m →
      Reaches o (.op o' k) w m

theorem reaches_bind {o : S.Op} {p : Program S ε α} {f : α → Program S ε β} {w m : M.World} :
    (p >>= f).Reaches M o w m ↔ p.Reaches M o w m ∨
      ∃ a w', p.Ends M w (.ok a) w' ∧ (f a).Reaches M o w' m := by
  induction p generalizing w with
  | ret a =>
    refine ⟨fun h => .inr ⟨a, w, .ret a w, h⟩, ?_⟩
    rintro (h | ⟨b, w', h, hf⟩)
    · cases h
    · cases h
      exact hf
  | throw e =>
    constructor
    · intro h
      cases h
    · rintro (h | ⟨b, w', h, -⟩)
      · cases h
      · cases h
  | op o' k ih =>
    constructor
    · intro h
      cases h with
      | now => exact .inl (.now k _)
      | later o' k c h =>
        rcases (ih _).1 h with h | ⟨a, w', ha, hf⟩
        · exact .inl (.later o' k c h)
        · exact .inr ⟨a, w', .op o' k c ha, hf⟩
    · rintro (h | ⟨a, w', h, hf⟩)
      · cases h with
        | now => exact .now _ _
        | later o' k c h => exact .later o' _ c ((ih _).2 (.inl h))
      · cases h with
        | op o' k c h => exact .later o' _ c ((ih _).2 (.inr ⟨a, w', h, hf⟩))

theorem reaches_tryCatch {o : S.Op} {p : Program S ε α} {h : ε → Program S ε α} {w m : M.World} :
    (p.tryCatch h).Reaches M o w m ↔ p.Reaches M o w m ∨
      ∃ e w', p.Ends M w (.error e) w' ∧ (h e).Reaches M o w' m := by
  induction p generalizing w with
  | ret a =>
    constructor
    · intro hr
      cases hr
    · rintro (hr | ⟨e, w', hr, -⟩)
      · cases hr
      · cases hr
  | throw e =>
    refine ⟨fun hr => .inr ⟨e, w, .throw e w, hr⟩, ?_⟩
    rintro (hr | ⟨e', w', hr, hh⟩)
    · cases hr
    · cases hr
      exact hh
  | op o' k ih =>
    constructor
    · intro hr
      cases hr with
      | now => exact .inl (.now k _)
      | later o' k c hr =>
        rcases (ih _).1 hr with hr | ⟨e, w', he, hh⟩
        · exact .inl (.later o' k c hr)
        · exact .inr ⟨e, w', .op o' k c he, hh⟩
    · rintro (hr | ⟨e, w', hr, hh⟩)
      · cases hr with
        | now => exact .now _ _
        | later o' k c hr => exact .later o' _ c ((ih _).2 (.inl hr))
      · cases hr with
        | op o' k c hr => exact .later o' _ c ((ih _).2 (.inr ⟨e, w', hr, hh⟩))

theorem reaches_call {raise : S.Fault → ε} {o o' : S.Op} {w m : M.World}
    (h : (call raise o).Reaches M o' w m) : o' = o ∧ m = w := by
  cases h with
  | now => exact ⟨rfl, rfl⟩
  | later o k c h =>
    generalize M.exec o c w = res at h
    rcases res with ⟨f | a, w₁⟩ <;> cases h

theorem reaches_call_bind {raise : S.Fault → ε} {o : S.Op} {f : S.Ans o → Program S ε β}
    (w : M.World) : (call raise o >>= f).Reaches M o w w :=
  .now _ w

/-- A program comes to no call it never makes. -/
theorem Always.reaches [hc : Nonempty M.Choice] {A : Call S → Prop} {o : S.Op}
    {p : Program S ε α} {w m : M.World} (h : p.Always A) (hr : p.Reaches M o w m) :
    ∃ r, A ⟨o, r⟩ := by
  induction hr with
  | now k w => exact ⟨_, (h (M.exec o hc.some w).1).1⟩
  | later o' k c _ ih => exact ih (h _).2

/-! ## Programs that keep an invariant -/

variable {I : M.World → Prop} {E E' : ε → M.World → Prop} {F F' : α → M.World → Prop}
  {G : β → M.World → Prop} {p : Program S ε α} {w : M.World}

/-- `F` of what is returned, `E` of what is raised. -/
def outcome (E : ε → M.World → Prop) (F : α → M.World → Prop) : Except ε α → M.World → Prop
  | .ok a => F a
  | .error e => E e

/-- Whatever the choices, the program ends with the invariant `I`, and with `F` of what it has
returned or `E` of what it has raised. -/
def Keeping (I : M.World → Prop) (E : ε → M.World → Prop) (F : α → M.World → Prop)
    (p : Program S ε α) (w : M.World) : Prop :=
  p.wp M (fun r w' => I w' ∧ outcome E F r w') w

theorem keeping_ret {a : α} (hI : I w) (h : F a w) : (ret a : Program S ε α).Keeping I E F w :=
  ⟨hI, h⟩

theorem keeping_throw {e : ε} (hI : I w) (h : E e w) :
    (throw e : Program S ε α).Keeping I E F w := ⟨hI, h⟩

theorem Keeping.mono (h : p.Keeping I E F w) (hE : ∀ e w', I w' → E e w' → E' e w')
    (hF : ∀ a w', I w' → F a w' → F' a w') : p.Keeping I E' F' w :=
  wp.mono h fun r w' hr => ⟨hr.1, by
    cases r with
    | ok a => exact hF a w' hr.1 hr.2
    | error e => exact hE e w' hr.1 hr.2⟩

/-- The rule of sequencing. The invariant holds where the second program starts. -/
theorem Keeping.bind {f : α → Program S ε β} (h : p.Keeping I E F w)
    (hf : ∀ a w', I w' → F a w' → (f a).Keeping I E G w') : (p >>= f).Keeping I E G w := by
  refine (wp_bind p f w).2 (wp.mono h fun r w' hr => ?_)
  cases r with
  | ok a => exact hf a w' hr.1 hr.2
  | error e => exact hr

theorem Keeping.tryCatch {h : ε → Program S ε α} (hp : p.Keeping I E F w)
    (hh : ∀ e w', I w' → E e w' → (h e).Keeping I E' F w') :
    (p.tryCatch h).Keeping I E' F w := by
  refine (wp_tryCatch p h w).2 (wp.mono hp fun r w' hr => ?_)
  cases r with
  | ok a => exact hr
  | error e => exact hh e w' hr.1 hr.2

/-- The rule of a single operation. -/
theorem keeping_call {raise : S.Fault → ε} {o : S.Op} {F : S.Ans o → M.World → Prop}
    (hok : ∀ c a w', M.exec o c w = (.ok a, w') → I w' ∧ F a w')
    (herr : ∀ c f w', M.exec o c w = (.error f, w') → I w' ∧ E (raise f) w') :
    (call raise o).Keeping I E F w := by
  intro c
  rcases h : M.exec o c w with ⟨f | a, w'⟩
  · exact herr c f w' h
  · exact hok c a w' h

/-- What every operation of a program keeps, the program keeps as well. -/
theorem Keeping.frame {J : M.World → Prop} {A : Call S → Prop} (h : p.Keeping I E F w)
    (hp : p.Always A) (hJ : ∀ c, A c → ∀ d w, J w → J (M.exec c.op d w).2) (hw : J w) :
    p.Keeping (fun w' => I w' ∧ J w') E F w := by
  induction p generalizing w with
  | ret a => exact ⟨⟨h.1, hw⟩, h.2⟩
  | throw e => exact ⟨⟨h.1, hw⟩, h.2⟩
  | op o k ih =>
    intro d
    have hd := hp (M.exec o d w).1
    exact ih _ (h d) hd.2 (hJ _ hd.1 d w hw)

/-- So it holds where the program returns. -/
theorem Keeping.kept {J : M.World → Prop} {A : Call S → Prop} (h : p.Keeping I E F w)
    (hp : p.Always A) (hJ : ∀ c, A c → ∀ d w, J w → J (M.exec c.op d w).2) (hw : J w) :
    p.Keeping I E (fun a w' => F a w' ∧ J w') w := by
  refine wp.mono (h.frame hp hJ hw) fun r w' hr => ⟨hr.1.1, ?_⟩
  cases r with
  | ok a => exact ⟨hr.2, hr.1.2⟩
  | error e => exact hr.2

theorem Keeping.ends {r : Except ε α} {w' : M.World} (h : p.Keeping I E F w)
    (hends : p.Ends M w r w') : I w' ∧ outcome E F r w' :=
  wp_iff_ends.1 h r w' hends

/-- With fewer choices there are fewer runs. -/
theorem Ends.of_restrict {P : M.Choice → Prop} {p : Program S ε α}
    {w w' : (M.restrict P).World} {r : Except ε α} (h : p.Ends (M.restrict P) w r w') :
    p.Ends M w r w' := by
  induction p generalizing w with
  | ret a =>
    cases h
    exact .ret a _
  | throw e =>
    cases h
    exact .throw e _
  | op o k ih =>
    cases h with
    | op o k c h => exact .op o k c.1 (ih _ h)

theorem Keeping.restrict {P : M.Choice → Prop} (h : p.Keeping I E F w) :
    p.Keeping (M := M.restrict P) I E F w :=
  wp_iff_ends.2 fun _ _ hends => h.ends hends.of_restrict

end Program

end Interleaving
