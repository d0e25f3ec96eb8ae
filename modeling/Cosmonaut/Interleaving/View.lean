import Cosmonaut.Interleaving.Alone
import Cosmonaut.Interleaving.Execution

/-!
# Programs through a view

A property may depend on a part of the world only. A view takes a world to that part, and a program
is then specified by what it makes of the view.

* `Program.Turns M view v E F p`: from every world with the view `v`, the program `p` ends in a
  world with a view of which `F` holds, or `E` if it raises.
* Rules for sequencing, handlers and single operations. An operation may leave the view alone
  (`Unseen`), or keep a property of it (`Keeps`).
* `Turns.executes`: so does every execution that nothing interleaves with.
-/

namespace Interleaving

variable {S : Signature} {ε α β V : Type} {M : Machine S}

namespace Program

/-- An execution that nothing interleaves with is a run of the program alone. -/
theorem Executes.ends {p : Program S ε α} {es : List (Event M)} {r : Except ε α} {w w' : M.World}
    (h : p.Executes es r) (hw : Chain w es w') : p.Ends M w r w' := by
  induction h generalizing w with
  | ret a =>
    obtain rfl : w = w' := hw
    exact .ret a w
  | throw x =>
    obtain rfl : w = w' := hw
    exact .throw x w
  | @op o k t before after ans es r _ _ ih =>
    obtain ⟨rfl, ⟨c, hex⟩, hrest⟩ := hw
    have hans : (M.exec o c before).1 = ans := congrArg Prod.fst hex
    have hafter : (M.exec o c before).2 = after := congrArg Prod.snd hex
    subst hans hafter
    exact .op o k c (ih hrest)

variable {view : M.World → V} {v : V} {E E' : V → Prop} {F F' : α → V → Prop} {G : β → V → Prop}
  {p : Program S ε α}

/-- From every world with the view `v`, the program ends in a world with a view of which `F` holds,
or `E` if it raises. -/
def Turns (M : Machine S) (view : M.World → V) (v : V) (E : V → Prop) (F : α → V → Prop)
    (p : Program S ε α) : Prop :=
  ∀ w, view w = v → p.Keeping (M := M) (fun _ => True) (fun _ w' => E (view w'))
    (fun a w' => F a (view w')) w

theorem turns_ret {a : α} (h : F a v) : (ret a : Program S ε α).Turns M view v E F := by
  rintro w rfl
  exact keeping_ret trivial h

theorem turns_throw {e : ε} (h : E v) : (throw e : Program S ε α).Turns M view v E F := by
  rintro w rfl
  exact keeping_throw trivial h

theorem Turns.mono (h : p.Turns M view v E F) (hE : ∀ v', E v' → E' v')
    (hF : ∀ a v', F a v' → F' a v') : p.Turns M view v E' F' :=
  fun w hw => Keeping.mono (h w hw) (fun _ _ _ => hE _) fun a _ _ => hF a _

theorem Turns.bind {f : α → Program S ε β} (h : p.Turns M view v E F)
    (hf : ∀ a v', F a v' → (f a).Turns M view v' E G) : (p >>= f).Turns M view v E G :=
  fun w hw => Keeping.bind (h w hw) fun a w' _ ha => hf a _ ha w' rfl

theorem Turns.tryCatch {handler : ε → Program S ε α} (h : p.Turns M view v E F)
    (hh : ∀ e v', E v' → (handler e).Turns M view v' E' F) :
    (p.tryCatch handler).Turns M view v E' F :=
  fun w hw => Keeping.tryCatch (h w hw) fun e w' _ he => hh e _ he w' rfl

theorem turns_ite {c : Prop} [Decidable c] {q : Program S ε α} (hp : c → p.Turns M view v E F)
    (hq : ¬c → q.Turns M view v E F) : (if c then p else q).Turns M view v E F := by
  split
  · exact hp ‹_›
  · exact hq ‹_›

/-- The rule of a single operation. -/
theorem turns_call {raise : S.Fault → ε} {o : S.Op} {F : S.Ans o → V → Prop}
    (hok : ∀ c w a w', view w = v → M.exec o c w = (.ok a, w') → F a (view w'))
    (herr : ∀ c w f w', view w = v → M.exec o c w = (.error f, w') → E (view w')) :
    (call raise o).Turns M view v E F := by
  intro w hw
  exact keeping_call (fun c a w' h => ⟨trivial, hok c w a w' hw h⟩)
    fun c f w' h => ⟨trivial, herr c w f w' hw h⟩

/-- The operation leaves the view alone. -/
def Unseen (view : M.World → V) (o : S.Op) : Prop := ∀ c w, view (M.exec o c w).2 = view w

/-- The operation keeps the property `I` of the view. -/
def Keeps (view : M.World → V) (I : V → Prop) (o : S.Op) : Prop :=
  ∀ c w, I (view w) → I (view (M.exec o c w).2)

theorem Unseen.keeps {I : V → Prop} {o : S.Op} (h : Unseen view o) : Keeps view I o := by
  intro c w hI
  rwa [h c w]

/-- A program whose operations keep a property of the view. -/
theorem Always.turns {I : V → Prop} (h : p.Always fun c => Keeps view I c.op) (hv : I v) :
    p.Turns M view v I (fun _ => I) := by
  rintro w rfl
  have hI : p.wp M (fun _ w' => I (view w')) w :=
    h.wp (fun o c w hkeeps hI => hkeeps c w hI) hv
  refine wp.mono hI fun r w' hr => ⟨trivial, ?_⟩
  cases r with
  | ok a => exact hr
  | error e => exact hr

/-- **What an execution does to the view**, if nothing interleaves with it. -/
theorem Turns.executes {es : List (Event M)} {r : Except ε α} {w w' : M.World}
    (h : p.Turns M view (view w) E F) (hes : p.Executes es r) (hw : Chain w es w') :
    outcome (fun _ w' => E (view w')) (fun a w' => F a (view w')) r w' :=
  (Keeping.ends (h w rfl) (hes.ends hw)).2

theorem Turns.ends {r : Except ε α} {w w' : M.World} (h : p.Turns M view (view w) E fun _ => E)
    (hends : p.Ends M w r w') : E (view w') := by
  have hout := (Keeping.ends (h w rfl) hends).2
  cases r with
  | ok a => exact hout
  | error e => exact hout

end Program

end Interleaving
