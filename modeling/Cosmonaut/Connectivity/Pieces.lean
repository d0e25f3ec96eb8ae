import Mathlib.Data.Set.Basic
import Mathlib.Logic.Relation

/-!
# Sets in one piece

Things that touch each other, such as segments that share an end, chain up to pieces.

* `Chained` and `InOnePiece`.
* `inOnePiece_iff_of_map`: a map that keeps touching and reaches every member keeps the pieces.
-/

namespace Connectivity

variable {α β : Type} {s : Set α} {t : Set β} {touch : α → α → Prop}
    {touch' : β → β → Prop} {a b : α}

/-- A chain of members leads from one to the other, each touching the next. -/
def Chained (s : Set α) (touch : α → α → Prop) : α → α → Prop :=
  Relation.ReflTransGen fun a b => a ∈ s ∧ b ∈ s ∧ touch a b

/-- Any two members are chained. -/
def InOnePiece (s : Set α) (touch : α → α → Prop) : Prop :=
  ∀ a ∈ s, ∀ b ∈ s, Chained s touch a b

theorem chained_of_touch (ha : a ∈ s) (hb : b ∈ s) (h : touch a b) : Chained s touch a b :=
  .single ⟨ha, hb, h⟩

/-- Chains go along a map that keeps touching. -/
theorem Chained.map {f : α → β} (hf : ∀ a ∈ s, f a ∈ t)
    (htouch : ∀ a ∈ s, ∀ b ∈ s, touch a b → touch' (f a) (f b)) (h : Chained s touch a b) :
    Chained t touch' (f a) (f b) := by
  induction h with
  | refl => exact .refl
  | tail _ hstep ih =>
    obtain ⟨hb, hc, hbc⟩ := hstep
    exact ih.tail ⟨hf _ hb, hf _ hc, htouch _ hb _ hc hbc⟩

/-- Chains of images come from chains. -/
theorem Chained.lift {f : α → β} (hsurj : ∀ b ∈ t, ∃ a ∈ s, f a = b)
    (htouch : ∀ a ∈ s, ∀ b ∈ s, touch' (f a) (f b) → touch a b) (ha : a ∈ s) {c : β}
    (h : Chained t touch' (f a) c) : ∃ b ∈ s, f b = c ∧ Chained s touch a b := by
  induction h with
  | refl => exact ⟨a, ha, rfl, .refl⟩
  | tail _ hstep ih =>
    obtain ⟨b, hb, rfl, hab⟩ := ih
    obtain ⟨-, hc, hbc⟩ := hstep
    obtain ⟨c, hcs, rfl⟩ := hsurj _ hc
    exact ⟨c, hcs, rfl, hab.tail ⟨hb, hcs, htouch _ hb _ hcs hbc⟩⟩

/-- **Pieces are kept** by a map onto the members that keeps touching both ways. -/
theorem inOnePiece_iff_of_map {f : α → β} (hf : ∀ a ∈ s, f a ∈ t)
    (hsurj : ∀ b ∈ t, ∃ a ∈ s, f a = b)
    (hself : ∀ b ∈ t, touch' b b)
    (htouch : ∀ a ∈ s, ∀ b ∈ s, (touch a b ↔ touch' (f a) (f b))) :
    InOnePiece s touch ↔ InOnePiece t touch' := by
  constructor
  · intro h c hc d hd
    obtain ⟨a, ha, rfl⟩ := hsurj c hc
    obtain ⟨b, hb, rfl⟩ := hsurj d hd
    exact (h a ha b hb).map hf fun a ha b hb => (htouch a ha b hb).1
  · intro h a ha b hb
    obtain ⟨b', hb', hfb, hchain⟩ :=
      (h (f a) (hf a ha) (f b) (hf b hb)).lift hsurj (fun a ha b hb => (htouch a ha b hb).2) ha
    -- the two members with the same image touch
    have htouches : touch b' b := by
      rw [htouch b' hb' b hb, hfb]
      exact hself _ (hf b hb)
    exact hchain.tail ⟨hb', hb, htouches⟩

end Connectivity
