import Mathlib.Analysis.Convex.Segment
import Mathlib.Algebra.Order.Field.Basic

/-!
# Lines in windows

Whether a line meets a window with sides along the axes. Each axis clips the parameters at which a
point that moves along a segment is inside, and the segment meets the window if some are left.

* `clip`: the parameters one axis leaves; `mem_clip` says which they are.
* `Window.meetsSegment`, `Window.meets`: the tests; `meets_iff` is what they decide.
-/

namespace Geometry

variable {K : Type} [Field K] [LinearOrder K]

/-- The parameters from `I` at which a point moving from `a` to `b` is between `low` and `high`. -/
def clip (I : K × K) (a b low high : K) : K × K :=
  if a < b then (max I.1 ((low - a) / (b - a)), min I.2 ((high - a) / (b - a)))
  else if b < a then (max I.1 ((high - a) / (b - a)), min I.2 ((low - a) / (b - a)))
  else if low ≤ a ∧ a ≤ high then I
  else (1, 0)

/-- A window: its lower and its upper corner. -/
structure Window (K : Type) where
  low : K × K
  high : K × K
  deriving DecidableEq

namespace Window

/-- The points of the window, its sides included. -/
def region (B : Window K) : Set (K × K) := Set.Icc B.low B.high

/-- The parameters at which a point moving from `p` to `q` is in the window. -/
def inside (B : Window K) (p q : K × K) : K × K :=
  clip (clip (0, 1) p.1 q.1 B.low.1 B.high.1) p.2 q.2 B.low.2 B.high.2

def meetsSegment (B : Window K) (p q : K × K) : Bool :=
  decide ((B.inside p q).1 ≤ (B.inside p q).2)

/-- Whether one of the line's segments meets the window. -/
def meets (B : Window K) (points : List (K × K)) : Bool :=
  (points.zip points.tail).any fun s => B.meetsSegment s.1 s.2

end Window

/-- The points of the line through the points of a list. -/
def polyline (points : List (K × K)) : Set (K × K) :=
  {z | ∃ s ∈ points.zip points.tail, z ∈ segment K s.1 s.2}

variable [IsStrictOrderedRing K]

theorem mem_clip {I : K × K} {a b low high t : K} :
    t ∈ Set.Icc (clip I a b low high).1 (clip I a b low high).2 ↔
      t ∈ Set.Icc I.1 I.2 ∧ a + t * (b - a) ∈ Set.Icc low high := by
  unfold clip
  rcases lt_trichotomy a b with hab | rfl | hab
  · have hpos : 0 < b - a := sub_pos.2 hab
    rw [if_pos hab]
    simp only [Set.mem_Icc, max_le_iff, le_min_iff, div_le_iff₀ hpos, le_div_iff₀ hpos,
      sub_le_iff_le_add', le_sub_iff_add_le']
    tauto
  · rw [if_neg (lt_irrefl _), if_neg (lt_irrefl _), sub_self, mul_zero, add_zero]
    split
    · rename_i hin
      exact ⟨fun h => ⟨h, hin⟩, fun h => h.1⟩
    · rename_i hout
      refine ⟨fun h => ?_, fun h => absurd h.2 hout⟩
      exact absurd (h.1.trans h.2) (not_le.2 zero_lt_one)
  · have hneg : b - a < 0 := sub_neg.2 hab
    rw [if_neg hab.not_gt, if_pos hab]
    simp only [Set.mem_Icc, max_le_iff, le_min_iff, div_le_iff_of_neg hneg, le_div_iff_of_neg hneg,
      sub_le_iff_le_add', le_sub_iff_add_le']
    tauto

namespace Window

variable {B B' : Window K} {p q : K × K} {points : List (K × K)}

theorem mem_inside {t : K} : t ∈ Set.Icc (B.inside p q).1 (B.inside p q).2 ↔
    t ∈ Set.Icc 0 1 ∧ p + t • (q - p) ∈ B.region := by
  rw [inside, mem_clip, mem_clip, and_assoc]
  simp only [region, Set.mem_Icc, Prod.le_def, Prod.fst_add, Prod.snd_add, Prod.smul_fst,
    Prod.smul_snd, Prod.fst_sub, Prod.snd_sub, smul_eq_mul]
  tauto

theorem meetsSegment_iff :
    B.meetsSegment p q ↔ (segment K p q ∩ B.region).Nonempty := by
  rw [meetsSegment, decide_eq_true_iff, ← Set.nonempty_Icc, segment_eq_image']
  constructor
  · rintro ⟨t, ht⟩
    obtain ⟨hunit, hin⟩ := mem_inside.1 ht
    exact ⟨_, ⟨t, hunit, rfl⟩, hin⟩
  · rintro ⟨-, ⟨t, hunit, rfl⟩, hin⟩
    exact ⟨t, mem_inside.2 ⟨hunit, hin⟩⟩

/-- **The test is whether the line has a point in the window.** -/
theorem meets_iff : B.meets points ↔ (polyline points ∩ B.region).Nonempty := by
  rw [meets, List.any_eq_true]
  constructor
  · rintro ⟨s, hs, hmeets⟩
    obtain ⟨z, hz, hin⟩ := meetsSegment_iff.1 hmeets
    exact ⟨z, ⟨s, hs, hz⟩, hin⟩
  · rintro ⟨z, ⟨s, hs, hz⟩, hin⟩
    exact ⟨s, hs, meetsSegment_iff.2 ⟨z, hz, hin⟩⟩

end Window

end Geometry
