import Cosmonaut.Plot.Grid
import Mathlib.Data.Int.Interval
import Mathlib.Tactic.Linarith

/-!
# Where the membership raster lies

`_save_image` stretches the image evenly over the bounds of the points, while the index of a pixel
counts the distinct coordinates before it. The coordinates lie on the lines of a lattice, on some of
which there may be no point. All this is in exact arithmetic.

* `Lattice.before`, `Lattice.missing`: how many lines before a point are occupied, and how many are
  not.
* `isPlaced_iff`: for which points the pixels lie where the points are.
* `patches_misplaced`: two patches for which they do not.
-/

namespace Cosmonaut

/-- The closed extent of a pixel contains the position. -/
def Affine.Covers (t : Affine) (row col : ℕ) (p : Point) : Prop :=
  ∃ u v : ℚ, (col ≤ u ∧ u ≤ col + 1) ∧ (row ≤ v ∧ v ≤ row + 1) ∧ t.apply u v = p

section

variable [Plotting]

/-- The transformation of `_save_image`. -/
def transform (df : DataFrame) : Affine :=
  Plotting.fromBounds (Plotting.min (eastings df)) (Plotting.max (northings df))
    (Plotting.max (eastings df)) (Plotting.min (northings df))
    (Plotting.unique (eastings df)).length (Plotting.unique (northings df)).length

/-- The pixel of every point contains it. -/
def IsPlaced (df : DataFrame) : Prop :=
  ∀ i < (northings df).length, (transform df).Covers (xIndex df i) (yIndex df i)
    ((eastings df).getD i 0, (northings df).getD i 0)

end

/-- A table of points, with at least two eastings and two northings. -/
structure IsPointTable (df : DataFrame) : Prop where
  sameLength : (eastings df).length = (northings df).length
  eastings : ∃ x ∈ eastings df, ∃ y ∈ eastings df, x ≠ y
  northings : ∃ x ∈ northings df, ∃ y ∈ northings df, x ≠ y

/-! ## Ranks -/

/-- In a sorted list, the index of a number counts the smaller ones. -/
theorem idxOf_eq_countP {u : List ℚ} (hu : u.Pairwise (· < ·)) {x : ℚ} (hx : x ∈ u) :
    u.idxOf x = u.countP (· < x) := by
  induction hu with
  | nil => cases hx
  | @cons y ys hy _ ih =>
    rcases List.mem_cons.1 hx with rfl | hmem
    · have hnone : ∀ z ∈ x :: ys, ¬(z < x) := by
        intro z hz
        rcases List.mem_cons.1 hz with rfl | hz
        · exact lt_irrefl z
        · exact (hy z hz).not_gt
      rw [List.idxOf_cons_self, eq_comm, List.countP_eq_zero]
      intro z hz
      simpa using hnone z hz
    · have hlt := hy x hmem
      rw [List.idxOf_cons_ne _ hlt.ne, ih hmem, List.countP_cons_of_pos (by simpa using hlt)]

/-! ## Lattices -/

/-- The lines of one direction of a regular lattice. -/
structure Lattice where
  origin : ℚ
  step : ℚ
  step_pos : 0 < step

namespace Lattice

variable (L : Lattice)

def line (k : ℤ) : ℚ := L.origin + k * L.step

/-- The number of the line that a coordinate lies on. -/
def number (x : ℚ) : ℤ := ⌊(x - L.origin) / L.step⌋

/-- All coordinates lie on lines. -/
def Carries (l : List ℚ) : Prop := ∀ x ∈ l, ∃ k : ℤ, x = L.line k

variable {L} {l : List ℚ} {x y : ℚ}

theorem number_line (k : ℤ) : L.number (L.line k) = k := by
  have hstep := L.step_pos.ne'
  have hquotient : (L.line k - L.origin) / L.step = k := by
    rw [line, add_sub_cancel_left, mul_div_assoc, div_self hstep, mul_one]
  rw [number, hquotient, Int.floor_intCast]

theorem line_number (hl : L.Carries l) (hx : x ∈ l) : L.line (L.number x) = x := by
  obtain ⟨k, rfl⟩ := hl x hx
  rw [number_line]

theorem line_injective : Function.Injective L.line := fun j k h => by
  rw [← number_line (L := L) j, h, number_line]

theorem line_lt_iff {j k : ℤ} : L.line j < L.line k ↔ j < k := by
  rw [line, line, add_lt_add_iff_left, mul_lt_mul_iff_left₀ L.step_pos, Int.cast_lt]

variable [Plotting]

/-- The lines from the first occupied one up to a coordinate. -/
def linesBefore (L : Lattice) (l : List ℚ) (x : ℚ) : Finset ℤ :=
  -- the computable order of the integers, by name
  @Finset.Ico ℤ Int.instLinearOrder.toPartialOrder.toPreorder _ (L.number (Plotting.min l))
  (L.number x)

/-- How many lines before a coordinate have points on them. -/
def before (L : Lattice) (l : List ℚ) (x : ℚ) : ℕ :=
  ((L.linesBefore l x).filter fun k => L.line k ∈ l).card

/-- How many lines before a coordinate, from the first with points on, have none. -/
def missing (L : Lattice) (l : List ℚ) (x : ℚ) : ℕ :=
  ((L.linesBefore l x).filter fun k => L.line k ∉ l).card

/-- The missing lines before a coordinate are in proportion to the occupied ones: if `k` of `n`
occupied and `m` of `M` missing lines are before it, then `m` is about `M / n` times `k`. -/
def InProportion (L : Lattice) (l : List ℚ) (x : ℚ) : Prop :=
  L.before l x * L.missing l (Plotting.max l) ≤ l.toFinset.card * L.missing l x + L.before l x ∧
    l.toFinset.card * L.missing l x + L.before l x + 1 ≤
      (L.before l x + 1) * L.missing l (Plotting.max l) + l.toFinset.card

/-- The lines without points are spread evenly among the others. -/
def SpreadEvenly (L : Lattice) (l : List ℚ) : Prop := ∀ x ∈ l, L.InProportion l x

instance (L : Lattice) (l : List ℚ) : Decidable (L.SpreadEvenly l) :=
  inferInstanceAs (Decidable (∀ x ∈ l, _ ∧ _))

/-! ## Counting lines -/

omit [Plotting] in
theorem number_le (hl : L.Carries l) (hx : x ∈ l) (hy : y ∈ l) :
    L.number x ≤ L.number y ↔ x ≤ y := by
  rw [← not_lt, ← not_lt, ← line_lt_iff (L := L), line_number hl hx, line_number hl hy]

/-- The lines before a coordinate are occupied or missing. -/
theorem number_eq (hp : Plotting.Documented) (hl : L.Carries l) (hx : x ∈ l) :
    L.number x = L.number (Plotting.min l) + L.before l x + L.missing l x := by
  have hle : L.number (Plotting.min l) ≤ L.number x :=
    (number_le hl (hp.min_mem l (List.ne_nil_of_mem hx)) hx).2 (hp.min_le l x hx)
  have hcard : L.before l x + L.missing l x = (L.linesBefore l x).card :=
    Finset.card_filter_add_card_filter_not _
  rw [linesBefore, Int.card_Ico] at hcard
  omega

/-- The occupied lines before a coordinate are as many as the smaller coordinates. -/
theorem before_eq_card (hp : Plotting.Documented) (hl : L.Carries l) (hx : x ∈ l) :
    L.before l x = (l.toFinset.filter (· < x)).card := by
  have himage : ((L.linesBefore l x).filter fun k => L.line k ∈ l).image L.line =
      l.toFinset.filter (· < x) := by
    ext q
    simp only [linesBefore, Finset.mem_image, Finset.mem_filter, Finset.mem_Ico, List.mem_toFinset]
    constructor
    · rintro ⟨k, ⟨⟨-, hk⟩, hmem⟩, rfl⟩
      rw [← line_lt_iff (L := L), line_number hl hx] at hk
      exact ⟨hmem, hk⟩
    · rintro ⟨hq, hlt⟩
      have hmin := hp.min_mem l (List.ne_nil_of_mem hx)
      refine ⟨L.number q, ⟨⟨(number_le hl hmin hq).2 (hp.min_le l q hq), ?_⟩, ?_⟩,
        line_number hl hq⟩
      · rw [← line_lt_iff (L := L), line_number hl hq, line_number hl hx]
        exact hlt
      · rwa [line_number hl hq]
  rw [before, ← Finset.card_image_of_injective _ line_injective, himage]

theorem toFinset_unique (hp : Plotting.Documented) : (Plotting.unique l).toFinset = l.toFinset := by
  ext q
  rw [List.mem_toFinset, List.mem_toFinset, hp.mem_unique]

theorem length_unique (hp : Plotting.Documented) :
    (Plotting.unique l).length = l.toFinset.card := by
  rw [← toFinset_unique hp, List.toFinset_card_of_nodup ((hp.unique_sorted l).imp ne_of_lt)]

/-- The index of a pixel counts the occupied lines before it. -/
theorem idxOf_unique (hp : Plotting.Documented) (hl : L.Carries l) (hx : x ∈ l) :
    (Plotting.unique l).idxOf x = L.before l x := by
  have hu := hp.unique_sorted l
  have hnodup : ((Plotting.unique l).filter (· < x)).Nodup := (hu.imp ne_of_lt).filter _
  have hmembers : ((Plotting.unique l).filter (· < x)).toFinset = l.toFinset.filter (· < x) := by
    rw [List.toFinset_filter, toFinset_unique hp]
    simp
  rw [idxOf_eq_countP hu ((hp.mem_unique l x).2 hx), List.countP_eq_length_filter,
    ← List.toFinset_card_of_nodup hnodup, hmembers, before_eq_card hp hl hx]

/-- All other occupied lines are before the last one. -/
theorem before_max (hp : Plotting.Documented) (hl : L.Carries l) (hne : l ≠ []) :
    L.before l (Plotting.max l) + 1 = l.toFinset.card := by
  have hmax := hp.max_mem l hne
  have hmembers : l.toFinset.filter (· < Plotting.max l) = l.toFinset.erase (Plotting.max l) := by
    ext q
    simp only [Finset.mem_filter, Finset.mem_erase, List.mem_toFinset]
    constructor
    · rintro ⟨hq, hlt⟩
      exact ⟨hlt.ne, hq⟩
    · rintro ⟨hne, hq⟩
      exact ⟨hq, lt_of_le_of_ne (hp.le_max l q hq) hne⟩
  rw [before_eq_card hp hl hmax, hmembers]
  exact Finset.card_erase_add_one (List.mem_toFinset.2 hmax)

/-- Between two coordinates there are the lines with points and those without. -/
theorem sub_min (hp : Plotting.Documented) (hl : L.Carries l) (hx : x ∈ l) :
    x - Plotting.min l = (L.before l x + L.missing l x : ℕ) * L.step := by
  have hmin := hp.min_mem l (List.ne_nil_of_mem hx)
  have hline := line_number hl hx
  have hfirst := line_number hl hmin
  have hnumber := number_eq hp hl hx
  rw [line] at hline hfirst
  have hcast : (L.number x : ℚ) = L.number (Plotting.min l) + L.before l x + L.missing l x := by
    exact_mod_cast hnumber
  rw [hcast] at hline
  push_cast
  linarith

/-- Where no line is missing, the lines are spread evenly. -/
theorem spreadEvenly_of_full (hp : Plotting.Documented) (hl : L.Carries l)
    (hfull : L.missing l (Plotting.max l) = 0) : L.SpreadEvenly l := by
  intro x hx
  have hmax := hp.max_mem l (List.ne_nil_of_mem hx)
  have hlines : L.linesBefore l x ⊆ L.linesBefore l (Plotting.max l) :=
    Finset.Ico_subset_Ico_right ((number_le hl hx hmax).2 (hp.le_max l x hx))
  have hmissing : L.missing l x ≤ L.missing l (Plotting.max l) :=
    Finset.card_le_card (Finset.filter_subset_filter _ hlines)
  have hbefore : L.before l x ≤ L.before l (Plotting.max l) :=
    Finset.card_le_card (Finset.filter_subset_filter _ hlines)
  have hlast := before_max hp hl (List.ne_nil_of_mem hx)
  have hnone : L.missing l x = 0 := by omega
  rw [InProportion, hfull, hnone]
  omega

end Lattice

/-! ## Pixels -/

/-- Where a coordinate lies in an image that is stretched over the bounds. -/
theorem stretch_iff {width start step x k n d b : ℚ} (hstep : 0 < step) (hn : 0 < n) (hd : 0 < d)
    (hwidth : width * n = d * step) (hx : x - start = b * step) :
    (∃ u, (k ≤ u ∧ u ≤ k + 1) ∧ width * u + start = x) ↔ k * d ≤ n * b ∧ n * b ≤ (k + 1) * d := by
  have hplace : ∀ u, width * u + start = x ↔ u * d = n * b := by
    intro u
    have hscale : (width * u + start - x) * n = (u * d - n * b) * step := by
      calc (width * u + start - x) * n
          = width * n * u - (x - start) * n := by ring
        _ = (u * d - n * b) * step := by rw [hwidth, hx]; ring
    rw [← sub_eq_zero, ← mul_eq_zero_iff_right hn.ne', hscale, mul_eq_zero_iff_right hstep.ne',
      sub_eq_zero]
  constructor
  · rintro ⟨u, ⟨hlow, hhigh⟩, hu⟩
    rw [← (hplace u).1 hu]
    exact ⟨mul_le_mul_of_nonneg_right hlow hd.le, mul_le_mul_of_nonneg_right hhigh hd.le⟩
  · rintro ⟨hlow, hhigh⟩
    refine ⟨n * b / d, ⟨(le_div_iff₀ hd).2 hlow, (div_le_iff₀ hd).2 hhigh⟩, (hplace _).2 ?_⟩
    exact div_mul_cancel₀ _ hd.ne'

section

variable [Plotting] {l : List ℚ} {L : Lattice} {x width : ℚ}

omit [Plotting] in
theorem one_lt_card {α : Type} [DecidableEq α] {l : List α} (h : ∃ x ∈ l, ∃ y ∈ l, x ≠ y) :
    1 < l.toFinset.card := by
  obtain ⟨x, hx, y, hy, hne⟩ := h
  exact Finset.one_lt_card.2 ⟨x, List.mem_toFinset.2 hx, y, List.mem_toFinset.2 hy, hne⟩

/-- A coordinate lies in its pixel exactly if the missing lines before it are in proportion. -/
theorem pixel_iff (hp : Plotting.Documented) (hl : L.Carries l) (htwo : ∃ x ∈ l, ∃ y ∈ l, x ≠ y)
    (hx : x ∈ l)
    (hwidth : width * (Plotting.unique l).length + Plotting.min l = Plotting.max l) :
    (∃ u, (((Plotting.unique l).idxOf x : ℚ) ≤ u ∧ u ≤ (Plotting.unique l).idxOf x + 1) ∧
      width * u + Plotting.min l = x) ↔ L.InProportion l x := by
  have hne := List.ne_nil_of_mem hx
  have hcard := one_lt_card htwo
  have hlast := Lattice.before_max hp hl hne
  have hn : (0 : ℚ) < l.toFinset.card := by
    exact_mod_cast (by omega : 0 < l.toFinset.card)
  have hd : (0 : ℚ) < (L.before l (Plotting.max l) + L.missing l (Plotting.max l) : ℕ) := by
    exact_mod_cast (by omega : 0 < L.before l (Plotting.max l) + L.missing l (Plotting.max l))
  have hbounds := Lattice.sub_min hp hl (hp.max_mem l hne)
  rw [Lattice.length_unique hp] at hwidth
  rw [Lattice.idxOf_unique hp hl hx, stretch_iff L.step_pos hn hd (by linarith)
    (Lattice.sub_min hp hl hx), Lattice.InProportion, ← hlast]
  norm_cast
  constructor
  · rintro ⟨hlow, hhigh⟩
    constructor <;> linarith
  · rintro ⟨hlow, hhigh⟩
    constructor <;> linarith

/-! ## The transformation -/

variable {df : DataFrame} {row col : ℕ} {p : Point}

omit [Plotting] in
/-- An upright transformation covers a point if it does so in both directions. -/
theorem covers_iff {t : Affine} (hb : t.b = 0) (hd : t.d = 0) : t.Covers row col p ↔
    (∃ u : ℚ, (col ≤ u ∧ u ≤ col + 1) ∧ t.a * u + t.c = p.1) ∧
      ∃ v : ℚ, (row ≤ v ∧ v ≤ row + 1) ∧ t.e * v + t.f = p.2 := by
  have happly : ∀ u v, t.apply u v = p ↔ t.a * u + t.c = p.1 ∧ t.e * v + t.f = p.2 := by
    intro u v
    rw [Affine.apply, hb, hd, Prod.ext_iff]
    simp
  simp only [Affine.Covers, happly]
  constructor
  · rintro ⟨u, v, hu, hv, hx, hy⟩
    exact ⟨⟨u, hu, hx⟩, v, hv, hy⟩
  · rintro ⟨⟨u, hu, hx⟩, v, hv, hy⟩
    exact ⟨u, v, hu, hv, hx, hy⟩

/-- The image is stretched from the least to the greatest coordinate, in both directions. -/
structure Stretches (df : DataFrame) (t : Affine) : Prop where
  b : t.b = 0
  d : t.d = 0
  west : t.c = Plotting.min (eastings df)
  north : t.f = Plotting.min (northings df)
  east : t.a * (Plotting.unique (eastings df)).length + t.c = Plotting.max (eastings df)
  south : t.e * (Plotting.unique (northings df)).length + t.f = Plotting.max (northings df)

theorem stretches_transform (hp : Plotting.Documented) (ht : IsPointTable df) :
    Stretches df (transform df) := by
  have hcols : 0 < (Plotting.unique (eastings df)).length := by
    rw [Lattice.length_unique hp]
    exact Nat.lt_of_succ_lt (one_lt_card ht.eastings)
  have hrows : 0 < (Plotting.unique (northings df)).length := by
    rw [Lattice.length_unique hp]
    exact Nat.lt_of_succ_lt (one_lt_card ht.northings)
  obtain ⟨hfirst, hlast⟩ := hp.fromBounds_corners (Plotting.min (eastings df))
    (Plotting.max (northings df)) (Plotting.max (eastings df)) (Plotting.min (northings df)) _ _
    hcols hrows
  obtain ⟨hb, hd⟩ := hp.fromBounds_upright (Plotting.min (eastings df))
    (Plotting.max (northings df)) (Plotting.max (eastings df)) (Plotting.min (northings df))
    (Plotting.unique (eastings df)).length (Plotting.unique (northings df)).length
  rw [← transform] at hfirst hlast hb hd
  simp only [Affine.apply, hb, hd, mul_zero, zero_mul, zero_add, add_zero, Prod.mk.injEq]
    at hfirst hlast
  exact ⟨hb, hd, hfirst.1, hfirst.2, hlast.1, hlast.2⟩

/-- **The pixels lie where the points are** exactly if, in both directions, the lines without points
are spread evenly among the others. -/
theorem isPlaced_iff {east north : Lattice} (hp : Plotting.Documented) (ht : IsPointTable df)
    (heast : east.Carries (eastings df)) (hnorth : north.Carries (northings df)) :
    IsPlaced df ↔ north.SpreadEvenly (northings df) ∧ east.SpreadEvenly (eastings df) := by
  have hs := stretches_transform hp ht
  have hpixel : ∀ i (hi : i < (northings df).length),
      (transform df).Covers (xIndex df i) (yIndex df i)
        ((eastings df).getD i 0, (northings df).getD i 0) ↔
      north.InProportion (northings df) ((northings df).getD i 0) ∧
        east.InProportion (eastings df) ((eastings df).getD i 0) := by
    intro i hi
    have hi' : i < (eastings df).length := ht.sameLength ▸ hi
    have hx : (eastings df).getD i 0 ∈ eastings df := by
      rw [List.getD_eq_getElem _ _ hi']
      exact List.getElem_mem hi'
    have hy : (northings df).getD i 0 ∈ northings df := by
      rw [List.getD_eq_getElem _ _ hi]
      exact List.getElem_mem hi
    have heasting := pixel_iff hp heast ht.eastings hx (hs.west ▸ hs.east)
    have hnorthing := pixel_iff hp hnorth ht.northings hy (hs.north ▸ hs.south)
    rw [covers_iff hs.b hs.d, hs.west, hs.north]
    exact (and_congr heasting hnorthing).trans and_comm
  have hall : ∀ l : List ℚ, ∀ P : ℚ → Prop, (∀ x ∈ l, P x) ↔ ∀ i < l.length, P (l.getD i 0) := by
    intro l P
    constructor
    · intro h i hi
      rw [List.getD_eq_getElem _ _ hi]
      exact h _ (List.getElem_mem hi)
    · intro h x hx
      obtain ⟨i, hi, rfl⟩ := List.mem_iff_getElem.1 hx
      have hPi := h i hi
      rwa [List.getD_eq_getElem _ _ hi] at hPi
  rw [Lattice.SpreadEvenly, Lattice.SpreadEvenly, hall, hall, ht.sameLength, ← forall₂_and]
  exact forall₂_congr hpixel

end

/-! ## Two survey patches -/

/-- A table of points. -/
def pointTable (easting northing : List ℚ) : DataFrame :=
  [("Easting", .numbers easting), ("Northing", .numbers northing)]

/-- The lattice of the whole numbers. -/
def wholeNumbers : Lattice := ⟨0, 1, one_pos⟩

theorem isPlaced_square : let _ := Plotting.plain
    IsPlaced (pointTable [3, 4, 3, 4] [8, 8, 9, 9]) := by
  intro _
  have ht : IsPointTable (pointTable [3, 4, 3, 4] [8, 8, 9, 9]) :=
    ⟨rfl, by decide +kernel, by decide +kernel⟩
  have heast : wholeNumbers.Carries [3, 4, 3, 4] := by
    intro x hx
    exact ⟨wholeNumbers.number x, by revert x; decide +kernel⟩
  have hnorth : wholeNumbers.Carries [8, 8, 9, 9] := by
    intro x hx
    exact ⟨wholeNumbers.number x, by revert x; decide +kernel⟩
  exact (isPlaced_iff Plotting.plain_documented ht heast hnorth).2 (by decide +kernel)

/-- **The pixels of two survey patches lie elsewhere.** -/
theorem patches_misplaced : let _ := Plotting.plain
    ¬ ∀ df, IsPointTable df → ∀ east north : Lattice, east.Carries (eastings df) →
      north.Carries (northings df) → IsPlaced df := by
  intro _ h
  let patches := pointTable [0, 1, 10, 11] [5, 6, 5, 6]
  have ht : IsPointTable patches := ⟨rfl, by decide +kernel, by decide +kernel⟩
  have heast : wholeNumbers.Carries [0, 1, 10, 11] := by
    intro x hx
    exact ⟨wholeNumbers.number x, by revert x; decide +kernel⟩
  have hnorth : wholeNumbers.Carries [5, 6, 5, 6] := by
    intro x hx
    exact ⟨wholeNumbers.number x, by revert x; decide +kernel⟩
  obtain ⟨u, v, ⟨hu, -⟩, -, happly⟩ := h patches ht _ _ heast hnorth 1 (by decide)
  have htransform : transform patches = ⟨11 / 4, 0, 0, 0, 1 / 2, 5⟩ := by decide +kernel
  have hcol : yIndex patches 1 = 1 := by decide +kernel
  have hpoint : (eastings patches).getD 1 0 = 1 := rfl
  have heasting : 11 / 4 * u = 1 := by
    rw [htransform, hpoint] at happly
    simpa [Affine.apply] using congrArg Prod.fst happly
  rw [hcol, Nat.cast_one] at hu
  linarith

end Cosmonaut
