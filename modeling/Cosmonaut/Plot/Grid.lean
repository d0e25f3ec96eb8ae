import Cosmonaut.Model.Table
import Mathlib.Algebra.Order.Field.Rat
import Mathlib.Data.List.GetD
import Mathlib.Data.List.Sort
import Mathlib.Data.Rat.Floor

/-!
# The membership raster

`ClassificationPlot` of a membership table, up to the grid of the points. A value of the grid is NaN
(none) or a number.

* `Plotting`: what the code takes from numpy, matplotlib and rasterio, and `Plotting.Documented`,
  what is documented of it.
* `createGrid`: the first step of `generate_plots`.
* `IsClassTable`: a membership table, and `filledGrid_point`, `filledGrid_gap`: what the grid holds
  of one.
-/

namespace Cosmonaut

/-- The coefficients of an affine transformation, row by row. -/
structure Affine where
  a : ℚ
  b : ℚ
  c : ℚ
  d : ℚ
  e : ℚ
  f : ℚ
  deriving DecidableEq

/-- Where a column and a row go, which may be fractional. -/
def Affine.apply (t : Affine) (col row : ℚ) : Point :=
  (t.a * col + t.b * row + t.c, t.d * col + t.e * row + t.f)

/-- The transformation that stretches an image over its bounds. -/
def Affine.between (west south east north : ℚ) (width height : ℕ) : Affine :=
  ⟨(east - west) / width, 0, west, 0, (south - north) / height, north⟩

theorem Affine.between_corners {west south east north : ℚ} {width height : ℕ} (hw : 0 < width)
    (hh : 0 < height) :
    (Affine.between west south east north width height).apply 0 0 = (west, north) ∧
      (Affine.between west south east north width height).apply width height = (east, south) := by
  have hw' : (width : ℚ) ≠ 0 := Nat.cast_ne_zero.2 hw.ne'
  have hh' : (height : ℚ) ≠ 0 := Nat.cast_ne_zero.2 hh.ne'
  simp only [Affine.between, Affine.apply, Prod.mk.injEq]
  refine ⟨⟨by ring, by ring⟩, ?_, ?_⟩
  · field_simp
    ring
  · field_simp
    ring

/-- A color with its opacity. -/
structure Rgba (α : Type) where
  red : α
  green : α
  blue : α
  alpha : α
  deriving DecidableEq

def Rgba.map {α β : Type} (f : α → β) (c : Rgba α) : Rgba β :=
  ⟨f c.red, f c.green, f c.blue, f c.alpha⟩

/-- What the plot takes from numpy, matplotlib and rasterio. -/
class Plotting where
  /-- `np.unique` -/
  unique : List ℚ → List ℚ
  /-- `ndarray.min` -/
  min : List ℚ → ℚ
  /-- `ndarray.max` -/
  max : List ℚ → ℚ
  /-- `np.argmax` along the last axis. -/
  argmax : List (Option ℚ) → ℕ
  /-- `plt.get_cmap("tab20", n)` at a number between 0 and 1. -/
  cmap : ℕ → ℚ → Rgba ℚ
  /-- `rasterio.transform.from_bounds` -/
  fromBounds : ℚ → ℚ → ℚ → ℚ → ℕ → ℕ → Affine

/-- What is documented of these functions. -/
structure Plotting.Documented [Plotting] : Prop where
  unique_sorted : ∀ l, (Plotting.unique l).Pairwise (· < ·)
  mem_unique : ∀ l x, x ∈ Plotting.unique l ↔ x ∈ l
  min_mem : ∀ l, l ≠ [] → Plotting.min l ∈ l
  min_le : ∀ l, ∀ x ∈ l, Plotting.min l ≤ x
  max_mem : ∀ l, l ≠ [] → Plotting.max l ∈ l
  le_max : ∀ l, ∀ x ∈ l, x ≤ Plotting.max l
  /-- The index of the first NaN when there is one. -/
  argmax_nan : ∀ l, none ∈ l → Plotting.argmax l = l.idxOf none
  /-- The index of a maximum otherwise. -/
  argmax_numbers : ∀ l : List ℚ, ∀ hne : l ≠ [], Plotting.argmax (l.map some) = l.idxOf (l.max hne)
  /-- The colors of `tab20` are opaque. -/
  cmap_alpha : ∀ n q, (Plotting.cmap n q).alpha = 1
  /-- In exact arithmetic the corners of the image are those of the bounds; it is not rotated. -/
  fromBounds_corners : ∀ west south east north : ℚ, ∀ width height : ℕ, 0 < width → 0 < height →
    (Plotting.fromBounds west south east north width height).apply 0 0 = (west, north) ∧
      (Plotting.fromBounds west south east north width height).apply width height = (east, south)
  fromBounds_upright : ∀ west south east north width height,
    (Plotting.fromBounds west south east north width height).b = 0 ∧
      (Plotting.fromBounds west south east north width height).d = 0

/-- Functions of which all this is true, with one hue for each number. -/
@[reducible] def Plotting.plain : Plotting where
  unique l := l.dedup.insertionSort (· ≤ ·)
  min l := if h : l ≠ [] then l.min h else 0
  max l := if h : l ≠ [] then l.max h else 0
  argmax l :=
    if none ∈ l then l.idxOf none
    else if h : l.reduceOption ≠ [] then l.reduceOption.idxOf (l.reduceOption.max h) else 0
  cmap _ q := ⟨q, 0, 0, 1⟩
  fromBounds := Affine.between

theorem Plotting.plain_documented : @Plotting.Documented Plotting.plain := by
  let _ := Plotting.plain
  constructor
  case unique_sorted =>
    intro l
    have hnodup : (l.dedup.insertionSort (· ≤ ·)).Nodup :=
      (List.perm_insertionSort _ _).nodup_iff.2 l.nodup_dedup
    exact (List.pairwise_insertionSort _ _).imp₂ (fun _ _ hle hne => lt_of_le_of_ne hle hne) hnodup
  case mem_unique =>
    intro l x
    change x ∈ l.dedup.insertionSort (· ≤ ·) ↔ x ∈ l
    rw [List.mem_insertionSort, List.mem_dedup]
  case min_mem =>
    intro l hl
    change dite _ _ _ ∈ l
    rw [dif_pos hl]
    exact List.min_mem hl
  case min_le =>
    intro l x hx
    change dite _ _ _ ≤ x
    rw [dif_pos (List.ne_nil_of_mem hx)]
    exact List.min_le_of_mem hx
  case max_mem =>
    intro l hl
    change dite _ _ _ ∈ l
    rw [dif_pos hl]
    exact List.max_mem hl
  case le_max =>
    intro l x hx
    change x ≤ dite _ _ _
    rw [dif_pos (List.ne_nil_of_mem hx)]
    exact List.le_max_of_mem hx
  case argmax_nan =>
    intro l hl
    exact if_pos hl
  case argmax_numbers =>
    intro l hne
    have hnone : none ∉ l.map some := by simp
    have hreduce : (l.map some).reduceOption = l := by
      change (l.map some).filterMap id = l
      simp
    change ite _ _ _ = _
    rw [if_neg hnone]
    simp only [hreduce, ne_eq, hne, not_false_eq_true, dif_pos]
  case cmap_alpha =>
    intro n q
    rfl
  case fromBounds_corners =>
    intro west south east north width height hw hh
    exact Affine.between_corners hw hh
  case fromBounds_upright =>
    intro west south east north width height
    exact ⟨rfl, rfl⟩

/-! ## The table -/

/-- The columns of the coordinates. -/
def coordCols : List String := ["Easting", "Northing"]

/-- The names of the class columns, sorted. -/
def classNames (df : DataFrame) : List String :=
  ((df.map Prod.fst).filter fun c => c ∉ coordCols).insertionSort (· ≤ ·)

/-- The numbers of a column. -/
def column (df : DataFrame) (name : String) : List ℚ :=
  ((df.lookup name).bind ColumnData.numbers?).getD []

/-- `self.x`: northings are rows. -/
def northings (df : DataFrame) : List ℚ := column df "Northing"

/-- `self.y`: eastings are columns. -/
def eastings (df : DataFrame) : List ℚ := column df "Easting"

/-- `df[self.classes].values[i]` -/
def rowValues (df : DataFrame) (i : ℕ) : List ℚ :=
  (classNames df).map fun c => (column df c).getD i 0

@[simp] theorem length_rowValues (df : DataFrame) (i : ℕ) :
    (rowValues df i).length = (classNames df).length := by
  simp [rowValues]

/-- A membership table: at least one point, no point twice, and memberships between 0 and 1, of
which each point has one that is not 0. -/
structure IsClassTable (df : DataFrame) : Prop where
  nonempty : northings df ≠ []
  sameLength : (eastings df).length = (northings df).length
  classes : ∀ c ∈ classNames df, (column df c).length = (northings df).length
  distinct : ((eastings df).zip (northings df)).Nodup
  between : ∀ i < (northings df).length, ∀ v ∈ rowValues df i, 0 ≤ v ∧ v ≤ 1
  positive : ∀ i < (northings df).length, ∃ v ∈ rowValues df i, 0 < v

/-! ## `_create_3d_grid` -/

section

variable [Plotting]

/-- `x_mapping[self.x[i]]` -/
def xIndex (df : DataFrame) (i : ℕ) : ℕ :=
  (Plotting.unique (northings df)).idxOf ((northings df).getD i 0)

/-- `y_mapping[self.y[i]]` -/
def yIndex (df : DataFrame) (i : ℕ) : ℕ :=
  (Plotting.unique (eastings df)).idxOf ((eastings df).getD i 0)

/-- The cell of a point. -/
def cellOf (df : DataFrame) (i : ℕ) : ℕ × ℕ := (xIndex df i, yIndex df i)

/-- The grid with the memberships of all points, 0 elsewhere. -/
def filledGrid (df : DataFrame) : ℕ × ℕ → List ℚ :=
  (List.range (northings df).length).foldl
    (fun grid i => Function.update grid (cellOf df i) (rowValues df i))
    fun _ => List.replicate (classNames df).length 0

/-- `self.grid_3d`: every 0 is turned into NaN. -/
def createGrid (df : DataFrame) (cell : ℕ × ℕ) : List (Option ℚ) :=
  (filledGrid df cell).map fun q => if q = 0 then none else some q

/-- `self.grid_max_class` -/
def gridMaxClass (df : DataFrame) (cell : ℕ × ℕ) : ℕ := Plotting.argmax (createGrid df cell)

end

/-! ## What the grid holds -/

section

variable {α β γ : Type} [DecidableEq β] {l : List α} {key : α → β} {val : α → γ} {g : β → γ}

theorem foldl_update_of_ne {k : β} (h : ∀ i ∈ l, key i ≠ k) :
    l.foldl (fun g i => Function.update g (key i) (val i)) g k = g k := by
  induction l generalizing g with
  | nil => rfl
  | cons j l ih =>
    rw [List.foldl_cons, ih fun i hi => h i (List.mem_cons_of_mem j hi),
      Function.update_of_ne (h j List.mem_cons_self).symm]

theorem foldl_update_of_mem {i : α} (hinj : ∀ i ∈ l, ∀ j ∈ l, key i = key j → i = j) (hi : i ∈ l) :
    l.foldl (fun g i => Function.update g (key i) (val i)) g (key i) = val i := by
  induction l generalizing g with
  | nil => cases hi
  | cons j l ih =>
    rw [List.foldl_cons]
    by_cases hl : i ∈ l
    · exact ih (fun a ha b hb => hinj a (List.mem_cons_of_mem j ha) b
        (List.mem_cons_of_mem j hb)) hl
    · obtain rfl : i = j := (List.mem_cons.1 hi).resolve_right hl
      have hne : ∀ a ∈ l, key a ≠ key i := by
        intro a ha heq
        exact hl (hinj a (List.mem_cons_of_mem i ha) i List.mem_cons_self heq ▸ ha)
      rw [foldl_update_of_ne hne, Function.update_self]

end

variable [Plotting] {df : DataFrame} {i j : ℕ} {cell : ℕ × ℕ}

/-- The points of a table lie in different cells. -/
theorem cellOf_injective (hp : Plotting.Documented) (ht : IsClassTable df)
    (hi : i < (northings df).length) (hj : j < (northings df).length)
    (h : cellOf df i = cellOf df j) : i = j := by
  obtain ⟨hx, hy⟩ := Prod.mk.inj h
  have hi' : i < (eastings df).length := ht.sameLength ▸ hi
  have hj' : j < (eastings df).length := ht.sameLength ▸ hj
  rw [xIndex, xIndex, List.getD_eq_getElem _ _ hi, List.getD_eq_getElem _ _ hj] at hx
  rw [yIndex, yIndex, List.getD_eq_getElem _ _ hi', List.getD_eq_getElem _ _ hj'] at hy
  have hnorth := (List.idxOf_inj ((hp.mem_unique _ _).2 (List.getElem_mem hi))).1 hx
  have heast := (List.idxOf_inj ((hp.mem_unique _ _).2 (List.getElem_mem hi'))).1 hy
  have hi'' : i < ((eastings df).zip (northings df)).length := by simp [hi, hi']
  have hj'' : j < ((eastings df).zip (northings df)).length := by simp [hj, hj']
  refine (@List.Nodup.getElem_inj_iff _ _ ht.distinct i hi'' j hj'').1 ?_
  rw [List.getElem_zip, List.getElem_zip, hnorth, heast]

/-- The cell of a point holds its memberships. -/
theorem filledGrid_point (hp : Plotting.Documented) (ht : IsClassTable df)
    (hi : i < (northings df).length) : filledGrid df (cellOf df i) = rowValues df i := by
  refine foldl_update_of_mem (fun a ha b hb => ?_) (List.mem_range.2 hi)
  exact cellOf_injective hp ht (List.mem_range.1 ha) (List.mem_range.1 hb)

/-- A cell without a point holds zeros. -/
theorem filledGrid_gap (h : ∀ i < (northings df).length, cellOf df i ≠ cell) :
    filledGrid df cell = List.replicate (classNames df).length 0 :=
  foldl_update_of_ne fun i hi => h i (List.mem_range.1 hi)

end Cosmonaut
