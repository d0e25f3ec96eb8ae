import Cosmonaut.Plot.Grid

/-!
# The image of the membership raster

`_create_image` paints each cell in the color of the class that `np.argmax` gives, which is the
class of the first NaN where there is one.

* `createImage_apply`: the color of a cell.
* `showsDominantClasses_iff`: when the image shows the dominant class of each point, and nothing
  else.
* `zero_painted`: a point that is painted in the color of a class that it does not belong to.
-/

namespace Cosmonaut

/-- `.astype(np.uint8)` of a number between 0 and 1, times 255. -/
def byteOf (q : ℚ) : ℕ := ⌊q * 255⌋.toNat % 256

section

variable [Plotting]

/-- The color of the `i`th of `n` classes. -/
def classColor (n i : ℕ) : Rgba ℕ := (Plotting.cmap n (i / n)).map byteOf

/-- `self.image`: transparent at first, then painted class by class. -/
def createImage (df : DataFrame) : ℕ × ℕ → Rgba ℕ :=
  (List.range (classNames df).length).foldl
    (fun image i cell =>
      if gridMaxClass df cell = i then classColor (classNames df).length i else image cell)
    fun _ => ⟨0, 0, 0, 0⟩

variable {df : DataFrame} {i : ℕ} {cell : ℕ × ℕ}

omit [Plotting] in
/-- Painting one class after the other. -/
theorem foldl_paint {α β : Type} {cls : α → ℕ} {color : ℕ → β} {image : α → β} {a : α}
    (l : List ℕ) :
    l.foldl (fun image i a => if cls a = i then color i else image a) image a =
      if cls a ∈ l then color (cls a) else image a := by
  induction l generalizing image with
  | nil => simp
  | cons i l ih =>
    rw [List.foldl_cons, ih]
    by_cases hl : cls a ∈ l
    · rw [if_pos hl, if_pos (List.mem_cons_of_mem i hl)]
    · by_cases hi : cls a = i <;> simp [hl, hi]

/-- The color of a cell. -/
theorem createImage_apply : createImage df cell =
    if gridMaxClass df cell < (classNames df).length then
      classColor (classNames df).length (gridMaxClass df cell)
    else ⟨0, 0, 0, 0⟩ := by
  rw [createImage, foldl_paint]
  simp only [List.mem_range]

theorem alpha_classColor (hp : Plotting.Documented) (n : ℕ) : (classColor n i).alpha = 255 := by
  have hbyte : byteOf 1 = 255 := by decide +kernel
  rw [classColor, Rgba.map, hp.cmap_alpha, hbyte]

/-! ## The class of a cell -/

omit [Plotting] in
theorem idxOf_nan (l : List ℚ) :
    (l.map fun q => if q = 0 then none else some q).idxOf none = l.idxOf 0 := by
  induction l with
  | nil => rfl
  | cons q l ih =>
    rw [List.map_cons, List.idxOf_cons, List.idxOf_cons, ih]
    by_cases hq : q = 0
    · simp [hq]
    · rw [if_neg hq, beq_eq_false_iff_ne.2 hq]
      rfl

/-- A cell without a point gets the first class. -/
theorem gridMaxClass_gap (hp : Plotting.Documented) (hclasses : classNames df ≠ [])
    (h : ∀ i < (northings df).length, cellOf df i ≠ cell) : gridMaxClass df cell = 0 := by
  obtain ⟨c, cs, hcs⟩ := List.exists_cons_of_ne_nil hclasses
  have hgrid : createGrid df cell = List.replicate (cs.length + 1) none := by
    rw [createGrid, filledGrid_gap h, hcs]
    simp
  rw [gridMaxClass, hgrid, hp.argmax_nan _ (by simp), List.replicate_succ, List.idxOf_cons_self]

/-- A point with a membership of 0 gets the first class of which this is so. -/
theorem gridMaxClass_zero (hp : Plotting.Documented) (ht : IsClassTable df)
    (hi : i < (northings df).length) (hzero : 0 ∈ rowValues df i) :
    gridMaxClass df (cellOf df i) = (rowValues df i).idxOf 0 := by
  have hnan : none ∈ createGrid df (cellOf df i) := by
    rw [createGrid, filledGrid_point hp ht hi]
    exact List.mem_map.2 ⟨0, hzero, if_pos rfl⟩
  rw [gridMaxClass, hp.argmax_nan _ hnan, createGrid, filledGrid_point hp ht hi, idxOf_nan]

/-- The class is one of maximal membership in the row, as the `highest_class` of the table is. -/
def IsDominant (df : DataFrame) (i c : ℕ) : Prop :=
  c < (classNames df).length ∧ ∀ v ∈ rowValues df i, v ≤ (rowValues df i).getD c 0

/-- A point without a membership of 0 gets a dominant class. -/
theorem gridMaxClass_positive (hp : Plotting.Documented) (ht : IsClassTable df)
    (hi : i < (northings df).length) (hzero : 0 ∉ rowValues df i) :
    IsDominant df i (gridMaxClass df (cellOf df i)) := by
  obtain ⟨v, hv, -⟩ := ht.positive i hi
  have hne : rowValues df i ≠ [] := List.ne_nil_of_mem hv
  have hgrid : createGrid df (cellOf df i) = (rowValues df i).map some := by
    rw [createGrid, filledGrid_point hp ht hi]
    refine List.map_congr_left fun q hq => if_neg ?_
    rintro rfl
    exact hzero hq
  rw [gridMaxClass, hgrid, hp.argmax_numbers _ hne]
  have hmem : (rowValues df i).max hne ∈ rowValues df i := List.max_mem hne
  have hlt := List.idxOf_lt_length_iff.2 hmem
  refine ⟨by simpa using hlt, fun u hu => ?_⟩
  rw [List.getD_eq_getElem _ _ hlt, List.getElem_idxOf]
  exact List.le_max_of_mem hu

/-! ## What the image shows -/

/-- The cell of each point has the color of a dominant class, and every other cell is
transparent. -/
structure ShowsDominantClasses (df : DataFrame) : Prop where
  points : ∀ i < (northings df).length, ∃ c, IsDominant df i c ∧
    createImage df (cellOf df i) = classColor (classNames df).length c
  gaps : ∀ x < (Plotting.unique (northings df)).length,
    ∀ y < (Plotting.unique (eastings df)).length,
    (∀ i < (northings df).length, cellOf df i ≠ (x, y)) → (createImage df (x, y)).alpha = 0

/-- The first class that a point does not belong to at all has the color of a dominant class. -/
def ZerosLookDominant (df : DataFrame) : Prop :=
  ∀ i < (northings df).length, 0 ∈ rowValues df i → ∃ c, IsDominant df i c ∧
    classColor (classNames df).length ((rowValues df i).idxOf 0) =
      classColor (classNames df).length c

/-- There is a point in every cell. -/
def FillsGrid (df : DataFrame) : Prop :=
  ∀ x < (Plotting.unique (northings df)).length, ∀ y < (Plotting.unique (eastings df)).length,
    ∃ i < (northings df).length, cellOf df i = (x, y)

omit [Plotting] in
theorem IsClassTable.classNames_ne (ht : IsClassTable df) : classNames df ≠ [] := by
  obtain ⟨v, hv, -⟩ := ht.positive 0 (List.length_pos_iff.2 ht.nonempty)
  intro hnil
  have hlength := length_rowValues df 0
  rw [hnil, List.length_nil, List.length_eq_zero_iff] at hlength
  rw [hlength] at hv
  cases hv

/-- The color of a point's cell. -/
theorem createImage_point (hp : Plotting.Documented) (ht : IsClassTable df)
    (hi : i < (northings df).length) : createImage df (cellOf df i) =
      classColor (classNames df).length (gridMaxClass df (cellOf df i)) := by
  rw [createImage_apply, if_pos]
  by_cases hzero : 0 ∈ rowValues df i
  · rw [gridMaxClass_zero hp ht hi hzero]
    simpa using List.idxOf_lt_length_iff.2 hzero
  · exact (gridMaxClass_positive hp ht hi hzero).1

/-- A cell without a point is painted, too. -/
theorem alpha_gap (hp : Plotting.Documented) (ht : IsClassTable df)
    (h : ∀ i < (northings df).length, cellOf df i ≠ cell) : (createImage df cell).alpha = 255 := by
  have hclass := gridMaxClass_gap hp ht.classNames_ne h
  rw [createImage_apply, hclass, if_pos (List.length_pos_iff.2 ht.classNames_ne),
    alpha_classColor hp]

/-- **The image shows the dominant classes** exactly if there is a point in every cell and zeros do
no harm. -/
theorem showsDominantClasses_iff (hp : Plotting.Documented) (ht : IsClassTable df) :
    ShowsDominantClasses df ↔ ZerosLookDominant df ∧ FillsGrid df := by
  constructor
  · intro h
    refine ⟨fun i hi hzero => ?_, fun x hx y hy => ?_⟩
    · obtain ⟨c, hc, hcolor⟩ := h.points i hi
      rw [createImage_point hp ht hi, gridMaxClass_zero hp ht hi hzero] at hcolor
      exact ⟨c, hc, hcolor⟩
    · by_contra hgap
      have hnone : ∀ i < (northings df).length, cellOf df i ≠ (x, y) := by
        intro i hi heq
        exact hgap ⟨i, hi, heq⟩
      have halpha := h.gaps x hx y hy hnone
      rw [alpha_gap hp ht hnone] at halpha
      cases halpha
  · rintro ⟨hzeros, hfills⟩
    refine ⟨fun i hi => ?_, fun x hx y hy hnone => ?_⟩
    · rw [createImage_point hp ht hi]
      by_cases hzero : 0 ∈ rowValues df i
      · obtain ⟨c, hc, hcolor⟩ := hzeros i hi hzero
        rw [gridMaxClass_zero hp ht hi hzero]
        exact ⟨c, hc, hcolor⟩
      · exact ⟨_, gridMaxClass_positive hp ht hi hzero, rfl⟩
    · obtain ⟨i, hi, hcell⟩ := hfills x hx y hy
      exact absurd hcell (hnone i hi)

end

/-! ## A table that is painted right -/

/-- Four points of two classes, each with something of both. -/
def fourPoints : DataFrame :=
  [("Easting", .numbers [4, 5, 4, 5]), ("Northing", .numbers [7, 7, 8, 8]),
    ("forest", .numbers [9 / 10, 1 / 4, 3 / 4, 1 / 2]),
    ("meadow", .numbers [1 / 10, 3 / 4, 1 / 4, 1 / 2])]

theorem showsDominantClasses_fourPoints :
    let _ := Plotting.plain
    ShowsDominantClasses fourPoints := by
  intro _
  have ht : IsClassTable fourPoints :=
    ⟨by decide, by decide, by decide +kernel, by decide, by decide +kernel, by decide +kernel⟩
  refine (showsDominantClasses_iff Plotting.plain_documented ht).2 ⟨fun i hi hzero => ?_, by
    unfold FillsGrid
    decide +kernel⟩
  have hnone : ∀ i < 4, 0 ∉ rowValues fourPoints i := by decide +kernel
  exact absurd hzero (hnone i hi)

/-! ## A point that is painted wrong -/

/-- A point of two classes. -/
def pointOf (forest meadow : ℚ) : DataFrame :=
  [("Easting", .numbers [4]), ("Northing", .numbers [7]), ("forest", .numbers [forest]),
    ("meadow", .numbers [meadow])]

/-- **A point of one class is painted in the color of another one**, to which it does not belong. -/
theorem zero_painted : let _ := Plotting.plain
    ¬ ∀ df, IsClassTable df → ShowsDominantClasses df := by
  intro _ h
  have ht : IsClassTable (pointOf 0 1) :=
    ⟨by decide, by decide, by decide +kernel, by decide, by decide +kernel, by decide +kernel⟩
  obtain ⟨c, ⟨hc, hmax⟩, hcolor⟩ := (h _ ht).points 0 (by decide)
  have hclasses : (classNames (pointOf 0 1)).length = 2 := by decide +kernel
  have hvalues : rowValues (pointOf 0 1) 0 = [0, 1] := by decide +kernel
  have hpainted : createImage (pointOf 0 1) (cellOf (pointOf 0 1) 0) = classColor 2 0 := by
    decide +kernel
  have hother : classColor 2 0 ≠ classColor 2 1 := by decide +kernel
  rw [hclasses] at hc hcolor
  rw [hvalues] at hmax
  rw [hpainted] at hcolor
  have hone := hmax 1 (by simp)
  obtain rfl | rfl : c = 0 ∨ c = 1 := by omega
  · exact absurd hone (by decide)
  · exact hother hcolor

end Cosmonaut
