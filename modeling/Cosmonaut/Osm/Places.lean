import Cosmonaut.Model.CosmonautJob
import Cosmonaut.Model.Osm

/-!
# Where a measurement point is

The rows of a membership table have an easting and a northing. `_transform_csv` hands them to a
pyproj transformer that takes coordinates in each system's own axis order; the download, the
projection, the GPX and the map use transformers that always take the easting first.

* `AxisOrders`: how the two kinds of transformers are related.
* `readTable_iff`: a membership table is read as what it is if its dialect and header are told.
* `coordColumns_table`: the coordinate columns of a membership table are always found.
* `placesAgree_iff`: for which tables and systems every path has the rows at the same places.
* `latLon_disagree`: a table for which they do not.
-/

namespace Cosmonaut

open Interleaving Program

/-! ## Axis orders -/

/-- A pair of easting and northing in the axis order of a system, or back. -/
def inAxes (eastFirst : Bool) (p : Point) : Point := if eastFirst then p else p.swap

variable [External]

/-- Without `always_xy` a transformer takes and returns coordinates in each system's own axis order,
which for EPSG:4326 is latitude first; with it, easting first. -/
structure AxisOrders (eastFirst : ℤ → Bool) : Prop where
  transform : ∀ src dst p, External.transform src dst p =
    inAxes (eastFirst dst) (External.project src dst (inAxes (eastFirst src) p))
  wgs84 : eastFirst 4326 = false

/-! ## Membership tables -/

/-- Easting and northing of the rows, and the membership columns. -/
def membershipTable (rows : List Point) (memberships : DataFrame) : DataFrame :=
  ("Easting", .numbers (rows.map Prod.fst)) :: ("Northing", .numbers (rows.map Prod.snd)) ::
    memberships

/-- The text is that of a membership table with these rows: a header, easting and northing, and
membership columns with values between 0 and 1, with this delimiter. -/
structure IsMembershipTable (text : String) (delimiter : Char) (rows : List Point)
    (memberships : DataFrame) : Prop where
  reads : External.readCsv text delimiter true = .ok (membershipTable rows memberships)
  /-- Split elsewhere, the header has no field `Easting`. -/
  splits : ∀ d, d ≠ delimiter → ∀ df, External.readCsv text d true = .ok df →
    ∀ col ∈ df, col.1 ≠ "Easting"
  between : ∀ col ∈ memberships, ∃ xs, col.2 = .numbers xs ∧ ∀ x ∈ xs, 0 ≤ x ∧ x ≤ 1

/-- `csv.Sniffer` tells the delimiter, and that there is a header, from what it is shown of a
file: the first 4096 characters. -/
def Sniffed (text : String) (delimiter : Char) : Prop :=
  External.sniff (String.ofList (text.toList.take 4096)) = .ok delimiter ∧
    External.hasHeader (String.ofList (text.toList.take 4096)) = .ok true

omit [External] in
theorem not_isPotentialCoordColumn {xs : List ℚ} (h : ∀ x ∈ xs, 0 ≤ x ∧ x ≤ 1) :
    isPotentialCoordColumn (.numbers xs) = false := by
  have hneg : xs.any (· < 0) = false := by
    rw [List.any_eq_false]
    intro x hx
    simpa using Rat.not_lt.2 (h x hx).1
  have hbig : xs.any (1 < ·) = false := by
    rw [List.any_eq_false]
    intro x hx
    simpa using Rat.not_lt.2 (h x hx).2
  simp [isPotentialCoordColumn, ColumnData.numbers?, hneg, hbig]

omit [External] in
/-- **The coordinate columns of a membership table are found**: as the only two columns that look
like coordinates, or by their names. -/
theorem coordColumns_table (east north : ColumnData) {memberships : DataFrame}
    (h : ∀ col ∈ memberships, ∃ xs, col.2 = .numbers xs ∧ ∀ x ∈ xs, 0 ≤ x ∧ x ≤ 1) :
    coordColumns true (("Easting", east) :: ("Northing", north) :: memberships) =
      some (("Easting", east), ("Northing", north)) := by
  have hnone : (memberships.filter fun col => isPotentialCoordColumn col.2) = [] := by
    rw [List.filter_eq_nil_iff]
    intro col hcol
    obtain ⟨xs, hxs, hbetween⟩ := h col hcol
    rw [hxs, not_isPotentialCoordColumn hbetween]
    decide
  have heast : nameContains ["east", "long", "x", "lon"] "Easting" = true := by decide +kernel
  have hnotNorth : nameContains ["north", "lat", "y"] "Easting" = false := by
    decide +kernel
  have hnorth : nameContains ["north", "lat", "y"] "Northing" = true := by decide +kernel
  unfold coordColumns
  rcases he : isPotentialCoordColumn east with _ | _ <;>
    rcases hn : isPotentialCoordColumn north with _ | _ <;>
    simp [List.filter_cons, he, hn, hnone, heast, hnotNorth, hnorth]

omit [External] in
theorem mem_of_coordColumns {hasHeader : Bool} {df : DataFrame} {x y : String × ColumnData}
    (h : coordColumns hasHeader df = some (x, y)) : x ∈ df := by
  unfold coordColumns at h
  split at h
  · rename_i hcols
    cases h
    exact List.mem_of_mem_filter (hcols ▸ List.mem_cons_self)
  · split at h
    · split at h
      · rename_i hcols _
        cases h
        exact List.mem_of_mem_filter (hcols ▸ List.mem_cons_self)
      · cases h
    · cases h

/-! ## Reading a table -/

omit [External] in
theorem orRaise_bind_eq_ret {α β : Type} {error : String → Err} {result : Except String α}
    {f : α → App β} {b : β} : (orRaise error result >>= f) = ret b ↔
      ∃ a, result = .ok a ∧ f a = ret b := by
  rcases result with message | a
  · simp [orRaise]
  · simp [orRaise]

theorem readTable_iff {text : String} {hasHeader : Bool} {df : DataFrame} :
    readTable text = pure (hasHeader, df) ↔ ∃ delimiter table,
      External.sniff (String.ofList (text.toList.take 4096)) = .ok delimiter ∧
      External.hasHeader (String.ofList (text.toList.take 4096)) = .ok hasHeader ∧
      External.readCsv text delimiter hasHeader = .ok table ∧
      df = if hasHeader then table
        else table.mapIdx fun i col => ("col_" ++ toString i, col.2) := by
  unfold readTable
  simp only [orRaise_bind_eq_ret, pure_eq, ret.injEq, Prod.mk.injEq]
  constructor
  · rintro ⟨delimiter, hsniff, h, hheader, table, hread, rfl, rfl⟩
    exact ⟨delimiter, table, hsniff, hheader, hread, rfl⟩
  · rintro ⟨delimiter, table, hsniff, hheader, hread, rfl⟩
    exact ⟨delimiter, hsniff, _, hheader, table, hread, rfl, rfl⟩

variable {text : String} {delimiter : Char} {rows : List Point} {memberships : DataFrame}

theorem readTable_of_sniffed (ht : IsMembershipTable text delimiter rows memberships)
    (h : Sniffed text delimiter) : readTable text = pure (true, membershipTable rows memberships) :=
  readTable_iff.2 ⟨delimiter, _, h.1, h.2, ht.reads, rfl⟩

/-- **A column is called `Easting` only if dialect and header have been told.** -/
theorem sniffed_of_easting (ht : IsMembershipTable text delimiter rows memberships)
    {hasHeader : Bool} {df : DataFrame} (hread : readTable text = pure (hasHeader, df))
    {col : String × ColumnData} (hcol : col ∈ df) (hname : col.1 = "Easting") :
    Sniffed text delimiter := by
  obtain ⟨d, table, hsniff, hheader, htable, rfl⟩ := readTable_iff.1 hread
  cases hasHeader with
  | false =>
    obtain ⟨i, hi, rfl⟩ := List.mem_mapIdx.1 hcol
    have hfirst := congrArg (fun name : String => name.toList.head?) hname
    simp at hfirst
  | true =>
    by_cases hd : d = delimiter
    · exact ⟨hd ▸ hsniff, hheader⟩
    · exact absurd hname (ht.splits d hd table htable col hcol)

/-! ## The paths of a row -/

/-- Where a transformer with `always_xy` has an easting and northing, latitude first. -/
def placeOf (epsg : ℤ) (p : Point) : Point := (External.project epsg 4326 p).swap

/-- Every path has the rows of a table at the same places. -/
structure PlacesAgree (text : String) (epsg : ℤ) (rows : List Point) : Prop where
  /-- `_transform_csv` takes easting and northing for the coordinates. -/
  columns : ∃ hasHeader df, readTable text = pure (hasHeader, df) ∧ coordColumns hasHeader df =
    some (("Easting", .numbers (rows.map Prod.fst)), ("Northing", .numbers (rows.map Prod.snd)))
  /-- What it returns for a row is the row's place. -/
  positions : transformCsv text epsg = pure (rows.map (placeOf epsg))
  /-- So the map shows the places, -/
  map : ∀ data, transformCsv text epsg = pure data →
    mapPosition (getBounds data) = mapPosition (getBounds (rows.map (placeOf epsg)))
  /-- the hull of the download is that of the places, -/
  hull : ∀ data, transformCsv text epsg = pure data → External.convexHull (data.map Prod.swap) =
    External.convexHull (rows.map (External.project epsg 4326))
  /-- a road along them is projected to where the rows go, there and back, -/
  network : ∀ data, transformCsv text epsg = pure data → ∀ road : Feature,
    road.coordinates = data.map Prod.swap → (projectFeature 4326 epsg road).coordinates =
      rows.map fun p => External.project 4326 epsg (External.project epsg 4326 p)
  /-- and a route along the rows is a track along them. -/
  gpx : ∀ data, transformCsv text epsg = pure data → ∀ objective distance,
    (CosmonautJob.gpxOf epsg false ⟨objective, distance, rows⟩).points = data

variable {eastFirst : ℤ → Bool} {epsg : ℤ}

theorem transformCsv_table (ht : IsMembershipTable text delimiter rows memberships)
    (h : Sniffed text delimiter) :
    transformCsv text epsg = pure (rows.map (External.transform epsg 4326)) := by
  have hzip : (rows.map Prod.fst).zip (rows.map Prod.snd) = rows := by
    rw [List.zip_map', List.map_id']
  unfold transformCsv
  rw [readTable_of_sniffed ht h]
  simp only [pure_eq, ret_bind, membershipTable, coordColumns_table _ _ ht.between,
    ColumnData.numbers?, hzip]

/-- The transformer of `_transform_csv` has an easting and northing at its place exactly if the
system has the easting first, or exchanging the two makes no difference. -/
theorem transform_eq_placeOf_iff (h : AxisOrders eastFirst) (p : Point) :
    External.transform epsg 4326 p = placeOf epsg p ↔
      (eastFirst epsg = true ∨
        External.project epsg 4326 p.swap = External.project epsg 4326 p) := by
  rw [h.transform, h.wgs84, placeOf]
  rcases eastFirst epsg with _ | _
  · simp [inAxes]
  · simp [inAxes]

/-- What the paths make of positions that are the places of the rows. -/
theorem placesAgree_of_positions (ht : IsMembershipTable text delimiter rows memberships)
    (hs : Sniffed text delimiter) (h : transformCsv text epsg = pure (rows.map (placeOf epsg))) :
    PlacesAgree text epsg rows := by
  have hdata : ∀ data, transformCsv text epsg = pure data → data = rows.map (placeOf epsg) := by
    intro data hdata
    rw [h] at hdata
    exact (ret.inj hdata).symm
  have hswap : (rows.map (placeOf epsg)).map Prod.swap = rows.map (External.project epsg 4326) := by
    rw [List.map_map]
    exact List.map_congr_left fun p _ => Prod.swap_swap _
  refine ⟨⟨true, _, readTable_of_sniffed ht hs, coordColumns_table _ _ ht.between⟩, h, ?_, ?_, ?_,
    ?_⟩
  · intro data hd
    rw [hdata data hd]
  · intro data hd
    rw [hdata data hd, hswap]
  · intro data hd road hroad
    change road.coordinates.map (External.project 4326 epsg) = _
    rw [hroad, hdata data hd, hswap, List.map_map]
    rfl
  · intro data hd objective distance
    rw [hdata data hd]
    rfl

/-- **Every path agrees on where the rows are** exactly if the sniffer tells the dialect and the
header of the table, and the system of the table has the easting first or no row moves when its
easting and northing are exchanged. -/
theorem placesAgree_iff (h : AxisOrders eastFirst)
    (ht : IsMembershipTable text delimiter rows memberships) :
    PlacesAgree text epsg rows ↔ Sniffed text delimiter ∧ (eastFirst epsg = true ∨
      ∀ p ∈ rows, External.project epsg 4326 p.swap = External.project epsg 4326 p) := by
  have heach : (rows.map (External.transform epsg 4326) = rows.map (placeOf epsg)) ↔
      (eastFirst epsg = true ∨
        ∀ p ∈ rows, External.project epsg 4326 p.swap = External.project epsg 4326 p) := by
    rw [List.map_inj_left]
    simp only [transform_eq_placeOf_iff h, forall_or_left]
  rw [← heach]
  constructor
  · intro hagree
    obtain ⟨hasHeader, df, hread, hcolumns⟩ := hagree.columns
    have hs : Sniffed text delimiter :=
      sniffed_of_easting ht hread (mem_of_coordColumns hcolumns) rfl
    have hpositions := hagree.positions
    rw [transformCsv_table ht hs] at hpositions
    exact ⟨hs, ret.inj hpositions⟩
  · rintro ⟨hs, hpositions⟩
    exact placesAgree_of_positions ht hs (by rw [transformCsv_table ht hs, hpositions])

omit [External]

/-! ## Longitudes and latitudes -/

/-- Easting and northing in degrees: longitude 11 to 12, latitude 50.5 to 52. -/
def degreeRows : List Point := [(11, 51), (12, 52), (23 / 2, 101 / 2)]

def degreeTable : String :=
  "Easting,Northing,Forest,Meadow\n11,51,0.5,0.5\n12,52,0.25,0.75\n11.5,50.5,1,0\n"

def degreeMemberships : DataFrame :=
  [("Forest", .numbers [1 / 2, 1 / 4, 1]), ("Meadow", .numbers [1 / 2, 3 / 4, 0])]

/-- The packages, for this table. EPSG:7084 has longitude and latitude in this order, EPSG:4326 the
other way round, and from one to the other only the axes change. -/
@[reducible] def External.degrees : External :=
  { External.plain with
    sniff := fun sample =>
      if ',' ∈ sample.toList then .ok ',' else .error "Could not determine delimiter"
    readCsv := fun _ delimiter _ =>
      if delimiter = ',' then .ok (membershipTable degreeRows degreeMemberships)
      else .ok [("Easting,Northing,Forest,Meadow", .texts ["11,51,0.5,0.5", "12,52,0.25,0.75",
        "11.5,50.5,1,0"])]
    transform := fun src dst p => inAxes (dst == 7084) (inAxes (src == 7084) p) }

theorem axisOrders_degrees :
    let _ := External.degrees
    AxisOrders fun epsg => epsg == 7084 := by
  intro _
  exact ⟨fun src dst p => rfl, rfl⟩

theorem isMembershipTable_degrees :
    let _ := External.degrees
    IsMembershipTable degreeTable ',' degreeRows degreeMemberships := by
  intro _
  refine ⟨rfl, fun d hd df hread col hcol => ?_, fun col hcol => ?_⟩
  · have hother : External.readCsv degreeTable d true =
        .ok [("Easting,Northing,Forest,Meadow", _)] :=
      if_neg hd
    obtain rfl := Except.ok.inj (hother.symm.trans hread)
    obtain rfl := List.mem_singleton.1 hcol
    decide
  · have hbetween : ∀ xs : List ℚ, (∀ x ∈ xs, 0 ≤ x ∧ x ≤ 1) → ∃ ys, ColumnData.numbers xs =
      .numbers ys ∧ ∀ x ∈ ys, 0 ≤ x ∧ x ≤ 1 := fun xs h => ⟨xs, rfl, h⟩
    simp only [degreeMemberships, List.mem_cons, List.not_mem_nil, or_false] at hcol
    rcases hcol with rfl | rfl
    · exact hbetween _ (by decide +kernel)
    · exact hbetween _ (by decide +kernel)

theorem sniffed_degrees :
    let _ := External.degrees
    Sniffed degreeTable ',' := by
  intro _
  exact ⟨if_pos (by decide +kernel), rfl⟩

/-- With the longitude first, every path has the rows at the same places. -/
theorem lonLat_agrees :
    let _ := External.degrees
    PlacesAgree degreeTable 7084 degreeRows := by
  intro _
  exact (placesAgree_iff axisOrders_degrees isMembershipTable_degrees).2
    ⟨sniffed_degrees, .inl rfl⟩

/-- **With the latitude first, the map and the download have the first row at longitude 51,
latitude 11.** -/
theorem latLon_disagree :
    let _ := External.degrees
    transformCsv degreeTable 4326 = pure degreeRows ∧ placeOf 4326 (11, 51) = (51, 11) ∧
      ¬PlacesAgree degreeTable 4326 degreeRows := by
  intro _
  have hread : transformCsv degreeTable 4326 = pure degreeRows :=
    transformCsv_table isMembershipTable_degrees sniffed_degrees
  refine ⟨hread, rfl, fun h => ?_⟩
  have hpositions := h.positions
  rw [hread] at hpositions
  exact absurd (ret.inj hpositions) (by decide +kernel)

end Cosmonaut
