import Cosmonaut.Row.WellFormed
import Mathlib.Tactic.Linarith
import Mathlib.Tactic.NormNum

/-!
# Where the map is

`_get_bounds` and `_calculate_map_position_from_bounds` choose the centre and the zoom level of the
map from an uploaded table, in double arithmetic, and the row keeps them for every later visit. The
row of a job with a table holds a centre and a zoom level at which all its positions are on the
screen, unless the zoom level is the least, and no closer one, up to a hundredth of a pixel.

* `getBounds_spec`: the bounds are the least box around the positions.
* `Log2Accurate`: what is taken for granted of `math.log2`.
* `fits_of_le_zoomFor`, `screen_lt_of_zoomFor_lt`: an extent fits at the zoom level, and not one
  level further.
* `map_shows_positions`: the rows of every run.
-/

namespace Cosmonaut

open Interleaving Program

/-! ## Bounds -/

/-- The least box around the positions. -/
structure LeastBox (points : List Point) (b : Point × Point) : Prop where
  latitude : ∀ p ∈ points, b.1.1 ≤ p.1 ∧ p.1 ≤ b.2.1
  longitude : ∀ p ∈ points, b.1.2 ≤ p.2 ∧ p.2 ≤ b.2.2
  south : ∃ p ∈ points, p.1 = b.1.1
  north : ∃ p ∈ points, p.1 = b.2.1
  west : ∃ p ∈ points, p.2 = b.1.2
  east : ∃ p ∈ points, p.2 = b.2.2

variable {points : List Point} {b : Point × Point}

theorem foldl_min_spec (x : ℚ) (xs : List ℚ) :
    xs.foldl min x ∈ x :: xs ∧ ∀ y ∈ x :: xs, xs.foldl min x ≤ y :=
  List.min?_eq_some_iff.1 List.min?_cons'

theorem foldl_max_spec (x : ℚ) (xs : List ℚ) :
    xs.foldl max x ∈ x :: xs ∧ ∀ y ∈ x :: xs, y ≤ xs.foldl max x :=
  List.max?_eq_some_iff.1 List.max?_cons'

/-- **The bounds are the least box around the positions.** -/
theorem getBounds_spec (h : getBounds points = some b) : LeastBox points b := by
  rcases points with _ | ⟨p, ps⟩
  · cases h
  obtain rfl := Option.some.inj h
  obtain ⟨hsouth, hlower⟩ := foldl_min_spec p.1 (ps.map Prod.fst)
  obtain ⟨hnorth, hupper⟩ := foldl_max_spec p.1 (ps.map Prod.fst)
  obtain ⟨hwest, hleft⟩ := foldl_min_spec p.2 (ps.map Prod.snd)
  obtain ⟨heast, hright⟩ := foldl_max_spec p.2 (ps.map Prod.snd)
  rw [← List.map_cons] at hsouth hlower hnorth hupper hwest hleft heast hright
  exact
    { latitude := fun q hq => ⟨hlower _ (List.mem_map_of_mem hq), hupper _ (List.mem_map_of_mem hq)⟩
      longitude := fun q hq =>
        ⟨hleft _ (List.mem_map_of_mem hq), hright _ (List.mem_map_of_mem hq)⟩
      south := List.mem_map.1 hsouth
      north := List.mem_map.1 hnorth
      west := List.mem_map.1 hwest
      east := List.mem_map.1 heast }

/-! ## The zoom level -/

/-- What a double below 512 may be off. -/
def precision : ℚ := 2 ^ (-45 : ℤ)

theorem abs_round_sub_le {x : ℚ} (h : |x| ≤ 361) : |Double.round x - x| ≤ precision :=
  Double.abs_round_sub_le_of_lt (n := 9) (by norm_num) (by linarith)

/-- `d` degrees take up no more than the screen. -/
def Fits (screen d : ℚ) (z : ℕ) : Prop := d * 256 * 2 ^ z ≤ screen

theorem Fits.mono {screen screen' d d' : ℚ} {z : ℕ} (h : Fits screen d z) (hd : d' ≤ d)
    (hscreen : screen ≤ screen') : Fits screen' d' z := by
  unfold Fits at *
  calc d' * 256 * 2 ^ z ≤ d * 256 * 2 ^ z := by gcongr
    _ ≤ screen := h
    _ ≤ screen' := hscreen

/-- `math.log2` compares with a whole number as its argument does with the power of two, unless the
argument is next to that power. -/
structure Log2Accurate [External] : Prop where
  le : ∀ (k : ℕ) (x : ℚ), 2 ^ k * (1 + 2 ^ (-40 : ℤ)) ≤ x → k ≤ External.log2 x
  lt : ∀ (k : ℕ) (x : ℚ), 0 < x → x * (1 + 2 ^ (-40 : ℤ)) ≤ 2 ^ k → External.log2 x < k

variable [External] {screen d low high x : ℚ} {z : ℕ}

omit [External] in
/-- The quotient of screen and extent, as a double. -/
theorem abs_round_quotient_sub_le (hscreen : 361 * 256 ≤ screen) (hd : 0 < d) (hd' : d ≤ 361) :
    |Double.round (screen / (d * 256)) - screen / (d * 256)| ≤
      2 ^ (-53 : ℤ) * (screen / (d * 256)) := by
  refine Double.abs_round_sub_le_mul ?_
  rw [le_div_iff₀ (by positivity)]
  linarith

/-- **An extent fits on the screen at its zoom level.** -/
theorem fits_of_le_zoomFor (hlog : Log2Accurate) (hscreen : 361 * 256 ≤ screen) (hd : 0 < d)
    (hd' : d ≤ 361) (hz : (z : ℚ) ≤ zoomFor screen d) :
    Fits (screen * (1 + 2 ^ (-39 : ℤ))) d z := by
  rw [zoomFor, if_pos hd] at hz
  obtain ⟨hbelow, habove⟩ := abs_le.1 (abs_round_quotient_sub_le hscreen hd hd')
  have hq : 0 < screen / (d * 256) := div_pos (by linarith) (by positivity)
  have heq : screen / (d * 256) * (d * 256) = screen := div_mul_cancel₀ _ (by positivity)
  generalize screen / (d * 256) = q at hz hbelow habove hq heq
  have hr : 0 < Double.round q := by
    norm_num at hbelow
    linarith
  have hlt : (2 : ℚ) ^ z < Double.round q * (1 + 2 ^ (-40 : ℤ)) := by
    by_contra hnot
    exact absurd hz (not_le.2 (hlog.lt z _ hr (not_lt.1 hnot)))
  have hbound : (2 : ℚ) ^ z ≤ q * (1 + 2 ^ (-39 : ℤ)) := by
    norm_num at hlt habove ⊢
    linarith
  calc d * 256 * 2 ^ z ≤ d * 256 * (q * (1 + 2 ^ (-39 : ℤ))) := by gcongr
    _ = screen * (1 + 2 ^ (-39 : ℤ)) := by
      rw [← heq]
      ring

/-- **One level further it does not.** -/
theorem screen_lt_of_zoomFor_lt (hlog : Log2Accurate) (hscreen : 361 * 256 ≤ screen) (hd : 0 < d)
    (hd' : d ≤ 361) (hz : zoomFor screen d < z) :
    screen < d * 256 * 2 ^ z * (1 + 2 ^ (-39 : ℤ)) := by
  rw [zoomFor, if_pos hd] at hz
  obtain ⟨hbelow, habove⟩ := abs_le.1 (abs_round_quotient_sub_le hscreen hd hd')
  have hq : 0 < screen / (d * 256) := div_pos (by linarith) (by positivity)
  have heq : screen / (d * 256) * (d * 256) = screen := div_mul_cancel₀ _ (by positivity)
  generalize screen / (d * 256) = q at hz hbelow habove hq heq
  have hlt : Double.round q < 2 ^ z * (1 + 2 ^ (-40 : ℤ)) := by
    by_contra hnot
    exact absurd hz (not_lt.2 (hlog.le z _ (not_lt.1 hnot)))
  have hbound : q < 2 ^ z * (1 + 2 ^ (-39 : ℤ)) := by
    norm_num at hlt hbelow ⊢
    linarith
  calc screen = q * (d * 256) := heq.symm
    _ < 2 ^ z * (1 + 2 ^ (-39 : ℤ)) * (d * 256) := by gcongr
    _ = d * 256 * 2 ^ z * (1 + 2 ^ (-39 : ℤ)) := by ring

/-! ## One axis -/

omit [External] in
/-- A position between two bounds is at most half their distance away from the middle. -/
theorem two_mul_abs_sub_mid_le (h : low ≤ x ∧ x ≤ high) :
    2 * |x - (low + high) / 2| ≤ high - low := by
  obtain ⟨hlow, hhigh⟩ := h
  rcases abs_cases (x - (low + high) / 2) with ⟨habs, -⟩ | ⟨habs, -⟩ <;> rw [habs] <;> linarith

omit [External] in
/-- So it is from the middle as a double, up to the precision. -/
theorem two_mul_abs_sub_center_le (hlow : |low| ≤ 180) (hhigh : |high| ≤ 180)
    (h : low ≤ x ∧ x ≤ high) :
    2 * |x - Double.round (Double.round (low + high) / 2)| ≤ high - low + 3 * precision := by
  have hsmall : precision ≤ 1 := by norm_num [precision]
  have habs : |low + high| ≤ 360 := (abs_add_le _ _).trans (by linarith)
  have hsum := abs_round_sub_le (habs.trans (by norm_num))
  generalize Double.round (low + high) = sum at hsum ⊢
  have hhalf := abs_round_sub_le (x := sum / 2) (by
    rw [abs_le] at habs hsum ⊢
    constructor <;> linarith)
  generalize Double.round (sum / 2) = center at hhalf ⊢
  have hmid := two_mul_abs_sub_mid_le h
  -- the error of the sum counts half, and the distance twice
  calc 2 * |x - center| ≤ 2 * (|x - (low + high) / 2| + |(low + high) / 2 - center|) := by
        gcongr
        exact abs_sub_le _ _ _
    _ ≤ high - low + 3 * precision := by
      have hcenter : |(low + high) / 2 - center| ≤ 3 / 2 * precision := by
        rw [abs_le] at hsum hhalf ⊢
        constructor <;> linarith
      linarith

/-- **As long as an axis allows the zoom level, a position is on the screen.** -/
theorem fits_position (hlog : Log2Accurate) (hscreen : 361 * 256 ≤ screen)
    (hscreen' : screen ≤ 2 ^ 19) (hlow : |low| ≤ 180) (hhigh : |high| ≤ 180)
    (h : low ≤ x ∧ x ≤ high) (hz : (z : ℚ) ≤ zoomFor screen (Double.round (high - low)))
    (hz' : z ≤ 18) :
    Fits (screen + 1) (2 * |x - Double.round (Double.round (low + high) / 2)|) z := by
  have hcenter := two_mul_abs_sub_center_le hlow hhigh h
  have habs : |high - low| ≤ 360 := (abs_sub _ _).trans (by linarith)
  have hextent := abs_le.1 (abs_round_sub_le (habs.trans (by norm_num)))
  generalize Double.round (high - low) = d at hz hextent
  have hpow : (2 : ℚ) ^ z ≤ 2 ^ 18 := pow_le_pow_right₀ (by norm_num) hz'
  have hfit : Fits (screen * (1 + 2 ^ (-39 : ℤ))) (max d 0) z := by
    rcases lt_or_ge 0 d with hd | hd
    · rw [max_eq_left hd.le]
      refine fits_of_le_zoomFor hlog hscreen hd ?_ hz
      have := le_abs_self (high - low)
      norm_num [precision] at hextent
      linarith
    · rw [max_eq_right hd, Fits]
      norm_num
      linarith
  unfold Fits at hfit ⊢
  calc 2 * |x - _| * 256 * 2 ^ z ≤ (max d 0 + 4 * precision) * 256 * 2 ^ z := by
        gcongr
        have := le_max_left d 0
        linarith
    _ = max d 0 * 256 * 2 ^ z + 4 * precision * 256 * 2 ^ z := by ring
    _ ≤ screen * (1 + 2 ^ (-39 : ℤ)) + 4 * precision * 256 * 2 ^ 18 := by
        have : 0 ≤ precision := by norm_num [precision]
        gcongr
    _ ≤ screen + 1 := by
        norm_num [precision] at hscreen' ⊢
        linarith

/-- **Where the axis does not allow the zoom level, the two bounds do not fit**, unless they are
next to each other. -/
theorem not_fits_extent (hlog : Log2Accurate) (hscreen : 361 * 256 ≤ screen)
    (hscreen' : screen ≤ 2 ^ 19) (hlow : |low| ≤ 180) (hhigh : |high| ≤ 180)
    (hz : zoomFor screen (Double.round (high - low)) < z) (hz' : z ≤ 18) :
    ¬Fits (screen - 1) (high - low) z ∨
      zoomFor screen (Double.round (high - low)) = 15 ∧ high - low ≤ precision := by
  have habs : |high - low| ≤ 360 := (abs_sub _ _).trans (by linarith)
  have hextent := abs_le.1 (abs_round_sub_le (habs.trans (by norm_num)))
  generalize Double.round (high - low) = d at hz hextent ⊢
  rcases lt_or_ge 0 d with hd | hd
  · left
    have hle : d ≤ 361 := by
      have := le_abs_self (high - low)
      norm_num [precision] at hextent
      linarith
    have hover := screen_lt_of_zoomFor_lt hlog hscreen hd hle hz
    have hpow : (2 : ℚ) ^ z ≤ 2 ^ 18 := pow_le_pow_right₀ (by norm_num) hz'
    intro hfit
    unfold Fits at hfit
    have hbound : d * 256 * 2 ^ z ≤ screen - 1 + precision * 256 * 2 ^ 18 :=
      calc d * 256 * 2 ^ z ≤ (high - low + precision) * 256 * 2 ^ z := by
            gcongr
            linarith
        _ = (high - low) * 256 * 2 ^ z + precision * 256 * 2 ^ z := by ring
        _ ≤ screen - 1 + precision * 256 * 2 ^ 18 := by
            have : 0 ≤ precision := by norm_num [precision]
            gcongr
    have hslack : d * 256 * 2 ^ z * (1 + 2 ^ (-39 : ℤ)) ≤
        (screen - 1 + precision * 256 * 2 ^ 18) * (1 + 2 ^ (-39 : ℤ)) := by gcongr
    norm_num [precision] at hover hslack hscreen'
    linarith
  · right
    exact ⟨by rw [zoomFor, if_neg (not_lt.2 hd)], by linarith⟩

omit [External] in
/-- The zoom level of a map is the whole part of what the axes allow, between 5 and 18. -/
theorem zoom_spec {m : ℚ} (hm : m ≤ 18) : ∃ z : ℕ, max 5 (Double.trunc m) = z ∧ 5 ≤ z ∧ z ≤ 18 ∧
    (5 < z → (z : ℚ) ≤ m) ∧ m < z + 1 ∧ (m = 15 → z = 15) := by
  obtain ⟨z, hz⟩ := Int.eq_ofNat_of_zero_le (show 0 ≤ max 5 (Double.trunc m) by omega)
  have hle : 5 < z → (z : ℚ) ≤ m := by
    intro hlt
    have htrunc : Double.trunc m = z := by omega
    have hpos : 0 < Double.trunc m := by omega
    have := Double.trunc_le hpos
    rw [htrunc] at this
    exact_mod_cast this
  refine ⟨z, hz, by omega, ?_, hle, ?_, ?_⟩
  · by_contra hgt
    have h19 : (19 : ℚ) ≤ z := by
      exact_mod_cast (by omega : 19 ≤ z)
    linarith [hle (by omega)]
  · have hlt := Double.lt_trunc_add_one m
    have : (Double.trunc m : ℚ) ≤ z := by
      exact_mod_cast (by omega : Double.trunc m ≤ (z : ℤ))
    linarith
  · rintro rfl
    have h15 : Double.trunc 15 = 15 := by decide +kernel
    omega

/-! ## The map of a table -/

/-- Latitudes and longitudes. -/
def OnGlobe (points : List Point) : Prop := ∀ p ∈ points, |p.1| ≤ 90 ∧ |p.2| ≤ 180

/-- The position is on the screen, 1000 by 800 pixels around the centre: the world is 256 pixels at
zoom level 0, for 360 degrees of longitude and about 170 of latitude, and each level doubles it. -/
structure OnScreen (centre : Point) (z : ℕ) (p : Point) : Prop where
  latitude : Fits (170 * (800 + 1 / 100)) (2 * |p.1 - centre.1|) z
  longitude : Fits (360 * (1000 + 1 / 100)) (2 * |p.2 - centre.2|) z

/-- The map shows the positions, as closely as it can. -/
structure ShowsAll (points : List Point) (centre : Point) (z : ℕ) : Prop where
  range : 5 ≤ z ∧ z ≤ 18
  shown : 5 < z → ∀ p ∈ points, OnScreen centre z p
  /-- One level further some two positions do not fit, or the positions have one latitude or
  longitude. -/
  closest : z < 18 →
    (∃ p ∈ points, ∃ q ∈ points, ¬Fits (170 * (800 - 1 / 100)) (q.1 - p.1) (z + 1) ∨
      ¬Fits (360 * (1000 - 1 / 100)) (q.2 - p.2) (z + 1)) ∨
    z = 15 ∧ ∃ p ∈ points, (∀ q ∈ points, |q.1 - p.1| ≤ precision) ∨
      ∀ q ∈ points, |q.2 - p.2| ≤ precision

/-- **The map position of a table shows its positions.** -/
theorem mapPosition_shows (hlog : Log2Accurate) (hglobe : OnGlobe points)
    (h : getBounds points = some b) :
    ∃ (c : Point) (z : ℕ), mapPosition (some b) = (some c, (z : ℤ)) ∧ ShowsAll points c z := by
  have hbox := getBounds_spec h
  obtain ⟨s, hs, hsouth⟩ := hbox.south
  obtain ⟨n, hn, hnorth⟩ := hbox.north
  obtain ⟨w, hw, hwest⟩ := hbox.west
  obtain ⟨e, he, heast⟩ := hbox.east
  have hs180 : |b.1.1| ≤ 180 := hsouth ▸ (hglobe s hs).1.trans (by norm_num)
  have hn180 : |b.2.1| ≤ 180 := hnorth ▸ (hglobe n hn).1.trans (by norm_num)
  have hw180 : |b.1.2| ≤ 180 := hwest ▸ (hglobe w hw).2
  have he180 : |b.2.2| ≤ 180 := heast ▸ (hglobe e he).2
  obtain ⟨⟨south, west⟩, north, east⟩ := b
  obtain ⟨z, hz, hleast, hmost, hle, hlt, h15⟩ := zoom_spec (min_le_right
    (min (zoomFor (170 * 800) (Double.round (north - south)))
      (zoomFor (360 * 1000) (Double.round (east - west)))) 18)
  refine ⟨_, z, Prod.ext rfl hz, ⟨hleast, hmost⟩, fun hgt p hp => ?_, fun hnext => ?_⟩
  · obtain ⟨hboth, -⟩ := le_min_iff.1 (hle hgt)
    obtain ⟨hlat, hlon⟩ := le_min_iff.1 hboth
    exact
      { latitude := (fits_position hlog (by norm_num) (by norm_num) hs180 hn180
          (hbox.latitude p hp) hlat hmost).mono le_rfl (by norm_num)
        longitude := (fits_position hlog (by norm_num) (by norm_num) hw180 he180
          (hbox.longitude p hp) hlon hmost).mono le_rfl (by norm_num) }
  · have hz18 : (z : ℚ) + 1 ≤ 18 := by
      exact_mod_cast (by omega : z + 1 ≤ 18)
    have hmin : min (zoomFor (170 * 800) (Double.round (north - south)))
        (zoomFor (360 * 1000) (Double.round (east - west))) < ((z + 1 : ℕ) : ℚ) := by
      rcases min_lt_iff.1 hlt with hlt | hlt
      · exact_mod_cast hlt
      · linarith
    -- the axis that fills the screen first has set the level
    rcases min_choice (zoomFor (170 * 800) (Double.round (north - south)))
      (zoomFor (360 * 1000) (Double.round (east - west))) with hfirst | hfirst <;>
        rw [hfirst] at hmin h15
    · rcases not_fits_extent hlog (by norm_num) (by norm_num) hs180 hn180 hmin (by omega) with
        hnot | ⟨h15', hnarrow⟩
      · refine .inl ⟨s, hs, n, hn, .inl fun hfit => hnot ?_⟩
        rw [hsouth, hnorth] at hfit
        exact hfit.mono le_rfl (by norm_num)
      · refine .inr ⟨h15 (by rw [h15']; norm_num), s, hs, .inl fun q hq => ?_⟩
        obtain ⟨hge, hle⟩ := hbox.latitude q hq
        rw [hsouth, abs_of_nonneg (sub_nonneg.2 hge)]
        linarith
    · rcases not_fits_extent hlog (by norm_num) (by norm_num) hw180 he180 hmin (by omega) with
        hnot | ⟨h15', hnarrow⟩
      · refine .inl ⟨w, hw, e, he, .inr fun hfit => hnot ?_⟩
        rw [hwest, heast] at hfit
        exact hfit.mono le_rfl (by norm_num)
      · refine .inr ⟨h15 (by rw [h15']; norm_num), w, hw, .inr fun q hq => ?_⟩
        obtain ⟨hge, hle⟩ := hbox.longitude q hq
        rw [hwest, abs_of_nonneg (sub_nonneg.2 hge)]
        linarith

/-! ## The rows of a run -/

/-- The map position of a row is that of a table with these positions: NaN without one, else the
middle of the least box around them, with all of them on the screen. -/
structure OfTable (info : MembershipInfo) (points : List Point) : Prop where
  len : info.len = points.length
  empty : points = [] → info.bounds = some none ∧ info.center = none ∧ info.zoom = 15
  box : points ≠ [] → ∃ b, info.bounds = some (some b) ∧ LeastBox points b
  position : points ≠ [] → OnGlobe points →
    ∃ (c : Point) (z : ℕ), info.center = some c ∧ info.zoom = z ∧ ShowsAll points c z

theorem ofTable_uploadedMembership (hlog : Log2Accurate) (points : List Point) :
    OfTable (CosmonautJob.uploadedMembership points.length (getBounds points)).toMembershipInfo
      points where
  len := rfl
  empty := by
    rintro rfl
    exact ⟨rfl, rfl, rfl⟩
  box hne := by
    obtain ⟨p, ps, rfl⟩ := List.exists_cons_of_ne_nil hne
    exact ⟨_, rfl, getBounds_spec rfl⟩
  position hne hglobe := by
    obtain ⟨p, ps, rfl⟩ := List.exists_cons_of_ne_nil hne
    obtain ⟨c, z, hposition, hshows⟩ := mapPosition_shows hlog hglobe rfl
    exact ⟨c, z, congrArg Prod.fst hposition, congrArg Prod.snd hposition, hshows⟩

/-- **The map shows the positions of the uploaded table**, whatever requests have written the row:
its map position is the default one, of a job without a table, or that of a table whose membership
file a request of the run has read, if the row did not start with it. -/
theorem map_shows_positions (hlog : Log2Accurate) {T : List Point → Prop} {w : World}
    {requests : List (Site × Request)} {es : List (Event machine)} {p' : Pool machine Err Unit}
    (hw : RowOk T w) (hrun : Run (serving w requests) es p') (hlegacy : LegacyOk es) {r : Row}
    (hr : p'.world.row = some r) :
    r.columns.membershipUpload.toMembershipInfo = defaultMembershipUpload.toMembershipInfo ∨
      ∃ points, ReadOr T es points ∧
        OfTable r.columns.membershipUpload.toMembershipInfo points := by
  obtain ⟨hrow, -⟩ := run_rowOk hw hrun hlegacy
  have hinfo := (hrow r hr).membership
  generalize r.columns.membershipUpload.toMembershipInfo = info at hinfo
  cases hinfo with
  | none => exact .inl rfl
  | table points hpoints => exact .inr ⟨points, hpoints, ofTable_uploadedMembership hlog points⟩

omit [External]

theorem log2Accurate_plain :
    let _ := External.plain
    Log2Accurate := by
  intro _
  refine ⟨fun k x h => ?_, fun k x hx h => ?_⟩
  · have hk : ((2 : ℕ) : ℚ) ^ (k : ℤ) ≤ x := by
      refine le_trans ?_ h
      rw [zpow_natCast]
      exact le_mul_of_one_le_right (by positivity) (by norm_num)
    have hpos : 0 < x := lt_of_lt_of_le (zpow_pos (by norm_num) _) hk
    have hlog := (Int.zpow_le_iff_le_log (by norm_num) hpos).1 hk
    change ((k : ℕ) : ℚ) ≤ ((Int.log 2 x : ℤ) : ℚ)
    exact_mod_cast hlog
  · have hk : x < ((2 : ℕ) : ℚ) ^ (k : ℤ) := by
      refine lt_of_lt_of_le ?_ h
      exact lt_mul_of_one_lt_right hx (by norm_num)
    have hlog := (Int.lt_zpow_iff_log_lt (by norm_num) hx).1 hk
    change ((Int.log 2 x : ℤ) : ℚ) < ((k : ℕ) : ℚ)
    exact_mod_cast hlog

/-- The eleven positions of the uploaded table are on the map. -/
theorem map_shows_uploadedTable :
    let _ := External.plain
    ∃ r, uploadedTable.2.world.row = some r ∧ ∃ points c, ∃ z : ℕ,
      ReadOr (fun _ => False) uploadedTable.1 points ∧ points.length = 11 ∧
      r.columns.membershipUpload.center = some c ∧ r.columns.membershipUpload.zoom = z ∧
      ShowsAll points c z := by
  intro _
  obtain ⟨r, hr, hlen⟩ := rowOk_uploadedTable.1
  rcases map_shows_positions (T := fun _ => False) log2Accurate_plain rowOk_fresh
    (Run.of_play _ uploadTablePool) legacyOk_uploadedTable hr with
    hdefault | ⟨points, hread, htable⟩
  · have hzero := congrArg MembershipInfo.len hdefault
    rw [hlen] at hzero
    cases hzero
  · have hglobe : OnGlobe points := by
      rcases hread with hfalse | ⟨e, -, pod, text, epsg, -, hpoints⟩
      · exact hfalse.elim
      · obtain rfl := ret.inj hpoints
        rw [OnGlobe, show External.transform epsg 4326 = id from rfl, List.map_id]
        decide +kernel
    have hlength : points.length = 11 := htable.len.symm.trans hlen
    obtain ⟨c, z, hc, hz, hshows⟩ := htable.position
      (List.ne_nil_of_length_pos (by omega)) hglobe
    exact ⟨r, hr, points, c, z, hread, hlength, hc, hz, hshows⟩

end Cosmonaut
