import Cosmonaut.Connectivity.Pieces
import Cosmonaut.Osm.Truncation
import Mathlib.Data.List.Rotate

/-!
# Ways at the edge of the area

`way_to_feature` drops a way whose surviving segments are no run of the node list. The road has
fallen apart then, unless nodes that the list visits twice still hold it together, as in a closed
way.

* `DroppedOnlyApart`: the way is dropped only if nothing survives or it has really fallen apart, and
  a closed way is dropped or kept wherever its node list starts.
* `droppedOnlyApart_iff`: which ways this holds of.
* `closed_way_is_dropped`: one of which it does not.
-/

namespace Cosmonaut

open Connectivity

/-! ## Pieces of a way -/

/-- Positions are given for all nodes, and a node has one position. -/
structure Way.Sound (way : Way) : Prop where
  parallel : way.nodes.length = way.geometry.length
  placed : ∀ (i j : ℕ) n, way.nodes[i]? = some n → way.nodes[j]? = some n →
    way.geometry[i]? = way.geometry[j]?

/-- The surviving segments. -/
def Way.surviving (inside : Point → Bool) (way : Way) : Set ℕ :=
  {i | Survives inside way.geometry i}

/-- The segments share a node. -/
def Way.Touch (way : Way) (i j : ℕ) : Prop :=
  ∃ n, (way.nodes[i]? = some n ∨ way.nodes[i + 1]? = some n) ∧
    (way.nodes[j]? = some n ∨ way.nodes[j + 1]? = some n)

/-- The surviving segments, joined at shared nodes, are one piece. -/
def Way.HoldsTogether (inside : Point → Bool) (way : Way) : Prop :=
  InOnePiece (way.surviving inside) way.Touch

/-- The node list ends where it starts. -/
def Way.Closed (way : Way) : Prop := 2 ≤ way.nodes.length ∧ way.nodes.head? = way.nodes.getLast?

instance (way : Way) : Decidable way.Closed := inferInstanceAs (Decidable (_ ∧ _))

/-- A closed list that starts at another of its places. -/
def startAt {α : Type} (k : ℕ) (l : List α) : List α :=
  l.dropLast.rotate k ++ (l.dropLast.rotate k).take 1

/-- The closed way with a node list that starts at another node. -/
def Way.startAt (k : ℕ) (way : Way) : Way :=
  { way with nodes := Cosmonaut.startAt k way.nodes, geometry := Cosmonaut.startAt k way.geometry }

/-- The way is dropped only if nothing of it survives or it has fallen apart; if it is closed, it is
dropped or kept wherever its node list starts. -/
structure DroppedOnlyApart (inside : Point → Bool) (way : Way) : Prop where
  apart : wayToFeature inside way = none →
    way.surviving inside = ∅ ∨ ¬way.HoldsTogether inside
  start : way.Closed → ∀ k, wayToFeature inside (way.startAt k) = none ↔
    wayToFeature inside way = none

/-- A closed way of which some segments survive and some do not; a way that leaves the area and
comes back, if it is not closed. -/
def Way.CrossesEdge (inside : Point → Bool) (way : Way) : Prop :=
  if way.Closed then
    (way.surviving inside).Nonempty ∧ ∃ i, i + 1 < way.geometry.length ∧ i ∉ way.surviving inside
  else LeavesAndReturns inside way.geometry

variable {inside : Point → Bool} {way : Way} {i j k : ℕ}

theorem wayToFeature_eq_none_iff (hlength : way.nodes.length = way.geometry.length) :
    wayToFeature inside way = none ↔ ¬∃ a b, OneRun inside way.geometry a b := by
  have hnone : truncateByEdge inside way.nodes way.geometry = none ↔ _ := truncateByEdge_eq_none_iff
  rw [← hnone, wayToFeature]
  rcases hcut : truncateByEdge inside way.nodes way.geometry with _ | ⟨ns, cs⟩
  · simp
  · obtain ⟨htwo, -⟩ := (truncation_cut hlength hcut)
    simp [htwo]

/-- One run is one piece: each segment shares a node with the next. -/
theorem OneRun.holdsTogether (hlength : way.nodes.length = way.geometry.length) {a b : ℕ}
    (h : OneRun inside way.geometry a b) : way.HoldsTogether inside := by
  obtain ⟨hab, hrun⟩ := h
  have htouch : ∀ i, a ≤ i → i + 1 ≤ b → way.Touch i (i + 1) ∧ way.Touch (i + 1) i := by
    intro i hai hib
    obtain ⟨hlt, -⟩ := survives_iff_inside.1 ((hrun (i + 1)).2 ⟨by omega, hib⟩)
    have hn : way.nodes[i + 1]? = some way.nodes[i + 1] := List.getElem?_eq_getElem (by omega)
    exact ⟨⟨_, .inr hn, .inl hn⟩, ⟨_, .inl hn, .inr hn⟩⟩
  have hup : ∀ d i, a ≤ i → i + d ≤ b → Chained (way.surviving inside) way.Touch i (i + d) ∧
      Chained (way.surviving inside) way.Touch (i + d) i := by
    intro d
    induction d with
    | zero => exact fun i _ _ => ⟨.refl, .refl⟩
    | succ d ih =>
      intro i hai hib
      obtain ⟨hto, hback⟩ := ih i hai (by omega)
      have hs : i + d ∈ way.surviving inside := (hrun _).2 ⟨by omega, by omega⟩
      have hs' : i + (d + 1) ∈ way.surviving inside := (hrun _).2 ⟨by omega, by omega⟩
      obtain ⟨hforth, hback'⟩ := htouch (i + d) (by omega) (by omega)
      exact ⟨hto.tail ⟨hs, hs', hforth⟩, .head ⟨hs', hs, hback'⟩ hback⟩
  intro i hi j hj
  obtain ⟨hai, hib⟩ := (hrun i).1 hi
  obtain ⟨haj, hjb⟩ := (hrun j).1 hj
  rcases le_total i j with hij | hij
  · obtain ⟨d, rfl⟩ := Nat.exists_eq_add_of_le hij
    exact (hup d i hai hjb).1
  · obtain ⟨d, rfl⟩ := Nat.exists_eq_add_of_le hij
    exact (hup d j haj hib).2

/-! ## Closed lists -/

variable {α : Type} {l : List α}

theorem length_startAt (h : 2 ≤ l.length) : (startAt k l).length = l.length := by
  rw [startAt, List.length_append, List.length_take, List.length_rotate, List.length_dropLast]
  omega

theorem getElem?_startAt (h : 2 ≤ l.length) (hi : i < l.length) :
    (startAt k l)[i]? = l[(i + k) % (l.length - 1)]? := by
  have hlength : l.dropLast.length = l.length - 1 := List.length_dropLast
  have hrotate : ∀ j, j < l.length - 1 →
      (l.dropLast.rotate k)[j]? = l[(j + k) % (l.length - 1)]? := by
    intro j hj
    have hmod : (j + k) % (l.length - 1) < l.length - 1 := Nat.mod_lt _ (by omega)
    rw [List.getElem?_rotate (by omega), hlength, List.getElem?_dropLast, if_pos hmod]
  unfold startAt
  by_cases hlast : i < l.length - 1
  · rw [List.getElem?_append_left (by rw [List.length_rotate]; omega), hrotate i hlast]
  · obtain rfl : i = l.length - 1 := by omega
    rw [List.getElem?_append_right (by rw [List.length_rotate]; omega), List.length_rotate, hlength,
      Nat.sub_self, List.getElem?_take_of_lt (by omega), hrotate 0 (by omega), Nat.zero_add,
      Nat.add_mod_left]

theorem getElem?_of_closed (h : 2 ≤ l.length) (hclosed : l.head? = l.getLast?) (hi : i < l.length) :
    l[i]? = l[i % (l.length - 1)]? := by
  by_cases hlast : i < l.length - 1
  · rw [Nat.mod_eq_of_lt hlast]
  · obtain rfl : i = l.length - 1 := by omega
    rw [Nat.mod_self, ← List.getLast?_eq_getElem?, ← hclosed, List.head?_eq_getElem?]

/-- The pair at a place of the list that starts elsewhere is the pair at the place it came from. -/
theorem getElem?_startAt_pair (h : 2 ≤ l.length) (hclosed : l.head? = l.getLast?)
    (hi : i + 1 < l.length) :
    (startAt k l)[i]? = l[(i + k) % (l.length - 1)]? ∧
      (startAt k l)[i + 1]? = l[(i + k) % (l.length - 1) + 1]? := by
  refine ⟨getElem?_startAt h (by omega), ?_⟩
  have hmod : (i + k) % (l.length - 1) < l.length - 1 := Nat.mod_lt _ (by omega)
  rw [getElem?_startAt h hi, getElem?_of_closed h hclosed (i := _ + 1) (by omega), Nat.mod_add_mod,
    Nat.add_right_comm]

/-- Every place of a closed list comes first somewhere. -/
theorem exists_startAt {m : ℕ} (hj : j < m) (k : ℕ) : ∃ i < m, (i + k) % m = j := by
  refine ⟨(j + (m - k % m)) % m, Nat.mod_lt _ (by omega), ?_⟩
  have hk := Nat.div_add_mod k m
  have hlt : k % m < m := Nat.mod_lt _ (by omega)
  have hsum : j + (m - k % m) + k = j + m * (1 + k / m) := by
    rw [Nat.mul_add, Nat.mul_one]
    omega
  rw [Nat.mod_add_mod, hsum, Nat.add_mul_mod_self_left, Nat.mod_eq_of_lt hj]

/-! ## Closed ways -/

theorem Way.Sound.closed_geometry (hs : way.Sound) (hclosed : way.Closed) :
    2 ≤ way.geometry.length ∧ way.geometry.head? = way.geometry.getLast? := by
  obtain ⟨htwo, hends⟩ := hclosed
  have hlength := hs.parallel
  refine ⟨by omega, ?_⟩
  rw [List.head?_eq_getElem?, List.getLast?_eq_getElem?] at hends ⊢
  have hn : way.nodes[0]? = some way.nodes[0] := List.getElem?_eq_getElem (by omega)
  rw [← hlength]
  exact hs.placed 0 _ _ hn (hends.symm.trans hn)

theorem startAt_parallel (hs : way.Sound) (hclosed : way.Closed) (k : ℕ) :
    (way.startAt k).nodes.length = (way.startAt k).geometry.length := by
  obtain ⟨htwo, -⟩ := hs.closed_geometry hclosed
  change (startAt k way.nodes).length = (startAt k way.geometry).length
  rw [length_startAt hclosed.1, length_startAt htwo, hs.parallel]

theorem survives_startAt (hs : way.Sound) (hclosed : way.Closed) (k i : ℕ) :
    i ∈ (way.startAt k).surviving inside ↔
      i + 1 < way.geometry.length ∧ (i + k) % (way.geometry.length - 1) ∈ way.surviving inside := by
  obtain ⟨htwo, hends⟩ := hs.closed_geometry hclosed
  by_cases hi : i + 1 < way.geometry.length
  · obtain ⟨hq, hr⟩ := getElem?_startAt_pair (k := k) htwo hends hi
    change Survives inside (startAt k way.geometry) i ↔ _ ∧ Survives inside way.geometry _
    unfold Survives
    rw [hq, hr]
    exact (and_iff_right hi).symm
  · refine ⟨fun h => ?_, fun h => absurd h.1 hi⟩
    have hlt := (survives_iff_inside.1 h).1
    change i + 1 < (startAt k way.geometry).length at hlt
    rw [length_startAt htwo] at hlt
    exact absurd hlt hi

theorem touch_startAt (hclosed : way.Closed) (k : ℕ) (hi : i + 1 < way.nodes.length)
    (hj : j + 1 < way.nodes.length) : (way.startAt k).Touch i j ↔
      way.Touch ((i + k) % (way.nodes.length - 1)) ((j + k) % (way.nodes.length - 1)) := by
  obtain ⟨htwo, hends⟩ := hclosed
  obtain ⟨hn, hn'⟩ := getElem?_startAt_pair (k := k) htwo hends hi
  obtain ⟨hm, hm'⟩ := getElem?_startAt_pair (k := k) htwo hends hj
  unfold Way.Touch
  change (∃ n, ((startAt k way.nodes)[i]? = some n ∨ (startAt k way.nodes)[i + 1]? = some n) ∧
    ((startAt k way.nodes)[j]? = some n ∨ (startAt k way.nodes)[j + 1]? = some n)) ↔ _
  rw [hn, hn', hm, hm']

/-- **Where the node list starts does not matter** to whether a closed way holds together. -/
theorem holdsTogether_startAt (hs : way.Sound) (hclosed : way.Closed) (k : ℕ) :
    (way.startAt k).HoldsTogether inside ↔ way.HoldsTogether inside := by
  have hlength := hs.parallel
  refine inOnePiece_iff_of_map (f := fun i => (i + k) % (way.geometry.length - 1))
    (fun i hi => ((survives_startAt hs hclosed k i).1 hi).2) (fun j hj => ?_) (fun j hj => ?_)
    fun i hi j hj => ?_
  · have hlt := (survives_iff_inside.1 hj).1
    obtain ⟨i, hi, hij⟩ := exists_startAt (m := way.geometry.length - 1) (j := j) (by omega) k
    refine ⟨i, (survives_startAt hs hclosed k i).2 ⟨by omega, ?_⟩, hij⟩
    rw [hij]
    exact hj
  · have hlt := (survives_iff_inside.1 hj).1
    have hn : way.nodes[j]? = some way.nodes[j] := List.getElem?_eq_getElem (by omega)
    exact ⟨_, .inl hn, .inl hn⟩
  · have hi' := ((survives_startAt hs hclosed k i).1 hi).1
    have hj' := ((survives_startAt hs hclosed k j).1 hj).1
    rw [touch_startAt hclosed k (by omega) (by omega), hlength]

theorem surviving_startAt_eq_empty (hs : way.Sound) (hclosed : way.Closed) (k : ℕ)
    (h : way.surviving inside = ∅) : (way.startAt k).surviving inside = ∅ := by
  apply Set.eq_empty_of_forall_notMem
  intro i hi
  have hmem := ((survives_startAt hs hclosed k i).1 hi).2
  rw [h] at hmem
  exact hmem

theorem dropped_of_empty (hlength : way.nodes.length = way.geometry.length)
    (h : way.surviving inside = ∅) : wayToFeature inside way = none := by
  rw [wayToFeature_eq_none_iff hlength]
  rintro ⟨a, b, hab, hrun⟩
  have hmem : a ∈ way.surviving inside := (hrun a).2 ⟨le_rfl, hab⟩
  rw [h] at hmem
  exact hmem

theorem dropped_of_apart (hlength : way.nodes.length = way.geometry.length)
    (h : ¬way.HoldsTogether inside) : wayToFeature inside way = none := by
  rw [wayToFeature_eq_none_iff hlength]
  rintro ⟨a, b, hrun⟩
  exact h (hrun.holdsTogether hlength)

/-- A closed way all of whose segments survive is kept. -/
theorem kept_of_all (hlength : way.nodes.length = way.geometry.length)
    (htwo : 2 ≤ way.geometry.length)
    (h : ∀ i, i + 1 < way.geometry.length → i ∈ way.surviving inside) :
    wayToFeature inside way ≠ none := by
  rw [ne_eq, wayToFeature_eq_none_iff hlength, not_not]
  refine ⟨0, way.geometry.length - 2, by omega, fun i => ⟨fun hi => ?_, fun hi => h i (by omega)⟩⟩
  have hlt := (survives_iff_inside.1 hi).1
  omega

theorem dropped_of_leaves (hlength : way.nodes.length = way.geometry.length)
    (h : LeavesAndReturns inside way.geometry) : wayToFeature inside way = none := by
  rw [wayToFeature_eq_none_iff hlength, not_oneRun_iff]
  exact .inr h

/-- A way that leaves the area has a segment that survives and one that does not. -/
theorem LeavesAndReturns.crosses (h : LeavesAndReturns inside way.geometry) :
    (way.surviving inside).Nonempty ∧
      ∃ i, i + 1 < way.geometry.length ∧ i ∉ way.surviving inside := by
  obtain ⟨i, j, k, hij, hjk, hi, hj, hj', hk⟩ := h
  have hlt := hk.lt
  refine ⟨⟨i, survives_iff_inside.2 ⟨by omega, .inl hi⟩⟩, j, by omega, fun hmem => ?_⟩
  rcases (survives_iff_inside.1 hmem).2 with h | h
  · exact hj h
  · exact hj' h

/-- A closed way that crosses the edge of the area leaves it and returns if its node list starts at
an inside node. -/
theorem exists_leaves (hs : way.Sound) (hclosed : way.Closed)
    (hsome : (way.surviving inside).Nonempty)
    (hnot : ∃ i, i + 1 < way.geometry.length ∧ i ∉ way.surviving inside) :
    ∃ k, LeavesAndReturns inside (way.startAt k).geometry := by
  obtain ⟨htwo, hends⟩ := hs.closed_geometry hclosed
  obtain ⟨u, hu⟩ : ∃ u, InsideAt inside way.geometry u := by
    obtain ⟨s, hsurvives⟩ := hsome
    rcases (survives_iff_inside.1 hsurvives).2 with h | h
    · exact ⟨s, h⟩
    · exact ⟨s + 1, h⟩
  obtain ⟨q, hq, hinside⟩ := hu
  have hlt := (List.getElem?_eq_some_iff.1 hq).1
  have hq' : way.geometry[u % (way.geometry.length - 1)]? = some q := by
    rw [← getElem?_of_closed htwo hends hlt]
    exact hq
  have hfirst : InsideAt inside (way.startAt u).geometry 0 := by
    refine ⟨q, ?_, hinside⟩
    change (startAt u way.geometry)[0]? = _
    rw [getElem?_startAt htwo (by omega), Nat.zero_add, hq']
  have hlast : InsideAt inside (way.startAt u).geometry (way.geometry.length - 1) := by
    refine ⟨q, ?_, hinside⟩
    change (startAt u way.geometry)[way.geometry.length - 1]? = _
    rw [getElem?_startAt htwo (by omega), Nat.add_mod_left, hq']
  obtain ⟨t, ht, hdead⟩ := hnot
  obtain ⟨j, hj, hjt⟩ := exists_startAt (m := way.geometry.length - 1) (j := t) (by omega) u
  have hjdead : j ∉ (way.startAt u).surviving inside := by
    intro hmem
    have hlive := ((survives_startAt hs hclosed u j).1 hmem).2
    rw [hjt] at hlive
    exact hdead hlive
  have hlength : (way.startAt u).geometry.length = way.geometry.length := length_startAt htwo
  have houter : ¬InsideAt inside (way.startAt u).geometry j ∧
      ¬InsideAt inside (way.startAt u).geometry (j + 1) := by
    rw [← not_or]
    exact fun h => hjdead (survives_iff_inside.2 ⟨by omega, h⟩)
  have hne : j ≠ 0 := fun h => houter.1 (h ▸ hfirst)
  have hne' : j + 1 ≠ way.geometry.length - 1 := fun h => houter.2 (h ▸ hlast)
  exact ⟨u, 0, j, way.geometry.length - 1, by omega, by omega, hfirst, houter.1, houter.2, hlast⟩

/-! ## Which ways are dropped only if they fall apart -/

/-- **A way is dropped only if it falls apart** exactly if it does not both hold together and cross
the edge of the area. -/
theorem droppedOnlyApart_iff (inside : Point → Bool) {way : Way} (hs : way.Sound) :
    DroppedOnlyApart inside way ↔ ¬(way.HoldsTogether inside ∧ way.CrossesEdge inside) := by
  have hlength := hs.parallel
  constructor
  · rintro ⟨hapart, hstart⟩ ⟨htogether, hcross⟩
    unfold Way.CrossesEdge at hcross
    by_cases hclosed : way.Closed
    · rw [if_pos hclosed] at hcross
      obtain ⟨k, hleaves⟩ := exists_leaves hs hclosed hcross.1 hcross.2
      have hdropped := (hstart hclosed k).1
        (dropped_of_leaves (startAt_parallel hs hclosed k) hleaves)
      rcases hapart hdropped with hempty | hno
      · exact hcross.1.ne_empty hempty
      · exact hno htogether
    · rw [if_neg hclosed] at hcross
      rcases hapart (dropped_of_leaves hlength hcross) with hempty | hno
      · exact hcross.crosses.1.ne_empty hempty
      · exact hno htogether
  · intro hno
    refine ⟨fun hdropped => ?_, fun hclosed k => ?_⟩
    · rw [wayToFeature_eq_none_iff hlength, not_oneRun_iff] at hdropped
      rcases hdropped with hnone | hleaves
      · exact .inl (Set.eq_empty_of_forall_notMem hnone)
      · refine .inr fun htogether => hno ⟨htogether, ?_⟩
        unfold Way.CrossesEdge
        split
        · exact hleaves.crosses
        · exact hleaves
    · by_cases htogether : way.HoldsTogether inside
      · have hcross : ¬way.CrossesEdge inside := fun hcross => hno ⟨htogether, hcross⟩
        rw [Way.CrossesEdge, if_pos hclosed, not_and, not_exists] at hcross
        rcases Set.eq_empty_or_nonempty (way.surviving inside) with hempty | hsome
        · have hempty' := surviving_startAt_eq_empty hs hclosed k hempty
          exact iff_of_true (dropped_of_empty (startAt_parallel hs hclosed k) hempty')
            (dropped_of_empty hlength hempty)
        · have hall : ∀ i, i + 1 < way.geometry.length → i ∈ way.surviving inside := by
            intro i hi
            by_contra hmem
            exact hcross hsome i ⟨hi, hmem⟩
          obtain ⟨htwo, -⟩ := hs.closed_geometry hclosed
          refine iff_of_false (kept_of_all (startAt_parallel hs hclosed k) ?_ fun i hi => ?_)
            (kept_of_all hlength htwo hall)
          · exact (length_startAt htwo).ge.trans' htwo
          · have hi' : i + 1 < way.geometry.length := hi.trans_eq (length_startAt htwo)
            have hmod : (i + k) % (way.geometry.length - 1) < way.geometry.length - 1 :=
              Nat.mod_lt _ (by omega)
            exact (survives_startAt hs hclosed k i).2 ⟨hi', hall _ (by omega)⟩
      · have htogether' := mt (holdsTogether_startAt hs hclosed k).1 htogether
        exact iff_of_true (dropped_of_apart (startAt_parallel hs hclosed k) htogether')
          (dropped_of_apart hlength htogether)

/-! ## A road that leaves the area -/

/-- A road that leaves the area below 1 and comes back. -/
def passingWay : Way := ⟨2, [10, 11, 12, 13, 14], [(0, 0), (0, 2), (1, 3), (2, 2), (2, 0)], []⟩

def belowOne (q : Point) : Bool := decide (q.2 ≤ 1)

theorem passingWay_sound : passingWay.Sound where
  parallel := rfl
  placed := by
    intro i j n hi hj
    have hnodup : passingWay.nodes.Nodup := by decide
    have hlt := (List.getElem?_eq_some_iff.1 hi).1
    rw [(List.getElem?_inj hlt hnodup).1 (hi.trans hj.symm)]

/-- What survives at its two ends does not hold together, so it is dropped as it should be. -/
theorem passingWay_dropped :
    DroppedOnlyApart belowOne passingWay ∧ wayToFeature belowOne passingWay = none := by
  refine ⟨(droppedOnlyApart_iff _ passingWay_sound).2 fun h => ?_, by decide +kernel⟩
  have hsurvive : ∀ i ∈ passingWay.surviving belowOne, i = 0 ∨ i = 3 := by
    intro i hi
    obtain ⟨hlt, hinside⟩ := survives_iff.1 hi
    have hall : ∀ i < 4, (keptSegments belowOne passingWay.geometry).getD i false = true →
        i = 0 ∨ i = 3 := by
      decide +kernel
    exact hall i hlt hinside
  have hapart : ¬passingWay.Touch 0 3 := by
    rintro ⟨n, hfirst, hlast⟩
    rcases hfirst with hn | hn <;> cases hn <;> rcases hlast with hn | hn <;> cases hn
  -- what the first segment is chained to is that segment
  have hstays : ∀ j, Chained (passingWay.surviving belowOne) passingWay.Touch 0 j → j = 0 := by
    intro j hchain
    induction hchain with
    | refl => rfl
    | tail _ hstep ih =>
      subst ih
      rcases hsurvive _ hstep.2.1 with rfl | rfl
      · rfl
      · exact absurd hstep.2.2 hapart
  have hlast := hstays 3 (h.1 0 ⟨(0, 0), (0, 2), rfl, rfl, .inl (by decide)⟩ 3
    ⟨(2, 2), (2, 0), rfl, rfl, .inr (by decide)⟩)
  cases hlast

/-! ## A loop road -/

/-- A square whose first corner alone is inside. -/
def loopWay : Way := ⟨1, [10, 11, 12, 13, 10], [(0, 0), (1, 0), (1, 1), (0, 1), (0, 0)], []⟩

/-- The area around the origin. -/
def aroundOrigin (q : Point) : Bool := decide (q = (0, 0))

theorem loopWay_sound : loopWay.Sound where
  parallel := rfl
  placed := by
    intro i j n hi hj
    have hilt := (List.getElem?_eq_some_iff.1 hi).1
    have hjlt := (List.getElem?_eq_some_iff.1 hj).1
    change i < 5 at hilt
    change j < 5 at hjlt
    have hall : ∀ i < 5, ∀ j < 5, loopWay.nodes[i]? = loopWay.nodes[j]? →
        loopWay.geometry[i]? = loopWay.geometry[j]? := by
      decide +kernel
    exact hall i hilt j hjlt (hi.trans hj.symm)

/-- **A closed way is dropped** although the two segments that survive meet at its first node. -/
theorem closed_way_is_dropped :
    ¬∀ (inside : Point → Bool) (way : Way), way.Sound → DroppedOnlyApart inside way := by
  intro h
  have hdropped : wayToFeature aroundOrigin loopWay = none := by decide +kernel
  have hsurvive : ∀ i, i ∈ loopWay.surviving aroundOrigin → i = 0 ∨ i = 3 := by
    intro i hi
    obtain ⟨hlt, hinside⟩ := survives_iff.1 hi
    have hall : ∀ i < 4, (keptSegments aroundOrigin loopWay.geometry).getD i false = true →
        i = 0 ∨ i = 3 := by
      decide +kernel
    exact hall i hlt hinside
  have hfirst : (0 : ℕ) ∈ loopWay.surviving aroundOrigin :=
    ⟨(0, 0), (1, 0), rfl, rfl, .inl (by decide)⟩
  have htouch : ∀ i j, i ∈ loopWay.surviving aroundOrigin → j ∈ loopWay.surviving aroundOrigin →
      loopWay.Touch i j := by
    intro i j hi hj
    refine ⟨10, ?_, ?_⟩
    · rcases hsurvive i hi with rfl | rfl
      · exact .inl rfl
      · exact .inr rfl
    · rcases hsurvive j hj with rfl | rfl
      · exact .inl rfl
      · exact .inr rfl
  rcases (h aroundOrigin loopWay loopWay_sound).apart hdropped with hempty | hapart
  · rw [hempty] at hfirst
    exact hfirst
  · exact hapart fun i hi j hj => chained_of_touch hi hj (htouch i j hi hj)

end Cosmonaut
