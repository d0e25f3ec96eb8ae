import Cosmonaut.Model.Osm

/-!
# Truncation at the edge of the area

What `_truncate_by_edge` keeps of a way: the nodes of the surviving segments, when these are one
run.

* `indices`: the places below a bound that satisfy a predicate; `indices_run_iff` says when the test
  of their number against the first and the last one succeeds.
* `truncateByEdge_eq_some_iff`: the cut in terms of the surviving segments.
* `truncation_exact`: the cut in terms of the inside nodes.
-/

namespace Cosmonaut

/-! ## Runs of places -/

/-- The places below `m` that satisfy `p`, in order. -/
def indices (p : ℕ → Bool) (m : ℕ) : List ℕ := (List.range m).filter p

variable {p : ℕ → Bool} {m a b i : ℕ}

theorem mem_indices : i ∈ indices p m ↔ i < m ∧ p i = true := by
  rw [indices, List.mem_filter, List.mem_range]

theorem pairwise_indices (p : ℕ → Bool) (m : ℕ) : (indices p m).Pairwise (· < ·) :=
  List.pairwise_lt_range.filter p

theorem indices_head (h : (indices p m).head? = some a) :
    a ∈ indices p m ∧ ∀ i ∈ indices p m, a ≤ i := by
  obtain ⟨rest, hrest⟩ := List.head?_eq_some_iff.1 h
  have hpairwise := pairwise_indices p m
  rw [hrest] at hpairwise ⊢
  refine ⟨List.mem_cons_self, fun i hi => ?_⟩
  rcases List.mem_cons.1 hi with rfl | hi
  · exact le_rfl
  · exact ((List.pairwise_cons.1 hpairwise).1 i hi).le

theorem indices_getLast (h : (indices p m).getLast? = some b) :
    b ∈ indices p m ∧ ∀ i ∈ indices p m, i ≤ b := by
  obtain ⟨rest, hrest⟩ := List.getLast?_eq_some_iff.1 h
  have hpairwise := pairwise_indices p m
  rw [hrest] at hpairwise ⊢
  refine ⟨by simp, fun i hi => ?_⟩
  rcases List.mem_append.1 hi with hi | hi
  · exact ((List.pairwise_append.1 hpairwise).2.2 i hi b (by simp)).le
  · rw [List.mem_singleton.1 hi]

/-- The places from the first to the last one are as many as there are between the two exactly if
every place between satisfies the predicate. -/
theorem indices_run_iff (ha : (indices p m).head? = some a) (hb : (indices p m).getLast? = some b) :
    b - a + 1 = (indices p m).length ↔ ∀ i, a ≤ i → i ≤ b → p i = true := by
  obtain ⟨hamem, hafirst⟩ := indices_head ha
  obtain ⟨hbmem, hblast⟩ := indices_getLast hb
  have hbm := (mem_indices.1 hbmem).1
  have hab := hafirst b hbmem
  have hperm : (indices p m).Perm ((List.range' a (b - a + 1)).filter p) := by
    refine (List.perm_ext_iff_of_nodup (List.nodup_range.filter p)
      ((List.nodup_range' ..).filter p)).2 fun i => ?_
    change i ∈ indices p m ↔ _
    rw [List.mem_filter, List.mem_range'_1]
    constructor
    · intro hi
      have hfirst := hafirst i hi
      have hlast := hblast i hi
      exact ⟨⟨hfirst, by omega⟩, (mem_indices.1 hi).2⟩
    · rintro ⟨⟨-, hlt⟩, hp⟩
      exact mem_indices.2 ⟨by omega, hp⟩
  rw [hperm.length_eq, eq_comm]
  have hlength : (List.range' a (b - a + 1)).length = b - a + 1 := List.length_range'
  nth_rewrite 2 [← hlength]
  rw [List.length_filter_eq_length_iff]
  simp only [List.mem_range'_1]
  constructor
  · intro h i hai hib
    exact h i ⟨hai, by omega⟩
  · rintro h i ⟨hai, hib⟩
    exact h i hai (by omega)

/-! ## The surviving segments -/

/-- The segment from the `i`-th node to the next one has an inside endpoint. -/
def Survives (inside : Point → Bool) (coords : List Point) (i : ℕ) : Prop :=
  ∃ q r, coords[i]? = some q ∧ coords[i + 1]? = some r ∧ (inside q = true ∨ inside r = true)

/-- The segments of `_truncate_by_edge`. -/
def keptSegments (inside : Point → Bool) (coords : List Point) : List Bool :=
  (coords.map inside).zipWith (· || ·) (coords.map inside).tail

variable {inside : Point → Bool} {nodes ns : List ℤ} {coords cs : List Point}

theorem survives_iff : Survives inside coords i ↔
    i < (keptSegments inside coords).length ∧ (keptSegments inside coords).getD i false = true := by
  have hlength : (keptSegments inside coords).length = coords.length - 1 := by
    simp [keptSegments]
  rw [hlength]
  constructor
  · rintro ⟨q, r, hq, hr, hinside⟩
    obtain ⟨hi, -⟩ := List.getElem?_eq_some_iff.1 hr
    refine ⟨by omega, ?_⟩
    simp [keptSegments, List.getD_eq_getElem?_getD, List.getElem?_zipWith, hq, hr, hinside]
  · rintro ⟨hi, hkept⟩
    have hq : coords[i]? = some coords[i] := List.getElem?_eq_getElem (by omega)
    have hr : coords[i + 1]? = some coords[i + 1] := List.getElem?_eq_getElem (by omega)
    refine ⟨_, _, hq, hr, ?_⟩
    simpa [keptSegments, List.getD_eq_getElem?_getD, List.getElem?_zipWith, hq, hr] using hkept

/-- The surviving segments, in order. -/
def survivors (inside : Point → Bool) (coords : List Point) : List ℕ :=
  indices (fun i => (keptSegments inside coords).getD i false) (keptSegments inside coords).length

theorem mem_survivors : i ∈ survivors inside coords ↔ Survives inside coords i := by
  rw [survivors, mem_indices, survives_iff]

/-- The elements at the places from `a` up to `e`, which is not included. -/
def slice {α : Type} (l : List α) (a e : ℕ) : List α := (l.drop a).take (e - a)

/-- The surviving segments are those from `a` to `b`. -/
def OneRun (inside : Point → Bool) (coords : List Point) (a b : ℕ) : Prop :=
  a ≤ b ∧ ∀ i, Survives inside coords i ↔ a ≤ i ∧ i ≤ b

theorem OneRun.head {a b : ℕ} (h : OneRun inside coords a b) :
    (survivors inside coords).head? = some a ∧ (survivors inside coords).getLast? = some b := by
  have ha := mem_survivors.2 ((h.2 a).2 ⟨le_rfl, h.1⟩)
  have hb := mem_survivors.2 ((h.2 b).2 ⟨h.1, le_rfl⟩)
  have hne := List.ne_nil_of_mem ha
  obtain ⟨hfirst, hall⟩ := indices_head (List.head?_eq_some_head hne)
  obtain ⟨hlast, hall'⟩ := indices_getLast (List.getLast?_eq_some_getLast hne)
  have hle := hall a ha
  have hle' := hall' b hb
  have hge := ((h.2 _).1 (mem_survivors.1 hfirst)).1
  have hge' := ((h.2 _).1 (mem_survivors.1 hlast)).2
  rw [List.head?_eq_some_head hne, List.getLast?_eq_some_getLast hne]
  exact ⟨congrArg some (by omega), congrArg some (by omega)⟩

theorem oneRun_iff (ha : (survivors inside coords).head? = some a)
    (hb : (survivors inside coords).getLast? = some b) :
    b - a + 1 = (survivors inside coords).length ↔ OneRun inside coords a b := by
  obtain ⟨hamem, hafirst⟩ := indices_head ha
  obtain ⟨hbmem, hblast⟩ := indices_getLast hb
  have hbm := (mem_indices.1 hbmem).1
  refine (indices_run_iff ha hb).trans
    ⟨fun h => ⟨hafirst b hbmem, fun i => ?_⟩, fun h i hai hib => ?_⟩
  · constructor
    · intro hi
      have hmem := mem_survivors.2 hi
      exact ⟨hafirst i hmem, hblast i hmem⟩
    · rintro ⟨hai, hib⟩
      exact survives_iff.2 ⟨by omega, h i hai hib⟩
  · exact (survives_iff.1 ((h.2 i).2 ⟨hai, hib⟩)).2

/-- **The cut**: where the surviving segments are one run, their nodes. -/
theorem truncateByEdge_eq_some_iff : truncateByEdge inside nodes coords = some (ns, cs) ↔
    ∃ a b, OneRun inside coords a b ∧ ns = slice nodes a (b + 2) ∧ cs = slice coords a (b + 2) := by
  dsimp only [truncateByEdge]
  split
  · rename_i a b ha hb
    change (survivors inside coords).head? = some a at ha
    change (survivors inside coords).getLast? = some b at hb
    change (if b - a + 1 ≠ (survivors inside coords).length then none else _) = _ ↔ _
    have hslice : ∀ {α : Type} (l : List α), OneRun inside coords a b →
        (l.drop a).take (b - a + 2) = slice l a (b + 2) := by
      intro α l hrun
      have hab := hrun.1
      rw [slice, show b + 2 - a = b - a + 2 by omega]
    by_cases hcount : b - a + 1 = (survivors inside coords).length
    · have hrun := (oneRun_iff ha hb).1 hcount
      rw [if_neg (not_not.2 hcount), hslice nodes hrun, hslice coords hrun, Option.some.injEq,
        Prod.mk.injEq]
      constructor
      · rintro ⟨rfl, rfl⟩
        exact ⟨a, b, hrun, rfl, rfl⟩
      · rintro ⟨a', b', hrun', rfl, rfl⟩
        obtain ⟨ha', hb'⟩ := hrun'.head
        obtain rfl := Option.some.inj (ha.symm.trans ha')
        obtain rfl := Option.some.inj (hb.symm.trans hb')
        exact ⟨rfl, rfl⟩
    · rw [if_pos hcount]
      refine ⟨fun h => (by cases h), ?_⟩
      rintro ⟨a', b', hrun', -⟩
      obtain ⟨ha', hb'⟩ := hrun'.head
      obtain rfl := Option.some.inj (ha.symm.trans ha')
      obtain rfl := Option.some.inj (hb.symm.trans hb')
      exact absurd ((oneRun_iff ha hb).2 hrun') hcount
  · rename_i hno
    refine ⟨fun h => (by cases h), ?_⟩
    rintro ⟨a, b, hrun, -⟩
    obtain ⟨ha, hb⟩ := hrun.head
    exact absurd hb (hno a b ha)

theorem truncateByEdge_eq_none_iff : truncateByEdge inside nodes coords = none ↔
    ¬∃ a b, OneRun inside coords a b := by
  rw [Option.eq_none_iff_forall_ne_some]
  constructor
  · rintro h ⟨a, b, hrun⟩
    exact h _ (truncateByEdge_eq_some_iff.2 ⟨a, b, hrun, rfl, rfl⟩)
  · rintro h ⟨ns, cs⟩ hsome
    obtain ⟨a, b, hrun, -⟩ := truncateByEdge_eq_some_iff.1 hsome
    exact h ⟨a, b, hrun⟩

/-! ## Inside and outside nodes -/

/-- The `i`-th node lies inside the area. -/
def InsideAt (inside : Point → Bool) (coords : List Point) (i : ℕ) : Prop :=
  ∃ q, coords[i]? = some q ∧ inside q = true

theorem InsideAt.lt (h : InsideAt inside coords i) : i < coords.length := by
  obtain ⟨q, hq, -⟩ := h
  exact (List.getElem?_eq_some_iff.1 hq).1

theorem survives_iff_inside : Survives inside coords i ↔
    i + 1 < coords.length ∧ (InsideAt inside coords i ∨ InsideAt inside coords (i + 1)) := by
  constructor
  · rintro ⟨q, r, hq, hr, hinside⟩
    refine ⟨(List.getElem?_eq_some_iff.1 hr).1, ?_⟩
    rcases hinside with h | h
    · exact .inl ⟨q, hq, h⟩
    · exact .inr ⟨r, hr, h⟩
  · rintro ⟨hi, hinside⟩
    have hq : coords[i]? = some coords[i] := List.getElem?_eq_getElem (by omega)
    have hr : coords[i + 1]? = some coords[i + 1] := List.getElem?_eq_getElem hi
    refine ⟨_, _, hq, hr, ?_⟩
    rcases hinside with ⟨q, hq', h⟩ | ⟨r, hr', h⟩
    · obtain rfl := Option.some.inj (hq'.symm.trans hq)
      exact .inl h
    · obtain rfl := Option.some.inj (hr'.symm.trans hr)
      exact .inr h

/-- Two adjacent outside nodes lie between two inside ones. -/
def LeavesAndReturns (inside : Point → Bool) (coords : List Point) : Prop :=
  ∃ i j k, i < j ∧ j + 1 < k ∧ InsideAt inside coords i ∧ ¬InsideAt inside coords j ∧
    ¬InsideAt inside coords (j + 1) ∧ InsideAt inside coords k

/-- The first and the last surviving segment, if there is one. -/
theorem exists_first_last (h : Survives inside coords i) : ∃ a b,
    (survivors inside coords).head? = some a ∧ (survivors inside coords).getLast? = some b := by
  have hne := List.ne_nil_of_mem (mem_survivors.2 h)
  exact ⟨_, _, List.head?_eq_some_head hne, List.getLast?_eq_some_getLast hne⟩

theorem not_oneRun_iff : (¬∃ a b, OneRun inside coords a b) ↔
    (∀ i, ¬Survives inside coords i) ∨ LeavesAndReturns inside coords := by
  constructor
  · intro hno
    by_cases hnone : ∀ i, ¬Survives inside coords i
    · exact .inl hnone
    right
    obtain ⟨i, hi⟩ := not_forall_not.1 hnone
    obtain ⟨a, b, ha, hb⟩ := exists_first_last hi
    obtain ⟨hamem, hafirst⟩ := indices_head ha
    obtain ⟨hbmem, hblast⟩ := indices_getLast hb
    obtain ⟨j, haj, hjb, hj⟩ : ∃ j, a ≤ j ∧ j ≤ b ∧ ¬Survives inside coords j := by
      by_contra hall
      refine hno ⟨a, b, hafirst b hbmem, fun j => ⟨fun hj => ?_, ?_⟩⟩
      · have hmem := mem_survivors.2 hj
        exact ⟨hafirst j hmem, hblast j hmem⟩
      · rintro ⟨haj, hjb⟩
        by_contra hj
        exact hall ⟨j, haj, hjb, hj⟩
    have hsa := mem_survivors.1 hamem
    have hsb := mem_survivors.1 hbmem
    have hne : j ≠ a := fun h => hj (h ▸ hsa)
    have hne' : j ≠ b := fun h => hj (h ▸ hsb)
    obtain ⟨-, hia⟩ := survives_iff_inside.1 hsa
    obtain ⟨hlength, hib⟩ := survives_iff_inside.1 hsb
    rw [survives_iff_inside, not_and, not_or] at hj
    obtain ⟨hoj, hoj'⟩ := hj (by omega)
    obtain ⟨u, hu, huj⟩ : ∃ u, InsideAt inside coords u ∧ u < j := by
      rcases hia with h | h
      · exact ⟨a, h, by omega⟩
      · have hne'' : a + 1 ≠ j := fun heq => hoj (heq ▸ h)
        exact ⟨a + 1, h, by omega⟩
    obtain ⟨v, hv, hjv⟩ : ∃ v, InsideAt inside coords v ∧ j + 1 < v := by
      rcases hib with h | h
      · have hne'' : b ≠ j + 1 := fun heq => hoj' (heq ▸ h)
        exact ⟨b, h, by omega⟩
      · exact ⟨b + 1, h, by omega⟩
    exact ⟨u, j, v, huj, hjv, hu, hoj, hoj', hv⟩
  · rintro (hnone | ⟨i, j, k, hij, hjk, hi, hj, hj', hk⟩) ⟨a, b, hab, hrun⟩
    · exact hnone a ((hrun a).2 ⟨le_rfl, hab⟩)
    · have hlength := hk.lt
      have hai := (hrun i).1 (survives_iff_inside.2 ⟨by omega, .inl hi⟩)
      obtain ⟨k, rfl⟩ : ∃ k', k = k' + 1 := ⟨k - 1, by omega⟩
      have hkb := (hrun k).1 (survives_iff_inside.2 ⟨by omega, .inr hk⟩)
      obtain ⟨-, hin | hin⟩ := survives_iff_inside.1 ((hrun j).2 ⟨by omega, by omega⟩)
      · exact hj hin
      · exact hj' hin

theorem getElem?_slice {α : Type} {l : List α} {a e i : ℕ} :
    (slice l a e)[i]? = if i < e - a then l[a + i]? else none := by
  rw [slice, List.getElem?_take, List.getElem?_drop]

theorem length_slice {α : Type} {l : List α} {a e : ℕ} (he : e ≤ l.length) :
    (slice l a e).length = e - a := by
  rw [slice, List.length_take, List.length_drop]
  omega

/-- Truncating again leaves the cut unchanged. -/
theorem OneRun.again (h : OneRun inside coords a b) (nodes : List ℤ) :
    truncateByEdge inside (slice nodes a (b + 2)) (slice coords a (b + 2)) =
      some (slice nodes a (b + 2), slice coords a (b + 2)) := by
  obtain ⟨hab, hrun⟩ := h
  have hself : ∀ {α : Type} (l : List α), slice (slice l a (b + 2)) 0 (b - a + 2) =
      slice l a (b + 2) := by
    intro α l
    have hlength : (slice l a (b + 2)).length ≤ b - a + 2 := by
      rw [slice, List.length_take]
      omega
    rw [slice, List.drop_zero, Nat.sub_zero, List.take_of_length_le hlength]
  refine truncateByEdge_eq_some_iff.2 ⟨0, b - a, ⟨by omega, fun i => ?_⟩, (hself nodes).symm,
    (hself coords).symm⟩
  have hget : ∀ k, k < b + 2 - a → (slice coords a (b + 2))[k]? = coords[a + k]? := by
    intro k hk
    rw [getElem?_slice, if_pos hk]
  constructor
  · rintro ⟨q, r, -, hr, -⟩
    obtain ⟨hlt, -⟩ := List.getElem?_eq_some_iff.1 hr
    rw [slice, List.length_take] at hlt
    omega
  · rintro ⟨-, hi⟩
    obtain ⟨q, r, hq, hr, hinside⟩ := (hrun (a + i)).2 ⟨by omega, by omega⟩
    refine ⟨q, r, ?_, ?_, hinside⟩
    · rw [hget i (by omega)]
      exact hq
    · rw [hget (i + 1) (by omega)]
      exact hr

/-! ## The cut is exact -/

/-- The slice from `a` up to `e` has every inside node, at most one outside node before the first
and after the last of them, and exactly the segments with an inside endpoint. -/
structure IsCut (inside : Point → Bool) (coords : List Point) (a e : ℕ) : Prop where
  two : a + 2 ≤ e
  within : e ≤ coords.length
  ends : ∃ first last, InsideAt inside coords first ∧ InsideAt inside coords last ∧
    (∀ i, InsideAt inside coords i → first ≤ i ∧ i ≤ last) ∧
    a ≤ first ∧ first ≤ a + 1 ∧ last < e ∧ e ≤ last + 2
  segments : ∀ i, i + 1 < coords.length →
    (InsideAt inside coords i ∨ InsideAt inside coords (i + 1) ↔ a ≤ i ∧ i + 2 ≤ e)

theorem OneRun.isCut (h : OneRun inside coords a b) : IsCut inside coords a (b + 2) := by
  obtain ⟨hab, hrun⟩ := h
  obtain ⟨-, hia⟩ := survives_iff_inside.1 ((hrun a).2 ⟨le_rfl, hab⟩)
  obtain ⟨hlength, hib⟩ := survives_iff_inside.1 ((hrun b).2 ⟨hab, le_rfl⟩)
  have hinside : ∀ i, InsideAt inside coords i → a ≤ i ∧ i ≤ b + 1 := by
    intro i hi
    have hlt := hi.lt
    by_cases hlast : i + 1 < coords.length
    · have hbetween := (hrun i).1 (survives_iff_inside.2 ⟨hlast, .inl hi⟩)
      omega
    · obtain ⟨i, rfl⟩ : ∃ i', i = i' + 1 := ⟨i - 1, by omega⟩
      have hbetween := (hrun i).1 (survives_iff_inside.2 ⟨by omega, .inr hi⟩)
      omega
  refine ⟨by omega, by omega, ?_, fun i hi => ?_⟩
  · obtain ⟨first, hfirst, hfirstle, hbefore⟩ : ∃ first, InsideAt inside coords first ∧
        first ≤ a + 1 ∧ ∀ i, InsideAt inside coords i → first ≤ i := by
      by_cases h : InsideAt inside coords a
      · exact ⟨a, h, by omega, fun i hi => (hinside i hi).1⟩
      · refine ⟨a + 1, hia.resolve_left h, le_rfl, fun i hi => ?_⟩
        have hne : i ≠ a := fun heq => h (heq ▸ hi)
        have hle := (hinside i hi).1
        omega
    obtain ⟨last, hlast, hlelast, hafter⟩ : ∃ last, InsideAt inside coords last ∧
        b ≤ last ∧ ∀ i, InsideAt inside coords i → i ≤ last := by
      by_cases h : InsideAt inside coords (b + 1)
      · exact ⟨b + 1, h, by omega, fun i hi => (hinside i hi).2⟩
      · refine ⟨b, hib.resolve_right h, le_rfl, fun i hi => ?_⟩
        have hne : i ≠ b + 1 := fun heq => h (heq ▸ hi)
        have hle := (hinside i hi).2
        omega
    have hfirstge := (hinside first hfirst).1
    have hlastle := (hinside last hlast).2
    exact ⟨first, last, hfirst, hlast, fun i hi => ⟨hbefore i hi, hafter i hi⟩, hfirstge, hfirstle,
      by omega, by omega⟩
  · have hsurvives : InsideAt inside coords i ∨ InsideAt inside coords (i + 1) ↔
        Survives inside coords i := by
      rw [survives_iff_inside]
      exact ⟨fun h => ⟨hi, h⟩, fun h => h.2⟩
    rw [hsurvives, hrun]
    omega

theorem truncation_cut (hlength : nodes.length = coords.length)
    (hcut : truncateByEdge inside nodes coords = some (ns, cs)) :
    2 ≤ ns.length ∧ ns.length = cs.length ∧
      (∃ a e, IsCut inside coords a e ∧ ns = slice nodes a e ∧ cs = slice coords a e) ∧
      truncateByEdge inside ns cs = some (ns, cs) := by
  obtain ⟨a, b, hrun, rfl, rfl⟩ := truncateByEdge_eq_some_iff.1 hcut
  have hiscut := hrun.isCut
  have htwo := hiscut.two
  rw [length_slice hiscut.within, length_slice (hlength ▸ hiscut.within)]
  exact ⟨by omega, rfl, ⟨a, b + 2, hiscut, rfl, rfl⟩, hrun.again nodes⟩

/-- **Truncation is exact.** -/
theorem truncation_exact (inside : Point → Bool) {nodes : List ℤ} {coords : List Point}
    (hlength : nodes.length = coords.length) :
    (truncateByEdge inside nodes coords = none ↔
      (∀ i, i + 1 < coords.length →
        ¬InsideAt inside coords i ∧ ¬InsideAt inside coords (i + 1)) ∨
      LeavesAndReturns inside coords) ∧
    ∀ ns cs, truncateByEdge inside nodes coords = some (ns, cs) →
      2 ≤ ns.length ∧ ns.length = cs.length ∧
      (∃ a e, IsCut inside coords a e ∧ ns = slice nodes a e ∧ cs = slice coords a e) ∧
      truncateByEdge inside ns cs = some (ns, cs) := by
  constructor
  · rw [truncateByEdge_eq_none_iff, not_oneRun_iff]
    refine or_congr_left (forall_congr' fun i => ?_)
    rw [survives_iff_inside, not_and, not_or]
  · intro ns cs hcut
    exact truncation_cut hlength hcut

/-- A way with an outside node at either end. -/
theorem truncation_exact_once :
    let inside : Point → Bool := fun q => decide (0 ≤ q.1)
    let coords : List Point := [(-2, 0), (-1, 0), (0, 0), (1, 0), (-1, 1)]
    truncateByEdge inside [1, 2, 3, 4, 5] coords = some ([2, 3, 4, 5], coords.tail) ∧
      truncateByEdge inside [2, 3, 4, 5] coords.tail = some ([2, 3, 4, 5], coords.tail) := by
  intro inside coords
  have hcut : truncateByEdge inside [1, 2, 3, 4, 5] coords = some ([2, 3, 4, 5], coords.tail) := by
    decide +kernel
  have hlength : [1, 2, 3, 4, 5].length = coords.length := rfl
  exact ⟨hcut, ((truncation_exact inside hlength).2 _ _ hcut).2.2.2⟩

end Cosmonaut
