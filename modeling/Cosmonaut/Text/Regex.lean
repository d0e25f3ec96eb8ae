import Mathlib.Data.List.Basic

/-!
# Regular expressions with a group

A backtracking matcher lists the ways to match, the preferred one first; a search takes the first
way at the leftmost place. What is matched is told apart from the order of the ways.

* `Regex.runs`, `Regex.search`: the matcher and the search.
* `Regex.Takes`: the words that an expression takes, and the group they leave.
* `mem_runs`: the matcher finds them all.
* `search_append`, `search_of_unique`: where a search passes on, and what it finds.
-/

namespace Text

/-- A regular expression over characters; the last group to match counts. -/
inductive Regex where
  | set (p : Char → Bool)
  | seq (r s : Regex)
  | alt (r s : Regex)
  | star (r : Regex)
  | group (r : Regex)

/-- The characters that are left, and what the group has matched. -/
@[ext]
structure Place where
  rest : List Char
  group : Option (List Char)

/-- Greedy repetition, by at least one character each time. -/
def starRuns (step : Place → List Place) : ℕ → Place → List Place
  | 0, s => [s]
  | n + 1, s =>
    ((step s).filter fun s' => s'.rest.length < s.rest.length).flatMap (starRuns step n) ++ [s]

/-- The ways to match, the preferred one first. -/
def Regex.runs : Regex → Place → List Place
  | .set p, s =>
    match s.rest with
    | [] => []
    | c :: cs => if p c then [⟨cs, s.group⟩] else []
  | .seq r t, s => (r.runs s).flatMap t.runs
  | .alt r t, s => r.runs s ++ t.runs s
  | .star r, s => starRuns r.runs s.rest.length s
  | .group r, s =>
    (r.runs s).map fun s' => ⟨s'.rest, some (s.rest.take (s.rest.length - s'.rest.length))⟩

/-- The preferred way to match at the leftmost place. -/
def Regex.search (r : Regex) : List Char → Option Place
  | [] => (r.runs ⟨[], none⟩).head?
  | c :: cs =>
    match (r.runs ⟨c :: cs, none⟩).head? with
    | some s => some s
    | none => r.search cs

/-- One given character. -/
def Regex.char (c : Char) : Regex := .set (· == c)

/-- The characters of a word, one after the other, and then an expression. -/
def Regex.word (l : List Char) (r : Regex) : Regex := l.foldr (fun c r => .seq (.char c) r) r

/-! ## The words an expression takes -/

/-- The expression takes the word, and the group becomes `g'`. -/
inductive Regex.Takes : Regex → List Char → Option (List Char) → Option (List Char) → Prop
  | set {p c g} : p c = true → Takes (.set p) [c] g g
  | seq {r s u v g g' g''} : Takes r u g g' → Takes s v g' g'' → Takes (.seq r s) (u ++ v) g g''
  | left {r s u g g'} : Takes r u g g' → Takes (.alt r s) u g g'
  | right {r s u g g'} : Takes s u g g' → Takes (.alt r s) u g g'
  | stop {r g} : Takes (.star r) [] g g
  | again {r u v g g' g''} : u ≠ [] → Takes r u g g' → Takes (.star r) v g' g'' →
      Takes (.star r) (u ++ v) g g''
  | group {r u g g'} : Takes r u g g' → Takes (.group r) u g (some u)

variable {r t : Regex} {s s' : Place} {u v w : List Char} {g g' : Option (List Char)} {c : Char}
  {p : Char → Bool}

theorem takes_set : (Regex.set p).Takes w g g' ↔ ∃ c, p c = true ∧ w = [c] ∧ g' = g := by
  constructor
  · rintro ⟨h⟩
    exact ⟨_, h, rfl, rfl⟩
  · rintro ⟨c, h, rfl, rfl⟩
    exact .set h

theorem takes_char : (Regex.char c).Takes w g g' ↔ w = [c] ∧ g' = g := by
  simp [Regex.char, takes_set]

theorem takes_seq : (Regex.seq r t).Takes w g g' ↔
    ∃ u v g₁, w = u ++ v ∧ r.Takes u g g₁ ∧ t.Takes v g₁ g' := by
  constructor
  · rintro ⟨⟩
    exact ⟨_, _, _, rfl, ‹_›, ‹_›⟩
  · rintro ⟨u, v, g₁, rfl, hu, hv⟩
    exact .seq hu hv

theorem takes_alt : (Regex.alt r t).Takes w g g' ↔ r.Takes w g g' ∨ t.Takes w g g' := by
  constructor
  · rintro (h | h)
    · exact .inl ‹_›
    · exact .inr ‹_›
  · rintro (h | h)
    · exact .left h
    · exact .right h

theorem takes_group : (Regex.group r).Takes w g g' ↔ (∃ g₁, r.Takes w g g₁) ∧ g' = some w := by
  constructor
  · rintro ⟨⟩
    exact ⟨⟨_, ‹_›⟩, rfl⟩
  · rintro ⟨⟨g₁, h⟩, rfl⟩
    exact .group h

theorem takes_word {l : List Char} : (Regex.word l r).Takes w g g' ↔
    ∃ v, w = l ++ v ∧ r.Takes v g g' := by
  induction l generalizing w g with
  | nil => simp [Regex.word]
  | cons c l ih =>
    rw [show Regex.word (c :: l) r = .seq (.char c) (Regex.word l r) from rfl, takes_seq]
    constructor
    · rintro ⟨u, v, g₁, rfl, hu, hv⟩
      obtain ⟨rfl, rfl⟩ := takes_char.1 hu
      obtain ⟨rest, rfl, hrest⟩ := ih.1 hv
      exact ⟨rest, rfl, hrest⟩
    · rintro ⟨v, rfl, hv⟩
      exact ⟨[c], l ++ v, g, rfl, takes_char.2 ⟨rfl, rfl⟩, ih.2 ⟨v, rfl, hv⟩⟩

/-- Repeated characters of a set. -/
theorem takes_star_set : (Regex.star (.set p)).Takes w g g' ↔ (∀ c ∈ w, p c = true) ∧ g' = g := by
  constructor
  · intro h
    generalize hr : Regex.star (.set p) = r at h
    induction h with
    | set | seq | left | right | group => cases hr
    | stop => simp
    | again _ hu _ _ ih =>
      obtain rfl := Regex.star.inj hr
      obtain ⟨c, hc, rfl, rfl⟩ := takes_set.1 hu
      obtain ⟨hv, rfl⟩ := ih rfl
      refine ⟨fun d hd => ?_, rfl⟩
      rcases List.mem_cons.1 hd with rfl | hd
      · exact hc
      · exact hv d hd
  · rintro ⟨hw, rfl⟩
    induction w with
    | nil => exact .stop
    | cons c w ih =>
      exact .again (u := [c]) (List.cons_ne_nil c []) (.set (hw c (by simp)))
        (ih fun d hd => hw d (by simp [hd]))

/-! ## The matcher -/

theorem starRuns_takes {step : Place → List Place}
    (hstep : ∀ s s', s' ∈ step s ↔ ∃ u, s.rest = u ++ s'.rest ∧ r.Takes u s.group s'.group)
    {n : ℕ} (hn : s.rest.length ≤ n) :
    s' ∈ starRuns step n s ↔
      ∃ u, s.rest = u ++ s'.rest ∧ (Regex.star r).Takes u s.group s'.group := by
  induction n generalizing s with
  | zero =>
    have hnil : s.rest = [] := List.length_eq_zero_iff.1 (by omega)
    simp only [starRuns, List.mem_singleton, hnil]
    constructor
    · rintro rfl
      exact ⟨[], by simp [hnil], .stop⟩
    · rintro ⟨u, hu, htakes⟩
      obtain ⟨rfl, hs'⟩ := List.append_eq_nil_iff.1 hu.symm
      generalize hw : ([] : List Char) = w at htakes
      generalize hg : s.group = g at htakes
      generalize hg' : s'.group = g' at htakes
      cases htakes with
      | stop => exact Place.ext (hs'.trans hnil.symm) (hg'.trans hg.symm)
      | again hne => exact absurd (List.append_eq_nil_iff.1 hw.symm).1 hne
  | succ n ih =>
    simp only [starRuns, List.mem_append, List.mem_flatMap, List.mem_filter, decide_eq_true_eq,
      List.mem_singleton]
    constructor
    · rintro (⟨m, ⟨hm, hlt⟩, hs'⟩ | rfl)
      · obtain ⟨u, hu, hutakes⟩ := (hstep s m).1 hm
        obtain ⟨v, hv, hvtakes⟩ := (ih (by omega)).1 hs'
        refine ⟨u ++ v, by rw [hu, hv, List.append_assoc], .again ?_ hutakes hvtakes⟩
        rintro rfl
        rw [hu] at hlt
        simp at hlt
      · exact ⟨[], rfl, .stop⟩
    · rintro ⟨w, hw, htakes⟩
      generalize hq : Regex.star r = q at htakes
      generalize hg : s.group = g at htakes
      generalize hg' : s'.group = g' at htakes
      cases htakes with
      | set | seq | left | right | group => cases hq
      | stop => exact .inr (Place.ext hw.symm (hg'.trans hg.symm))
      | @again _ u v _ g₁ _ hne hu hv =>
        obtain rfl := Regex.star.inj hq
        have hlength := congrArg List.length hw
        have hpos := List.length_pos_iff.2 hne
        simp only [List.length_append] at hlength
        refine .inl ⟨⟨v ++ s'.rest, g₁⟩, ⟨(hstep s _).2 ⟨u, ?_, by rwa [hg]⟩, ?_⟩,
          (ih ?_).2 ⟨v, rfl, by rwa [hg']⟩⟩
        · rw [hw, List.append_assoc]
        · simp only [List.length_append]
          omega
        · simp only [List.length_append]
          omega

/-- **The matcher finds what the expression takes.** -/
theorem mem_runs : s' ∈ r.runs s ↔
    ∃ u, s.rest = u ++ s'.rest ∧ r.Takes u s.group s'.group := by
  induction r generalizing s s' with
  | set p =>
    simp only [Regex.runs, takes_set]
    obtain ⟨rest, group⟩ := s
    obtain ⟨rest', group'⟩ := s'
    cases rest with
    | nil => simp
    | cons c cs =>
      dsimp only
      split
      · rename_i hc
        simp only [List.mem_singleton, Place.mk.injEq]
        constructor
        · rintro ⟨rfl, rfl⟩
          exact ⟨[c], rfl, c, hc, rfl, rfl⟩
        · rintro ⟨u, hu, d, -, rfl, rfl⟩
          obtain ⟨rfl, rfl⟩ := List.cons.inj hu
          exact ⟨rfl, rfl⟩
      · rename_i hc
        simp only [List.not_mem_nil, false_iff]
        rintro ⟨u, hu, d, hd, rfl, -⟩
        obtain ⟨rfl, -⟩ := List.cons.inj hu
        exact hc hd
  | seq r t ihr iht =>
    simp only [Regex.runs, List.mem_flatMap, ihr, iht, takes_seq]
    constructor
    · rintro ⟨m, ⟨u, hu, hutakes⟩, v, hv, hvtakes⟩
      exact ⟨u ++ v, by rw [hu, hv, List.append_assoc], u, v, m.group, rfl, hutakes, hvtakes⟩
    · rintro ⟨w, hw, u, v, g₁, rfl, hu, hv⟩
      exact ⟨⟨v ++ s'.rest, g₁⟩, ⟨u, by rw [hw, List.append_assoc], hu⟩, v, rfl, hv⟩
  | alt r t ihr iht =>
    simp only [Regex.runs, List.mem_append, ihr, iht, takes_alt]
    constructor
    · rintro (⟨u, hu, h⟩ | ⟨u, hu, h⟩)
      · exact ⟨u, hu, .inl h⟩
      · exact ⟨u, hu, .inr h⟩
    · rintro ⟨u, hu, h | h⟩
      · exact .inl ⟨u, hu, h⟩
      · exact .inr ⟨u, hu, h⟩
  | star r ih =>
    simp only [Regex.runs]
    exact starRuns_takes (fun _ _ => ih) (Nat.le_refl _)
  | group r ih =>
    simp only [Regex.runs, List.mem_map, ih, takes_group]
    have hword : ∀ {u rest : List Char}, s.rest = u ++ rest →
        s.rest.take (s.rest.length - rest.length) = u := by
      intro u rest hu
      rw [hu]
      simp
    constructor
    · rintro ⟨m, ⟨u, hu, hutakes⟩, rfl⟩
      exact ⟨u, hu, ⟨_, hutakes⟩, by rw [hword hu]⟩
    · rintro ⟨u, hu, ⟨g₁, hutakes⟩, hg⟩
      refine ⟨⟨s'.rest, g₁⟩, ⟨u, hu, hutakes⟩, ?_⟩
      rw [hword hu, ← hg]

theorem runs_eq_nil_iff : r.runs s = [] ↔
    ∀ u v g, s.rest = u ++ v → ¬r.Takes u s.group g := by
  rw [List.eq_nil_iff_forall_not_mem]
  constructor
  · intro h u v g hu htakes
    exact h ⟨v, g⟩ (mem_runs.2 ⟨u, hu, htakes⟩)
  · intro h s' hs'
    obtain ⟨u, hu, htakes⟩ := mem_runs.1 hs'
    exact h u _ _ hu htakes

/-! ## The search -/

/-- A search passes on where nothing matches. -/
theorem search_append (h : ∀ a b, u = a ++ b → b ≠ [] → r.runs ⟨b ++ v, none⟩ = []) :
    r.search (u ++ v) = r.search v := by
  induction u with
  | nil => rfl
  | cons c u ih =>
    have hhere : r.runs ⟨c :: (u ++ v), none⟩ = [] := h [] (c :: u) rfl (List.cons_ne_nil c u)
    rw [List.cons_append, Regex.search, hhere]
    exact ih fun a b hu hb => h (c :: a) b (by rw [hu, List.cons_append]) hb

/-- The search finds the match where it starts. -/
theorem search_of_unique {rest : List Char} (hw : r.Takes w none g)
    (hgroup : ∀ u v g', w ++ rest = u ++ v → r.Takes u none g' → g' = g) :
    (r.search (w ++ rest)).map Place.group = some g := by
  have hmem : (⟨rest, g⟩ : Place) ∈ r.runs ⟨w ++ rest, none⟩ := mem_runs.2 ⟨w, rfl, hw⟩
  have hhead : ((r.runs ⟨w ++ rest, none⟩).head?).map Place.group = some g := by
    rcases hruns : r.runs ⟨w ++ rest, none⟩ with _ | ⟨s, l⟩
    · rw [hruns] at hmem
      cases hmem
    · have hs : s ∈ r.runs ⟨w ++ rest, none⟩ := by
        rw [hruns]
        exact List.mem_cons_self
      obtain ⟨u, hu, htakes⟩ := mem_runs.1 hs
      simp only [List.head?_cons, Option.map_some, Option.some.injEq]
      exact hgroup u s.rest s.group hu htakes
  generalize w ++ rest = l at hhead
  cases l with
  | nil => exact hhead
  | cons c l =>
    unfold Regex.search
    split
    · rename_i hsome
      rwa [hsome] at hhead
    · rename_i hnone
      rw [hnone] at hhead
      cases hhead

end Text
