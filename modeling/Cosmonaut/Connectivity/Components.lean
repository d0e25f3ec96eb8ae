import Mathlib.Data.List.Basic
import Mathlib.Data.Set.Card
import Mathlib.Logic.Function.Iterate
import Mathlib.Logic.Relation

/-!
# Connected components of finite graphs

A set of nodes that is grown by the neighbours of its nodes, in as many rounds as the graph has
nodes, is a connected component; collected over all nodes, these are all of them.

* `mem_component_iff`: what the rounds reach.
* `AreComponents`: lists that are the connected components; `components_areComponents`: the
  collected ones are.
* `longest_spec`: the first of the longest lists.
-/

namespace Connectivity

variable {α : Type} [DecidableEq α]

/-- The nodes of `s` and their neighbours. -/
def grow (nodes : List α) (adj : α → α → Bool) (s : List α) : List α :=
  nodes.filter fun n => decide (n ∈ s) || s.any (adj n)

/-- What is reached from the node in as many rounds as there are nodes. -/
def component (nodes : List α) (adj : α → α → Bool) (n : α) : List α :=
  (grow nodes adj)^[nodes.length] [n]

/-- Two nodes are joined by a path of neighbours. -/
def Joined (nodes : List α) (adj : α → α → Bool) : α → α → Prop :=
  Relation.ReflTransGen fun a b => b ∈ nodes ∧ adj b a = true

variable {nodes : List α} {adj : α → α → Bool} {n m : α} {s : List α}

theorem mem_grow : m ∈ grow nodes adj s ↔ m ∈ nodes ∧ (m ∈ s ∨ ∃ a ∈ s, adj m a = true) := by
  simp [grow]

/-- What is grown is a part of the nodes, and growing keeps it. -/
theorem grow_sublist_grow (p : α → Bool) :
    (nodes.filter p).Sublist (grow nodes adj (nodes.filter p)) := by
  have hself : nodes.filter p = nodes.filter fun n => decide (n ∈ nodes.filter p) := by
    apply List.filter_congr
    intro n hn
    simp [hn]
  rw [hself, ← hself]
  conv_lhs => rw [hself]
  apply List.monotone_filter_right nodes
  intro n hn
  simp only [hn, Bool.true_or]

/-- Every round but the first either adds a node or is the last that could. -/
theorem grow_rounds (k : ℕ) (s : List α) (hs : ∃ a ∈ s, a ∈ nodes) :
    grow nodes adj ((grow nodes adj)^[k + 1] s) = (grow nodes adj)^[k + 1] s ∨
      k + 1 ≤ ((grow nodes adj)^[k + 1] s).length := by
  induction k with
  | zero =>
    right
    obtain ⟨a, ha, hnode⟩ := hs
    have hmem : a ∈ grow nodes adj s := mem_grow.2 ⟨hnode, .inl ha⟩
    exact List.length_pos_of_mem hmem
  | succ k ih =>
    rw [Function.iterate_succ_apply' _ (k + 1)]
    generalize hc : (grow nodes adj)^[k + 1] s = c at ih ⊢
    by_cases hclosed : grow nodes adj c = c
    · left
      rw [hclosed, hclosed]
    · right
      have hlength := ih.resolve_left hclosed
      have hsublist : c.Sublist (grow nodes adj c) := by
        rw [← hc, Function.iterate_succ_apply']
        exact grow_sublist_grow _
      have hne : c.length ≠ (grow nodes adj c).length :=
        fun h => hclosed (hsublist.eq_of_length h).symm
      have hle := hsublist.length_le
      omega

/-- After as many rounds as there are nodes nothing is left to add. -/
theorem grow_component (hn : n ∈ nodes) :
    grow nodes adj (component nodes adj n) = component nodes adj n := by
  obtain ⟨k, hk⟩ : ∃ k, nodes.length = k + 1 := by
    obtain ⟨k, hk⟩ := Nat.exists_eq_succ_of_ne_zero (List.length_pos_of_mem hn).ne'
    exact ⟨k, hk⟩
  have hrounds : grow nodes adj ((grow nodes adj)^[k + 1] [n]) = _ ∨ _ :=
    grow_rounds k [n] ⟨n, by simp, hn⟩
  rw [component, hk]
  apply hrounds.elim id
  intro hlength
  have hsub : ((grow nodes adj)^[k + 1] [n]).Sublist nodes := by
    rw [Function.iterate_succ_apply']
    exact List.filter_sublist
  have hall : (grow nodes adj)^[k + 1] [n] = nodes :=
    hsub.eq_of_length (le_antisymm hsub.length_le (by omega))
  rw [hall]
  apply List.filter_eq_self.2
  intro m hm
  simp [hm]

theorem component_sublist (hn : n ∈ nodes) : (component nodes adj n).Sublist nodes := by
  rw [← grow_component hn]
  exact List.filter_sublist

theorem mem_component_self (hn : n ∈ nodes) : n ∈ component nodes adj n := by
  have hrounds : ∀ k, n ∈ (grow nodes adj)^[k] [n] := by
    intro k
    induction k with
    | zero => simp
    | succ k ih =>
      rw [Function.iterate_succ_apply']
      exact mem_grow.2 ⟨hn, .inl ih⟩
  exact hrounds _

/-- **The component of a node is what is joined to it.** -/
theorem mem_component_iff (hn : n ∈ nodes) : m ∈ component nodes adj n ↔ Joined nodes adj n m := by
  constructor
  · have hrounds : ∀ k m, m ∈ (grow nodes adj)^[k] [n] → Joined nodes adj n m := by
      intro k
      induction k with
      | zero =>
        intro m hm
        obtain rfl : m = n := by simpa using hm
        exact .refl
      | succ k ih =>
        intro m hm
        rw [Function.iterate_succ_apply'] at hm
        obtain ⟨hnode, hold | ⟨a, ha, hadj⟩⟩ := mem_grow.1 hm
        · exact ih m hold
        · exact (ih a ha).tail ⟨hnode, hadj⟩
    exact hrounds _ m
  · intro h
    induction h with
    | refl => exact mem_component_self hn
    | tail _ hstep ih =>
      rw [← grow_component hn]
      exact mem_grow.2 ⟨hstep.1, .inr ⟨_, ih, hstep.2⟩⟩

omit [DecidableEq α] in
/-- Where neighbours are neighbours of each other, so are joined nodes. -/
theorem Joined.symm (hsymm : ∀ a b, adj a b = adj b a) (hn : n ∈ nodes)
    (h : Joined nodes adj n m) : Joined nodes adj m n ∧ m ∈ nodes := by
  induction h with
  | refl => exact ⟨.refl, hn⟩
  | @tail b c _ hstep ih =>
    obtain ⟨hback, hb⟩ := ih
    exact ⟨.head ⟨hb, by rw [hsymm]; exact hstep.2⟩ hback, hstep.1⟩

/-! ## All components -/

omit [DecidableEq α] in
/-- The lists are the connected components: each is what is joined to a node, without repetition,
and every node is in one. -/
structure AreComponents (nodes : List α) (adj : α → α → Bool) (cs : List (List α)) : Prop where
  nodup : ∀ c ∈ cs, c.Nodup
  joined : ∀ c ∈ cs, ∃ n ∈ nodes, ∀ m, m ∈ c ↔ Joined nodes adj n m
  covers : ∀ n ∈ nodes, ∃ c ∈ cs, n ∈ c

variable {c : List α} {cs : List (List α)}

omit [DecidableEq α] in
/-- The component that a node is in is what is joined to the node. -/
theorem AreComponents.mem_iff (h : AreComponents nodes adj cs)
    (hsymm : ∀ a b, adj a b = adj b a) (hc : c ∈ cs) (hn : n ∈ c) :
    m ∈ c ↔ Joined nodes adj n m := by
  obtain ⟨k, hk, hmem⟩ := h.joined c hc
  have hto := (hmem n).1 hn
  obtain ⟨hback, -⟩ := hto.symm hsymm hk
  rw [hmem]
  exact ⟨hback.trans, hto.trans⟩

/-- A component has as many entries as nodes are joined to one of its nodes. -/
theorem AreComponents.length_eq (h : AreComponents nodes adj cs)
    (hsymm : ∀ a b, adj a b = adj b a) (hc : c ∈ cs) (hn : n ∈ c) :
    c.length = {m | Joined nodes adj n m}.ncard := by
  have hset : {m | Joined nodes adj n m} = (c.toFinset : Set α) := by
    ext m
    rw [List.coe_toFinset]
    exact (h.mem_iff hsymm hc hn).symm
  rw [hset, Set.ncard_coe_finset, List.toFinset_card_of_nodup (h.nodup c hc)]

/-- One component for each node that is in no earlier one. -/
def components (nodes : List α) (adj : α → α → Bool) (ns : List α) (cs : List (List α)) :
    List (List α) :=
  ns.foldl
    (fun cs n => if cs.any fun c => decide (n ∈ c) then cs else cs ++ [component nodes adj n]) cs

/-- **Every node is in a collected component, and there are no others.** -/
theorem components_spec {ns : List α} (hns : ∀ n ∈ ns, n ∈ nodes) {cs : List (List α)}
    (hcs : ∀ c ∈ cs, ∃ n ∈ nodes, c = component nodes adj n) :
    (∀ c ∈ components nodes adj ns cs, ∃ n ∈ nodes, c = component nodes adj n) ∧
      (∀ c ∈ cs, c ∈ components nodes adj ns cs) ∧
      ∀ n ∈ ns, ∃ c ∈ components nodes adj ns cs, n ∈ c := by
  induction ns generalizing cs with
  | nil => exact ⟨hcs, fun c hc => hc, by simp⟩
  | cons n ns ih =>
    have hn : n ∈ nodes := hns n (by simp)
    have hrest : ∀ m ∈ ns, m ∈ nodes := fun m hm => hns m (by simp [hm])
    rw [components, List.foldl_cons]
    split
    · rename_i hany
      obtain ⟨hfrom, hkeep, hall⟩ := ih hrest hcs
      refine ⟨hfrom, hkeep, fun m hm => ?_⟩
      rcases List.mem_cons.1 hm with rfl | hm
      · obtain ⟨c, hc, hmc⟩ := List.any_eq_true.1 hany
        exact ⟨c, hkeep c hc, of_decide_eq_true hmc⟩
      · exact hall m hm
    · have hcs' : ∀ c ∈ cs ++ [component nodes adj n], ∃ n ∈ nodes, c = component nodes adj n := by
        intro c hc
        rcases List.mem_append.1 hc with hc | hc
        · exact hcs c hc
        · exact ⟨n, hn, by simpa using hc⟩
      obtain ⟨hfrom, hkeep, hall⟩ := ih hrest hcs'
      refine ⟨hfrom, fun c hc => hkeep c (by simp [hc]), fun m hm => ?_⟩
      rcases List.mem_cons.1 hm with rfl | hm
      · exact ⟨component nodes adj m, hkeep _ (by simp), mem_component_self hn⟩
      · exact hall m hm

/-- The collected components are the connected components. -/
theorem components_areComponents (hnodup : nodes.Nodup) :
    AreComponents nodes adj (components nodes adj nodes []) := by
  have hnone : ∀ c ∈ ([] : List (List α)), ∃ n ∈ nodes, c = component nodes adj n := by simp
  obtain ⟨hfrom, -, hall⟩ := components_spec (fun n hn => hn) hnone
  refine ⟨fun c hc => ?_, fun c hc => ?_, hall⟩
  · obtain ⟨n, hn, rfl⟩ := hfrom c hc
    exact hnodup.sublist (component_sublist hn)
  · obtain ⟨n, hn, rfl⟩ := hfrom c hc
    exact ⟨n, hn, fun m => mem_component_iff hn⟩

omit [DecidableEq α] in
/-- **The first of the longest lists** is one of the lists, and none is longer. -/
theorem longest_spec (c : List α) (cs : List (List α)) :
    cs.foldl (fun best c => if best.length < c.length then c else best) c ∈ c :: cs ∧
      ∀ d ∈ c :: cs, d.length ≤
        (cs.foldl (fun best c => if best.length < c.length then c else best) c).length := by
  induction cs generalizing c with
  | nil => simp
  | cons b cs ih =>
    rw [List.foldl_cons]
    obtain ⟨hmem, hmax⟩ := ih (if c.length < b.length then b else c)
    generalize cs.foldl _ _ = best at hmem hmax
    have hfirst := hmax _ (List.mem_cons_self ..)
    refine ⟨?_, fun d hd => ?_⟩
    · split at hmem
      · exact List.mem_cons_of_mem _ hmem
      · rcases List.mem_cons.1 hmem with h | h
        · exact h ▸ List.mem_cons_self ..
        · simp [h]
    · rcases List.mem_cons.1 hd with rfl | hd
      · split at hfirst <;> omega
      · rcases List.mem_cons.1 hd with rfl | hd
        · split at hfirst <;> omega
        · exact hmax d (List.mem_cons_of_mem _ hd)

end Connectivity
