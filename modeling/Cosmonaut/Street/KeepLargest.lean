import Cosmonaut.Connectivity.Pieces
import Cosmonaut.Street.Network

/-!
# Keeping the largest road network

What `build_graph`, `get_largest_subnetwork` and `remove_disconnected_roads` leave of a list of
roads.

* `IsLargestNetwork`: roads in one piece, which nothing else touches and no other piece outnumbers.
* `keepLargest_isLargest`: that is what is left, and doing it again changes nothing.
-/

namespace Cosmonaut

open Connectivity

/-! ## Roads that share nodes -/

def SharesNode (f g : Feature) : Prop :=
  ∃ n, n ∈ f.properties.nodes ∧ n ∈ g.properties.nodes

/-- The nodes of the roads. -/
def coveredNodes (s : Set Feature) : Set ℤ := {n | ∃ f ∈ s, n ∈ f.properties.nodes}

/-- A part of the roads, in their order, that is linked through shared nodes, shares no node with
the other roads, and covers as many nodes as any linked set of them. -/
structure IsLargestNetwork (roads kept : List Feature) : Prop where
  nonempty : kept ≠ []
  sublist : kept.Sublist roads
  linked : InOnePiece {f | f ∈ kept} SharesNode
  isolated : ∀ f ∈ roads, f ∉ kept → ∀ g ∈ kept, ¬SharesNode f g
  largest : ∀ s : Set Feature, (∀ f ∈ s, f ∈ roads) → InOnePiece s SharesNode →
    (coveredNodes s).ncard ≤ (coveredNodes {f | f ∈ kept}).ncard

variable {roads kept : List Feature} {f g : Feature} {n m : ℤ}

/-! ## Reachable nodes -/

theorem Linked.symm (h : Linked roads n m) : Linked roads m n := by
  obtain ⟨f, hf, h⟩ := h
  exact ⟨f, hf, h.symm⟩

theorem mem_reachable_symm (h : m ∈ reachable roads n) : n ∈ reachable roads m := by
  induction h with
  | refl => exact Relation.ReflTransGen.refl
  | tail _ hstep ih => exact Relation.ReflTransGen.head hstep.symm ih

theorem Linked.onRoad (h : Linked roads n m) : ∃ f ∈ roads, n ∈ f.properties.nodes ∧
    m ∈ f.properties.nodes := by
  obtain ⟨f, hf, h | h⟩ := h
  · exact ⟨f, hf, h.subset (by simp), h.subset (by simp)⟩
  · exact ⟨f, hf, h.subset (by simp), h.subset (by simp)⟩

/-- What is reachable from a node of the roads is one. -/
theorem roadNode_of_mem (hn : RoadNode roads n) (h : m ∈ reachable roads n) : RoadNode roads m := by
  induction h with
  | refl => exact hn
  | tail _ hstep _ =>
    obtain ⟨f, hf, -, hm⟩ := hstep.onRoad
    exact ⟨f, hf, hm⟩

theorem mem_reachable_trans {k : ℤ} (h : m ∈ reachable roads n) (h' : k ∈ reachable roads m) :
    k ∈ reachable roads n :=
  Relation.ReflTransGen.trans h h'

/-- The nodes of a road are reachable from each other. -/
theorem mem_reachable_of_road (hf : f ∈ roads) (hn : n ∈ f.properties.nodes)
    (hm : m ∈ f.properties.nodes) : m ∈ reachable roads n := by
  have hlist : ∀ l : List ℤ, l <:+: f.properties.nodes → ∀ a ∈ l.head?, ∀ b ∈ l,
      b ∈ reachable roads a := by
    intro l
    induction l with
    | nil => intro _ a ha
             cases ha
    | cons c l ih =>
      intro hinfix a ha b hb
      obtain rfl := Option.some.inj ha
      rcases List.mem_cons.1 hb with rfl | hb
      · exact Relation.ReflTransGen.refl
      rcases l with _ | ⟨d, l⟩
      · cases hb
      have hpair : [c, d] <:+: f.properties.nodes :=
        (List.IsPrefix.isInfix ⟨l, rfl⟩).trans hinfix
      have hrest : d :: l <:+: f.properties.nodes := (List.suffix_cons c _).isInfix.trans hinfix
      have hstep : d ∈ reachable roads c := Relation.ReflTransGen.single ⟨f, hf, .inl hpair⟩
      exact mem_reachable_trans hstep (ih hrest d rfl b hb)
  obtain ⟨a, ha⟩ : ∃ a, a ∈ f.properties.nodes.head? := by
    have hne : f.properties.nodes ≠ [] := List.ne_nil_of_mem hn
    exact ⟨_, List.head?_eq_some_head hne⟩
  have hall := hlist _ List.infix_rfl a ha
  exact mem_reachable_trans (mem_reachable_symm (hall n hn)) (hall m hm)

theorem finite_reachable (hn : RoadNode roads n) : (reachable roads n).Finite := by
  have hfinite : {m | RoadNode roads m}.Finite := by
    have hset : {m | RoadNode roads m} = {m | m ∈ roads.flatMap fun f => f.properties.nodes} := by
      ext m
      simp [RoadNode]
    rw [hset]
    exact List.finite_toSet _
  exact hfinite.subset fun m hm => roadNode_of_mem hn hm

/-- Roads that are chained by shared nodes are reachable from each other. -/
theorem mem_reachable_of_chained {s : Set Feature} (hs : ∀ f ∈ s, f ∈ roads) (hf : f ∈ s)
    (h : Chained s SharesNode f g) (hn : n ∈ f.properties.nodes) (hm : m ∈ g.properties.nodes) :
    m ∈ reachable roads n := by
  induction h generalizing m with
  | refl => exact mem_reachable_of_road (hs f hf) hn hm
  | tail _ hstep ih =>
    obtain ⟨-, hg, k, hk, hk'⟩ := hstep
    exact mem_reachable_trans (ih hk) (mem_reachable_of_road (hs _ hg) hk' hm)

/-! ## The roads at a component -/

/-- The roads with a node that is reachable from `n`. -/
def Touching (roads : List Feature) (n : ℤ) (f : Feature) : Prop :=
  f ∈ roads ∧ ∃ m ∈ f.properties.nodes, m ∈ reachable roads n

/-- A road lies wholly inside or wholly outside. -/
theorem Touching.whole (h : Touching roads n f) (hm : m ∈ f.properties.nodes) :
    m ∈ reachable roads n := by
  obtain ⟨hf, k, hk, hreach⟩ := h
  exact mem_reachable_trans hreach (mem_reachable_of_road hf hk hm)

theorem touching_of_shares (hf : f ∈ roads) (hg : Touching roads n g) (h : SharesNode f g) :
    Touching roads n f := by
  obtain ⟨m, hm, hm'⟩ := h
  exact ⟨hf, m, hm, hg.whole hm'⟩

/-- Walking from one reachable node to another stays on the roads at the component. -/
theorem chained_of_reachable {a b : ℤ} (hf : Touching roads n f) (ha : a ∈ f.properties.nodes)
    (h : b ∈ reachable roads a) (hg : Touching roads n g) (hb : b ∈ g.properties.nodes) :
    Chained {f | Touching roads n f} SharesNode f g := by
  induction h generalizing g with
  | refl => exact chained_of_touch hf hg ⟨a, ha, hb⟩
  | @tail b c hab hstep ih =>
    obtain ⟨e, he, hbe, hce⟩ := hstep.onRoad
    have hreach : b ∈ reachable roads n := mem_reachable_trans (hf.whole ha) hab
    have hte : Touching roads n e := ⟨he, b, hbe, hreach⟩
    exact (ih hte hbe).tail ⟨hte, hg, c, hce, hb⟩

theorem inOnePiece_touching : InOnePiece {f | Touching roads n f} SharesNode := by
  intro f hf g hg
  obtain ⟨-, a, ha, hna⟩ := id hf
  obtain ⟨-, b, hb, hnb⟩ := id hg
  exact chained_of_reachable hf ha (mem_reachable_trans (mem_reachable_symm hna) hnb) hg hb

theorem coveredNodes_touching (hn : RoadNode roads n) :
    coveredNodes {f | Touching roads n f} = reachable roads n := by
  ext m
  constructor
  · rintro ⟨f, hf, hm⟩
    exact hf.whole hm
  · intro hm
    obtain ⟨f, hf, hmf⟩ := roadNode_of_mem hn hm
    exact ⟨f, ⟨hf, m, hmf, hm⟩, hmf⟩

/-! ## The largest network -/

/-- `build_graph`, `get_largest_subnetwork` and `remove_disconnected_roads`. -/
def largestRoads [Networkx] (roads : List Feature) : Option (List Feature) :=
  (getLargestSubnetwork (buildGraph roads)).map fun largest =>
    removeDisconnectedRoads id largest roads

/-- The filter leaves the roads at a largest component. -/
theorem largestRoads_spec [Networkx] (hroads : roads ≠ []) : ∃ n largest, RoadNode roads n ∧
    getLargestSubnetwork (buildGraph roads) = some largest ∧
    (∀ m, m ∈ largest ↔ m ∈ reachable roads n) ∧
    (∀ n', RoadNode roads n' → (reachable roads n').ncard ≤ (reachable roads n).ncard) ∧
    ∀ f, f ∈ removeDisconnectedRoads id largest roads ↔ Touching roads n f := by
  obtain ⟨c, cs, hc⟩ := List.exists_cons_of_ne_nil
    (connectedComponents_ne_nil (buildGraph_nodes_ne_nil hroads))
  have hlargest : ∃ largest, getLargestSubnetwork (buildGraph roads) = some largest := by
    rw [getLargestSubnetwork, hc]
    exact ⟨_, rfl⟩
  obtain ⟨largest, hlargest⟩ := hlargest
  obtain ⟨n, hn, hset, hmax⟩ := largestComponent_of_subnetwork hlargest
  rw [hset] at hmax
  have hmem : ∀ m, m ∈ largest ↔ m ∈ reachable roads n := fun m => Set.ext_iff.1 hset m
  refine ⟨n, largest, hn, hlargest, hmem, hmax, fun f => ?_⟩
  change f ∈ roads.filter _ ↔ _
  simp only [List.mem_filter, id, List.any_eq_true, decide_eq_true_iff, hmem]
  exact Iff.rfl

/-- The roads at a largest component are a largest network. -/
theorem isLargestNetwork_of_touching (hn : RoadNode roads n) (hsub : kept.Sublist roads)
    (hmax : ∀ n', RoadNode roads n' → (reachable roads n').ncard ≤ (reachable roads n).ncard)
    (hkept : ∀ f, f ∈ kept ↔ Touching roads n f) : IsLargestNetwork roads kept := by
  have hset : {f | f ∈ kept} = {f | Touching roads n f} := by
    ext f
    exact hkept f
  refine ⟨?_, hsub, ?_, ?_, ?_⟩
  · obtain ⟨f, hf, hnf⟩ := hn
    exact List.ne_nil_of_mem ((hkept f).2 ⟨hf, n, hnf, Relation.ReflTransGen.refl⟩)
  · rw [hset]
    exact inOnePiece_touching
  · intro f hf hfk g hg h
    exact hfk ((hkept f).2 (touching_of_shares hf ((hkept g).1 hg) h))
  · intro s hs hpiece
    rw [hset, coveredNodes_touching hn]
    rcases s.eq_empty_or_nonempty with rfl | ⟨f, hf⟩
    · simp [coveredNodes]
    · -- all the nodes of the linked roads are reachable from one of them
      obtain ⟨a, ha⟩ : ∃ a, a ∈ f.properties.nodes :=
        List.exists_mem_of_length_pos (by have := f.two_nodes; omega)
      have hnode : RoadNode roads a := ⟨f, hs f hf, ha⟩
      have hcovered : coveredNodes s ⊆ reachable roads a := by
        rintro m ⟨g, hg, hm⟩
        exact mem_reachable_of_chained hs hf (hpiece f hf g hg) ha hm
      calc (coveredNodes s).ncard ≤ (reachable roads a).ncard :=
            Set.ncard_le_ncard hcovered (finite_reachable hnode)
        _ ≤ (reachable roads n).ncard := hmax a hnode

/-- Roads in one piece all touch the component of any of their nodes. -/
theorem touching_of_inOnePiece (h : InOnePiece {f | f ∈ roads} SharesNode) (hn : RoadNode roads n)
    (hf : f ∈ roads) : Touching roads n f := by
  obtain ⟨g, hg, hng⟩ := hn
  obtain ⟨a, ha⟩ : ∃ a, a ∈ f.properties.nodes :=
    List.exists_mem_of_length_pos (by have := f.two_nodes; omega)
  exact ⟨hf, a, ha, mem_reachable_of_chained (s := {f | f ∈ roads}) (fun _ h => h) hg (h g hg f hf)
    hng ha⟩

theorem largestRoads_of_inOnePiece [Networkx] (hroads : roads ≠ [])
    (h : InOnePiece {f | f ∈ roads} SharesNode) : largestRoads roads = some roads := by
  obtain ⟨n, largest, hn, hlargest, -, -, hkept⟩ := largestRoads_spec hroads
  have hall : removeDisconnectedRoads id largest roads = roads := by
    apply List.filter_eq_self.2
    intro f hf
    exact (List.mem_filter.1 ((hkept f).2 (touching_of_inOnePiece h hn hf))).2
  rw [largestRoads, hlargest, Option.map_some, hall]

/-- **Keep-largest leaves a largest connected road network**: it never fails, every road is wholly
inside or outside the component it keeps, and doing it again changes nothing. -/
theorem keepLargest_isLargest [Networkx] (hroads : roads ≠ []) :
    ∃ kept, largestRoads roads = some kept ∧ IsLargestNetwork roads kept ∧
    (∃ largest, getLargestSubnetwork (buildGraph roads) = some largest ∧ ∀ f ∈ roads,
      (∀ n ∈ f.properties.nodes, n ∈ largest) ∨ ∀ n ∈ f.properties.nodes, n ∉ largest) ∧
    largestRoads kept = some kept := by
  obtain ⟨n, largest, hn, hlargest, hmem, hmax, hkept⟩ := largestRoads_spec hroads
  have hsub : (removeDisconnectedRoads id largest roads).Sublist roads := List.filter_sublist
  have hnetwork := isLargestNetwork_of_touching hn hsub hmax hkept
  refine ⟨_, by rw [largestRoads, hlargest, Option.map_some], hnetwork, ⟨largest, hlargest, ?_⟩,
    largestRoads_of_inOnePiece hnetwork.nonempty hnetwork.linked⟩
  intro f hf
  by_cases h : Touching roads n f
  · exact .inl fun m hm => (hmem m).2 (h.whole hm)
  · exact .inr fun m hm hml => h ⟨hf, m, hm, (hmem m).1 hml⟩

/-- A closed way, a road that leaves it, and a road elsewhere. -/
def loopAndFarRoad : List Feature :=
  [⟨1, [], ⟨1, none, "residential", [10, 11, 12, 10], none, none, "no", [], none⟩, by decide⟩,
    ⟨2, [], ⟨2, none, "track", [20, 21], none, none, "no", [], none⟩, by decide⟩,
    ⟨3, [], ⟨3, none, "path", [11, 13], none, none, "no", [], none⟩, by decide⟩]

theorem keepLargest_loop :
    let _ := Networkx.plain
    loopAndFarRoad ≠ [] ∧ ∃ kept, largestRoads loopAndFarRoad = some kept ∧
      IsLargestNetwork loopAndFarRoad kept ∧
      (∃ largest, getLargestSubnetwork (buildGraph loopAndFarRoad) = some largest ∧
        ∀ f ∈ loopAndFarRoad, (∀ n ∈ f.properties.nodes, n ∈ largest) ∨
          ∀ n ∈ f.properties.nodes, n ∉ largest) ∧
      largestRoads kept = some kept :=
  let _ := Networkx.plain
  ⟨by decide, keepLargest_isLargest (by decide)⟩

example :
    let _ := Networkx.plain
    (largestRoads loopAndFarRoad).map (List.map Feature.id) = some [1, 3] := by decide

end Cosmonaut
