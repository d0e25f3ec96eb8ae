import Cosmonaut.Model.RoadNetwork

/-!
# The network an intent selects

What the filters of a derivation keep, said without them.

* `StreetEdits.Selects`: the roads an intent asks for.
* `LargestComponent`: a connected component of a road network that has as many nodes as any.
* `derive_isNetwork`: the derived network is the selected roads of the download, in its order, and
  with keep-largest those of a largest component.
-/

namespace Cosmonaut

open Connectivity

/-! ## The selected roads -/

/-- The grade of a track: a standard one, or ungraded. -/
def Properties.grade (p : Properties) : String :=
  match p.tracktype with
  | some g => if g ∈ trackGrades then g else ungradedTrackGrade
  | none => ungradedTrackGrade

/-- The road is of a selected type; if it is a track, of a selected grade; and it is not removed. -/
structure StreetEdits.Selects (edits : StreetEdits) (f : Feature) : Prop where
  type : ∃ tag ∈ edits.selectedRoadTags, ∃ highways, (tag, highways) ∈ osmTagsMapping ∧
    f.properties.highway ∈ highways
  grade : f.properties.highway = "track" → f.properties.grade ∈ edits.selectedTrackGrades
  kept : f.id ∉ edits.removedRoads

theorem lookup_eq_some_of_nodup {l : List (String × List String)} (h : (l.map Prod.fst).Nodup)
    {tag : String} {highways : List String} :
    l.lookup tag = some highways ↔ (tag, highways) ∈ l := by
  induction l with
  | nil => simp
  | cons p l ih =>
    obtain ⟨key, value⟩ := p
    rw [List.map_cons, List.nodup_cons] at h
    by_cases htag : tag = key
    · subst htag
      have hno : (tag, highways) ∉ l := fun hl => h.1 (List.mem_map.2 ⟨_, hl, rfl⟩)
      simp [hno, eq_comm]
    · have hkey : (tag == key) = false := by simpa using htag
      rw [List.lookup_cons, hkey]
      simp [htag, ih h.2]

theorem mem_osmHighwayTypes {tags : List String} {highway : String} :
    highway ∈ osmHighwayTypes tags ↔ ∃ tag ∈ tags, ∃ highways, (tag, highways) ∈ osmTagsMapping ∧
      highway ∈ highways := by
  have hlookup : ∀ tag, highway ∈ (osmTagsMapping.lookup tag).getD [] ↔
      ∃ highways, (tag, highways) ∈ osmTagsMapping ∧ highway ∈ highways := by
    intro tag
    have hiff := @lookup_eq_some_of_nodup osmTagsMapping (by decide) tag
    rcases h : osmTagsMapping.lookup tag with _ | highways
    · refine ⟨fun hmem => by simp at hmem, ?_⟩
      rintro ⟨highways, hmem, -⟩
      rw [← hiff, h] at hmem
      cases hmem
    · refine ⟨fun hmem => ⟨highways, hiff.1 h, hmem⟩, ?_⟩
      rintro ⟨highways', hmem, hhighway⟩
      rw [← hiff, h] at hmem
      cases hmem
      exact hhighway
  simp only [osmHighwayTypes, List.mem_flatMap, hlookup]

theorem keeps_iff {edits : StreetEdits} {f : Feature} : edits.keeps f = true ↔ edits.Selects f := by
  have hgrade : trackGradeAllowed f.properties edits.selectedTrackGrades = true ↔
      (f.properties.highway = "track" → f.properties.grade ∈ edits.selectedTrackGrades) := by
    unfold trackGradeAllowed Properties.grade
    split
    · rename_i h
      simp [h]
    · rename_i h
      rw [decide_eq_true_iff]
      exact ⟨fun hgrade _ => hgrade, fun hgrade => hgrade (not_not.1 h)⟩
  rw [StreetEdits.keeps, Bool.and_eq_true, Bool.and_eq_true, decide_eq_true_iff, decide_eq_true_iff,
    hgrade, mem_osmHighwayTypes]
  constructor
  · rintro ⟨⟨ht, hg⟩, hk⟩
    exact ⟨ht, hg, hk⟩
  · rintro ⟨ht, hg, hk⟩
    exact ⟨⟨ht, hg⟩, hk⟩

instance (edits : StreetEdits) : DecidablePred edits.Selects := fun _ =>
  decidable_of_iff _ keeps_iff

/-- The selected roads of a download, in its order. -/
def StreetEdits.selected (edits : StreetEdits) (download : List Feature) : List Feature :=
  download.filter fun f => edits.Selects f

/-! ## Road graphs -/

/-- A node of one of the roads. -/
def RoadNode (roads : List Feature) (n : ℤ) : Prop := ∃ f ∈ roads, n ∈ f.properties.nodes

/-- A road leads from one node straight to the other, in either direction. -/
def Linked (roads : List Feature) (a b : ℤ) : Prop :=
  ∃ f ∈ roads, [a, b] <:+: f.properties.nodes ∨ [b, a] <:+: f.properties.nodes

/-- The nodes that the roads join to a node. -/
def reachable (roads : List Feature) (n : ℤ) : Set ℤ :=
  {m | Relation.ReflTransGen (Linked roads) n m}

/-- A connected component of the roads that has as many nodes as any. -/
def LargestComponent (roads : List Feature) (c : Set ℤ) : Prop :=
  ∃ n, RoadNode roads n ∧ c = reachable roads n ∧
    ∀ n', RoadNode roads n' → (reachable roads n').ncard ≤ c.ncard

theorem mem_nodePairs {nodes : List ℤ} {a b : ℤ} :
    (a, b) ∈ nodePairs nodes ↔ [a, b] <:+: nodes := by
  unfold nodePairs
  induction nodes with
  | nil => simp
  | cons n nodes ih =>
    rcases nodes with _ | ⟨m, nodes⟩
    · simp [List.infix_cons_iff]
    · rw [List.tail_cons, List.zip_cons_cons, List.mem_cons, List.infix_cons_iff]
      rw [List.tail_cons] at ih
      rw [ih]
      simp

theorem mem_pair_of_mem {nodes : List ℤ} (h : 2 ≤ nodes.length) {n : ℤ} (hn : n ∈ nodes) :
    ∃ e ∈ nodePairs nodes, n = e.1 ∨ n = e.2 := by
  obtain ⟨l, r, rfl⟩ := List.append_of_mem hn
  rcases r with _ | ⟨m, r⟩
  · rcases List.eq_nil_or_concat l with rfl | ⟨l, m, rfl⟩
    · simp at h
    · exact ⟨(m, n), mem_nodePairs.2 ⟨l, [], by simp⟩, .inr rfl⟩
  · exact ⟨(n, m), mem_nodePairs.2 ⟨l, r, by simp⟩, .inl rfl⟩

variable {G : Graph}

theorem mem_nodes_addNode {n m : ℤ} : m ∈ (G.addNode n).nodes ↔ m ∈ G.nodes ∨ m = n := by
  unfold Graph.addNode
  split
  · rename_i h
    refine ⟨.inl, ?_⟩
    rintro (hm | rfl)
    · exact hm
    · exact h
  · simp

theorem edges_addNode (n : ℤ) : (G.addNode n).edges = G.edges := by
  unfold Graph.addNode
  split <;> rfl

/-- What a list of edges adds to a graph. -/
theorem foldl_addEdge_spec (es : List (ℤ × ℤ)) :
    (∀ m, m ∈ (es.foldl .addEdge G).nodes ↔ m ∈ G.nodes ∨ ∃ e ∈ es, m = e.1 ∨ m = e.2) ∧
      ∀ e, e ∈ (es.foldl .addEdge G).edges ↔ e ∈ G.edges ∨ e ∈ es := by
  induction es generalizing G with
  | nil => simp
  | cons e es ih =>
    obtain ⟨hnodes, hedges⟩ := ih (G := G.addEdge e)
    rw [List.foldl_cons]
    refine ⟨fun m => ?_, fun e' => ?_⟩
    · rw [hnodes]
      change m ∈ ((G.addNode e.1).addNode e.2).nodes ∨ _ ↔ _
      rw [mem_nodes_addNode, mem_nodes_addNode]
      simp only [List.mem_cons, exists_eq_or_imp, or_assoc]
    · rw [hedges]
      change e' ∈ e :: ((G.addNode e.1).addNode e.2).edges ∨ _ ↔ _
      rw [edges_addNode, edges_addNode, List.mem_cons, List.mem_cons]
      tauto

/-- **The graph of the roads** has their nodes and their consecutive pairs of nodes. -/
theorem buildGraph_spec (roads : List Feature) :
    (∀ m, m ∈ (buildGraph roads).nodes ↔ RoadNode roads m) ∧
      ∀ e, e ∈ (buildGraph roads).edges ↔ ∃ f ∈ roads, e ∈ nodePairs f.properties.nodes := by
  have hfold : ∀ (roads : List Feature) (G : Graph),
      let H := roads.foldl (fun G road => (nodePairs road.properties.nodes).foldl .addEdge G) G
      (∀ m, m ∈ H.nodes ↔ m ∈ G.nodes ∨ RoadNode roads m) ∧
        ∀ e, e ∈ H.edges ↔ e ∈ G.edges ∨ ∃ f ∈ roads, e ∈ nodePairs f.properties.nodes := by
    intro roads
    induction roads with
    | nil => simp [RoadNode]
    | cons f roads ih =>
      intro G
      obtain ⟨hnodes, hedges⟩ := ih ((nodePairs f.properties.nodes).foldl .addEdge G)
      obtain ⟨hnodes', hedges'⟩ := foldl_addEdge_spec (G := G) (nodePairs f.properties.nodes)
      refine ⟨fun m => ?_, fun e => ?_⟩
      · rw [List.foldl_cons, hnodes, hnodes', or_assoc]
        apply or_congr_right
        have hmem : (∃ e ∈ nodePairs f.properties.nodes, m = e.1 ∨ m = e.2) ↔
            m ∈ f.properties.nodes := by
          refine ⟨?_, mem_pair_of_mem f.two_nodes⟩
          rintro ⟨⟨a, b⟩, he, rfl | rfl⟩
          · exact (mem_nodePairs.1 he).subset (by simp)
          · exact (mem_nodePairs.1 he).subset (by simp)
        rw [hmem]
        simp [RoadNode]
      · rw [List.foldl_cons, hedges, hedges', or_assoc]
        simp
  obtain ⟨hnodes, hedges⟩ := hfold roads ⟨[], [], .nil⟩
  refine ⟨fun m => ?_, fun e => ?_⟩
  · exact (hnodes m).trans (by simp)
  · exact (hedges e).trans (by simp)

theorem adjacent_iff {roads : List Feature} {a b : ℤ} :
    (buildGraph roads).adjacent b a = true ↔ Linked roads a b := by
  obtain ⟨-, hedges⟩ := buildGraph_spec roads
  rw [Graph.adjacent, Bool.or_eq_true, decide_eq_true_iff, decide_eq_true_iff, hedges,
    hedges, Linked, ← exists_or]
  apply exists_congr
  intro f
  rw [mem_nodePairs, mem_nodePairs, ← and_or_left, or_comm]

theorem joined_iff {roads : List Feature} {n m : ℤ} :
    Joined (buildGraph roads).nodes (buildGraph roads).adjacent n m ↔ m ∈ reachable roads n := by
  obtain ⟨hnodes, -⟩ := buildGraph_spec roads
  have hstep : (fun a b => b ∈ (buildGraph roads).nodes ∧ (buildGraph roads).adjacent b a = true) =
      Linked roads := by
    funext a b
    rw [adjacent_iff, hnodes, eq_iff_iff, and_iff_right_iff_imp]
    rintro ⟨f, hf, h | h⟩
    · exact ⟨f, hf, h.subset (by simp)⟩
    · exact ⟨f, hf, h.subset (by simp)⟩
  rw [Connectivity.Joined, hstep]
  exact Iff.rfl

section

variable [Networkx]

/-- Of the components of the roads' graph: each is what is reachable from one of its nodes, and has
as many entries. -/
theorem component_reachable {roads : List Feature} {c : List ℤ} {n : ℤ}
    (hc : c ∈ Networkx.connectedComponents (buildGraph roads)) (hn : n ∈ c) :
    {m | m ∈ c} = reachable roads n ∧ c.length = (reachable roads n).ncard := by
  have hsymm : ∀ a b, (buildGraph roads).adjacent a b = (buildGraph roads).adjacent b a := by
    intro a b
    rw [Graph.adjacent, Bool.or_comm, Graph.adjacent]
  have hcomponents := Networkx.areComponents (buildGraph roads)
  have hjoined : {m | Joined (buildGraph roads).nodes (buildGraph roads).adjacent n m} =
      reachable roads n := by
    ext m
    exact joined_iff
  constructor
  · ext m
    exact (hcomponents.mem_iff hsymm hc hn).trans joined_iff
  · rw [← hjoined]
    exact hcomponents.length_eq hsymm hc hn

/-- **The largest subnetwork is a largest component.** -/
theorem largestComponent_of_subnetwork {roads : List Feature} {c : List ℤ}
    (h : getLargestSubnetwork (buildGraph roads) = some c) :
    LargestComponent roads {m | m ∈ c} := by
  obtain ⟨hnodes, -⟩ := buildGraph_spec roads
  have hcomponents := Networkx.areComponents (buildGraph roads)
  unfold getLargestSubnetwork at h
  rcases hcs : Networkx.connectedComponents (buildGraph roads) with _ | ⟨d, ds⟩
  · rw [hcs] at h
    cases h
  rw [hcs] at h
  obtain ⟨hmem, hmax⟩ := longest_spec d ds
  obtain rfl := Option.some.inj h
  rw [← hcs] at hmem hmax
  obtain ⟨n, hn, hjoined⟩ := hcomponents.joined _ hmem
  obtain ⟨hset, hlength⟩ := component_reachable hmem ((hjoined n).2 .refl)
  refine ⟨n, (hnodes n).1 hn, hset, fun n' hn' => ?_⟩
  obtain ⟨c', hc', hn'c'⟩ := hcomponents.covers n' ((hnodes n').2 hn')
  obtain ⟨-, hlength'⟩ := component_reachable hc' hn'c'
  calc (reachable roads n').ncard = c'.length := hlength'.symm
    _ ≤ _ := hmax c' hc'
    _ = (reachable roads n).ncard := hlength
    _ = _ := by rw [← hset]

end

/-! ## The network -/

open Classical in
/-- The network an intent stands for: the selected roads of the download, in its order; with
keep-largest, those of them with a node in a largest component. -/
structure IsNetwork (edits : StreetEdits) (download kept : List Feature) : Prop where
  all : edits.keepLargest = false → kept = edits.selected download
  largest : edits.keepLargest = true → edits.selected download ≠ [] →
    ∃ c, LargestComponent (edits.selected download) c ∧
      kept = (edits.selected download).filter fun f => ∃ n ∈ f.properties.nodes, n ∈ c
  none : edits.selected download = [] → kept = []

/-- **The filters of a derivation leave the network the intent stands for.** -/
theorem derive_isNetwork [Networkx] {edits : StreetEdits} {download kept : List Feature}
    (h : derive edits download = some kept) : IsNetwork edits download kept := by
  have hselected : download.filter (fun f => edits.keeps f) = edits.selected download := by
    apply List.filter_congr
    intro f _
    rw [Bool.eq_iff_iff, keeps_iff, decide_eq_true_iff]
  simp only [derive, deriveBy, id, hselected] at h
  by_cases hlargest : edits.keepLargest ∧ edits.selected download ≠ []
  · rw [if_pos hlargest] at h
    obtain ⟨c, hc, rfl⟩ := Option.map_eq_some_iff.1 h
    rw [List.map_id] at hc
    refine ⟨fun hno => ?_, fun _ _ => ⟨{m | m ∈ c}, largestComponent_of_subnetwork hc, ?_⟩,
      fun hno => absurd hno hlargest.2⟩
    · rw [hlargest.1] at hno
      cases hno
    · apply List.filter_congr
      intro f _
      rw [Bool.eq_iff_iff, List.any_eq_true]
      simp
  · rw [if_neg hlargest, Option.some.injEq] at h
    exact ⟨fun _ => h.symm, fun hk hne => absurd ⟨hk, hne⟩ hlargest, fun hno => h ▸ hno⟩

end Cosmonaut
