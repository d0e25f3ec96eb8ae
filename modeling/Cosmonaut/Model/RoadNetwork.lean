import Cosmonaut.Connectivity.Components
import Mathlib.Data.Rat.Defs
import Mathlib.Tactic.Common

/-!
# The road network and the street-selection intent

The features of a download, the user's intent (`StreetEdits`) and the network the intent keeps of
a download (`derive`, the filters of `StreetSelector._derive`).

* `deriveBy` filters any objects seen as features, so that it also runs on shared feature objects.
* `deriveBy_total`: the filters never fail, since every road has at least two nodes.
-/

namespace Cosmonaut

open Connectivity

/-- A position: longitude and latitude, or easting and northing. -/
abbrev Point := ℚ × ℚ

/-- The properties of a road. `tags` are the other tag columns, in order; `tooltip` is added for the
map only. -/
structure Properties where
  osmid : ℤ
  name : Option String
  highway : String
  nodes : List ℤ
  tracktype : Option String
  ref : Option String
  oneway : String
  tags : List (String × Option String)
  tooltip : Option String
  deriving DecidableEq

/-- A road of the download or of the edited network (EPSG:4326). A way cut at the edge of the area
keeps at least one segment, so a road has at least two nodes. -/
structure Feature where
  id : ℤ
  coordinates : List Point
  properties : Properties
  two_nodes : 2 ≤ properties.nodes.length
  deriving DecidableEq

/-- The feature with another tooltip. -/
def Feature.withTooltip (f : Feature) (t : Option String) : Feature :=
  { f with properties := { f.properties with tooltip := t }, two_nodes := f.two_nodes }

/-- The feature as the download holds it. -/
def Feature.bare (f : Feature) : Feature := f.withTooltip none

@[simp] theorem Feature.bare_withTooltip (f : Feature) (t : Option String) :
    (f.withTooltip t).bare = f.bare := rfl

/-- A feature of the routing input: reprojected, without the top-level id. -/
structure ProjectedFeature where
  coordinates : List Point
  properties : Properties
  deriving DecidableEq

def ProjectedFeature.bare (f : ProjectedFeature) : ProjectedFeature :=
  { f with properties := { f.properties with tooltip := none } }

/-- The routing input: the named CRS header, absent when there is no road, and the roads. -/
structure RoutingInput where
  crs : Option ℤ
  features : List ProjectedFeature
  deriving DecidableEq

def RoutingInput.bare (r : RoutingInput) : RoutingInput :=
  { r with features := r.features.map .bare }

/-! ## The intent -/

/-- `OSM_TAGS_MAPPING`: road classification labels and the highway values they stand for. -/
def osmTagsMapping : List (String × List String) := [
  ("Motorway", ["motorway", "motorway_link"]),
  ("Trunk road", ["trunk", "trunk_link"]),
  ("Primary road", ["primary", "primary_link"]),
  ("Secondary road", ["secondary", "secondary_link"]),
  ("Tertiary road", ["tertiary", "tertiary_link"]),
  ("Unclassified", ["unclassified"]),
  ("Residential", ["residential"]),
  ("Living street", ["living_street"]),
  ("Track", ["track"])]

def trackGrades : List String := ["grade1", "grade2", "grade3", "grade4", "grade5"]

def ungradedTrackGrade : String := "ungraded"

def defaultTrackGrades : List String := ["grade1", "grade2", "grade3"]

/-- A job's street-selection intent; the defaults are an unedited network. -/
structure StreetEdits where
  removedRoads : List ℤ := []
  selectedRoadTags : List String := osmTagsMapping.map Prod.fst
  selectedTrackGrades : List String := defaultTrackGrades
  keepLargest : Bool := false
  deriving DecidableEq

/-! ## The filters -/

def trackGradeAllowed (p : Properties) (allowedGrades : List String) : Bool :=
  if p.highway ≠ "track" then true
  else
    let grade := match p.tracktype with
      | some g => if g ∈ trackGrades then g else ungradedTrackGrade
      | none => ungradedTrackGrade
    decide (grade ∈ allowedGrades)

/-- The highway values of the selected road types; an unknown road type has none. -/
def osmHighwayTypes (selectedRoads : List String) : List String :=
  selectedRoads.flatMap fun roadType => (osmTagsMapping.lookup roadType).getD []

/-- A graph: its nodes in the order they were first added, and its edges. -/
structure Graph where
  nodes : List ℤ
  edges : List (ℤ × ℤ)
  nodup : nodes.Nodup

def Graph.addNode (G : Graph) (n : ℤ) : Graph :=
  if h : n ∈ G.nodes then G
  else ⟨G.nodes ++ [n], G.edges, List.concat_eq_append ▸ G.nodup.concat h⟩

def Graph.addEdge (G : Graph) (e : ℤ × ℤ) : Graph :=
  let G := (G.addNode e.1).addNode e.2
  ⟨G.nodes, e :: G.edges, G.nodup⟩

/-- The consecutive pairs of a node list. -/
def nodePairs (nodes : List ℤ) : List (ℤ × ℤ) := nodes.zip nodes.tail

def buildGraph (allRoads : List Feature) : Graph :=
  allRoads.foldl (fun G road => (nodePairs road.properties.nodes).foldl .addEdge G) ⟨[], [], .nil⟩

def Graph.adjacent (G : Graph) (n m : ℤ) : Bool :=
  decide ((n, m) ∈ G.edges) || decide ((m, n) ∈ G.edges)

/-- The function of networkx that the app calls. -/
class Networkx where
  /-- `nx.connected_components`. -/
  connectedComponents : Graph → List (List ℤ)
  /-- As documented: sets of nodes, one for each component. -/
  areComponents (G : Graph) : AreComponents G.nodes G.adjacent (connectedComponents G)

/-- Components collected in the order of the nodes. -/
@[reducible] def Networkx.plain : Networkx where
  connectedComponents := fun G => components G.nodes G.adjacent G.nodes []
  areComponents := fun G => components_areComponents G.nodup

/-- `max(components, key=len)`: the first of the largest, and `none` where `max` raises. -/
def getLargestSubnetwork [Networkx] (G : Graph) : Option (List ℤ) :=
  match Networkx.connectedComponents G with
  | [] => none
  | c :: cs => some (cs.foldl (fun best c => if best.length < c.length then c else best) c)

variable {α : Type}

def removeDisconnectedRoads (view : α → Feature) (largest : List ℤ) (roads : List α) : List α :=
  roads.filter fun r => (view r).properties.nodes.any fun n => decide (n ∈ largest)

/-- The roads a selection keeps before the keep-largest step: by road type, by track grade, and
without the removed roads. -/
def StreetEdits.keeps (edits : StreetEdits) (f : Feature) : Bool :=
  decide (f.properties.highway ∈ osmHighwayTypes edits.selectedRoadTags) &&
    trackGradeAllowed f.properties edits.selectedTrackGrades &&
    decide (f.id ∉ edits.removedRoads)

/-- The filters of `StreetSelector._derive`, on objects seen as features through `view`. `none` is
the exception of an empty `max`. -/
def deriveBy [Networkx] (view : α → Feature) (edits : StreetEdits) (roads : List α) :
    Option (List α) :=
  let roads := roads.filter fun r => edits.keeps (view r)
  if edits.keepLargest ∧ roads ≠ [] then
    (getLargestSubnetwork (buildGraph (roads.map view))).map fun largest =>
      removeDisconnectedRoads view largest roads
  else some roads

/-- The network the intent keeps of a download. -/
def derive [Networkx] (edits : StreetEdits) (download : List Feature) : Option (List Feature) :=
  deriveBy id edits download

/-! ## What the filters depend on -/

/-- Two features that differ in the tooltip at most. -/
def SameRoad (f g : Feature) : Prop := f.bare = g.bare

theorem SameRoad.eq {f g : Feature} (h : SameRoad f g) :
    f.id = g.id ∧ f.coordinates = g.coordinates ∧ f.properties.highway = g.properties.highway ∧
      f.properties.nodes = g.properties.nodes ∧
      f.properties.tracktype = g.properties.tracktype := by
  have hp : f.bare.properties = g.bare.properties := congrArg Feature.properties h
  exact ⟨(congrArg Feature.id h :), (congrArg Feature.coordinates h :),
    (congrArg Properties.highway hp :), (congrArg Properties.nodes hp :),
    (congrArg Properties.tracktype hp :)⟩

theorem keeps_congr {edits : StreetEdits} {f g : Feature} (h : SameRoad f g) :
    edits.keeps f = edits.keeps g := by
  obtain ⟨hid, -, hh, -, ht⟩ := h.eq
  simp only [StreetEdits.keeps, trackGradeAllowed, hid, hh, ht]

theorem buildGraph_congr {view view' : α → Feature} {roads : List α}
    (h : ∀ r ∈ roads, SameRoad (view r) (view' r)) :
    buildGraph (roads.map view) = buildGraph (roads.map view') := by
  simp only [buildGraph, List.foldl_map]
  apply List.foldl_ext _ _ _
  intro G r hr
  rw [(h r hr).eq.2.2.2.1]

/-- The filters do not see the tooltip. -/
theorem deriveBy_congr [Networkx] {view view' : α → Feature} {edits : StreetEdits} {roads : List α}
    (h : ∀ r ∈ roads, SameRoad (view r) (view' r)) :
    deriveBy view edits roads = deriveBy view' edits roads := by
  have hk : roads.filter (fun r => edits.keeps (view r)) =
      roads.filter fun r => edits.keeps (view' r) :=
    List.filter_congr fun r hr => keeps_congr (h r hr)
  have hr : ∀ largest, removeDisconnectedRoads view largest
      (roads.filter fun r => edits.keeps (view' r)) = removeDisconnectedRoads view' largest
      (roads.filter fun r => edits.keeps (view' r)) := fun largest =>
    List.filter_congr fun r hr => by rw [(h r (List.mem_of_mem_filter hr)).eq.2.2.2.1]
  simp only [deriveBy, hk, hr, buildGraph_congr fun r hr' => h r (List.mem_of_mem_filter hr')]

/-- Filtering objects is filtering what they are seen as. -/
theorem deriveBy_map [Networkx] (view : α → Feature) (edits : StreetEdits) (roads : List α) :
    (deriveBy view edits roads).map (List.map view) = derive edits (roads.map view) := by
  have hf : (roads.map view).filter (fun f => edits.keeps f) =
      (roads.filter fun r => edits.keeps (view r)).map view := by
    rw [List.filter_map]; rfl
  simp only [derive, deriveBy, id, hf, ne_eq, List.map_eq_nil_iff]
  split
  · rw [Option.map_map, List.map_map]
    refine congrArg₂ _ (funext fun largest => ?_) rfl
    simp only [Function.comp, removeDisconnectedRoads, List.filter_map]
    rfl
  · rfl

/-! ## The filters never fail -/

theorem addNode_nodes_ne_nil (G : Graph) (n : ℤ) : (G.addNode n).nodes ≠ [] := by
  rw [Graph.addNode]
  split
  · exact List.ne_nil_of_mem ‹_›
  · simp

theorem addEdge_nodes_ne_nil (G : Graph) (e : ℤ × ℤ) : (G.addEdge e).nodes ≠ [] := by
  exact addNode_nodes_ne_nil _ _

theorem foldl_addEdge_nodes_ne_nil {G : Graph} (h : G.nodes ≠ []) (es : List (ℤ × ℤ)) :
    (es.foldl .addEdge G).nodes ≠ [] := by
  induction es generalizing G with
  | nil => exact h
  | cons e es ih => exact ih (addEdge_nodes_ne_nil G e)

/-- A graph of at least one road has a node. -/
theorem buildGraph_nodes_ne_nil {roads : List Feature} (h : roads ≠ []) :
    (buildGraph roads).nodes ≠ [] := by
  have hkeep : ∀ (roads : List Feature) (G : Graph), G.nodes ≠ [] →
      (roads.foldl (fun G road => (nodePairs road.properties.nodes).foldl .addEdge G) G).nodes ≠
        [] := by
    intro roads
    induction roads with
    | nil => exact fun G hG => hG
    | cons road roads ih => exact fun G hG => ih _ (foldl_addEdge_nodes_ne_nil hG _)
  obtain ⟨road, roads, rfl⟩ := List.exists_cons_of_ne_nil h
  apply hkeep roads _
  -- the first road has a first pair, and adding it adds a node
  obtain ⟨n, m, ns, hns⟩ : ∃ n m ns, road.properties.nodes = n :: m :: ns := by
    match road.properties.nodes, road.two_nodes with
    | n :: m :: ns, _ => exact ⟨n, m, ns, rfl⟩
    | [n], h => simp at h
    | [], h => simp at h
  simp only [hns]
  exact foldl_addEdge_nodes_ne_nil (addEdge_nodes_ne_nil _ _) _

theorem connectedComponents_ne_nil [Networkx] {G : Graph} (h : G.nodes ≠ []) :
    Networkx.connectedComponents G ≠ [] := by
  obtain ⟨n, hn⟩ := List.exists_mem_of_ne_nil _ h
  obtain ⟨c, hc, -⟩ := (Networkx.areComponents G).covers n hn
  exact List.ne_nil_of_mem hc

/-- **The filters never fail**: where the keep-largest step runs there is a component. -/
theorem deriveBy_total [Networkx] (view : α → Feature) (edits : StreetEdits) (roads : List α) :
    ∃ kept, deriveBy view edits roads = some kept := by
  simp only [deriveBy]
  split
  · rename_i h
    obtain ⟨c, cs, hc⟩ := List.exists_cons_of_ne_nil
      (connectedComponents_ne_nil (buildGraph_nodes_ne_nil (mt List.map_eq_nil_iff.1 h.2)))
    exact ⟨_, by rw [getLargestSubnetwork, hc]; rfl⟩
  · exact ⟨_, rfl⟩

end Cosmonaut
