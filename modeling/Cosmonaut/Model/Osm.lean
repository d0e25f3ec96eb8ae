import Cosmonaut.Model.Table

/-!
# The OSM download

From the ways of an Overpass answer to the three street files of a download: cutting a way at the
edge of the area (`truncateByEdge`), turning it into a road (`wayToFeature`), projecting it, and
writing the files one by one (`runOsmQuery`).
-/

namespace Cosmonaut

open Interleaving Program

/-! ## Writing a street file -/

/-- `StreamingGeoJsonWriter` as a context: write to the temporary file and rename it into place; an
exception of the body discards it. -/
def withWriter {α : Type} (here : Site) (s : StreetFile) (body : App (s.Doc × α)) : App α := do
  ask (.openFile here (.streetTmp s))
  let (doc, a) ← tryExcept body fun e => do
    if ← ask (.fileExists here.pod (.streetTmp s)) then
      ask (.removeFile here.pod (.streetTmp s))
    raise e
  ask (.writeFile here (.streetTmp s) doc)
  ask (.replaceFile here.pod s)
  return a

/-! ## Ways -/

/-- The node and position lists from the first to the last surviving segment, unless no segment
survives or the surviving ones fall apart. A segment survives if an endpoint is inside. -/
def truncateByEdge (inside : Point → Bool) (nodes : List ℤ) (coords : List Point) :
    Option (List ℤ × List Point) :=
  let ins := coords.map inside
  let keep := ins.zipWith (· || ·) ins.tail
  let kept := (List.range keep.length).filter fun i => keep.getD i false
  match kept.head?, kept.getLast? with
  | some first, some last =>
    if last - first + 1 ≠ kept.length then none
    else some ((nodes.drop first).take (last - first + 2),
      (coords.drop first).take (last - first + 2))
  | _, _ => none

def onewayTrueValues : List String := ["yes", "true", "1", "-1"]

def inferOneway (tags : List (String × String)) : String :=
  match tags.lookup "oneway" with
  | some v => if v ∈ onewayTrueValues then "yes" else roundabout
  | none => roundabout
where
  roundabout := if tags.lookup "junction" = some "roundabout" then "yes" else "no"

/-- The tag columns that no code of the app reads, in the order of `PROPERTY_ORDER`. -/
def otherTagColumns : List String := [
  "bicycle", "smoothness", "surface", "maxspeed", "sidewalk", "lanes", "lit", "motor_vehicle",
  "source:maxspeed", "lanes:backward", "traffic_calming", "access"]

/-- `_build_properties`. -/
def buildProperties (wayId : ℤ) (nodes : List ℤ) (tags : List (String × String)) : Properties where
  osmid := wayId
  name := tags.lookup "name"
  highway := (tags.lookup "highway").getD ""
  nodes := nodes
  tracktype := tags.lookup "tracktype"
  ref := tags.lookup "ref"
  oneway := inferOneway tags
  tags := otherTagColumns.map fun key => (key, tags.lookup key)
  tooltip := none

/-- `way_to_feature`. Of nodes and positions of equal length at least two survive together. -/
def wayToFeature (inside : Point → Bool) (way : Way) : Option Feature :=
  match truncateByEdge inside way.nodes way.geometry with
  | some (nodes, coordinates) =>
    if h : 2 ≤ nodes.length then
      some ⟨way.id, coordinates, buildProperties way.id nodes way.tags, h⟩
    else none
  | none => none

variable [External]

def projectFeature (src dst : ℤ) (f : Feature) : ProjectedFeature where
  coordinates := f.coordinates.map (External.project src dst)
  properties := f.properties

/-- `OsmDownloader`: the buffered convex hull of the positions, and the system of the routing
input. -/
structure OsmDownloader where
  polygon : Point → Bool
  epsgOutput : ℤ

/-- The downloader of a membership table. -/
def OsmDownloader.new (classificationData : List Point) (epsgOutput : ℤ) : App OsmDownloader := do
  let polygon ← orRaise .value (External.convexHull (classificationData.map Prod.swap))
  return ⟨polygon, epsgOutput⟩

/-- `OsmDownloader.run_osm_query`. -/
def runOsmQuery (here : Site) (osm : OsmDownloader) : App Unit := do
  withWriter here .download do
    withWriter here .edited do
      withWriter here .transformed do
        let ways ← ask .streamWays
        let download := ways.filterMap (wayToFeature osm.polygon)
        let edited := download.filter fun f => trackGradeAllowed f.properties defaultTrackGrades
        let transformed := edited.map (projectFeature 4326 osm.epsgOutput)
        return (⟨some osm.epsgOutput, transformed⟩, edited, download, ())

end Cosmonaut
