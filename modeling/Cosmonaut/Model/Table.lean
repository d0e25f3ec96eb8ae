import Cosmonaut.Model.World
import Cosmonaut.Number.Double
import Mathlib.Algebra.Order.Ring.Unbundled.Rat

/-!
# Reading the membership table

`_transform_csv` finds the coordinate columns of an uploaded table and transforms them to WGS84;
`_get_bounds` and `_calculate_map_position_from_bounds` place the map.
-/

namespace Cosmonaut

open Interleaving Program

/-! ## Steps of a program -/

/-- Ask for one operation. -/
abbrev ask (o : Op) : App o.Ans := @Program.call sig Err .fault o

/-- Raise an exception. -/
abbrev raise {α : Type} (e : Err) : App α := Program.throw e

/-- What a file holds, or the error of a file that does not parse. -/
def decode {α : Type} : Bytes α → App α
  | .whole doc => pure doc
  | .torn => raise .decode

/-- What a package returns, or the exception it raises with a text. -/
def orRaise {α : Type} (error : String → Err) : Except String α → App α
  | .ok a => pure a
  | .error message => raise (error message)

/-- `except Exception`: a terminated process runs no handler. -/
def tryExcept {α : Type} (p : App α) (handler : Err → App α) : App α :=
  p.tryCatch fun e => if e = .fault .killed then raise e else handler e

/-- `except ValueError as e`, of the error's text. -/
def tryValueError {α : Type} (p : App α) (handler : String → App α) : App α :=
  p.tryCatch fun e => match e with
    | .value message => handler message
    | e => raise e

/-- Open, then write: a crash in between leaves an empty file. -/
def rewriteFile (here : Site) (f : FileName) (doc : f.Doc) : App Unit := do
  ask (.openFile here f)
  ask (.writeFile here f doc)

/-- Open and read a whole file. -/
def loadFile (here : Site) (f : FileName) : App f.Doc := do
  decode (← ask (.readFile here.pod f))

/-! ## The coordinate columns -/

def ColumnData.numbers? : ColumnData → Option (List ℚ)
  | .numbers xs => some xs
  | .texts _ => none

/-- A numeric column with a value outside `[0, 1]` and more than ten distinct values. -/
def isPotentialCoordColumn (c : ColumnData) : Bool :=
  match c.numbers? with
  | some xs => (xs.any (· < 0) || xs.any (1 < ·)) && decide (10 < xs.dedup.length)
  | none => false

/-- `any(term in col.lower() for term in terms)`. -/
def nameContains (terms : List String) (col : String) : Bool :=
  terms.any fun term => decide (term.toList <:+: col.toLower.toList)

/-- The two coordinate columns of a table, if they can be told. -/
def coordColumns (hasHeader : Bool) (df : DataFrame) :
    Option ((String × ColumnData) × (String × ColumnData)) :=
  match df.filter fun col => isPotentialCoordColumn col.2 with
  | [x, y] => some (x, y)
  | _ =>
    if hasHeader then
      match df.filter fun col => nameContains ["east", "long", "x", "lon"] col.1,
        df.filter fun col => nameContains ["north", "lat", "y"] col.1 with
      | x :: _, y :: _ => some (x, y)
      | _, _ => none
    else none

section

variable [External]

/-- The first steps of `_transform_csv`: delimiter and header are told from the first 4096
characters, and columns without a header are numbered. -/
def readTable (text : String) : App (Bool × DataFrame) := do
  let sample := String.ofList (text.toList.take 4096)
  let delimiter ← orRaise .csv (External.sniff sample)
  let hasHeader ← orRaise .csv (External.hasHeader sample)
  let df ← orRaise .value (External.readCsv text delimiter hasHeader)
  return (hasHeader, if hasHeader then df else df.mapIdx fun i col => ("col_" ++ toString i, col.2))

/-- `_transform_csv`, to WGS84: latitude and longitude of every row. -/
def transformCsv (text : String) (epsgInput : ℤ) : App (List Point) := do
  let (hasHeader, df) ← readTable text
  match coordColumns hasHeader df with
  | none => raise (.value "Could not automatically identify coordinate columns.")
  | some (x, y) =>
    match x.2.numbers?, y.2.numbers? with
    | some xs, some ys => return (xs.zip ys).map (External.transform epsgInput 4326)
    | _, _ => raise (.type "coordinates are not numeric")

end

/-- `_get_bounds`: the least and the greatest latitude and longitude, NaN without a position. -/
def getBounds : List Point → Option (Point × Point)
  | [] => none
  | p :: ps =>
    let lats := ps.map Prod.fst
    let lons := ps.map Prod.snd
    some ((lats.foldl min p.1, lons.foldl min p.2), (lats.foldl max p.1, lons.foldl max p.2))

variable [External]

/-- `math.log2(screen / (d * 256)) if d > 0 else 15`. -/
def zoomFor (screen d : ℚ) : ℚ :=
  if 0 < d then External.log2 (Double.round (screen / (d * 256))) else 15

/-- `_calculate_map_position_from_bounds`: the centre and the zoom level. -/
def mapPosition : Option (Point × Point) → Option Point × ℤ
  -- no comparison with NaN holds, so both directions have 15
  | none => (none, 15)
  | some ((minLat, minLon), (maxLat, maxLon)) =>
    let centerLat := Double.round (Double.round (minLat + maxLat) / 2)
    let centerLon := Double.round (Double.round (minLon + maxLon) / 2)
    let latZoom := zoomFor (170 * 800) (Double.round (maxLat - minLat))
    let lonZoom := zoomFor (360 * 1000) (Double.round (maxLon - minLon))
    (some (centerLat, centerLon), max 5 (Double.trunc (min (min latZoom lonZoom) 18)))

end Cosmonaut
