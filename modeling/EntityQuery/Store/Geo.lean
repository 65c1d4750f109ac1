import EntityQuery.Json.Path
import EntityQuery.Query.Basic

/-! # Places

A place is an object with a latitude and a longitude in degrees. Distances are taken along great
circles of a sphere. The trigonometry is that of the machine, so a distance is a number of the
machine too; it can be undefined for places that no globe has. -/

namespace EntityQuery

/-- The radius of the sphere in metres. -/
def earthRadius : Float := 6371000.0

/-- An angle in degrees as an arc. -/
def radians (degrees : Float) : Float := degrees * (3.141592653589793 / 180.0)

/-- The distance in metres between two places that are given in degrees. -/
def greatCircle (latitude₁ longitude₁ latitude₂ longitude₂ : Float) : Float :=
  let halfLatitude := (radians (latitude₂ - latitude₁) / 2.0).sin
  let halfLongitude := (radians (longitude₂ - longitude₁) / 2.0).sin
  let a := halfLatitude * halfLatitude +
    (radians latitude₁).cos * (radians latitude₂).cos * (halfLongitude * halfLongitude)
  2.0 * earthRadius * Float.atan2 a.sqrt (1.0 - a).sqrt

/-- A coordinate of a place, under its long or its short name. The short name counts only where the
long one is missing. -/
def coordinate? (place : Json) (long short : String) : Option Float :=
  ((place.member? long <|> place.member? short).bind Json.number?).map Binary64.toFloat

namespace GeoArea

/-- The distance from the centre of an area to the place that a document holds. -/
def distanceTo? (area : GeoArea) (doc : Json) : Option Float := do
  let place ← doc.fieldAt? area.property
  let latitude ← coordinate? place "latitude" "lat"
  let longitude ← coordinate? place "longitude" "lon"
  return greatCircle area.latitude.toFloat area.longitude.toFloat latitude longitude

/-- Whether the place that a document holds lies in an area. -/
def covers (area : GeoArea) (doc : Json) : Bool :=
  (area.distanceTo? doc).any fun d => decide (d ≤ area.distance.toFloat)

end GeoArea

/-- A distance in metres with three decimals. -/
def distanceText (metres : Float) : String :=
  match Binary64.ofFloat? metres with
  | some x => Decimal.fixedText 3 x
  | none => "NaN"

end EntityQuery
