import RewardPlot.Json.Reader
import RewardPlot.Manifest.Basic
/-!
# Reading manifests

A manifest is read from a JSON object, or from an array of its fields in order; fields
of other names are passed over.
-/

namespace RewardPlot.Manifest

open Json

/-- The fields of a record that have been read. -/
structure Item.Draft where
  label : Option String := none
  points : Option UInt64 := none
  masked : Option UInt64 := none
  sum : Option (Option Binary64) := none

def Item.fields : List (Member Item.Draft) :=
  [{ name := "label", isSet := (·.label.isSome),
     take := fun d ts => (readText ts).map fun (v, rest) => ({ d with label := v }, rest) },
   { name := "points", isSet := (·.points.isSome),
     take := fun d ts => (readCount ts).map fun (v, rest) => ({ d with points := v }, rest) },
   { name := "masked", isSet := (·.masked.isSome),
     take := fun d ts => (readCount ts).map fun (v, rest) => ({ d with masked := v }, rest) },
   { name := "sum", isSet := (·.sum.isSome),
     take := fun d ts => (readNumber? ts).map fun (v, rest) => ({ d with sum := some v }, rest) }]

/-- The record of which all fields have been read; the sum may be left out. -/
def Item.Draft.finish (d : Item.Draft) : Option Item := do
  return ⟨← d.label, ← d.points, ← d.masked, d.sum.join⟩

def Item.read : Reader Item := readRecord Item.fields {} Item.Draft.finish

structure Draft where
  version : Option String := none
  title : Option String := none
  generatedAt : Option String := none
  series : Option (List Item) := none

def fields : List (Member Draft) :=
  [{ name := "version", isSet := (·.version.isSome),
     take := fun d ts => (readText ts).map fun (v, rest) => ({ d with version := v }, rest) },
   { name := "title", isSet := (·.title.isSome),
     take := fun d ts => (readText ts).map fun (v, rest) => ({ d with title := v }, rest) },
   { name := "generated_at", isSet := (·.generatedAt.isSome),
     take := fun d ts =>
       (readText ts).map fun (v, rest) => ({ d with generatedAt := v }, rest) },
   { name := "series", isSet := (·.series.isSome),
     take := fun d ts =>
       (readArray Item.read ts).map fun (v, rest) => ({ d with series := v }, rest) }]

def Draft.finish (d : Draft) : Option Manifest := do
  return ⟨← d.version, ← d.title, ← d.generatedAt, ← d.series⟩

def ofBytes (bytes : List UInt8) : Except Problem Manifest :=
  readOnly (readRecord fields {} Draft.finish) bytes

end RewardPlot.Manifest
