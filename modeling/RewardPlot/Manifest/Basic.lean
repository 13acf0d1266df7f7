import RewardPlot.Chart
/-!
# Manifests

A manifest records what was plotted: the series in order, each with its length, its
masked positions and its sum.
-/

namespace RewardPlot

structure Manifest.Item where
  label : String
  points : UInt64
  masked : UInt64
  /-- The sum of the values, if it is finite. -/
  sum : Option Binary64
deriving DecidableEq

structure Manifest where
  version : String
  title : String
  generatedAt : String
  series : List Manifest.Item
deriving DecidableEq

namespace Manifest

def currentVersion : String := "1.0.0"

def Item.ofSeries (s : Series) : Item :=
  { label := s.label
    points := .ofNat s.trace.length
    masked := .ofNat s.trace.masked
    sum := if s.trace.sum.isFinite then some s.trace.sum else none }

/-- The record of a chart at some time. -/
def ofChart (generatedAt : String) (c : Chart) : Manifest :=
  ⟨currentVersion, c.settings.title, generatedAt, c.series.map Item.ofSeries⟩

/-- Equal sums: none on both sides, or numbers of one value. -/
def sameSum : Option Binary64 → Option Binary64 → Bool
  | none, none => true
  | some a, some b => a.coincides b
  | _, _ => false

/-- Equal records, where both zeros are one sum. -/
def Item.same (a b : Item) : Bool :=
  a.label == b.label && a.points == b.points && a.masked == b.masked && sameSum a.sum b.sum

def sameSeries : List Item → List Item → Bool
  | [], [] => true
  | a :: as, b :: bs => a.same b && sameSeries as bs
  | _, _ => false

/-- The same title and series, whenever they were written down. -/
def agrees (a b : Manifest) : Bool := a.title == b.title && sameSeries a.series b.series

def same (a b : Manifest) : Bool :=
  a.version == b.version && a.generatedAt == b.generatedAt && a.agrees b

end Manifest

end RewardPlot
