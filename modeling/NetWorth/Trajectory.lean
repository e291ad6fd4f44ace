import NetWorth.Case
import NetWorth.Settings

/-! Charts of a case: what it is worth on the dates of a timeline, in all and by possession. -/
namespace NetWorth

/-- What a case is worth on a date. Possessions of one name are taken together. -/
structure TrajectoryPoint where
  date : Date
  aggregate : Amount
  byName : NameMap Amount
  deriving DecidableEq

structure Trajectory where
  caseName : String
  points : List TrajectoryPoint
  deriving DecidableEq

def Estate.valuesByName (e : Estate) : NameMap Amount :=
  e.held.foldl (fun m p => m.insert p.name (((m.find? p.name).getD 0).plus p.value)) .empty

def Estate.point (e : Estate) : TrajectoryPoint :=
  ⟨e.date, e.aggregate, e.valuesByName⟩

namespace Case

def sampleBetween (c : Case) (start stop : Date) (s : Settings) : Trajectory :=
  let timeline : Timeline := ⟨start, stop, s.interval, s.budget⟩
  ⟨c.name, timeline.dates.map fun date => (c.estate.moveTo date).point⟩

def sample (c : Case) (s : Settings) : Trajectory :=
  c.sampleBetween c.start c.stop s

end Case

namespace Trajectory

def series (t : Trajectory) (name : String) : List (Date × Amount) :=
  t.points.filterMap fun p => (p.byName.find? name).map fun value => (p.date, value)

def aggregateSeries (t : Trajectory) : List (Date × Amount) :=
  t.points.map fun p => (p.date, p.aggregate)

end Trajectory

end NetWorth
