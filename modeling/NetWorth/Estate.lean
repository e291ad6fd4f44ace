import NetWorth.Possession

/-! The net worth of an owner on one date. -/
namespace NetWorth

/-- What an owner has on a date. Possessions that are acquired later may be among them. -/
structure Estate where
  name : String
  owner : String
  date : Date
  possessions : List Possession
  deriving DecidableEq

namespace Estate

def possession? (e : Estate) (name : String) : Option Possession :=
  e.possessions.find? fun p => p.name = name

def held (e : Estate) : List Possession :=
  e.possessions.filter (·.heldOn e.date)

def aggregate (e : Estate) : Amount :=
  Amount.total (e.held.map (·.value))

/-- The estate on another date: every possession is moved there that is held by then. -/
def moveTo (e : Estate) (date : Date) : Estate :=
  { e with date, possessions := e.possessions.map (·.moveTo date) }

/-- On another date, those are held that are acquired by then. -/
theorem held_moveTo (e : Estate) (date : Date) :
    (e.moveTo date).held = (e.possessions.filter (·.heldOn date)).map (·.moveTo date) := by
  simp only [held, moveTo, List.filter_map]
  congr 1
  apply List.filter_congr
  intro p _
  exact p.heldOn_moveTo date

end Estate

structure PossessionSummary where
  name : String
  kind : String
  since : Date
  value : Amount
  deriving DecidableEq

structure EstateSummary where
  name : String
  owner : String
  date : Date
  aggregate : Amount
  possessions : List PossessionSummary
  deriving DecidableEq

def Possession.summary (p : Possession) : PossessionSummary :=
  ⟨p.name, p.kind, p.since, p.value⟩

def Estate.summary (e : Estate) : EstateSummary :=
  ⟨e.name, e.owner, e.date, e.aggregate, e.possessions.map (·.summary)⟩

end NetWorth
