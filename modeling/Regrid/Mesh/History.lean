import Regrid.Mesh.Call

/-!
# Histories of rosters

A roster is changed by one call after the other, and each call that does not fail tells what it did.
The events of a run are its history. `RosterEvent.remaining` reads off a history which entities are
there in the end: those that nothing ended after they were taken.

Model of the calls on one `GridMap`.
-/

namespace Regrid

/-- One call that changes a roster. -/
inductive RosterCall (ε : Type) where
  | insert (x : ε)
  | remove (index : Int)
  | fix (size : Number)
  | clear
  | recount

/-- What a call did that did not fail. -/
inductive RosterEvent (ε : Type) where
  /-- An entity was taken, with the identifier it has from then on. -/
  | taken (x : ε)
  | removed (x : ε)
  | cleared
  /-- Entities neither came nor went. -/
  | kept

variable {ε : Type} [Numbered ε]

namespace RosterEvent

/-- Whether an event ends the stay of an entity. -/
def ends (x : ε) : RosterEvent ε → Bool
  | removed y => Numbered.index y == Numbered.index x
  | cleared => true
  | taken _ | kept => false

/-- The entities that were taken and whose stay no later event ended, in the order in which they
were taken. -/
def remaining : List (RosterEvent ε) → List ε
  | [] => []
  | taken x :: later => if later.any (ends x) then remaining later else x :: remaining later
  | _ :: later => remaining later

end RosterEvent

namespace RosterCall

/-- What a call does. -/
def run : RosterCall ε → Attempt (Roster ε) (RosterEvent ε)
  | insert x => return .taken (← Roster.insert x)
  | remove index => return .removed (← Roster.remove index)
  | fix size => do
    Roster.fix size
    return .kept
  | clear => do
    modify Roster.clear
    return .cleared
  | recount => do
    modify Roster.recount
    return .kept

/-- The roster after many calls, and what happened. A call that fails does not keep the next ones
from being made, and tells nothing. -/
def runAll : List (RosterCall ε) → Roster ε → Roster ε × List (RosterEvent ε)
  | [], r => (r, [])
  | call :: calls, r =>
    match call.run.run r with
    | .ok event r =>
      let (r, events) := runAll calls r
      (r, event :: events)
    | .error _ r => runAll calls r

end RosterCall

end Regrid
