import Pinboard.Entity
import Pinboard.Ordering
import Pinboard.Store.Transaction
import Pinboard.Text.Blank

/-!
# Dashboards in the store

An owner's dashboards are shown by position, those at one position by number. Every operation that
changes the list writes the positions 0, 1, 2, … anew, in one transaction.
-/

namespace Pinboard.Store

/-- The dashboard in a row. -/
def DashboardRow.read (r : DashboardRow) : Except StorageError Dashboard := do
  let id ← readUInt32 r.id 0
  let owner ← readUInt32 r.owner 1
  let name ← r.name.readText 2 "name"
  let order ← readInt32 (← r.order.readInteger 3 "order") 3
  pure ⟨id, owner, name, order⟩

/-- Is one dashboard shown before another, or are they one? By position, then by number. -/
def DashboardRow.shownBefore (a b : DashboardRow) : Bool :=
  ((a.order.compare b.order).then (compare a.id b.id)).isLE

/-- The rows of an owner in the order they are shown in. -/
def Tables.shownDashboards (t : Tables) (owner : UserId) :
    Except StorageError (List DashboardRow) := do
  pure (((← t.dashboardRows).filter (·.owner == wide owner)).mergeSort
    DashboardRow.shownBefore)

/-- What a new position is called when it is read. -/
def nextOrderColumn : String := "COALESCE(MAX(\"order\"), -1) + 1"

/-- One more than the number in a cell. -/
def nextPosition (c : Cell) : Except StorageError Int32 :=
  match c.toInteger? with
  | some n =>
    if n < greatestInteger then readInt32 (n + 1) 0
    else .error (.wrongType (.real (.zero false)) 0 nextOrderColumn)
  | none => .error (.wrongType (.real (.zero false)) 0 nextOrderColumn)

/-- The position after an owner's last dashboard. -/
def Tables.nextOrder (t : Tables) (owner : UserId) : Except StorageError Int32 := do
  let rows ← t.dashboardRows
  match Cell.largest? ((rows.filter (·.owner == wide owner)).map (·.order)) with
  | some c => nextPosition c
  | none => pure 0

/-- Makes a dashboard at the end of its owner's list. The number and position of the draft do not
count. -/
def createDashboard (s : Setting) (draft : Dashboard) : Operation Dashboard :=
  if Text.allBlank draft.name then refused .blankDashboardName
  else transaction s do
    let order ← Steps.ask (·.nextOrder draft.owner)
    let number ← Steps.change (insertDashboard s none (some (.integer (wide draft.owner)))
      (some (.text draft.name)) (some (.integer order.toInt)))
    pure { draft with id := cut32 number, order := order }

/-- The dashboard of an owner with a number, if there is one. -/
def findDashboard (s : Setting) (owner : UserId) (id : UInt32) : Operation (Option Dashboard) :=
  inspect s (requireTable · .dashboards) fun t => fromStorage do
    match (← t.dashboardRows).find? fun r => r.id == wide id && r.owner == wide owner with
    | some r => some <$> r.read
    | none => pure none

/-- An owner's dashboards in the order they are shown in. -/
def listDashboards (s : Setting) (owner : UserId) : Operation (List Dashboard) :=
  inspect s (requireTable · .dashboards) fun t => fromStorage do
    (← t.shownDashboards owner).mapM DashboardRow.read

/-- The numbers of an owner's dashboards in the order they are shown in. -/
def Tables.orderedIds (t : Tables) (owner : UserId) : Except StorageError (List UInt32) := do
  (← t.shownDashboards owner).mapM fun r => readUInt32 r.id 0

/-- A place in a list as a position, which has 32 bits. -/
def positionOf (i : Nat) : Int := Int.bmod i 4294967296

/-- Writes the positions from `i` on to dashboards of an owner. -/
def writePositions (s : Setting) (owner : UserId) : Nat → List UInt32 → Steps Unit
  | _, [] => pure ()
  | i, id :: ids => do
    let _ ← Steps.changeMany (setOrder s (fun r => r.id == wide id && r.owner == wide owner)
      (some (.integer (positionOf i))))
    writePositions s owner (i + 1) ids

/-- Writes the positions of all dashboards of an owner in the order they are shown in. -/
def renumber (s : Setting) (owner : UserId) : Steps Unit := do
  let ids ← Steps.ask (·.orderedIds owner)
  writePositions s owner 0 ids

/-- Lets a dashboard and its neighbour change places. False, and nothing changed, when the owner
has no such dashboard or it has no neighbour on that side. -/
def moveDashboard (s : Setting) (owner : UserId) (id : UInt32) (d : Direction) :
    Operation Bool :=
  transactionIf s (fun moved => moved) do
    let ids ← Steps.ask (·.orderedIds owner)
    match (ids.findIdx? (· == id)).bind fun i => swapAdjacent? ids i d with
    | none => pure false
    | some swapped =>
      writePositions s owner 0 swapped
      pure true

/-- Writes the positions of an owner's dashboards anew. -/
def reindexDashboards (s : Setting) (owner : UserId) : Operation Unit :=
  transaction s (renumber s owner)

/-- Removes a dashboard of an owner and closes the gap. -/
def removeDashboard (s : Setting) (owner : UserId) (id : UInt32) : Operation Unit :=
  transactionFrom s (requireFor · .dashboards .delete) do
    let count ← Steps.changeMany (deleteDashboard s (wide owner) (wide id))
    if count = 0 then Steps.refuse (.dashboardMissing id)
    else renumber s owner

end Pinboard.Store
