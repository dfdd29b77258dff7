import Pinboard.Json.Codec
import Pinboard.Store.Dashboards
import Pinboard.Store.Edit
import Pinboard.Store.Recency
import Pinboard.Store.Tags
import Pinboard.Store.Users

/-!
# Requests to the store

Everything that can be asked of the store, as one type with one answer type, so that runs of any
requests can be spoken of.
-/

namespace Pinboard.Store

open Json (Value)

/-- A request. Uses are recorded with the strategy that is named, or else the store's own. -/
inductive Request where
  /-- Make a user. -/
  | createUser (name : String)
  /-- Find a user. -/
  | findUser (id : UserId)
  /-- Remove a user. -/
  | removeUser (id : UserId)
  /-- Make a dashboard. -/
  | createDashboard (draft : Dashboard)
  /-- Find a dashboard. -/
  | findDashboard (owner : UserId) (id : UInt32)
  /-- List the dashboards of an owner. -/
  | listDashboards (owner : UserId)
  /-- Move a dashboard one step. -/
  | moveDashboard (owner : UserId) (id : UInt32) (d : Direction)
  /-- Number the dashboards of an owner anew. -/
  | reindexDashboards (owner : UserId)
  /-- Remove a dashboard. -/
  | removeDashboard (owner : UserId) (id : UInt32)
  /-- Make a tag. -/
  | createTag (tag : Tag)
  /-- Find a tag. -/
  | findTag (owner : UserId) (key : String)
  /-- List the tags of an owner by key. -/
  | listTags (owner : UserId)
  /-- List the tags of an owner by last use. -/
  | rankTags (owner : UserId)
  /-- Remove a tag. -/
  | removeTag (owner : UserId) (key : String)
  /-- Record a use, and report a failure. -/
  | recordUse (strategy : Option Dialect.Strategy) (owner : UserId) (key : String)
      (moment : Time.Instant)
  /-- Record uses as far as possible. -/
  | recordUses (strategy : Option Dialect.Strategy) (owner : UserId) (keys : List String)
      (moment : Time.Instant)
  /-- Find the last use of a key. -/
  | findUse (owner : UserId) (key : String)
  deriving DecidableEq

/-- The answer to a request. -/
inductive Reply where
  /-- It is done. -/
  | done
  /-- Whether anything was done. -/
  | flag (b : Bool)
  /-- A user, if there is one. -/
  | user (u : Option User)
  /-- A dashboard, if there is one. -/
  | dashboard (d : Option Dashboard)
  /-- Dashboards in order. -/
  | dashboards (ds : List Dashboard)
  /-- A tag, if there is one. -/
  | tag (t : Option Tag)
  /-- Tags in order. -/
  | tags (ts : List Tag)
  /-- The last use of a key, if there is one. -/
  | use (u : Option TagUse)
  /-- The uses that could not be recorded. -/
  | unrecorded (us : List Unrecorded)
  deriving DecidableEq

/-- An operation with its answer changed. -/
def Operation.map {α β : Type} (f : α → β) (op : Operation α) : Operation β := fun c =>
  match op c with
  | (.ok a, c) => (.ok (f a), c)
  | (.error r, c) => (.error r, c)

/-- What a request does. -/
def Request.run (s : Setting) (own : Dialect.Strategy) : Request → Operation Reply
  | createUser name => .map (.user ∘ some) (Store.createUser s name)
  | findUser id => .map .user (Store.findUser s id)
  | removeUser id => .map (fun _ => .done) (Store.removeUser s id)
  | createDashboard draft => .map (.dashboard ∘ some) (Store.createDashboard s draft)
  | findDashboard owner id => .map .dashboard (Store.findDashboard s owner id)
  | listDashboards owner => .map .dashboards (Store.listDashboards s owner)
  | moveDashboard owner id d => .map .flag (Store.moveDashboard s owner id d)
  | reindexDashboards owner => .map (fun _ => .done) (Store.reindexDashboards s owner)
  | removeDashboard owner id => .map (fun _ => .done) (Store.removeDashboard s owner id)
  | createTag tag => .map (.tag ∘ some) (Store.createTag s tag)
  | findTag owner key => .map .tag (Store.findTag s owner key)
  | listTags owner => .map .tags (Store.listTags s owner)
  | rankTags owner => .map .tags (Store.rankTags s owner)
  | removeTag owner key => .map (fun _ => .done) (Store.removeTag s owner key)
  | recordUse strategy owner key moment =>
    .map (fun _ => .done) (Store.recordUse s (strategy.getD own) owner key moment)
  | recordUses strategy owner keys moment => fun c =>
    let (us, c) := Store.recordUses s (strategy.getD own) owner moment keys c
    (.ok (.unrecorded us), c)
  | findUse owner key => .map .use (Store.findUse s owner key)

/-- A value that may be missing, as JSON. -/
def optionJson {α : Type} (f : α → Value) : Option α → Value
  | some a => f a
  | none => .null

/-- The JSON form of an answer. -/
def Reply.toJson : Reply → Value
  | done => .null
  | flag b => .bool b
  | user u => optionJson User.toJson u
  | dashboard d => optionJson Dashboard.toJson d
  | dashboards ds => .list (ds.map Dashboard.toJson)
  | tag t => optionJson Tag.toJson t
  | tags ts => .list (ts.map Tag.toJson)
  | use u => optionJson TagUse.toJson u
  | unrecorded _ => .null

end Pinboard.Store
