import TrustInfrastructure.Lib.Program
import TrustInfrastructure.Rooms.Types

/-!
# The room store

`vti-rooms/src/storage.rs`: the keyspaces a host keeps its rooms in, the keys of their rows, and the
operations on one room. A keyspace is a finite map from storage key to decoded row; a write of a row
replaces it whole. Every operation is a `Program` over the store, so where its reads and writes fall, and
in which order, is part of the model.
-/

namespace TrustInfrastructure.Rooms

open Lib (Interface Program)
open Std (ExtTreeMap)

/-! ### Keys -/

def roomKey (roomId : String) : String := "rooms:" ++ roomId

/-- `<scope><len>:<roomId>:`, every row of one room and of no other. -/
def roomScope (scope roomId : String) : String :=
  scope ++ toString roomId.utf8ByteSize ++ ":" ++ roomId ++ ":"

def recordScope (roomId : String) : String := roomScope "room_records/v2:" roomId

def recordKey (roomId key : String) : String := recordScope roomId ++ key

def epochLinkScope (roomId : String) : String := roomScope "room_epoch_links/v2:" roomId

/-- `key` begins with `scope`. -/
def inScope (scope key : String) : Bool := scope.toList.isPrefixOf key.toList

@[simp] theorem recordKey_inj {roomId key key' : String} :
    recordKey roomId key = recordKey roomId key' ↔ key = key' := by
  constructor
  · intro h
    have h' := congrArg String.toList h
    simp only [recordKey, String.toList_append, List.append_cancel_left_eq] at h'
    exact String.toList_inj.mp h'
  · rintro rfl
    rfl

@[simp] theorem inScope_append (scope key : String) : inScope scope (scope ++ key) = true := by
  simp [inScope, String.toList_append]

theorem inScope_iff {scope key : String} : inScope scope key = true ↔ ∃ rest, key = scope ++ rest := by
  constructor
  · intro h
    obtain ⟨rest, hrest⟩ := List.isPrefixOf_iff_prefix.mp h
    refine ⟨String.ofList rest, ?_⟩
    apply String.toList_inj.mp
    rw [String.toList_append, String.toList_ofList, hrest]
  · rintro ⟨rest, rfl⟩
    exact inScope_append scope rest

/-! ### The store -/

structure HostStore where
  rooms : ExtTreeMap String Room
  records : ExtTreeMap String Record
  links : ExtTreeMap String EpochLink

namespace HostStore

def empty : HostStore := ⟨∅, ∅, ∅⟩

/-- The row of room `roomId`. -/
def room (s : HostStore) (roomId : String) : Option Room := s.rooms[roomKey roomId]?

/-- The row of record `key` of room `roomId`. -/
def record (s : HostStore) (roomId key : String) : Option Record := s.records[recordKey roomId key]?

end HostStore

/-- The atomic operations of a `KeyspaceHandle` that the room store uses. -/
inductive StoreOp where
  | getRoom (key : String)
  | insertRoom (key : String) (room : Room)
  | getRecord (key : String)
  | insertRecord (key : String) (record : Record)
  | removeRecord (key : String)
  | scanRecords (scope : String)
  | scanLinks (scope : String)
  | removeLink (key : String)

namespace StoreOp

def Reply : StoreOp → Type
  | .getRoom _ => Option Room
  | .getRecord _ => Option Record
  | .scanRecords _ => List (String × Record)
  | .scanLinks _ => List (String × EpochLink)
  | _ => Unit

def exec : (o : StoreOp) → HostStore → o.Reply × HostStore
  | .getRoom key, s => (s.rooms[key]?, s)
  | .insertRoom key room, s => ((), { s with rooms := s.rooms.insert key room })
  | .getRecord key, s => (s.records[key]?, s)
  | .insertRecord key record, s => ((), { s with records := s.records.insert key record })
  | .removeRecord key, s => ((), { s with records := s.records.erase key })
  | .scanRecords scope, s => (s.records.toList.filter fun row => inScope scope row.1, s)
  | .scanLinks scope, s => (s.links.toList.filter fun row => inScope scope row.1, s)
  | .removeLink key, s => ((), { s with links := s.links.erase key })

def writes : StoreOp → Bool
  | .insertRoom _ _ | .insertRecord _ _ | .removeRecord _ | .removeLink _ => true
  | _ => false

end StoreOp

@[reducible] def hostInterface : Interface where
  State := HostStore
  Op := StoreOp
  Reply := StoreOp.Reply
  exec := StoreOp.exec
  writes := StoreOp.writes
  exec_read o s h := by cases o <;> simp_all [StoreOp.writes, StoreOp.exec]

abbrev HostProgram (α : Type) := Program hostInterface AppError α

/-! ### Reading -/

/-- Fetch a room, or `NotFound`. -/
def getRoom (roomId : String) : HostProgram Room :=
  .op (.getRoom (roomKey roomId)) fun (row : Option Room) =>
    match row with
    | some room => .ret (.ok room)
    | none => .ret (.error (.notFound s!"room `{roomId}` not found"))

/-- Fetch one record, or `NotFound`. -/
def getRecord (roomId key : String) : HostProgram Record :=
  .op (.getRecord (recordKey roomId key)) fun (row : Option Record) =>
    match row with
    | some record => .ret (.ok record)
    | none => .ret (.error (.notFound s!"record `{key}` not found in `{roomId}`"))

def insertRoom (roomId : String) (room : Room) : HostProgram Unit :=
  Program.perform (I := hostInterface) (.insertRoom (roomKey roomId) room)

def insertRecord (roomId key : String) (record : Record) : HostProgram Unit :=
  Program.perform (I := hostInterface) (.insertRecord (recordKey roomId key) record)

def removeRecord (roomId key : String) : HostProgram Unit :=
  Program.perform (I := hostInterface) (.removeRecord (recordKey roomId key))

end TrustInfrastructure.Rooms
