import TrustInfrastructure.Blobs.Uploads

/-!
# Records and the blobs they name

A record write names a list of blobs. It is prepared, refused or applied in one step under the lock: what the
record gained is referenced, what it dropped is released, and a blob whose last reference goes is orphaned and
stops counting against its room and member at once. An orphan named again is charged again, to the writer's member.

A blob that is orphaned or collected also leaves its room's open migration (`dropFromMigration`).
-/

namespace TrustInfrastructure.Blobs

open Lib
open Rooms (Room)
open Std (ExtTreeMap)

namespace Host

variable (h : Host)

/-- Drop a blob from its room's open migration: before its switch, its plan row and reservation go; after, it
leaves what is done as well as the totals. -/
def dropFromMigration (roomId blobRef : String) : Host :=
  match h.migrations[roomId]? with
  | none => h
  | some m =>
    if !m.state.isOpen then h
    else
      match h.plan[(roomId, blobRef)]? with
      | some size =>
        { h.unreserve m.toConfig size with
          plan := h.plan.erase (roomId, blobRef)
          migrations := h.migrations.insert roomId
            { m with
              reservedBytes := m.reservedBytes - size
              totalFiles := m.totalFiles - 1
              totalBytes := m.totalBytes - size } }
      | none =>
        match h.done[(roomId, blobRef)]? with
        | some size =>
          { h with
            done := h.done.erase (roomId, blobRef)
            migrations := h.migrations.insert roomId
              { m with
                doneFiles := m.doneFiles - 1
                doneBytes := m.doneBytes - size
                totalFiles := m.totalFiles - 1
                totalBytes := m.totalBytes - size } }
        | none => h

def putBlob (roomId blobRef : String) (entry : BlobEntry) : Host :=
  { h with blobs := h.blobs.insert (roomId, blobRef) entry }

/-- One more record names the blob. -/
def reference (roomId blobRef : String) (member : Option String) (entry : BlobEntry) : Host :=
  if entry.state = .orphaned then
    let charged : BlobEntry :=
      { entry with refs := entry.refs + 1, state := .committed, orphanedAt := none, chargedTo := member }
    (h.charge roomId charged true).putBlob roomId blobRef charged
  else h.putBlob roomId blobRef { entry with refs := entry.refs + 1 }

/-- One record fewer names the blob. -/
def dereference (roomId blobRef : String) (entry : BlobEntry) : Host :=
  if entry.refs - 1 = 0 ∧ entry.state = .committed then
    let orphan : BlobEntry := { entry with refs := entry.refs - 1, state := .orphaned, orphanedAt := some h.now }
    ((h.charge roomId orphan false).dropFromMigration roomId blobRef).putBlob roomId blobRef orphan
  else h.putBlob roomId blobRef { entry with refs := entry.refs - 1 }

def adjustRefs (roomId blobRef : String) (delta : Int) (member : Option String) : Host :=
  match h.blob roomId blobRef with
  | none => h
  | some entry => if 0 < delta then h.reference roomId blobRef member entry else h.dereference roomId blobRef entry

/-- `record_blobs`: the blobs the current version of a record names. -/
def blobsOf (roomId recordKey : String) : List String := h.recordBlobs[(roomId, recordKey)]?.getD []

/-- The record goes from naming `previous` to naming `blobs`. -/
def applyRefs (roomId recordKey : String) (previous blobs : List String) (member : Option String) : Host :=
  if previous.isEmpty && blobs.isEmpty then h
  else
    let gained := (blobs.filter fun b => !previous.contains b).foldl (fun h b => h.adjustRefs roomId b 1 member) h
    let dropped :=
      (previous.filter fun b => !blobs.contains b).foldl (fun h b => h.adjustRefs roomId b (-1) member) gained
    { dropped with
      recordBlobs :=
        if blobs.isEmpty then dropped.recordBlobs.erase (roomId, recordKey)
        else dropped.recordBlobs.insert (roomId, recordKey) blobs }

/-- The blobs a write would charge again: orphans it names that the record did not name before. -/
def recharged (roomId : String) (previous blobs : List String) : List String :=
  blobs.filter fun b => (h.blob roomId b).any (fun entry => entry.state == .orphaned) && !previous.contains b

def sizeOf (roomId : String) (blobs : List String) : Nat :=
  (blobs.map fun b => (h.blob roomId b).elim 0 (·.size)).sum

/-- `prepare_record`: every blob must be committed in the room, and what is charged again must fit. -/
def prepareRecord (env : Env) (room : Room) (member : Option String) (recordKey : String) (blobs : List String) :
    Except BlobError Unit :=
  let member := chargedMember room member
  if blobs.any fun b => (h.blob room.roomId b).isNone then .error .notFound
  else
    let again := h.recharged room.roomId (h.blobsOf room.roomId recordKey) blobs
    if again.isEmpty then .ok ()
    else
      h.checkTotals env room.roomId member again.length (h.sizeOf room.roomId again) false
        (h.limitsFor env room.roomId member)

def writeRecord (env : Env) (room : Room) (member : Option String) (recordKey : String) (blobs : List String) :
    Answer Unit :=
  match h.prepareRecord env room member recordKey blobs with
  | .error e => (.error e, h)
  | .ok () =>
    (.ok (), h.applyRefs room.roomId recordKey (h.blobsOf room.roomId recordKey) blobs (chargedMember room member))

/-- A retraction: `prepare_release`, applied. -/
def releaseRecord (roomId recordKey : String) : Host :=
  h.applyRefs roomId recordKey (h.blobsOf roomId recordKey) [] none

/-- A prune: `RecordsLock::release`. -/
def releaseRecords (roomId : String) (recordKeys : List String) : Host :=
  recordKeys.foldl (fun h recordKey => h.releaseRecord roomId recordKey) h

end Host

end TrustInfrastructure.Blobs
