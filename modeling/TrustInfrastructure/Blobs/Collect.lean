import TrustInfrastructure.Blobs.Migrate

/-!
# Collection and purge

One pass of `sweep` reads the rows of a kind without the lock and then works through what it read, a row at a time
under the lock: `Pass` is what is left to work through, and other steps run between two rows. A blob row is read
again before its blob is collected, and so is a moved copy's; an upload row is not, and what is written back is the
row as it was read.

`purgeRoom` removes all a host holds for a room in one step, as far as the stores delete what they are asked to.
-/

namespace TrustInfrastructure.Blobs

open Lib
open Std (ExtTreeMap)

def finishedUploadRetentionSecs : Nat := 24 * 60 * 60

def retentionDays : Nat := 400

/-- The sum of two `u64`, as a release build computes it. -/
def wrappingAdd (a b : Nat) : Nat := (a + b) % 2 ^ 64

/-- Past its grace: orphaned that long ago, or committed that long ago and never named by a record. -/
def BlobEntry.due (entry : BlobEntry) (grace now : Nat) : Bool :=
  match entry.state with
  | .orphaned => wrappingAdd (entry.orphanedAt.getD 0) grace ≤ now
  | .committed => entry.refs == 0 && wrappingAdd entry.committedAt grace ≤ now

/-- What a pass has still to work through. -/
inductive Pass where
  | idle
  | blobs (now : Nat) (rows : List ((String × String) × BlobEntry))
  | moved (now : Nat) (keys : List (String × String × Nat))
  | uploads (now : Nat) (rows : List (Nat × UploadRecord))
  | downloads (rows : List (Nat × DownloadRecord))

structure PurgeStats where
  deleted : Nat := 0
  remaining : Nat := 0
  deriving DecidableEq

def PurgeStats.isComplete (stats : PurgeStats) : Bool := stats.remaining == 0

namespace Host

variable (h : Host)

/-! ### Rows of a pass -/

def collected (roomId blobRef : String) (entry : BlobEntry) : Host :=
  let deleted := h.deleteObject entry.configId entry.backendRef
  let credited := if entry.state = .committed then deleted.charge roomId entry false else deleted
  { credited.uncountCopy entry.configId entry.size with blobs := h.blobs.erase (roomId, blobRef) }

/-- A blob that was due when the pass read it is collected, unless a record has named it since. -/
def collectBlob (roomId blobRef : String) : Host :=
  match h.blob roomId blobRef with
  | none => h
  | some entry =>
    if 0 < entry.refs then h else (h.collected roomId blobRef entry).dropFromMigration roomId blobRef

def sweepMoved (grace now : Nat) (key : String × String × Nat) : Host :=
  match h.moved[key]? with
  | none => h
  | some row =>
    if now < wrappingAdd row.movedAt grace then h
    else
      let deleted :=
        if h.names key.1 key.2.1 row.configId row.backendRef then h else h.deleteObject row.configId row.backendRef
      { deleted.uncountCopy row.configId row.size with moved := h.moved.erase key }

def lapsed (now id : Nat) (rec : UploadRecord) : Bool :=
  if rec.alreadyCommitted then rec.createdAt + alreadyCommittedTtlSecs ≤ now
  else
    match rec.direct with
    | some d => d.expiresAt ≤ h.now
    | none => (h.liveSlot id).isNone

/-- A finished upload's record goes, with the indices that name it. -/
def forgetUpload (id : Nat) (rec : UploadRecord) : Host :=
  let opened := (rec.opener, rec.roomId, rec.blobRef)
  { h with
    uploads := h.uploads.erase id
    uploadIndex := if h.uploadIndex[opened]? = some id then h.uploadIndex.erase opened else h.uploadIndex
    signerIndex :=
      match rec.uploadKeyDid with
      | some key => if h.signerIndex[key]? = some id then h.signerIndex.erase key else h.signerIndex
      | none => h.signerIndex }

/-- An upload row of the pass, as it was read: released if it was open and has lapsed, forgotten if it was finished
long ago. -/
def sweepUpload (now id : Nat) (rec : UploadRecord) : Host :=
  match rec.phase with
  | .opened =>
    if h.lapsed now id rec then
      let reclaimed := h.abortDirect rec
      (if rec.alreadyCommitted then reclaimed else reclaimed.releaseReservation rec).putUpload id
        { rec with phase := .released, finishedAt := some now }
    else h
  | _ => if rec.finishedAt.getD rec.createdAt + finishedUploadRetentionSecs ≤ now then h.forgetUpload id rec else h

/-- `sweep_bundles`: slots past their expiry are expired, and finished ones forgotten after a day. -/
def sweepSlots : Host :=
  { h with
    slots := h.slots.filterMap fun _ slot =>
      if !slot.state.isTerminal && slot.expiresAt ≤ h.now then some { slot with state := .expired, staged := false }
      else if slot.state.isTerminal && slot.createdAt + slotRetention ≤ h.now then none
      else some slot }

/-- `roll_days`: today's row for every scope that has had activity, and the rows past retention dropped. -/
def rollDays : Host :=
  let rolled := h.lastUpload.keys.foldl (fun h scope => h.touchDay scope {}) h
  { rolled with days := rolled.days.filter fun key _ => h.today ≤ key.2 + retentionDays }

/-! ### The pass -/

def startSweep : Host × Pass := (h.sweepSlots, .blobs h.now h.blobs.toList)

def nextRow (env : Env) : Pass → Host × Pass
  | .idle => (h, .idle)
  | .blobs now [] => (h, .moved now h.moved.keys)
  | .blobs now (row :: rows) =>
    (if row.2.due env.limits.orphanGraceSecs now then h.collectBlob row.1.1 row.1.2 else h, .blobs now rows)
  | .moved now [] => (h, .uploads now h.uploads.toList)
  | .moved now (key :: keys) => (h.sweepMoved env.limits.orphanGraceSecs now key, .moved now keys)
  | .uploads _ [] => (h, .downloads h.downloads.toList)
  | .uploads now (row :: rows) => (h.sweepUpload now row.1 row.2, .uploads now rows)
  | .downloads [] => (h.rollDays, .idle)
  | .downloads (row :: rows) =>
    (if row.2.expiresAt ≤ h.now then { h with downloads := h.downloads.erase row.1 } else h, .downloads rows)

/-! ### Purge -/

abbrev Purging := PurgeStats × Host

/-- Ask a store to delete an object. `fails` says which deletions the stores refuse. -/
def purgeObject (fails : String → ObjectKey → Bool) (configId : String) (key : ObjectKey) (p : Purging) :
    Bool × Purging :=
  if fails configId key then (false, { p.1 with remaining := p.1.remaining + 1 }, p.2)
  else (true, { p.1 with deleted := p.1.deleted + 1 }, p.2.deleteObject configId key)

/-- An upload of the room: aborted at storage when it is open, its reservation on the shared counters given back and
its rows removed. -/
def purgeUpload (fails : String → ObjectKey → Bool) (p : Purging) (row : Nat × UploadRecord) : Purging :=
  let (id, rec) := row
  let stopped : Bool × Purging :=
    if rec.phase ≠ .opened then (true, p)
    else
      match rec.direct with
      | some d =>
        if fails (rec.configId.getD "") d.objectKey then (false, { p.1 with remaining := p.1.remaining + 1 }, p.2)
        else (true, p.1, p.2.abortDirect rec)
      | none => (true, p.1, if rec.alreadyCommitted then p.2 else p.2.abortSlot rec.opener id)
  if !stopped.1 then stopped.2
  else
    let h := stopped.2.2
    let released :=
      if rec.reserves then
        h.updateStorage rec.configId fun s => { s with reservedBytes := s.reservedBytes - rec.size }
      else h
    (stopped.2.1, released.forgetUpload id rec)

/-- The room's migration: its unswitched copy deleted, the reservation it holds given back, and its rows removed. A
copy that cannot be deleted leaves everything in place. -/
def purgeMigration (fails : String → ObjectKey → Bool) (roomId : String) (p : Purging) : Purging :=
  let copy : Option (String × InFlight × ObjectKey) := do
    let m ← p.2.migrations[roomId]?
    let flight ← m.inFlight
    let copy ← flight.copy
    if p.2.names roomId flight.blobRef m.toConfig copy then none else some (m.toConfig, flight, copy)
  let deleted : Bool × Purging :=
    match copy with
    | none => (true, p)
    | some (configId, _, key) => purgeObject fails configId key p
  if !deleted.1 then deleted.2
  else
    let h := deleted.2.2
    let released :=
      match h.migrations[roomId]? with
      | some m => h.unreserve m.toConfig m.reservedBytes
      | none => h
    (deleted.2.1,
      { released with
        migrations := h.migrations.erase roomId
        plan := h.plan.filter fun key _ => key.1 ≠ roomId
        done := h.done.filter fun key _ => key.1 ≠ roomId })

def purgeMoved (fails : String → ObjectKey → Bool) (p : Purging) (row : (String × String × Nat) × MovedCopy) :
    Purging :=
  let (key, copy) := row
  let deleted : Bool × Purging :=
    if p.2.names key.1 key.2.1 copy.configId copy.backendRef then (true, p)
    else purgeObject fails copy.configId copy.backendRef p
  if !deleted.1 then deleted.2
  else
    (deleted.2.1, { deleted.2.2.uncountCopy copy.configId copy.size with moved := deleted.2.2.moved.erase key })

def purgeBlob (fails : String → ObjectKey → Bool) (p : Purging) (row : (String × String) × BlobEntry) : Purging :=
  let (key, entry) := row
  let deleted := purgeObject fails entry.configId entry.backendRef p
  if !deleted.1 then deleted.2
  else
    (deleted.2.1, { deleted.2.2.uncountCopy entry.configId entry.size with blobs := deleted.2.2.blobs.erase key })

/-- The room's own bookkeeping, which goes once nothing is left to retry. -/
def purgeBookkeeping (roomId : String) : Host :=
  { h with
    recordBlobs := h.recordBlobs.filter fun key _ => key.1 ≠ roomId
    usage := h.usage.filter fun scope _ => scope.1 ≠ roomId
    days := h.days.filter fun key _ => key.1.1 ≠ roomId
    lastUpload := h.lastUpload.filter fun scope _ => scope.1 ≠ roomId
    roomOverrides := h.roomOverrides.erase roomId
    memberOverrides := h.memberOverrides.filter fun key _ => key.1 ≠ roomId }

/-- `purge_room`. -/
def purgeRoom (fails : String → ObjectKey → Bool) (roomId : String) : Purging :=
  let served : Host := { h with downloads := h.downloads.filter fun _ rec => rec.roomId ≠ roomId }
  let uploads := (served.uploads.toList.filter fun row => row.2.roomId = roomId).foldl (purgeUpload fails) ({}, served)
  let migration := purgeMigration fails roomId uploads
  let moved := (migration.2.moved.toList.filter fun row => row.1.1 = roomId).foldl (purgeMoved fails) migration
  let blobs := (moved.2.blobs.toList.filter fun row => row.1.1 = roomId).foldl (purgeBlob fails) moved
  if blobs.1.isComplete then (blobs.1, blobs.2.purgeBookkeeping roomId) else blobs

end Host

end TrustInfrastructure.Blobs
