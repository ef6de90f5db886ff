import TrustInfrastructure.Rooms.Storage

/-!
# The operations on one room

The writers of `vti-rooms/src/storage.rs`, each as the program it is: `put_record`, `curate_record` and
`remove_pruned` assign versions from the room's counter; `advance_epoch`, `set_owner`, `set_frozen` and
`prune_chain_to_floor` rewrite the room row from a copy read earlier; `store_mirrored_record` is a mirror's
copy of a record its primary numbered. What an operation checks and what it computes from the rows it read
are definitions of their own (`checkExpected`, `checkContent`, `stampPut`, `stampCuration`, ...), so the
programs show only the order of the store's reads and writes.
-/

namespace TrustInfrastructure.Rooms

open Lib (Program)

/-- Rust's `{:?}` of an `Option<u32>`. -/
def debugOption : Option Nat → String
  | none => "None"
  | some n => "Some(" ++ toString n ++ ")"

/-! ### Rows as the hosts first build them -/

/-- `DEFAULT_EPOCH_LIFETIME_DAYS`, in seconds. -/
def epochLifetimeSeconds : Nat := 365 * 24 * 60 * 60

def defaultRetentionDays : Nat := 90

def newRoom (roomId ownerDid : String) (terms : CreateRoomTerms) (recordRetention : Option RecordRetention)
    (now : Nat) : Room where
  roomId := roomId
  ownerDid := ownerDid
  visibility := terms.visibility
  retentionPolicy := terms.retentionPolicy
  anchorCadence := terms.anchorCadence
  epoch := 1
  nextVersion := 1
  retentionDays := terms.retentionDays.getD defaultRetentionDays
  epochExpiresAt := some (now + epochLifetimeSeconds)
  createdAt := now
  updatedAt := now
  mirrorOf := none
  recordRetention := recordRetention.filter fun r => !r.isEmpty || r.ext.isSome
  lastPrune := none
  epochFloor := none
  frozenAt := none

/-- The record a host hands to `put_record` for a write by `subject`. -/
def writtenRecord (visibility : Visibility) (subject key : String) (sealed : Option SealedContent)
    (cleartext : Option Lib.Value) : Record where
  key := key
  version := 0
  epoch := sealed.map SealedContent.epoch
  status := .active
  pinned := false
  sealed := sealed.map SealedContent.ciphertext
  nonce := sealed.map SealedContent.nonce
  sealedVersion := none
  cleartext := cleartext
  author := if visibility.disclosesActor then some subject else none
  updatedAt := 0
  createdAt := none
  createdBy := none
  bodyStoredAt := none

/-! ### `put_record` -/

/-- The precondition a caller may attach: `some 0` creates only, `some n` replaces version `n` only. -/
def checkExpected (key : String) (existing : Option Record) (expectedVersion : Option Nat) :
    Except AppError Unit :=
  match expectedVersion with
  | none => .ok ()
  | some expected =>
    match existing, expected with
    | some _, 0 => .error (.conflict s!"record `{key}` already exists (create-only requested)")
    | none, 0 => .ok ()
    | some current, n =>
      if current.version ≠ n then
        .error (.conflict ("record `" ++ key ++ "` is at version " ++ toString current.version ++ ", not "
          ++ toString n))
      else .ok ()
    | none, n =>
      .error (.conflict s!"record `{key}` does not exist, so it cannot be at version {n}")

/-- The content must have the shape of the room's tier, sealed under the room's current epoch, and a
private room carries no author. -/
def checkContent (roomId : String) (room : Room) (record : Record) : Except AppError Unit :=
  if room.visibility.storesCleartext then
    if record.sealed.isSome then
      .error (.validation "an open room stores cleartext records; `sealed` was supplied")
    else if record.cleartext.isNone then
      .error (.validation "an open room requires `cleartext`")
    else .ok ()
  else if record.cleartext.isSome then
    .error (.validation ("room `" ++ roomId ++ "` is " ++ room.visibility.debug
      ++ "; cleartext must not be stored here"))
  else if record.sealed.isNone then
    .error (.validation "a sealed room requires `sealed` content")
  else if record.epoch ≠ some room.epoch then
    .error (.validation ("record is sealed under epoch " ++ debugOption record.epoch ++ ", room `" ++ roomId
      ++ "` is at " ++ toString room.epoch))
  else if room.visibility = .privateRoom ∧ record.author.isSome then
    .error (.validation
      "a private room does not record an author; authorship belongs inside the sealed body")
  else .ok ()

/-- The record as the host stores it: numbered from the room's counter, its body bound to that number, its
times and first author the host's own. -/
def stampPut (room : Room) (existing : Option Record) (record : Record) (now : Nat) : Record :=
  { record with
    sealedVersion := record.sealed.map fun _ => room.nextVersion
    createdAt := match existing with
      | some current => current.createdAt
      | none => some now
    createdBy := match existing with
      | some current => current.createdBy
      | none => record.author
    bodyStoredAt := some now
    version := room.nextVersion
    updatedAt := now }

/-- The room with its counter moved on. The sum is a `u64`'s and wraps. -/
def takeVersion (room : Room) (now : Nat) : Room :=
  { room with nextVersion := (room.nextVersion + 1) % 2 ^ 64, updatedAt := now }

theorem nextVersion_takeVersion {room : Room} (h : room.nextVersion + 1 < 2 ^ 64) (now : Nat) :
    (takeVersion room now).nextVersion = room.nextVersion + 1 := Nat.mod_eq_of_lt h

/-- Write a record, assigning it the room's next version: the record row first, then the room row. -/
def putRecord (roomId : String) (record : Record) (expectedVersion : Option Nat) (now : Nat) :
    HostProgram Record := do
  let room ← getRoom roomId
  let existing ← (getRecord roomId record.key).ok
  Program.lift (checkExpected record.key existing expectedVersion)
  Program.lift (checkContent roomId room record)
  let stored := stampPut room existing record now
  insertRecord roomId record.key stored
  insertRoom roomId (takeVersion room now)
  return stored

/-! ### `curate_record` -/

def checkCuration (key : String) (record : Record) (curation : Curation) : Except AppError Unit :=
  match curation.expectedVersion with
  | some expected =>
    if record.version ≠ expected then
      .error (.conflict ("record `" ++ key ++ "` is at version " ++ toString record.version ++ ", not "
        ++ toString expected))
    else checkRestore
  | none => checkRestore
where
  /-- A retracted record is not restored to `active`: its body is gone. -/
  checkRestore : Except AppError Unit :=
    if record.status = .retracted ∧ curation.status = some .active then
      .error (.validation s!"record `{key}` is retracted; its body is gone and a status change cannot bring it back")
    else .ok ()

/-- Move a record's standing. Only a retraction drops the body. -/
def applyStatus (record : Record) (status : RecordStatus) : Record :=
  match status with
  | .retracted =>
    { record with status := status, sealed := none, nonce := none, sealedVersion := none, cleartext := none }
  | _ => { record with status := status }

def stampCuration (room : Room) (record : Record) (curation : Curation) (now : Nat) : Record :=
  let record := match curation.status with
    | some status => applyStatus record status
    | none => record
  let record := match curation.pinned with
    | some pinned => { record with pinned := pinned }
    | none => record
  { record with version := room.nextVersion, updatedAt := now }

/-- Change a record's standing without rewriting it: the record row first, then the room row. -/
def curateRecord (roomId key : String) (curation : Curation) (now : Nat) : HostProgram Record := do
  let record ← getRecord roomId key
  Program.lift (checkCuration key record curation)
  let room ← getRoom roomId
  let stored := stampCuration room record curation now
  insertRecord roomId key stored
  insertRoom roomId (takeVersion room now)
  return stored

/-! ### `remove_pruned` -/

def pruneMark (room : Room) (keys : List String) (now : Nat) : RecordPrune :=
  { version := room.nextVersion, prunedAt := now, removed := keys.length }

/-- Remove the records `keys` outright and leave the room its mark: the room row first, then the records. -/
def removePruned (roomId : String) (keys : List String) (now : Nat) : HostProgram RecordPrune := do
  if keys.isEmpty then
    Program.fail (.internal "a prune that removes nothing leaves no mark")
  else
    let room ← getRoom roomId
    let mark := pruneMark room keys now
    insertRoom roomId { takeVersion room now with lastPrune := some mark }
    Program.forEach keys fun key => removeRecord roomId key
    return mark

/-! ### The writers of the room row alone -/

/-- Advance a room's epoch by exactly one. The sum is a `u32`'s and wraps. -/
def advanceEpoch (roomId : String) (newEpoch now : Nat) : HostProgram Room := do
  let room ← getRoom roomId
  if newEpoch ≠ (room.epoch + 1) % 2 ^ 32 then
    Program.fail (.validation ("epoch must advance by exactly one: room `" ++ roomId ++ "` is at "
      ++ toString room.epoch ++ ", got " ++ toString newEpoch))
  else
    let room := { room with
      epoch := newEpoch
      epochExpiresAt := some (now + epochLifetimeSeconds)
      updatedAt := now }
    insertRoom roomId room
    return room

section
variable (validateDid : String → String → Except AppError Unit)

/-- Record a new owner, once `validate_did` has passed it. -/
def setOwner (roomId newOwnerDid : String) (now : Nat) : HostProgram Room := do
  Program.lift (validateDid "ownerDid" newOwnerDid)
  let room ← getRoom roomId
  let room := { room with ownerDid := newOwnerDid, updatedAt := now }
  insertRoom roomId room
  return room

end

/-- Freeze (`some`) or thaw (`none`) a room; `nowSecs` is the host's clock. -/
def setFrozen (roomId : String) (frozenAt : Option Nat) (nowSecs : Nat) : HostProgram Unit := do
  let room ← getRoom roomId
  insertRoom roomId { room with
    frozenAt := frozenAt
    updatedAt := max room.updatedAt (frozenAt.getD nowSecs) }

/-! ### The epoch key chain's rungs -/

def scanLinks (roomId : String) : HostProgram (List (String × EpochLink)) :=
  Program.perform (I := hostInterface) (.scanLinks (epochLinkScope roomId))

def removeLink (key : String) : HostProgram Unit :=
  Program.perform (I := hostInterface) (.removeLink key)

def listEpochLinks (roomId : String) : HostProgram (List EpochLink) := do
  let rows ← scanLinks roomId
  return (rows.map Prod.snd).insertionSort fun a b => a.epoch ≤ b.epoch

/-- Drop every rung numbered `epoch` or below; how many went. -/
def pruneEpochLinksBefore (roomId : String) (epoch : Nat) : HostProgram Nat := do
  let rows ← scanLinks roomId
  let dropped := rows.filter fun row => row.2.epoch ≤ epoch
  Program.forEach dropped fun row => removeLink row.1
  return dropped.length

/-- Drop the chain below `beforeEpoch`, and report how far back it still reaches. -/
def pruneChain (roomId : String) (beforeEpoch : Nat) : HostProgram (Nat × Nat) := do
  let dropped ← pruneEpochLinksBefore roomId (beforeEpoch - 1)
  let remaining ← listEpochLinks roomId
  return (dropped, ((remaining.map EpochLink.epoch).min?).getD beforeEpoch)

/-- The floor a prune leaves: never lower than the one held. -/
def raisedFloor (room : Room) (beforeEpoch : Nat) : Nat :=
  max (max (room.epochFloor.getD 0) (beforeEpoch - 1)) 1

/-- `pruneChain`, and the room's epoch floor raised, before the rungs go. -/
def pruneChainToFloor (roomId : String) (beforeEpoch now : Nat) : HostProgram (Nat × Nat × Nat) := do
  let room ← getRoom roomId
  let floor := raisedFloor room beforeEpoch
  insertRoom roomId { room with epochFloor := some floor, updatedAt := now }
  let (pruned, earliest) ← pruneChain roomId beforeEpoch
  return (pruned, earliest, floor)

/-! ### A mirror's copy -/

def checkMirrored (roomId : String) (room : Room) (record : Record) : Except AppError Unit :=
  if !room.isMirror then
    .error (.validation s!"room `{roomId}` is primaried here; a mirrored record has no meaning on a primary")
  else if record.version ≤ room.watermark ∧ 0 < room.watermark then
    .error (.conflict ("record `" ++ record.key ++ "` arrived at version " ++ toString record.version
      ++ ", at or below this mirror's watermark " ++ toString room.watermark
      ++ ";              a mirror does not go backwards"))
  else .ok ()

/-- Store a record pulled from a primary, exactly as the primary numbered it. -/
def storeMirroredRecord (roomId : String) (record : Record) (now : Nat) : HostProgram Record := do
  let room ← getRoom roomId
  Program.lift (checkMirrored roomId room record)
  insertRecord roomId record.key record
  insertRoom roomId { room with nextVersion := (record.version + 1) % 2 ^ 64, updatedAt := now }
  return record

end TrustInfrastructure.Rooms
