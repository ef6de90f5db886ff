import TrustInfrastructure.Lib.Tally
import TrustInfrastructure.Rooms.Revocation

/-!
# Room files: what a host keeps

The rows of `vti_rooms::blobs::BlobHost`: blobs, uploads, record references, usage counters, migrations, and the
transfer slots and object stores behind them. A row's key is the tuple its text is built from, so the fields that repeat
the key (a blob's room and reference, an upload's identifier) are not repeated in the row, and two rooms share no key.
There the model idealises: the source's keys have `room_hash`, 128 bits of the SHA-256 of the room's identifier, in
place of the identifier, which no two rooms are taken to share. Sizes, counts and times in seconds are `u64` in the
source and `Nat` here; every subtraction is the source's saturating one, and the one sum that a configured number takes
part in, of a time and the orphan grace, wraps as there (`wrappingAdd`). `Uuid::new_v4` draws from `nextId`, so no
identifier is drawn twice.

A blob is named by the digest of its manifest. `Env.manifest` is that naming read backwards: the manifest a
reference is the digest of, which fixes the blob's size and bytes. An object in a store is the reference of the
blob whose bytes it has.
-/

namespace TrustInfrastructure.Blobs

open Lib
open Rooms (Visibility Presented AppError)
open Std (ExtTreeMap)

/-! ### Limits -/

structure ScopeLimits where
  maxFiles : Option Nat
  maxFileBytes : Option Nat
  maxBytes : Option Nat
  deriving DecidableEq

structure HostLimits where
  filesEnabled : Bool
  room : ScopeLimits
  member : ScopeLimits
  maxFileBytes : Nat
  storageCapacityBytes : Option Nat
  orphanGraceSecs : Nat
  deriving DecidableEq

structure RoomOverride where
  filesEnabled : Option Bool
  room : Option ScopeLimits
  memberDefault : Option ScopeLimits
  deriving DecidableEq

/-- The limits one upload is checked against. -/
structure Applied where
  filesEnabled : Bool
  room : ScopeLimits
  member : ScopeLimits
  deriving DecidableEq

inductive LimitScope where
  | member
  | room
  | storage
  | host
  deriving DecidableEq

inductive Measure where
  | maxFiles
  | maxFileBytes
  | maxBytes
  deriving DecidableEq

/-- The one limit that refused an upload, and its numbers. -/
structure LimitExceeded where
  scope : LimitScope
  measure : Measure
  limit : Nat
  used : Nat
  requested : Nat
  deriving DecidableEq

/-- How a blob's bytes move. -/
inductive TransferMode where
  | direct
  | proxied
  deriving DecidableEq

inductive BlobError where
  | filesDisabled
  | tooManyUploads (maxOpen : Nat)
  | limitExceeded (limit : LimitExceeded)
  | notFound
  | chunkOutOfRange (index chunkCount : Nat)
  | incomplete (remainingCount : Nat)
  | digestMismatch
  | noTransferMode (modes : List TransferMode)
  | invalidParts (why : String)
  | uploadKeyInUse
  | app (error : AppError)
  deriving DecidableEq

/-! ### Uploads -/

/-- What a manifest says of its blob: its size, the number of its chunks, and whether the chunks it lists
assemble to the whole whose digest it states. -/
structure Manifest where
  size : Nat
  chunkCount : Nat
  assembles : Bool
  deriving DecidableEq

inductive DirectTransfer where
  | off
  | notPrivate
  | all
  deriving DecidableEq

def DirectTransfer.allows : DirectTransfer → Visibility → Bool
  | .off, _ => false
  | .notPrivate, visibility => visibility ≠ .privateRoom
  | .all, _ => true

/-- What is fixed for the life of a host: its limits, its policy on direct transfer, the manifest each reference
is the digest of, and which texts are sha2-256 digests. -/
structure Env where
  limits : HostLimits
  direct : DirectTransfer
  manifest : String → Manifest
  isSha256 : String → Bool

/-- Where a new upload of a room goes: a storage config, and its capacity across every room on it. -/
structure UploadTarget where
  configId : String
  capacityBytes : Option Nat
  deriving DecidableEq

/-- How a producer will cut a blob for a direct transfer. -/
structure PartPlan where
  partSize : Nat
  partCount : Nat
  partDigests : List String
  deriving DecidableEq

/-- What the producer of a `0.2` begin accepts. -/
structure UploadOffer where
  uploadKeyDid : Option String
  directParts : Option PartPlan
  deriving DecidableEq

structure ObjectKey where
  roomId : String
  blobRef : String
  upload : Option Nat
  deriving DecidableEq

def ObjectKey.forRoom (roomId blobRef : String) : ObjectKey := ⟨roomId, blobRef, none⟩

def ObjectKey.forUpload (roomId blobRef : String) (upload : Nat) : ObjectKey := ⟨roomId, blobRef, some upload⟩

structure DirectState where
  objectKey : ObjectKey
  partSize : Nat
  partDigests : List String
  expiresAt : Nat
  deriving DecidableEq

inductive TransferProtocol where
  | v1
  | v2
  deriving DecidableEq

inductive UploadPhase where
  | opened
  | committed
  | aborted
  | released
  deriving DecidableEq

structure UploadRecord where
  roomId : String
  opener : String
  chargedTo : Option String
  blobRef : String
  size : Nat
  phase : UploadPhase
  createdAt : Nat
  finishedAt : Option Nat
  alreadyCommitted : Bool
  configId : Option String
  protocol : TransferProtocol
  uploadKeyDid : Option String
  direct : Option DirectState
  presented : Option Presented

def UploadRecord.reserves (rec : UploadRecord) : Bool := rec.phase == .opened && !rec.alreadyCommitted

/-- Who sent an upload's chunk, commit or abort document, and in which version. -/
inductive UploadCaller where
  | v1 (opener : String)
  | v2 (signer : String)
  deriving DecidableEq

/-- Whether the caller may act on the upload: its opener, or for a proxied `0.2` upload its key alone. -/
def UploadCaller.allows : UploadCaller → UploadRecord → Bool
  | .v1 opener, rec => rec.protocol == .v1 && rec.opener == opener
  | .v2 signer, rec =>
    rec.protocol == .v2 &&
      match rec.direct with
      | some _ => rec.opener == signer
      | none => rec.uploadKeyDid == some signer

/-- What `begin` answers. `targets` are the parts a write was issued for. -/
structure Begun where
  uploadId : Nat
  missing : List Nat
  expiresAt : Nat
  alreadyCommitted : Bool
  mode : TransferMode
  targets : List Nat
  deriving DecidableEq

/-- What `commit` answers. -/
structure Committed where
  blobRef : String
  size : Nat
  deriving DecidableEq

inductive DirectFinish where
  | missing (count : Nat)
  | mismatch
  | stored
  deriving DecidableEq

/-- What the stores answer during one call: where uploads of the room go, whether that store takes direct uploads,
the parts of a direct upload it holds, how it finishes one, and whether it deletes what it is asked to. -/
structure Stores where
  target : Except AppError UploadTarget
  directUploads : Bool
  held : List Nat
  finish : DirectFinish
  deletes : Bool

/-! ### Transfer slots -/

inductive SlotState where
  | importPending
  | importReceived
  | importCommitted
  | aborted
  | expired
  deriving DecidableEq

def SlotState.isTerminal : SlotState → Bool
  | .importCommitted | .aborted | .expired => true
  | .importPending | .importReceived => false

/-- The slot a proxied upload is staged in: whose it is, when it lapses, which chunks have come and whether a
staging file is there. -/
structure Slot where
  createdBy : String
  createdAt : Nat
  expiresAt : Nat
  expiryCeiling : Nat
  state : SlotState
  done : List Bool
  staged : Bool
  deriving DecidableEq

/-! ### Blobs, usage and migrations -/

inductive BlobState where
  | committed
  | orphaned
  deriving DecidableEq

structure BlobEntry where
  size : Nat
  configId : String
  backendRef : ObjectKey
  state : BlobState
  refs : Nat
  chargedTo : Option String
  committedAt : Nat
  orphanedAt : Option Nat
  deriving DecidableEq

/-- What one scope holds now. -/
structure Usage where
  files : Nat := 0
  bytes : Nat := 0
  reservedBytes : Nat := 0
  reservedFiles : Nat := 0
  deriving DecidableEq

/-- What one storage config, or the host as a whole, holds now. -/
structure StorageUsage where
  files : Nat := 0
  bytes : Nat := 0
  reservedBytes : Nat := 0
  deriving DecidableEq

structure DownloadRecord where
  roomId : String
  opener : String
  blobRef : String
  expiresAt : Nat
  ceiling : Nat
  member : Option String
  presented : Option Presented

structure Activity where
  uploads : Nat := 0
  downloads : Nat := 0
  egressBytes : Nat := 0
  deriving DecidableEq

/-- One day of one room or member: the holdings at its close and the activity during it. -/
structure DayRow where
  files : Nat := 0
  bytes : Nat := 0
  uploads : Nat := 0
  downloads : Nat := 0
  egressBytes : Nat := 0
  deriving DecidableEq

inductive MigrationState where
  | queued
  | running
  | paused
  | complete
  | failed
  deriving DecidableEq

def MigrationState.isOpen : MigrationState → Bool
  | .queued | .running | .paused => true
  | .complete | .failed => false

inductive PauseCause where
  | capacity
  | source
  | destination
  | credential
  deriving DecidableEq

/-- The blob a migration is moving now, and its copy once one is stored. -/
structure InFlight where
  blobRef : String
  size : Nat
  sourceConfig : String
  source : ObjectKey
  copy : Option ObjectKey
  deriving DecidableEq

structure Migration where
  migrationId : Nat
  toConfig : String
  state : MigrationState
  totalFiles : Nat
  totalBytes : Nat
  doneFiles : Nat
  doneBytes : Nat
  startedAt : Nat
  attempts : Nat
  nextAttemptAt : Option Nat
  pausedCause : Option PauseCause
  seq : Nat
  reservedBytes : Nat
  inFlight : Option InFlight
  deriving DecidableEq

/-- A blob's previous copy, awaiting deletion. -/
structure MovedCopy where
  configId : String
  backendRef : ObjectKey
  size : Nat
  movedAt : Nat
  deriving DecidableEq

/-! ### The host -/

/-- A usage counter's key: a room, and a member of it or nobody for the room as a whole. -/
abbrev Scope := String × Option String

instance transOrd_scope : Std.TransOrd Scope := instTransOrdPair

instance transOrd_day : Std.TransOrd (Scope × Nat) := instTransOrdPair

instance transOrd_uploadKey : Std.TransOrd (String × String × String) := instTransOrdPair

instance transOrd_movedKey : Std.TransOrd (String × String × Nat) := instTransOrdPair

/-- Everything a host keeps of room files, the clock it reads and the stores it writes to. -/
structure Host where
  now : Nat
  nextId : Nat
  blobs : ExtTreeMap (String × String) BlobEntry
  recordBlobs : ExtTreeMap (String × String) (List String)
  uploads : ExtTreeMap Nat UploadRecord
  uploadIndex : ExtTreeMap (String × String × String) Nat
  signerIndex : ExtTreeMap String Nat
  downloads : ExtTreeMap Nat DownloadRecord
  usage : ExtTreeMap Scope Usage
  storage : ExtTreeMap (Option String) StorageUsage
  lastUpload : ExtTreeMap Scope (Option Nat)
  days : ExtTreeMap (Scope × Nat) DayRow
  roomOverrides : ExtTreeMap String RoomOverride
  memberOverrides : ExtTreeMap (String × String) ScopeLimits
  migrations : ExtTreeMap String Migration
  plan : ExtTreeMap (String × String) Nat
  done : ExtTreeMap (String × String) Nat
  moved : ExtTreeMap (String × String × Nat) MovedCopy
  slots : ExtTreeMap Nat Slot
  objects : String → ObjectKey → Option String

def Host.empty (now : Nat) : Host where
  now := now
  nextId := 0
  blobs := ∅
  recordBlobs := ∅
  uploads := ∅
  uploadIndex := ∅
  signerIndex := ∅
  downloads := ∅
  usage := ∅
  storage := ∅
  lastUpload := ∅
  days := ∅
  roomOverrides := ∅
  memberOverrides := ∅
  migrations := ∅
  plan := ∅
  done := ∅
  moved := ∅
  slots := ∅
  objects := fun _ _ => none

end TrustInfrastructure.Blobs
