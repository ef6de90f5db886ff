import TrustInfrastructure.Lib.Json

/-!
# Rooms and records

The data model of `vti-rooms`: a room as a host holds it, its records, the mark a prune leaves and one
rung of the epoch key chain. Versions, sequence numbers and times are `u64` in the source and `Nat` here;
epochs are `u32`, and the one addition that can wrap within a room's life (`Storage.advanceEpoch`) says so.
-/

namespace TrustInfrastructure.Rooms

open Lib (Value)

/-- The errors of `vti_common::error::AppError` that the room store answers with. -/
inductive AppError where
  | internal (message : String)
  | notFound (message : String)
  | conflict (message : String)
  | validation (message : String)
  deriving DecidableEq

inductive RetentionPolicy where
  | chained
  | fromJoin
  deriving DecidableEq

inductive AnchorCadence where
  | never
  | renewal
  | manual
  deriving DecidableEq

/-- How much of a room its host can see. Immutable for the life of a room. -/
inductive Visibility where
  | openRoom
  | attributed
  | privateRoom
  deriving DecidableEq

namespace Visibility

def storesCleartext : Visibility → Bool
  | .openRoom => true
  | _ => false

/-- Whether the host may name who acted. -/
def disclosesActor : Visibility → Bool
  | .privateRoom => false
  | _ => true

/-- Rust's `{:?}`. -/
def debug : Visibility → String
  | .openRoom => "Open"
  | .attributed => "Attributed"
  | .privateRoom => "Private"

end Visibility

inductive RecordStatus where
  | active
  | deprecated
  | retracted
  deriving DecidableEq

/-- How long a room keeps its records, by age. -/
structure RecordRetention where
  tombstoneDays : Option Nat
  recordDays : Option Nat
  ext : Option (List (String × Value))
  deriving DecidableEq

/-- It states no rule at all. -/
def RecordRetention.isEmpty (retention : RecordRetention) : Bool :=
  retention.tombstoneDays.isNone && retention.recordDays.isNone

/-- The mark a prune leaves: the version it took, when, and how many records went. -/
structure RecordPrune where
  version : Nat
  prunedAt : Nat
  removed : Nat
  deriving DecidableEq

structure Room where
  roomId : String
  ownerDid : String
  visibility : Visibility
  anchorCadence : AnchorCadence
  retentionPolicy : RetentionPolicy
  epoch : Nat
  nextVersion : Nat
  retentionDays : Nat
  epochExpiresAt : Option Nat
  mirrorOf : Option String
  recordRetention : Option RecordRetention
  lastPrune : Option RecordPrune
  epochFloor : Option Nat
  frozenAt : Option Nat
  createdAt : Nat
  updatedAt : Nat
  deriving DecidableEq

namespace Room

def isMirror (room : Room) : Bool := room.mirrorOf.isSome

/-- The highest version this host has assigned or copied. -/
def watermark (room : Room) : Nat := room.nextVersion - 1

end Room

structure Record where
  key : String
  version : Nat
  epoch : Option Nat
  status : RecordStatus
  pinned : Bool
  sealed : Option String
  nonce : Option String
  sealedVersion : Option Nat
  cleartext : Option Value
  author : Option String
  updatedAt : Nat
  createdAt : Option Nat
  createdBy : Option String
  bodyStoredAt : Option Nat
  deriving DecidableEq

/-- A sealed body as a writer sends it. -/
structure SealedContent where
  epoch : Nat
  ciphertext : String
  nonce : String
  deriving DecidableEq

/-- One rung of the epoch key chain: epoch `epoch - 1`'s key, wrapped under epoch `epoch`'s. -/
structure EpochLink where
  epoch : Nat
  wrapped : String
  nonce : String
  deriving DecidableEq

structure CreateRoomTerms where
  visibility : Visibility
  retentionPolicy : RetentionPolicy
  anchorCadence : AnchorCadence
  retentionDays : Option Nat
  deriving DecidableEq

structure Curation where
  status : Option RecordStatus
  pinned : Option Bool
  expectedVersion : Option Nat
  deriving DecidableEq

end TrustInfrastructure.Rooms
