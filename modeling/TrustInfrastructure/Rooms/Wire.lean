import TrustInfrastructure.Rooms.Types

/-!
# A record on the wire

`Record::committed`, the form of a record a read answers with and a room's commitment covers, and
`Record::from_wire`, which reads it back into a row. Times are unix seconds in the store and RFC 3339 on the
wire; rendering and reading them is `chrono`'s, of which `Chrono` names the two functions used here.
-/

namespace TrustInfrastructure.Rooms

open Lib (Value)

/-- What the wire forms use of `chrono`: a time rendered to the second, and the seconds of a text it can
read. -/
structure Chrono where
  rfc3339 : Nat → String
  timestamp : String → Option Int

/-- A sealed body with everything its reader needs; `version` only where it is not the record's own. -/
structure CommittedSealed where
  ciphertext : String
  nonce : String
  epoch : Nat
  version : Option Nat
  deriving DecidableEq

/-- A record in the form the room's commitment covers. -/
structure CommittedRecord where
  key : String
  version : Nat
  status : RecordStatus
  updatedAt : String
  pinned : Bool
  author : Option String
  sealed : Option CommittedSealed
  cleartext : Option Value
  deriving DecidableEq

inductive FromWireError where
  | updatedAt (key value : String)
  deriving DecidableEq

namespace Record

def committedSealed (record : Record) : Option CommittedSealed :=
  match record.sealed, record.nonce, record.epoch with
  | some ciphertext, some nonce, some epoch =>
    some { ciphertext, nonce, epoch, version := record.sealedVersion.filter fun v => v ≠ record.version }
  | _, _, _ => none

variable (chrono : Chrono)

/-- The leaf preimage. -/
def committed (record : Record) : CommittedRecord where
  key := record.key
  version := record.version
  status := record.status
  updatedAt := chrono.rfc3339 record.updatedAt
  pinned := record.pinned
  author := record.author
  sealed := record.committedSealed
  cleartext := record.cleartext

/-- Read a wire record back into a row; refused when its time is none a row can hold. -/
def fromWire (record : CommittedRecord) : Except FromWireError Record :=
  match (chrono.timestamp record.updatedAt).bind Int.toNat? with
  | none => .error (.updatedAt record.key record.updatedAt)
  | some updatedAt => .ok {
      key := record.key
      version := record.version
      epoch := record.sealed.map CommittedSealed.epoch
      status := record.status
      pinned := record.pinned
      sealed := record.sealed.map CommittedSealed.ciphertext
      nonce := record.sealed.map CommittedSealed.nonce
      sealedVersion := record.sealed.bind CommittedSealed.version
      cleartext := record.cleartext
      author := record.author
      updatedAt := updatedAt
      createdAt := none
      createdBy := none
      bodyStoredAt := none }

end Record

/-- The answer to a read: the committed record, and the host's own times and first author for it. -/
structure GetRecordResponse where
  record : CommittedRecord
  createdAt : Option String
  createdBy : Option String
  bodyStoredAt : Option String
  deriving DecidableEq

section
variable (chrono : Chrono)

/-- The answer of a host to a read of `record` in a room of this visibility. -/
def getRecordResponse (visibility : Visibility) (record : Record) : GetRecordResponse where
  record := record.committed chrono
  createdAt := record.createdAt.map chrono.rfc3339
  createdBy := if visibility.disclosesActor then record.createdBy else none
  bodyStoredAt := record.bodyStoredAt.map chrono.rfc3339

/-- A served time as a mirror keeps it: absent when it is not one a row can hold. -/
def servedTime (text : Option String) : Option Nat := (text.bind chrono.timestamp).bind Int.toNat?

/-- The row a mirror makes of an answer: the record, and the primary's times for it. -/
def mirroredRecord (full : GetRecordResponse) : Except FromWireError Record :=
  (Record.fromWire chrono full.record).map fun record =>
    { record with
      createdAt := servedTime chrono full.createdAt
      createdBy := full.createdBy
      bodyStoredAt := servedTime chrono full.bodyStoredAt }

/-- The copy of `record` a mirror stores. -/
def mirrorCopy (visibility : Visibility) (record : Record) : Except FromWireError Record :=
  mirroredRecord chrono (getRecordResponse chrono visibility record)

variable {chrono} {visibility : Visibility} {record copy : Record}

/-- What is left of a sealed body's version is never the record's own. -/
theorem Record.committedSealed_version {parts : CommittedSealed} (h : record.committedSealed = some parts) :
    (parts.version.filter fun v => v ≠ record.version) = parts.version := by
  unfold Record.committedSealed at h
  split at h
  · obtain rfl := Option.some.inj h
    cases record.sealedVersion with
    | none => rfl
    | some v => by_cases hv : v = record.version <;> simp [Option.filter, hv]
  · cases h

theorem Record.committedSealed_fromWire (h : Record.fromWire chrono (record.committed chrono) = .ok copy) :
    copy.committedSealed = record.committedSealed := by
  simp only [Record.fromWire] at h
  split at h
  · cases h
  · obtain rfl := Except.ok.inj h
    cases hparts : record.committedSealed with
    | none =>
      simp only [Record.committed, hparts, Option.map_none]
      rfl
    | some =>
      have hversion := Record.committedSealed_version hparts
      simp only [Record.committed, hparts, Option.map_some, Option.bind_some]
      unfold Record.committedSealed
      simp only [hversion]

/-- A copy has the record's key and version, and commits to what the record commits to, where the wire's
times read back as what they were rendered from. -/
theorem mirrorCopy_eq_ok (h : mirrorCopy chrono visibility record = .ok copy) :
    copy.key = record.key ∧ copy.version = record.version ∧
      (chrono.rfc3339 copy.updatedAt = chrono.rfc3339 record.updatedAt →
        copy.committed chrono = record.committed chrono) := by
  unfold mirrorCopy mirroredRecord at h
  cases hwire : Record.fromWire chrono (getRecordResponse chrono visibility record).record with
  | error => rw [hwire] at h; cases h
  | ok =>
    rw [hwire] at h
    obtain rfl := Except.ok.inj h
    have hsealed := Record.committedSealed_fromWire hwire
    simp only [getRecordResponse, Record.fromWire] at hwire
    split at hwire
    · cases hwire
    · obtain rfl := Except.ok.inj hwire
      refine ⟨rfl, rfl, fun htime => ?_⟩
      change CommittedRecord.mk _ _ _ _ _ _ _ _ = CommittedRecord.mk _ _ _ _ _ _ _ _
      congr 1

end

end TrustInfrastructure.Rooms
