import TrustInfrastructure.Blobs.Records

/-!
# Moving a room's blobs to another config

`vti_rooms::blobs::migrate`. A migration plans the committed blobs of a room that are on another config and moves
them one at a time. The host's runner is the only thing that steps one: `Run` is the migration it is stepping, and
`Stage` the point it has reached in `migrate_step`, between two of its reads, writes and locked sub-steps. Anything
else may happen between two stages.

The copy is written to the target before it is recorded, and a copy that will not be used is deleted after the lock
is given back: those are stages of their own (`putting`, `copied`, `deleting`).
-/

namespace TrustInfrastructure.Blobs

open Lib
open Std (ExtTreeMap)

def migrationMaxAttempts : Nat := 8

structure MigrationRequest where
  roomId : String
  toConfig : String
  capacityBytes : Option Nat
  deriving DecidableEq

inductive MigrationStart where
  | started (m : Migration)
  | inProgress (m : Migration)
  | resumed (m : Migration)
  | capacityExceeded (capacity used requested : Nat)
  deriving DecidableEq

/-- Running again from `paused`, its retries starting over. -/
def Migration.resume (m : Migration) : Migration :=
  { m with state := .running, pausedCause := none, attempts := 0, nextAttemptAt := none }

/-- The migration the runner is stepping. -/
structure Run where
  roomId : String
  migrationId : Nat
  toConfig : String
  deriving DecidableEq

/-- Where the runner is in a step. -/
inductive Stage where
  /-- The migration record is read; nothing is in flight. -/
  | scanning
  /-- A planned blob is read off the plan. -/
  | picked (blobRef : String) (planned : Nat)
  /-- The blob is to be recorded as in flight. -/
  | choosing (flight : InFlight)
  /-- A blob is in flight: is it still the one the copy is of? -/
  | checking (flight : InFlight)
  /-- The source is to be read into staging. -/
  | staging (flight : InFlight)
  /-- The bytes are staged; old copies on the target are to be taken back from collection. -/
  | reclaiming (flight : InFlight)
  /-- The bytes are to be written to the target. -/
  | putting (flight : InFlight)
  /-- They are written; the copy is to be recorded. -/
  | copied (flight : InFlight) (copy : ObjectKey)
  /-- The copy is to be read back; `recorded` when it was there before this step. -/
  | verifying (flight : InFlight) (copy : ObjectKey) (recorded : Bool)
  | switching (flight : InFlight) (copy : ObjectKey)
  | skipping (blobRef : String) (size : Nat) (copy : Option ObjectKey)
  | failing (copy : Option ObjectKey)
  | retrying (cause : PauseCause)
  | finishing
  /-- A copy that will not be used: does an entry name it? `retry` when the blob is then copied again. -/
  | discarding (configId blobRef : String) (copy : ObjectKey) (retry : Option InFlight)
  /-- No entry named it: it is to be deleted. -/
  | deleting (configId : String) (copy : ObjectKey) (retry : Option InFlight)
  deriving DecidableEq

namespace Host

variable (h : Host)

/-! ### Starting, pausing, resuming -/

/-- The committed blobs of a room on a config other than `toConfig`, with their sizes. -/
def planItems (roomId toConfig : String) : List (String × Nat) :=
  h.blobs.toList.filterMap fun row =>
    if row.1.1 = roomId ∧ row.2.state = .committed ∧ row.2.configId ≠ toConfig then some (row.1.2, row.2.size) else none

/-- The room's plan is `items`: rows a previous migration left behind are not this one's. -/
def planned (roomId : String) (items : List (String × Nat)) : ExtTreeMap (String × String) Nat :=
  items.foldl (fun plan item => plan.insert (roomId, item.1) item.2) (h.plan.filter fun key _ => key.1 ≠ roomId)

def putMigration (roomId : String) (m : Migration) : Host := { h with migrations := h.migrations.insert roomId m }

def newMigration (req : MigrationRequest) (items : List (String × Nat)) : Migration :=
  let others := h.migrations.toList
  let behind := others.any fun row => row.1 ≠ req.roomId && row.2.toConfig == req.toConfig && row.2.state.isOpen
  { migrationId := h.nextId
    toConfig := req.toConfig
    state := if items.isEmpty then .complete else if behind then .queued else .running
    totalFiles := items.length
    totalBytes := (items.map Prod.snd).sum
    doneFiles := 0
    doneBytes := 0
    startedAt := h.now
    attempts := 0
    nextAttemptAt := none
    pausedCause := none
    seq := (others.map fun row => row.2.seq).foldl max 0 + 1
    reservedBytes := (items.map Prod.snd).sum
    inFlight := none }

def beginMigration (req : MigrationRequest) (items : List (String × Nat)) : Host :=
  let bytes := (items.map Prod.snd).sum
  let reserved :=
    if 0 < bytes then h.updateStorage (some req.toConfig) fun s => { s with reservedBytes := s.reservedBytes + bytes }
    else h
  { reserved with
    nextId := h.nextId + 1
    plan := h.planned req.roomId items
    done := h.done.filter fun key _ => key.1 ≠ req.roomId
    migrations := h.migrations.insert req.roomId (h.newMigration req items) }

/-- Why the target, or the host's storage, cannot hold the bytes to move. -/
def capacityRefusal (env : Env) (req : MigrationRequest) (bytes : Nat) : Option MigrationStart :=
  let refused (capacity : Option Nat) (s : StorageUsage) : Option MigrationStart :=
    match capacity with
    | some max =>
      if max < s.bytes + s.reservedBytes + bytes then some (.capacityExceeded max (s.bytes + s.reservedBytes) bytes)
      else none
    | none => none
  refused req.capacityBytes (h.counter (some req.toConfig)) <|> refused env.limits.storageCapacityBytes (h.counter none)

/-- `start_migration`: a new one, or the room's open one, resumed when it is paused. -/
def startMigration (env : Env) (req : MigrationRequest) : MigrationStart × Host :=
  match h.migrations[req.roomId]?.filter (fun m => m.state.isOpen) with
  | some m =>
    if m.state = .paused then (.resumed m.resume, h.putMigration req.roomId m.resume) else (.inProgress m, h)
  | none =>
    let items := h.planItems req.roomId req.toConfig
    match (if items.isEmpty then none else h.capacityRefusal env req (items.map Prod.snd).sum) with
    | some refusal => (refusal, h)
    | none => (.started (h.newMigration req items), h.beginMigration req items)

/-- Every migration's record, changed where `f` says so. -/
def mapMigrations (f : String → Migration → Migration) : Host := { h with migrations := h.migrations.map f }

/-- `pause_running_migrations`. -/
def pauseRunningMigrations : Host :=
  h.mapMigrations fun _ m =>
    if m.state = .running then
      { m with state := .paused, pausedCause := some .destination, nextAttemptAt := none }
    else m

/-- `resume_due`. -/
def resumeDue : Host :=
  h.mapMigrations fun _ m => if m.state = .paused ∧ m.nextAttemptAt.any (· ≤ h.now) then m.resume else m

def approvedBefore (a b : Migration) : Bool :=
  a.startedAt < b.startedAt || a.startedAt == b.startedAt &&
    (a.seq < b.seq || a.seq == b.seq && a.migrationId ≤ b.migrationId)

def promotable : List String :=
  let all := h.migrations.toList.mergeSort fun a b => approvedBefore a.2 b.2
  let busy := (all.filter fun row => row.2.state = .running || row.2.state = .paused).map fun row => row.2.toConfig
  (all.foldl
    (fun (found, busy) row =>
      if row.2.state = .queued ∧ row.2.toConfig ∉ busy then (found ++ [row.1], row.2.toConfig :: busy)
      else (found, busy))
    (([], busy) : List String × List String)).1

/-- `promote_queued`. -/
def promoteQueued : Host :=
  let started := h.promotable
  h.mapMigrations fun roomId m => if m.state = .queued ∧ roomId ∈ started then { m with state := .running } else m

/-! ### The locked sub-steps of a step -/

def running (run : Run) : Option Migration :=
  h.migrations[run.roomId]?.filter fun m => m.migrationId == run.migrationId && m.state == .running

/-- `record_flight`: nothing when the migration changed meanwhile. -/
def recordFlight (run : Run) (flight : InFlight) : Option Host :=
  (h.running run).map fun m => h.putMigration run.roomId { m with inFlight := some flight }

def unchanged (run : Run) (flight : InFlight) : Option BlobEntry :=
  (h.blob run.roomId flight.blobRef).filter fun entry =>
    entry.state == .committed && entry.configId == flight.sourceConfig && entry.backendRef == flight.source

def moveTo (run : Run) (flight : InFlight) (copy : ObjectKey) (m : Migration) (entry : BlobEntry) : Host :=
  let counted := h.updateStorage (some m.toConfig) fun s =>
    { files := s.files + 1, bytes := s.bytes + flight.size, reservedBytes := s.reservedBytes - flight.size }
  { counted with
    blobs := h.blobs.insert (run.roomId, flight.blobRef) { entry with configId := m.toConfig, backendRef := copy }
    moved := h.moved.insert (run.roomId, flight.blobRef, run.migrationId)
      { configId := entry.configId, backendRef := entry.backendRef, size := entry.size, movedAt := h.now }
    plan := h.plan.erase (run.roomId, flight.blobRef)
    done := h.done.insert (run.roomId, flight.blobRef) flight.size
    migrations := h.migrations.insert run.roomId
      { m with
        doneFiles := m.doneFiles + 1
        doneBytes := m.doneBytes + flight.size
        reservedBytes := m.reservedBytes - flight.size
        inFlight := none
        attempts := 0
        nextAttemptAt := none } }

/-- `switch`: the blob moved, or the step goes on with skipping it, or is over. -/
def switch (run : Run) (flight : InFlight) (copy : ObjectKey) : Host × Option Stage :=
  match h.running run with
  | none => (h, none)
  | some m =>
    match h.unchanged run flight with
    | none => (h, some (.skipping flight.blobRef flight.size (some copy)))
    | some entry => (h.moveTo run flight copy m entry, none)

/-- A planned blob that is no longer the room's to move leaves the plan and the totals, unless it already has. -/
def skip (run : Run) (blobRef : String) (size : Nat) (m : Migration) : Host :=
  let cleared : Migration := if m.inFlight.any fun f => f.blobRef == blobRef then { m with inFlight := none } else m
  match h.plan[(run.roomId, blobRef)]? with
  | some _ =>
    { h.unreserve m.toConfig size with
      plan := h.plan.erase (run.roomId, blobRef)
      migrations := h.migrations.insert run.roomId
        { cleared with
          totalFiles := m.totalFiles - 1
          totalBytes := m.totalBytes - size
          reservedBytes := m.reservedBytes - size } }
  | none => h.putMigration run.roomId cleared

/-- Nothing is left to move. -/
def finish (run : Run) (m : Migration) : Host :=
  { h.unreserve m.toConfig m.reservedBytes with
    done := h.done.filter fun key _ => key.1 ≠ run.roomId
    migrations := h.migrations.insert run.roomId
      { m with reservedBytes := 0, state := .complete, inFlight := none, nextAttemptAt := none } }

/-- A copy did not verify: the plan goes and the reservation is given back. -/
def fail (run : Run) (m : Migration) : Host :=
  { h.unreserve m.toConfig m.reservedBytes with
    plan := h.plan.filter fun key _ => key.1 ≠ run.roomId
    done := h.done.filter fun key _ => key.1 ≠ run.roomId
    migrations := h.migrations.insert run.roomId
      { m with reservedBytes := 0, state := .failed, inFlight := none, nextAttemptAt := none } }

/-- A step failed for a reason that may pass: back off for `delay`, or after too many in a row pause. -/
def retry (run : Run) (m : Migration) (cause : PauseCause) (delay : Nat) : Host :=
  let attempts := m.attempts + 1
  if migrationMaxAttempts ≤ attempts then
    h.putMigration run.roomId
      { m with attempts, state := .paused, pausedCause := some cause, nextAttemptAt := some (h.now + delay) }
  else h.putMigration run.roomId { m with attempts, nextAttemptAt := some (h.now + delay) }

/-- An earlier copy of the blob on a config, awaiting deletion, is where a new one is about to be written: it is
taken back from collection, and its bytes stop counting. -/
def reclaimMoved (roomId blobRef configId : String) : Host :=
  (h.moved.toList.filter fun row => row.1.1 = roomId && row.1.2.1 = blobRef && row.2.configId = configId).foldl
    (fun h row => { h.uncountCopy row.2.configId row.2.size with moved := h.moved.erase row.1 }) h

def names (roomId blobRef configId : String) (key : ObjectKey) : Bool :=
  (h.blob roomId blobRef).any fun entry => entry.configId == configId && entry.backendRef == key

/-! ### The step -/

def nextPlanned (roomId : String) : Option (String × Nat) :=
  (h.plan.toList.find? fun row => row.1.1 == roomId).map fun row => (row.1.2, row.2)

/-- The step of `roomId`'s migration begins: it must be running and not backing off. -/
def beginStep (roomId : String) : Option (Run × Stage) :=
  match h.migrations[roomId]? with
  | none => none
  | some m =>
    if m.state ≠ .running || m.nextAttemptAt.any (fun due => h.now < due) then none
    else
      let run : Run := ⟨roomId, m.migrationId, m.toConfig⟩
      match m.inFlight with
      | some flight => some (run, .checking flight)
      | none => some (run, .scanning)

/-- What the world decides during a stage: whether the store fails it, and how long a retry waits. -/
structure Chance where
  fails : Bool
  delay : Nat
  deriving DecidableEq

/-- What reading an object finds. -/
inductive Reading where
  | bytes
  | missing
  | mismatch
  deriving DecidableEq

/-- An object, read as the bytes of `blobRef`. -/
def read (configId : String) (key : ObjectKey) (blobRef : String) : Reading :=
  match h.objects configId key with
  | none => .missing
  | some found => if found = blobRef then .bytes else .mismatch

def discard (configId blobRef : String) (copy : Option ObjectKey) : Option Stage :=
  copy.map fun key => .discarding configId blobRef key none

def nextStage (chance : Chance) (run : Run) : Stage → Host × Option Stage
  | .scanning =>
    match h.nextPlanned run.roomId with
    | none => (h, some .finishing)
    | some (blobRef, planned) => (h, some (.picked blobRef planned))
  | .picked blobRef planned =>
    match (h.blob run.roomId blobRef).filter fun e => e.state == .committed && e.configId != run.toConfig with
    | some entry => (h, some (.choosing ⟨blobRef, entry.size, entry.configId, entry.backendRef, none⟩))
    | none => (h, some (.skipping blobRef planned none))
  | .choosing flight =>
    match h.recordFlight run flight with
    | none => (h, none)
    | some h => (h, some (.checking flight))
  | .checking flight =>
    match h.unchanged run flight with
    | none => (h, some (.skipping flight.blobRef flight.size flight.copy))
    | some _ =>
      match flight.copy with
      | some copy => (h, some (.verifying flight copy true))
      | none => (h, some (.staging flight))
  | .staging flight =>
    if chance.fails then (h, some (.retrying .source))
    else
      match h.read flight.sourceConfig flight.source flight.blobRef with
      | .bytes => (h, some (.reclaiming flight))
      | .missing => (h, some (.retrying .source))
      | .mismatch => (h, some (.failing none))
  | .reclaiming flight => (h.reclaimMoved run.roomId flight.blobRef run.toConfig, some (.putting flight))
  | .putting flight =>
    if chance.fails then (h, some (.retrying .destination))
    else
      let key := ObjectKey.forRoom run.roomId flight.blobRef
      (h.putObject run.toConfig key flight.blobRef, some (.copied flight key))
  | .copied flight copy =>
    match h.recordFlight run { flight with copy := some copy } with
    | none => (h, none)
    | some h => (h, some (.verifying flight copy false))
  | .verifying flight copy recorded =>
    if chance.fails then (h, some (.retrying .destination))
    else
      match h.read run.toConfig copy flight.blobRef, recorded with
      | .bytes, _ => (h, some (.switching flight copy))
      | .missing, true => (h, some (.staging flight))
      | .mismatch, true => (h, some (.discarding run.toConfig flight.blobRef copy (some flight)))
      | .missing, false => (h, some (.failing none))
      | .mismatch, false => (h, some (.failing (some copy)))
  | .switching flight copy => h.switch run flight copy
  | .skipping blobRef size copy =>
    match h.running run with
    | none => (h, none)
    | some m => (h.skip run blobRef size m, discard m.toConfig blobRef copy)
  | .failing copy =>
    match h.running run with
    | none => (h, none)
    | some m => (h.fail run m, m.inFlight.bind fun flight => discard m.toConfig flight.blobRef (copy <|> flight.copy))
  | .retrying cause =>
    match h.running run with
    | none => (h, none)
    | some m => (h.retry run m cause chance.delay, none)
  | .finishing =>
    match h.running run with
    | none => (h, none)
    | some m => (h.finish run m, none)
  | .discarding configId blobRef copy retry =>
    if h.names run.roomId blobRef configId copy then (h, retry.map .staging)
    else (h, some (.deleting configId copy retry))
  | .deleting configId copy retry =>
    -- A failure is logged, and the copy stays.
    (if chance.fails then h else h.deleteObject configId copy, retry.map .staging)

end Host

end TrustInfrastructure.Blobs
