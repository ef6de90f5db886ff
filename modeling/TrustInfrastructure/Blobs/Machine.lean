import TrustInfrastructure.Lib.Run
import TrustInfrastructure.Blobs.Collect

/-!
# The host as a machine

A `World` is a host with what runs beside its callers: the collection pass under way and the migration step under
way. Every action is one step: a call that takes the lock, one row of a pass, one stage of a migration step, or time
going on. A run is any sequence of actions, so anything may come between two rows or two stages.
-/

namespace TrustInfrastructure.Blobs

open Lib
open Rooms (Visibility Presented Room)
open Std (ExtTreeMap)

/-! ### Limits and downloads -/

/-- Which scope of a room an override sets. -/
inductive LimitTarget where
  | room
  | memberDefault
  | member (did : String)
  deriving DecidableEq

inductive OverrideError where
  | aboveCeiling (requested ceiling : Nat)
  | memberLimitsUnavailable
  deriving DecidableEq

def RoomOverride.set (o : RoomOverride) (target : LimitTarget) (limits : Option ScopeLimits)
    (filesEnabled : Option Bool) : RoomOverride :=
  match target with
  | .room =>
    { o with
      room :=
        match limits, filesEnabled with
        | some l, _ => some l
        | none, none => none
        | none, some _ => o.room
      filesEnabled := filesEnabled <|> o.filesEnabled }
  | _ => { o with memberDefault := limits }

namespace Host

variable (h : Host)

def refusesOverride (env : Env) (room : Room) (target : LimitTarget) (limits : Option ScopeLimits) :
    Option OverrideError :=
  if room.visibility = .privateRoom ∧ target ≠ .room then some .memberLimitsUnavailable
  else
    match limits.bind (·.maxFileBytes) with
    | some requested =>
      if env.limits.maxFileBytes < requested then some (.aboveCeiling requested env.limits.maxFileBytes) else none
    | none => none

/-- `set_limit_override`. -/
def setLimitOverride (env : Env) (room : Room) (target : LimitTarget) (limits : Option ScopeLimits)
    (filesEnabled : Option Bool) : Except OverrideError Unit × Host :=
  match refusesOverride env room target limits with
  | some e => (.error e, h)
  | none =>
    match target with
    | .member did =>
      (.ok (),
        { h with
          memberOverrides :=
            match limits with
            | some limits => h.memberOverrides.insert (room.roomId, did) limits
            | none => h.memberOverrides.erase (room.roomId, did) })
    | target =>
      let o := RoomOverride.set (h.roomOverrides[room.roomId]?.getD ⟨none, none, none⟩) target limits filesEnabled
      (.ok (),
        { h with
          roomOverrides :=
            if o = ⟨none, none, none⟩ then h.roomOverrides.erase room.roomId
              else h.roomOverrides.insert room.roomId o })

def downloadTtlSecs : Nat := 15 * 60

def downloadLifetimeSecs : Nat := 24 * 60 * 60

/-- `open_download`: a handle on a blob of the room, orphaned or not, and the download counted. -/
def openDownload (room : Room) (opener : String) (member : Option String) (presented : Option Presented)
    (blobRef : String) : Answer Nat :=
  match h.blob room.roomId blobRef with
  | none => (.error .notFound, h)
  | some _ =>
    let member := chargedMember room member
    let handle : DownloadRecord :=
      { roomId := room.roomId
        opener
        blobRef
        expiresAt := h.now + downloadTtlSecs
        ceiling := h.now + downloadLifetimeSecs
        member
        presented }
    (.ok h.nextId,
      { h with
        nextId := h.nextId + 1
        downloads := h.downloads.insert h.nextId handle }.recordActivity room.roomId member { downloads := 1 } none)

end Host

/-! ### Worlds and actions -/

structure World where
  host : Host
  pass : Pass
  runner : Option (Run × Stage)

def World.start (now : Nat) (roomOverrides : ExtTreeMap String RoomOverride)
    (memberOverrides : ExtTreeMap (String × String) ScopeLimits) : World :=
  ⟨{ Host.empty now with roomOverrides, memberOverrides }, .idle, none⟩

inductive Action where
  | wait (seconds : Nat)
  | beginUpload (req : BeginRequest) (stores : Stores)
  | putChunk (caller : UploadCaller) (id index : Nat)
  | commit (stores : Stores) (caller : UploadCaller) (id : Nat)
  | abort (caller : UploadCaller) (id : Nat)
  | writeRecord (room : Room) (member : Option String) (recordKey : String) (blobs : List String)
  | retract (roomId recordKey : String)
  | prune (roomId : String) (recordKeys : List String)
  | setLimits (room : Room) (target : LimitTarget) (limits : Option ScopeLimits) (filesEnabled : Option Bool)
  | openDownload (room : Room) (opener : String) (member : Option String) (presented : Option Presented)
      (blobRef : String)
  /-- A collection pass begins, if none is under way. -/
  | sweep
  /-- The pass under way works on its next row. -/
  | sweepNext
  | startMigration (req : MigrationRequest)
  | pauseMigrations
  | resumeMigrations
  | promoteMigrations
  /-- The target was found unfit before a step of the room's migration began. -/
  | stepFailed (roomId : String) (migrationId : Nat) (cause : PauseCause) (delay : Nat)
  /-- The runner begins a step, if it is not in one. -/
  | migrate (roomId : String)
  /-- The runner goes on from its stage. -/
  | migrateNext (chance : Host.Chance)
  /-- The runner is dropped mid-step, as a shutdown does. -/
  | migrateDrop
  | purge (roomId : String) (fails : String → ObjectKey → Bool)

def Host.call (env : Env) (h : Host) : Action → Host
  | .wait seconds => { h with now := h.now + seconds }
  | .beginUpload req stores => (h.beginWith env req stores).2
  | .putChunk caller id index => (h.putChunkAs caller id index).2
  | .commit stores caller id => (h.commitAs env stores caller id).2
  | .abort caller id => (h.abortAs caller id).2
  | .writeRecord room member recordKey blobs => (h.writeRecord env room member recordKey blobs).2
  | .retract roomId recordKey => h.releaseRecord roomId recordKey
  | .prune roomId recordKeys => h.releaseRecords roomId recordKeys
  | .setLimits room target limits filesEnabled => (h.setLimitOverride env room target limits filesEnabled).2
  | .openDownload room opener member presented blobRef => (h.openDownload room opener member presented blobRef).2
  | .startMigration req => (h.startMigration env req).2
  | .pauseMigrations => h.pauseRunningMigrations
  | .resumeMigrations => h.resumeDue
  | .promoteMigrations => h.promoteQueued
  | .stepFailed roomId migrationId cause delay =>
    match h.running ⟨roomId, migrationId, ""⟩ with
    | some m => h.retry ⟨roomId, migrationId, m.toConfig⟩ m cause delay
    | none => h
  | .purge roomId fails => (h.purgeRoom fails roomId).2
  | .sweep | .sweepNext | .migrate _ | .migrateNext _ | .migrateDrop => h

def World.step (env : Env) (w : World) : Action → World
  | .sweep =>
    match w.pass with
    | .idle =>
      let (host, pass) := w.host.startSweep
      { w with host, pass }
    | _ => w
  | .sweepNext =>
    let (host, pass) := w.host.nextRow env w.pass
    { w with host, pass }
  | .migrate roomId =>
    match w.runner with
    | none => { w with runner := w.host.beginStep roomId }
    | some _ => w
  | .migrateNext chance =>
    match w.runner with
    | none => w
    | some (run, stage) =>
      let (host, next) := w.host.nextStage chance run stage
      { w with host, runner := next.map fun stage => (run, stage) }
  | .migrateDrop => { w with runner := none }
  | action => { w with host := w.host.call env action }

/-- The world that a run from a host which has served nothing reaches. -/
abbrev World.reached (env : Env) (now : Nat) (roomOverrides : ExtTreeMap String RoomOverride)
    (memberOverrides : ExtTreeMap (String × String) ScopeLimits) (actions : List Action) : World :=
  run (World.step env) (World.start now roomOverrides memberOverrides) actions

def Action.isFiles : Action → Bool
  | .startMigration _ | .purge _ _ => false
  | _ => true

end TrustInfrastructure.Blobs
