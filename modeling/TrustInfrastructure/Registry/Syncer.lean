import TrustInfrastructure.Lib.Run

/-!
# The membership syncer

What becomes of a member is written to the audit log, the tail walk turns each envelope into a job, and the dispatcher
works on one job at a time: it resolves what the job does from the member row and from the mirror of what was published,
makes the call, and brings the mirror to what the call did. A call may report an error though it took effect, the write
of the mirror may fail, which is only logged, and the process may stop in between; a job in flight is then found again
and is pending once more.

A job is in the queue until it succeeded: one that was given up stays there as failed, until an operator discards it or
the hourly sweep does. Of a registry record the status is kept.
-/

namespace TrustInfrastructure.Registry

open Lib

inductive SyncJobKind where
  | publishMember
  | updateMember
  | deleteMember
  | markDeparted
  deriving DecidableEq

inductive SyncJobState where
  | pending
  | inFlight
  | failed
  deriving DecidableEq

structure SyncJob where
  id : Nat
  kind : SyncJobKind
  memberDid : String
  attempts : Nat
  nextAttemptAt : Nat
  state : SyncJobState
  deriving DecidableEq

namespace SyncJob

def fresh (id : Nat) (kind : SyncJobKind) (memberDid : String) (now : Nat) : SyncJob :=
  ⟨id, kind, memberDid, 0, now, .pending⟩

def isDispatchable (job : SyncJob) (now : Nat) : Bool := job.state = .pending && job.nextAttemptAt ≤ now

def defaultMaxAttempts : Nat := 16

def exponentialBackoffSeconds (attempts jitter : Nat) : Nat := min (2 ^ min attempts 20 + jitter) 3600

def recordFailure (job : SyncJob) (now jitter : Nat) : SyncJob :=
  let attempts := job.attempts + 1
  if attempts > defaultMaxAttempts then { job with attempts, state := .failed }
  else { job with attempts, nextAttemptAt := now + exponentialBackoffSeconds attempts jitter, state := .pending }

def recordError (job : SyncJob) (now : Nat) (retriable : Bool) (jitter : Nat) : SyncJob :=
  if retriable then job.recordFailure now jitter else { job with attempts := job.attempts + 1, state := .failed }

end SyncJob

/-! ### From the audit log -/

inductive AuditEvent where
  | memberAdded
  | memberRemoved (disposition : String)
  | roleChanged
  | memberUpdated (fieldsChanged : List String)
  | directoryCardPublication
  | other
  deriving DecidableEq

structure AuditEnvelope where
  eventId : Nat
  timestamp : Nat
  event : AuditEvent
  actorDidPlain : Option String
  targetDidPlain : Option String
  deriving DecidableEq

def severity (disposition : String) : Nat :=
  if disposition = "historical" then 3 else if disposition = "tombstone" then 2 else 1

def clampDisposition (requested : String) (floor : Option String) : String × Bool :=
  match floor with
  | none => (requested, false)
  | some floor => if severity requested ≥ severity floor then (requested, false) else (floor, true)

def isRtbfPurge (actor target disposition : String) : Bool := actor = target && disposition = "purge"

def removalKind (floor : Option String) (actor target disposition : String) : SyncJobKind × Bool :=
  let clamp := clampDisposition disposition floor
  let rtbf := isRtbfPurge actor target disposition
  let effective := if rtbf then "purge" else clamp.1
  (if effective = "purge" then .deleteMember else .markDeparted, rtbf && clamp.2)

def auditToSyncJob (floor : Option String) (envelope : AuditEnvelope) : Option (SyncJobKind × String × Bool) :=
  envelope.targetDidPlain.bind fun target =>
    match envelope.event with
    | .memberAdded => some (.publishMember, target, false)
    | .memberRemoved disposition =>
      let (kind, parked) := removalKind floor (envelope.actorDidPlain.getD "") target disposition
      some (kind, target, parked)
    | .roleChanged | .directoryCardPublication => some (.updateMember, target, false)
    | .memberUpdated fieldsChanged =>
      if "publishConsent" ∈ fieldsChanged then some (.updateMember, target, false) else none
    | .other => none

/-- What the operator has set: the floor of `registry.rego`, and the batch window. -/
structure Settings where
  floor : Option String
  rtbfBatchWindowHours : Nat

def jobOf (settings : Settings) (now : Nat) (envelope : AuditEnvelope) : Option SyncJob :=
  (auditToSyncJob settings.floor envelope).map fun (kind, target, parked) =>
    { SyncJob.fresh envelope.eventId kind target now with
      nextAttemptAt := if parked then now + 3600 * settings.rtbfBatchWindowHours else now }

/-! ### Dispatch -/

inductive RegistryStatus where
  | active
  | departed
  deriving DecidableEq

structure Member where
  publishConsent : Bool
  isRemoved : Bool
  deriving DecidableEq

inductive SyncAction where
  | publish (status : RegistryStatus)
  | delete
  | deleteIfPresent
  | withdraw
  | skip
  deriving DecidableEq

/-- What a call leaves in the registry, and in the mirror. `deleteIfPresent` asks first, and deletes what is there. -/
def SyncAction.result : SyncAction → Option RegistryStatus
  | .publish status => some status
  | _ => none

/-- What a job does, from the member row, the mirror's record and the policy as they are now. -/
def resolve (member : Option Member) (record : Option RegistryStatus) (kind : SyncJobKind) (publishOnJoin : Bool) :
    SyncAction :=
  match kind with
  | .deleteMember => if record.isSome then .delete else .deleteIfPresent
  | .markDeparted => if record.isNone then .skip else .publish .departed
  | .publishMember | .updateMember =>
    match member with
    | none => .skip
    | some member =>
      if member.isRemoved then .skip
      else if !member.publishConsent then (if record.isSome then .withdraw else .skip)
      else if (kind = .publishMember || record.isNone) && !publishOnJoin then .skip
      else .publish .active

/-- How a call ends. -/
inductive Reply where
  /-- It succeeded, and the mirror was written or not. -/
  | done (mirrored : Bool)
  | error (landed retriable : Bool) (jitter : Nat)
  /-- The process stops, at some point after it set the job in flight. -/
  | crash (landed mirrored : Bool)
  deriving DecidableEq

structure Syncer where
  now : Nat
  nextId : Nat
  members : String → Option Member
  unwalked : List AuditEnvelope
  /-- The jobs stored, but for the one in flight. -/
  queue : List SyncJob
  registry : String → Option RegistryStatus
  mirror : String → Option RegistryStatus
  current : Option (SyncJob × SyncAction)

inductive Event where
  | wait (seconds : Nat)
  | join (did : String) (consent : Bool)
  | setConsent (did : String) (consent : Bool)
  | leave (did actor disposition : String)
  /-- A role change, a card published: what is about the record of a member and leaves its row. -/
  | touch (did : String) (event : AuditEvent)
  | walk
  /-- The `i`th job of the queue is dispatched, if it is due; the policy answers so. -/
  | dispatch (i : Nat) (publishOnJoin : Bool)
  | answer (reply : Reply)
  /-- A job that was given up is discarded, by an operator or by the sweep of old failures. -/
  | discard (id : Nat)
  deriving DecidableEq

namespace Syncer

def start : Syncer := ⟨0, 0, fun _ => none, [], [], fun _ => none, fun _ => none, none⟩

/-- A member row is written, and then an envelope about it. -/
def record (s : Syncer) (did actor : String) (row : Option Member) (event : AuditEvent) : Syncer :=
  { s with
    nextId := s.nextId + 1
    members := Function.update s.members did row
    unwalked := s.unwalked ++ [⟨s.nextId, s.now, event, some actor, some did⟩] }

def departed (member : Member) (disposition : String) : Option (Option Member) :=
  if disposition = "purge" then some none
  else if member.isRemoved then none
  else some (some ⟨member.publishConsent && disposition ≠ "tombstone", true⟩)

def walk (settings : Settings) (s : Syncer) : Syncer :=
  { s with unwalked := [], queue := s.queue ++ s.unwalked.filterMap (jobOf settings s.now) }

/-- A job is done at once when there is nothing to do, and is set in flight otherwise. -/
def dispatch (s : Syncer) (i : Nat) (job : SyncJob) (action : SyncAction) : Syncer :=
  { s with
    queue := s.queue.eraseIdx i
    current := if action = .skip then none else some ({ job with state := .inFlight }, action) }

def answer (s : Syncer) (job : SyncJob) (action : SyncAction) (reply : Reply) : Syncer :=
  let called (landed mirrored : Bool) : Syncer :=
    { s with
      registry := if landed then Function.update s.registry job.memberDid action.result else s.registry
      mirror := if mirrored then Function.update s.mirror job.memberDid action.result else s.mirror
      current := none }
  match reply with
  | .done mirrored => called true mirrored
  | .error landed retriable jitter =>
    { called landed false with queue := s.queue ++ [job.recordError s.now retriable jitter] }
  | .crash landed mirrored => { called landed mirrored with queue := s.queue ++ [{ job with state := .pending }] }

def discard (s : Syncer) (id : Nat) : Syncer :=
  { s with queue := s.queue.filter fun job => ¬(job.id = id ∧ job.state = .failed) }

def step (settings : Settings) (s : Syncer) : Event → Syncer
  | .wait seconds => { s with now := s.now + seconds }
  | .join did consent => s.record did did (some ⟨consent, false⟩) .memberAdded
  | .setConsent did consent =>
    match s.members did with
    | some ⟨_, false⟩ => s.record did did (some ⟨consent, false⟩) (.memberUpdated ["publishConsent"])
    | _ => s
  | .leave did actor disposition =>
    match (s.members did).bind (departed · disposition) with
    | some row => s.record did actor row (.memberRemoved disposition)
    | none => s
  | .touch did event =>
    match event with
    | .roleChanged | .directoryCardPublication | .other => s.record did did (s.members did) event
    | _ => s
  | .walk => s.walk settings
  | .dispatch i publishOnJoin =>
    match s.current, s.queue[i]? with
    | none, some job =>
      if job.isDispatchable s.now then
        s.dispatch i job (resolve (s.members job.memberDid) (s.mirror job.memberDid) job.kind publishOnJoin)
      else s
    | _, _ => s
  | .answer reply =>
    match s.current with
    | some (job, action) => s.answer job action reply
    | none => s
  | .discard id => s.discard id

/-- The syncer after a run. -/
abbrev reached (settings : Settings) (events : List Event) : Syncer := run (step settings) .start events

end Syncer

end TrustInfrastructure.Registry
