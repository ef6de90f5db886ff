import TrustInfrastructure.Consent.Store
import TrustInfrastructure.Lib.Bytes

/-!
# Task consent: the decision handler and the gate

An approver's signed decision is handled by `handleDecision`: it finds the request by the digest the approver signed,
checks the decision against it, and then records an approval under the request's internal digest, or removes the
request. A submitted task goes through `consentGate`: it spends a grant for exactly this task if there is one, and
otherwise asks for consent, under the request that is already there or, when that was computed against another state of
the world, under a new one.

What the handlers learn outside this store is an argument: the signer that the proof established, what the planner
found, and who could confer the context a task acts in. SHA-256 and the multibase encoding of its output are one
function, `hash`.
-/

namespace TrustInfrastructure.Consent

open Lib (Program Bytes utf8 bigEndian)
open Rooms (AppError)
open ConsentProgram

/-! ### Digests -/

def digestDomain : String := "vta/task-consent/v1\x00"

/-- The digest of a task whose payload has this canonical text; the salt is the request's challenge. -/
def domainDigest (hash : Bytes → String) (domain typeUri canonical : String) (salt : Option String) : String :=
  hash (utf8 domain ++ bigEndian 8 typeUri.utf8ByteSize ++ utf8 typeUri ++ bigEndian 8 canonical.utf8ByteSize ++
    utf8 canonical ++ salt.elim [] utf8)

def payloadDigest (hash : Bytes → String) (typeUri canonical : String) : String :=
  domainDigest hash digestDomain typeUri canonical none

def wireDigest (hash : Bytes → String) (typeUri canonical challenge : String) : String :=
  domainDigest hash digestDomain typeUri canonical (some challenge)

def approverSetMembers (name : String) : ConsentProgram (List String) :=
  (get (.approvers name)).bind fun found => pure (found.getD [])

/-! ### Decisions -/

inductive Verdict where
  | approve
  | deny
  deriving DecidableEq

structure Decision where
  /-- The signer its proof establishes, or why it establishes none. -/
  signer : Except String String
  payloadDigest : String
  challenge : String
  actionId : Option String
  evidence : Option String
  decision : Verdict
  now : Nat
  /-- The contexts the recorded approvers confer, as the ACL stands when a grant is minted. -/
  delegatedContexts : List String

inductive Decided where
  | denied
  | granted (approvals : Nat)
  | pending (approvals needed : Nat)
  deriving DecidableEq

def grantTtlSecs : Nat := 600

def noPending : Refusal := .taskFailed "task-consent/decision:noPending"

def grantOf (updated : PendingTaskConsent) (delegatedContexts : List String) (now : Nat) : TaskConsentGrant where
  digest := updated.digest
  requesterDid := updated.requesterDid
  typeUri := updated.typeUri
  approvers := updated.approvals
  statePin := updated.statePin
  guards := updated.guards
  delegatedContexts := delegatedContexts
  grantedAt := now
  expiresAt := now + grantTtlSecs

/-- The approvers whose decision counts for a request. -/
def eligibleApprovers (pending : PendingTaskConsent) : ConsentProgram (List String) :=
  match pending.boundApprover with
  | some bound => pure [bound]
  | none => approverSetMembers pending.approverSet

def denyPending (pending : PendingTaskConsent) : ConsentProgram Decided :=
  (if pending.boundApprover.isSome then denyBoundPending pending else removePendingIfPresent pending).bind
    fun removed =>
    if removed then pure .denied else Program.fail noPending

def approvePending (d : Decision) (pending : PendingTaskConsent) (approver : String) : ConsentProgram Decided :=
  (addApproval pending.digest approver d.now).bind fun found =>
    match found with
    | none => Program.fail noPending
    | some updated =>
      if updated.minApprovals ≤ updated.approvals.length then
        (grantFromPending (grantOf updated d.delegatedContexts d.now) d.now).bind fun minted =>
          if minted then pure (.granted updated.approvals.length) else Program.fail noPending
      else pure (.pending updated.approvals.length updated.minApprovals)

def handleDecision (d : Decision) : ConsentProgram Decided :=
  match d.signer with
  | .error e => Program.fail (.permissionDenied s!"task-consent decision must carry a valid proof: {e}")
  | .ok approver =>
    (pendingByWireDigest d.payloadDigest d.now).bind fun found =>
      match found with
      | none => Program.fail noPending
      | some pending =>
        if d.challenge ≠ pending.challenge then
          Program.fail (.permissionDenied "challenge does not match the pending request")
        else if d.actionId.isSome then Program.fail (.taskFailed "task-consent/decision:actionMismatch")
        else
          (eligibleApprovers pending).bind fun members =>
            if approver ∉ members then
              Program.fail (.permissionDenied s!"signer is not a member of approver set '{pending.approverSet}'")
            else if pending.excludeRequester ∧ approver = pending.requesterDid then
              Program.fail (.permissionDenied "the requester may not approve its own task")
            else if d.evidence.isSome then Program.fail (.taskFailed "task-consent/decision:evidenceInvalid")
            else
              match d.decision with
              | .deny => denyPending pending
              | .approve => approvePending d pending approver

/-! ### The gate -/

structure RequireConsent where
  approverSet : String
  minApprovals : Nat
  excludeRequester : Bool
  deriving DecidableEq

/-- What a dry run of the task found. -/
structure Plan where
  statePin : Option StatePin
  guards : Guards
  subjectContext : Option String
  requesterAuthorized : Bool
  deriving DecidableEq

/-- No planner: the task is treated as authorized by its requester. -/
def unplanned : Plan := ⟨none, ⟨none⟩, none, true⟩

/-- A task submitted, and what the gate learns about it outside the store. -/
structure Submission where
  requester : String
  typeUri : String
  /-- The canonical text of the payload. -/
  payload : String
  require : Option RequireConsent
  now : Nat
  /-- Drawn afresh for a request this submission raises. -/
  challenge : String
  correlator : String
  plan : Except AppError (Option Plan)
  /-- Whether an approver could confer the context. -/
  canConfer : String → String → Bool

inductive Gated where
  /-- A grant was spent; the task runs, with the contexts it delegates. -/
  | proceed (delegatedContexts : List String)
  | consentRequired (pending : PendingTaskConsent) (newlyRaised : Bool)
  deriving DecidableEq

def consentPendingTtlSecs : Nat := 900

def approvalsStillAuthorize (require : RequireConsent) (members : List String) (grant : TaskConsentGrant)
    (requester : String) : Except String Unit :=
  let minApprovals := max require.minApprovals 1
  let stillValid := grant.approvers.filter fun a =>
    decide (a ∈ members) && !(require.excludeRequester && decide (a = requester))
  if minApprovals ≤ stillValid.length then .ok ()
  else
    let revoked := grant.approvers.filter fun a => decide (a ∉ stillValid)
    let names := if revoked.isEmpty then "the approver set or its threshold changed" else ", ".intercalate revoked
    let missing := minApprovals - stillValid.length
    .error (s!"the approval for this task is no longer valid: {missing} of the {minApprovals} required approver(s) " ++
      s!"are no longer permitted to approve it ({names}). Re-submit to ask the current approver set.")

def planStillHolds (plan : Except AppError (Option Plan)) (grant : TaskConsentGrant) : Bool :=
  match plan with
  | .error _ => false
  | .ok none => true
  | .ok (some current) => decide (current.statePin = grant.statePin) && decide (current.guards = grant.guards)

def mintedPending (hash : Bytes → String) (sub : Submission) (require : RequireConsent) (plan : Plan) :
    PendingTaskConsent where
  digest := payloadDigest hash sub.typeUri sub.payload
  wireDigest := wireDigest hash sub.typeUri sub.payload sub.challenge
  typeUri := sub.typeUri
  requesterDid := sub.requester
  approverSet := require.approverSet
  minApprovals := max require.minApprovals 1
  excludeRequester := require.excludeRequester
  challenge := sub.challenge
  correlator := sub.correlator
  approvals := []
  statePin := plan.statePin
  guards := plan.guards
  subjectContext := plan.subjectContext
  requesterAuthorized := plan.requesterAuthorized
  boundApprover := none
  createdAt := sub.now
  expiresAt := sub.now + consentPendingTtlSecs
  distinct := List.nodup_nil

def mintPending (pending : PendingTaskConsent) : ConsentProgram Gated :=
  (storePending pending).bind fun _ => pure (.consentRequired pending true)

def unsatisfiable (sub : Submission) (require : RequireConsent) (members : List String) (plan : Plan) :
    Option Refusal :=
  match plan.requesterAuthorized, plan.subjectContext with
  | false, some ctx =>
    let eligible := (members.filter fun member => sub.canConfer member ctx).length
    let needed := max require.minApprovals 1
    if eligible < needed then
      some (.permissionDenied (s!"this task updates context `{ctx}`, which the requester is not authorized for and " ++
        s!"which consent cannot confer: {eligible} of the required {needed} member(s) of approver set " ++
        s!"`{require.approverSet}` hold approve authority over `{ctx}`. Grant an approver approve-scope (or admin) " ++
        s!"over `{ctx}`, or run this as a principal that already holds the context — otherwise the approval would " ++
        "succeed but the update would still be refused."))
    else none
  | _, _ => none

/-- Ask under the request that is there, or under a new one. -/
def reuseOrMint (hash : Bytes → String) (sub : Submission) (require : RequireConsent) (plan : Plan) :
    ConsentProgram Gated :=
  (getPending (payloadDigest hash sub.typeUri sub.payload) sub.now).bind fun existing =>
    match existing with
    | some p =>
      if p.statePin = plan.statePin ∧ p.guards = plan.guards then pure (.consentRequired p false)
      else (deletePending p).bind fun _ => mintPending (mintedPending hash sub require plan)
    | none => mintPending (mintedPending hash sub require plan)

/-- A grant was found, and is spent whatever follows. -/
def spend (sub : Submission) (require : RequireConsent) (members : List String) (grant : TaskConsentGrant) :
    ConsentProgram Gated :=
  match approvalsStillAuthorize require members grant sub.requester with
  | .error why => Program.fail (.permissionDenied why)
  | .ok () =>
    if planStillHolds sub.plan grant then pure (.proceed grant.delegatedContexts)
    else Program.fail (.taskFailed "auth:consent_stale")

def consentGate (hash : Bytes → String) (sub : Submission) : ConsentProgram Gated :=
  match sub.require with
  | none => Program.fail (.permissionDenied "policy requires consent but named no approver set")
  | some require =>
    (approverSetMembers require.approverSet).bind fun members =>
      if members.isEmpty then
        Program.fail (.permissionDenied s!"approver set '{require.approverSet}' is unknown or empty")
      else
        (consumeGrant sub.requester sub.typeUri (payloadDigest hash sub.typeUri sub.payload) sub.now).bind fun found =>
          match found with
          | some grant => spend sub require members grant
          | none =>
            match sub.plan with
            | .error e => Program.fail (.app e)
            | .ok found =>
              let plan := found.getD unplanned
              match unsatisfiable sub require members plan with
              | some refusal => Program.fail refusal
              | none => reuseOrMint hash sub require plan

end TrustInfrastructure.Consent
