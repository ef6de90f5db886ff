import TrustInfrastructure.Rooms.Types
import TrustInfrastructure.Lib.Conduct
import TrustInfrastructure.Lib.Rows

/-!
# Task consent: the records and their store functions

A privileged task waits for the consent of named approvers. A `PendingTaskConsent` collects their approvals under the
task's digest, and is found by approvers through an index over the digest they sign; a `TaskConsentGrant` is the
completed authorization, kept for its requester until it is spent; a `BoundRequestMark` outlives a request that was put
to one named approver. Here are the functions of the store module as programs over these rows, one operation for each
read and each conditional batch of the source. Every row is kept under its own digest and requester, which the types of
the rows say.

A request, a mark or a grant that has lapsed is removed by whoever comes across it, while it is still the row that was
read (`prune`). `sweepExpired` is given the keys its prefix scans list.
-/

namespace TrustInfrastructure.Consent

open Lib (Program Rows RowOp Check Write rowStore)
open Rooms (AppError)

/-! ### Records -/

structure StatePin where
  resource : String
  version : String
  deriving DecidableEq

structure WebvhPathCounter where
  basePath : String
  counter : Nat
  deriving DecidableEq

structure Guards where
  webvhPathCounter : Option WebvhPathCounter
  deriving DecidableEq

structure PendingTaskConsent where
  digest : String
  wireDigest : String
  typeUri : String
  requesterDid : String
  approverSet : String
  minApprovals : Nat
  excludeRequester : Bool
  challenge : String
  correlator : String
  approvals : List String
  statePin : Option StatePin
  guards : Guards
  subjectContext : Option String
  requesterAuthorized : Bool
  boundApprover : Option String
  createdAt : Nat
  expiresAt : Nat
  distinct : approvals.Nodup
  deriving DecidableEq

structure TaskConsentGrant where
  digest : String
  requesterDid : String
  typeUri : String
  approvers : List String
  statePin : Option StatePin
  guards : Guards
  delegatedContexts : List String
  grantedAt : Nat
  expiresAt : Nat
  deriving DecidableEq

structure BoundRequestMark where
  digest : String
  requesterDid : String
  approver : String
  expiresAt : Nat
  keepUntil : Nat
  denied : Bool
  deriving DecidableEq

def PendingTaskConsent.approved (p : PendingTaskConsent) (approver : String) (h : approver ∉ p.approvals) :
    PendingTaskConsent :=
  { p with
    approvals := p.approvals ++ [approver]
    distinct := List.nodup_append.mpr ⟨p.distinct, List.nodup_singleton approver, fun _ ha _ hb heq =>
      h (List.mem_singleton.mp hb ▸ heq ▸ ha)⟩ }

/-! ### The store -/

inductive ConsentKey where
  | pending (digest : String)
  | wire (wireDigest : String)
  | grant (requester digest : String)
  | bound (requester digest : String)
  /-- The members of an approver set, which the policies name. -/
  | approvers (name : String)
  deriving DecidableEq

abbrev PendingRow (digest : String) : Type := { p : PendingTaskConsent // p.digest = digest }

abbrev GrantRow (requester digest : String) : Type :=
  { g : TaskConsentGrant // g.requesterDid = requester ∧ g.digest = digest }

abbrev MarkRow (requester digest : String) : Type :=
  { m : BoundRequestMark // m.requesterDid = requester ∧ m.digest = digest }

@[reducible] def ConsentRow : ConsentKey → Type
  | .pending digest => PendingRow digest
  | .wire _ => String
  | .grant requester digest => GrantRow requester digest
  | .bound requester digest => MarkRow requester digest
  | .approvers _ => List String

instance instDecidableEqConsentRow : ∀ k, DecidableEq (ConsentRow k)
  | .pending digest => inferInstanceAs (DecidableEq (PendingRow digest))
  | .wire _ => inferInstanceAs (DecidableEq String)
  | .grant requester digest => inferInstanceAs (DecidableEq (GrantRow requester digest))
  | .bound requester digest => inferInstanceAs (DecidableEq (MarkRow requester digest))
  | .approvers _ => inferInstanceAs (DecidableEq (List String))

abbrev consentStore : Lib.Interface := rowStore ConsentRow

abbrev ConsentState := Rows ConsentRow

/-- How a call is refused: by the store functions, or by the handlers over them. -/
inductive Refusal where
  | app (e : AppError)
  | permissionDenied (reason : String)
  | taskFailed (reason : String)
  deriving DecidableEq

abbrev ConsentProgram (α : Type) := Program consentStore Refusal α

namespace ConsentProgram

def get (k : ConsentKey) : ConsentProgram (Option (ConsentRow k)) :=
  Program.perform (I := consentStore) (.get k : RowOp ConsentRow)

def take (k : ConsentKey) : ConsentProgram (Option (ConsentRow k)) :=
  Program.perform (I := consentStore) (.take k : RowOp ConsentRow)

def applyBatch (checks : List (Check ConsentRow)) (writes : List (Write ConsentRow)) : ConsentProgram Bool :=
  Program.perform (I := consentStore) (.batch checks writes : RowOp ConsentRow)

end ConsentProgram

open ConsentProgram

/-! ### The writes -/

def putPending (p : PendingTaskConsent) : Write ConsentRow := .put (.pending p.digest) (⟨p, rfl⟩ : PendingRow p.digest)

def putWire (p : PendingTaskConsent) : Write ConsentRow := .put (.wire p.wireDigest) p.digest

def putGrant (g : TaskConsentGrant) : Write ConsentRow :=
  .put (.grant g.requesterDid g.digest) (⟨g, rfl, rfl⟩ : GrantRow g.requesterDid g.digest)

def putMark (m : BoundRequestMark) : Write ConsentRow :=
  .put (.bound m.requesterDid m.digest) (⟨m, rfl, rfl⟩ : MarkRow m.requesterDid m.digest)

/-- A request and its wire index are removed together. -/
def retire (p : PendingTaskConsent) : List (Write ConsentRow) :=
    [.delete (.pending p.digest), .delete (.wire p.wireDigest)]

/-- The request is still the one read. -/
def unchanged (p : PendingTaskConsent) : Check ConsentRow :=
  .unchanged (.pending p.digest) (⟨p, rfl⟩ : PendingRow p.digest)

/-- Whether a row has outlived its time. -/
def lapsed (now : Nat) : (k : ConsentKey) → ConsentRow k → Bool
  | .pending _, p => decide (p.val.expiresAt ≤ now)
  | .bound _ _, m => decide (m.val.keepUntil ≤ now)
  | .grant _ _, g => decide (g.val.expiresAt ≤ now)
  | _, _ => false

def removal : (k : ConsentKey) → ConsentRow k → List (Write ConsentRow)
  | .pending _, p => retire p.val
  | k, _ => [.delete k]

def prune (k : ConsentKey) (row : ConsentRow k) : ConsentProgram Bool := applyBatch [.unchanged k row] (removal k row)

/-! ### Pending requests -/

def writeAttempts : Nat := 64

def storePending (p : PendingTaskConsent) : ConsentProgram Unit :=
  (applyBatch [] [putPending p, putWire p]).bind fun _ => pure ()

def readLivePending (digest : String) (now : Nat) : ConsentProgram (Option PendingTaskConsent) :=
  (get (.pending digest)).bind fun found =>
    match found with
    | none => pure none
    | some (p : PendingRow digest) =>
      if lapsed now (.pending digest) p then (prune (.pending digest) p).bind fun _ => pure none
      else pure (some p.val)

def getPending (digest : String) (now : Nat) : ConsentProgram (Option PendingTaskConsent) := readLivePending digest now

def pendingByWireDigest (wireDigest : String) (now : Nat) : ConsentProgram (Option PendingTaskConsent) :=
  (get (.wire wireDigest)).bind fun found =>
    match found with
    | none => pure none
    | some (internal : String) => getPending internal now

def deletePending (p : PendingTaskConsent) : ConsentProgram Unit := (applyBatch [] (retire p)).bind fun _ => pure ()

/-- At most so many attempts; one is lost only to a write of the same request. -/
def addApprovalWithin (digest approver : String) (now : Nat) : Nat → ConsentProgram (Option PendingTaskConsent)
  | 0 => Program.fail (.app (.conflict
      (s!"task-consent pending {digest} kept changing while an approval was recorded")))
  | attempts + 1 =>
    (readLivePending digest now).bind fun found =>
      match found with
      | none => pure none
      | some p =>
        if h : approver ∈ p.approvals then pure (some p)
        else
          (applyBatch [unchanged p] [putPending (p.approved approver h)]).bind fun applied =>
            if applied then pure (some (p.approved approver h)) else addApprovalWithin digest approver now attempts

def addApproval (digest approver : String) (now : Nat) : ConsentProgram (Option PendingTaskConsent) :=
  addApprovalWithin digest approver now writeAttempts

def supports (p : PendingTaskConsent) (g : TaskConsentGrant) : Bool :=
  decide (p.requesterDid = g.requesterDid) && decide (p.typeUri = g.typeUri) &&
    g.approvers.all (fun a => decide (a ∈ p.approvals)) && decide (p.minApprovals ≤ p.approvals.length)

def mintWrites (p : PendingTaskConsent) (g : TaskConsentGrant) : List (Write ConsentRow) := putGrant g :: retire p

def grantFromPendingWithin (grant : TaskConsentGrant) (now : Nat) : Nat → ConsentProgram Bool
  | 0 => Program.fail (.app (.conflict
      (s!"task-consent pending {grant.digest} kept changing while its grant was minted")))
  | attempts + 1 =>
    (readLivePending grant.digest now).bind fun found =>
      match found with
      | none => pure false
      | some p =>
        if !supports p grant then pure false
        else
          (applyBatch [unchanged p] (mintWrites p grant)).bind fun applied =>
            if applied then pure true else grantFromPendingWithin grant now attempts

def grantFromPending (grant : TaskConsentGrant) (now : Nat) : ConsentProgram Bool :=
  grantFromPendingWithin grant now writeAttempts

def removePendingIfPresent (p : PendingTaskConsent) : ConsentProgram Bool :=
  applyBatch [.present (.pending p.digest)] (retire p)

/-! ### Requests bound to one approver -/

def markOf (p : PendingTaskConsent) (approver : String) (keepUntil : Nat) : BoundRequestMark where
  digest := p.digest
  requesterDid := p.requesterDid
  approver := approver
  expiresAt := p.expiresAt
  keepUntil := max keepUntil p.expiresAt
  denied := false

def storeBoundPending (p : PendingTaskConsent) (keepUntil : Nat) : ConsentProgram Bool :=
  match p.boundApprover with
  | none => Program.fail (.app (.internal "store_bound_pending needs a pending with a bound approver"))
  | some approver =>
    applyBatch [.absent (.bound p.requesterDid p.digest), .absent (.pending p.digest)]
      [putMark (markOf p approver keepUntil), putPending p, putWire p]

def getBoundMark (requester digest : String) : ConsentProgram (Option (MarkRow requester digest)) :=
  get (.bound requester digest)

def denyBoundPending (p : PendingTaskConsent) : ConsentProgram Bool :=
  (getBoundMark p.requesterDid p.digest).bind fun found =>
    match found with
    | none => removePendingIfPresent p
    | some mark =>
      applyBatch [.present (.pending p.digest)] (retire p ++ [putMark { mark.val with denied := true }])

/-! ### Grants -/

def consumeGrant (requester typeUri digest : String) (now : Nat) : ConsentProgram (Option TaskConsentGrant) :=
  (take (.grant requester digest)).bind fun found =>
    match found with
    | none => pure none
    | some (grant : GrantRow requester digest) =>
      if lapsed now (.grant requester digest) grant then pure none
      else if grant.val.typeUri ≠ typeUri then
        Program.fail (.app (.internal (s!"task-consent grant type mismatch: granted for '{grant.val.typeUri}', " ++
          s!"presented for '{typeUri}'")))
      else pure (some grant.val)

def getGrant (requester digest : String) (now : Nat) : ConsentProgram (Option TaskConsentGrant) :=
  (get (.grant requester digest)).bind fun found =>
    match found with
    | none => pure none
    | some (grant : GrantRow requester digest) =>
      if lapsed now (.grant requester digest) grant then
        (prune (.grant requester digest) grant).bind fun _ => pure none
      else pure (some grant.val)

/-! ### The sweep -/

def scan : List ConsentKey → ConsentProgram (List ((k : ConsentKey) × ConsentRow k))
  | [] => pure []
  | k :: keys =>
    (get k).bind fun found =>
      (scan keys).bind fun rows =>
        match found with
        | none => pure rows
        | some row => pure (⟨k, row⟩ :: rows)

def pruneAll (now : Nat) : List ((k : ConsentKey) × ConsentRow k) → ConsentProgram Nat
  | [] => pure 0
  | ⟨k, row⟩ :: rows =>
    if lapsed now k row then
      (prune k row).bind fun applied =>
        (pruneAll now rows).bind fun pruned => pure (pruned + if applied then 1 else 0)
    else pruneAll now rows

def sweepPrefix (now : Nat) (keys : List ConsentKey) : ConsentProgram Nat :=
  (scan keys).bind fun rows => pruneAll now rows

def sweepExpired (pendings : List String) (marks grants : List (String × String)) (now : Nat) : ConsentProgram Nat :=
  (sweepPrefix now (pendings.map .pending)).bind fun requests =>
    (sweepPrefix now (marks.map fun k => .bound k.1 k.2)).bind fun bound =>
      (sweepPrefix now (grants.map fun k => .grant k.1 k.2)).bind fun granted =>
        pure (requests + bound + granted)

end TrustInfrastructure.Consent
