import TrustInfrastructure.Access.Checks
import TrustInfrastructure.Lib.Conduct

/-!
# Access control: the operations

The ACL operations as programs over the store that holds the entries and the registered contexts: each read of the
clock, each `get`, each batch and each compare-and-move of the source is one operation of the program, in the source's
order. `updateAcl` and `createAcl` write unconditionally what they computed from rows they read earlier;
`changeRole` writes through `updateAclEntryVersioned`, which reads the row again and compares its version;
`exerciseHandoff` moves the caller's row only if it is still the one read.

What a caller proves about itself outside the store is an argument: `swapAcl` is given the DID the presentation
proved, or the error it was refused with, and `exerciseHandoff` whether the audit row it writes before the commit
was written.
-/

namespace TrustInfrastructure.Access

open Lib (Program Conduct Rows RowOp Check Write MoveOutcome rowStore)

/-! ### The store -/

inductive AclKey where
  | entry (did : String)
  | context (id : String)
  deriving DecidableEq

abbrev Stored (did : String) : Type := { entry : AclEntry // entry.did = did }

abbrev Stored.of (entry : AclEntry) : Stored entry.did := ⟨entry, rfl⟩

@[reducible] def AclRow : AclKey → Type
  | .entry did => Stored did
  | .context _ => Unit

instance instDecidableEqAclRow : ∀ k, DecidableEq (AclRow k)
  | .entry did => inferInstanceAs (DecidableEq (Stored did))
  | .context _ => inferInstanceAs (DecidableEq Unit)

abbrev aclStore : Lib.Interface := rowStore AclRow

abbrev AclState := Rows AclRow

abbrev AclProgram (α : Type) := Program aclStore AppError α

def entryOf (s : AclState) (did : String) : Option AclEntry :=
  match s.row (.entry did) with
  | some (row : Stored did) => some row.val
  | none => none

namespace AclProgram

def nowEpoch : AclProgram Nat := Program.perform (I := aclStore) (.now : RowOp AclRow)

def getAclEntry (did : String) : AclProgram (Option (Stored did)) :=
  Program.perform (I := aclStore) (.get (.entry did) : RowOp AclRow)

def hasContext (id : String) : AclProgram (Option Unit) :=
  Program.perform (I := aclStore) (.get (.context id) : RowOp AclRow)

def applyBatch (checks : List (Check AclRow)) (writes : List (Write AclRow)) : AclProgram Bool :=
  Program.perform (I := aclStore) (.batch checks writes : RowOp AclRow)

def moveAclEntryIfUnchanged (oldDid : String) (expected : Stored oldDid) (successor : AclEntry) :
    AclProgram MoveOutcome :=
  Program.perform (I := aclStore)
    (.move (.entry oldDid) expected (.entry successor.did) (⟨successor, rfl⟩ : Stored successor.did) : RowOp AclRow)

def putEntry (entry : AclEntry) : Write AclRow := .put (.entry entry.did) (⟨entry, rfl⟩ : Stored entry.did)

end AclProgram

open AclProgram

def storeAclEntry (entry : AclEntry) : AclProgram Unit :=
  (applyBatch [] [putEntry entry]).bind fun _ => pure ()

def deleteAclEntry (did : String) : AclProgram Unit :=
  (applyBatch [] [.delete (.entry did)]).bind fun _ => pure ()

def movedAhead (did : String) (expected stored : Nat) : AppError :=
  .conflict (s!"ACL entry for {did} has moved ahead (expected v{expected}, found v{stored}); re-read and retry")

def updateAclEntryVersioned (newEntry : AclEntry) (expectedVersion : Nat) : AclProgram Nat :=
  (getAclEntry newEntry.did).bind fun current =>
    let storedVersion := (current.map fun row => row.val.version).getD 0
    if storedVersion ≠ expectedVersion then Program.fail (movedAhead newEntry.did expectedVersion storedVersion)
    else
      let check : Check AclRow := match current with
        | some row => .unchanged (.entry newEntry.did) row
        | none => .absent (.entry newEntry.did)
      let newVersion := expectedVersion + 1
      (applyBatch [check] [putEntry { newEntry with version := newVersion }]).bind fun applied =>
        if applied then pure newVersion
        else Program.fail (movedAhead newEntry.did expectedVersion storedVersion)

def requireContextsExist (contexts : List String) : AclProgram Unit :=
  Program.forEach contexts fun ctx =>
    (hasContext ctx).bind fun found =>
      match found with
      | some () => pure ()
      | none =>
        Program.fail (.notFound (s!"context '{ctx}' is not registered on this VTA — create it first via " ++
          s!"'vta contexts create --id {ctx}' (offline) or 'pnm contexts create' (online)"))

def entryNotFound (did : String) : AppError := .notFound s!"ACL entry not found for DID: {did}"

def entryExists (did : String) : AppError := .conflict s!"ACL entry already exists for DID: {did}"

def callerEntry (auth : AuthClaims) : AclProgram AclEntry :=
  if auth.isLocalCliPrincipal then
    nowEpoch.bind fun now => pure { AclEntry.new auth.did .admin auth.did now with approveScope := .all }
  else
    (getAclEntry auth.did).bind fun found =>
      match found with
      | some ⟨entry, _⟩ =>
        nowEpoch.bind fun now =>
          if entry.isExpired now then
            Program.fail (.forbidden (s!"your ACL entry ({auth.did}) has expired; an expired entry confers no " ++
              "authority to grant (VTI-ACL-004)"))
          else pure entry
      | none =>
        Program.fail (.forbidden (s!"{auth.did} has no ACL entry of its own, so there is no authority to bound " ++
          "this change by (VTI-ACL-001, VTI-ACL-053)"))

/-! ### Creating -/

structure CreateAclParams where
  did : String
  role : Role
  label : Option String
  allowedContexts : List String
  expiresAt : Option Nat
  stepUpApprover : Option String
  stepUpRequire : Option String
  approveScope : ApproveScope
  allowedKeys : Option (List String)
  capabilities : List Capability
  handoff : Bool
  deriving DecidableEq

def beyondRole (role : Role) (beyond : List Capability) : AppError :=
  .validation (s!"role {role.display} does not carry {debugList Capability.debug beyond}; an entry's " ++
    "capabilities can only narrow what its role allows, never widen it")

def validateBeyondRole (role : Role) (capabilities : List Capability) : Except AppError Unit :=
  let beyond := capabilitiesBeyondRole role capabilities
  if beyond.isEmpty then .ok () else .error (beyondRole role beyond)

def handOffBound (auth : AuthClaims) (me : AclEntry) : HandOffBound where
  role := auth.role
  allowedContexts := auth.allowedContexts
  capabilities := me.capabilities
  approveScope := me.approveScope
  allowedKeys := me.allowedKeys
  expiresAt := me.expiresAt

def mintHandoff (auth : AuthClaims) (me : AclEntry) (subject : String) (expiresAt : Option Nat) :
    AclProgram HandOff :=
  if subject = auth.did then
    Program.fail (.forbidden "you cannot mark your own entry as a hand-off (VTI-ACL-054)")
  else if me.handoff.isSome then
    Program.fail (.forbidden ("your own entry is a hand-off, so you cannot mark another one (VTI-ACL-054) — " ++
      "an administrator whose entry carries no marker must grant it"))
  else if expiresAt.isNone then
    Program.fail (.validation ("a hand-off entry must carry an expiry (VTI-ACL-054), so an unused bootstrap " ++
      "grant lapses — give it one, e.g. `--expires 1h`"))
  else nowEpoch.bind fun now => pure ⟨auth.did, now, handOffBound auth me⟩

def requireApproveContextsExist : ApproveScope → AclProgram Unit
  | .contexts cs => requireContextsExist cs
  | _ => pure ()

def createdEntry (auth : AuthClaims) (params : CreateAclParams) (stepUpRequire : Option StepUpMode) (now : Nat) :
    AclEntry :=
  { AclEntry.new params.did params.role auth.did now with
    label := params.label
    allowedContexts := params.allowedContexts
    expiresAt := params.expiresAt
    stepUpApprover := params.stepUpApprover
    stepUpRequire := stepUpRequire
    approveScope := params.approveScope
    allowedKeys := params.allowedKeys
    capabilities := params.capabilities }

def createAcl (auth : AuthClaims) (params : CreateAclParams) : AclProgram AclEntry :=
  (Program.lift auth.requireManage).bind fun _ =>
  (Program.lift (validateRoleAssignment auth params.role)).bind fun _ =>
  (Program.lift (validateAclModification auth params.role params.allowedContexts)).bind fun _ =>
  (Program.lift (validateAllowedKeys params.allowedKeys)).bind fun _ =>
  (Program.lift (validateBeyondRole params.role params.capabilities)).bind fun _ =>
  (Program.lift (validateAdditiveCapabilityGrant auth params.capabilities)).bind fun _ =>
  (Program.lift (validateApproveScopeGrant auth params.approveScope)).bind fun _ =>
  (requireContextsExist params.allowedContexts).bind fun _ =>
  (requireApproveContextsExist params.approveScope).bind fun _ =>
  (Program.lift (parseStepUpRequire params.stepUpRequire)).bind fun stepUpRequire =>
  (getAclEntry params.did).bind fun existing =>
  if existing.isSome then Program.fail (entryExists params.did)
  else
    nowEpoch.bind fun now =>
    (callerEntry auth).bind fun me =>
    (Program.lift (validateWithinCaller auth me (createdEntry auth params stepUpRequire now))).bind fun _ =>
    (if params.handoff then
      (mintHandoff auth me params.did params.expiresAt).bind fun marker =>
        pure { createdEntry auth params stepUpRequire now with handoff := some marker }
    else pure (createdEntry auth params stepUpRequire now)).bind fun entry =>
    (storeAclEntry entry).bind fun _ => pure entry

/-! ### Updating -/

structure UpdateAclParams where
  role : Option Role
  label : Option String
  allowedContexts : Option (List String)
  stepUpApprover : Option String
  stepUpRequire : Option String
  approveScope : Option ApproveScope
  expiresAt : Option Nat
  clearExpiry : Bool
  capabilities : Option (List Capability)
  allowedKeys : Option (Option (List String))
  deriving DecidableEq

/-- A patch that changes nothing. -/
def UpdateAclParams.unchanged : UpdateAclParams :=
  ⟨none, none, none, none, none, none, none, false, none, none⟩

def orCleared (text : String) : Option String := if text.isEmpty then none else some text

def symmetricDifferenceContexts (old new : List String) : List String :=
  ((old.filter fun c => !new.contains c) ++ (new.filter fun c => !old.contains c)).dedup

namespace UpdateAclParams

def patched (params : UpdateAclParams) (entry : AclEntry) : AclEntry :=
  { entry with
    role := params.role.getD entry.role
    label := match params.label with
      | some label => orCleared label
      | none => entry.label
    capabilities := params.capabilities.getD entry.capabilities
    stepUpApprover := match params.stepUpApprover with
      | some approver => orCleared approver
      | none => entry.stepUpApprover
    stepUpRequire := match params.stepUpRequire with
      | some _ => none
      | none => entry.stepUpRequire
    allowedContexts := params.allowedContexts.getD entry.allowedContexts
    allowedKeys := params.allowedKeys.getD entry.allowedKeys
    approveScope := params.approveScope.getD entry.approveScope
    expiresAt := match params.expiresAt with
      | some expiresAt => some expiresAt
      | none => if params.clearExpiry then none else entry.expiresAt }

def checkRole (params : UpdateAclParams) (auth : AuthClaims) : Except AppError Unit :=
  match params.role with
  | some role => validateRoleAssignment auth role
  | none => .ok ()

/-- Judged against the role the patch leaves the entry with. -/
def checkCapabilities (params : UpdateAclParams) (auth : AuthClaims) (entry : AclEntry) : Except AppError Unit :=
  match params.capabilities with
  | some capabilities => do
    validateBeyondRole (params.role.getD entry.role) capabilities
    validateAdditiveCapabilityGrant auth capabilities
  | none => .ok ()

/-- A stored override is never written: `parseStepUpRequire` refuses every text that is not blank. -/
def checkStepUpRequire (params : UpdateAclParams) : Except AppError Unit :=
  match params.stepUpRequire with
  | some require =>
    if (trim require).isEmpty then .ok ()
    else do
      let _ ← parseStepUpRequire (some require)
      .ok ()
  | none => .ok ()

/-- Every context added or removed has to be the caller's, and the result one the caller could have created. -/
def checkContexts (params : UpdateAclParams) (auth : AuthClaims) (entry : AclEntry) : Except AppError Unit :=
  match params.allowedContexts with
  | some allowedContexts => do
    if auth.isSuperAdmin then pure ()
    else checkAll auth.requireContext (symmetricDifferenceContexts entry.allowedContexts allowedContexts)
    validateAclModification auth (params.role.getD entry.role) allowedContexts
  | none => .ok ()

def addedContexts (params : UpdateAclParams) (entry : AclEntry) : List String :=
  (params.allowedContexts.getD []).filter fun c => !entry.allowedContexts.contains c

def checkKeys (params : UpdateAclParams) : Except AppError Unit :=
  match params.allowedKeys with
  | some replacement => validateAllowedKeys replacement
  | none => .ok ()

def checkApproveScope (params : UpdateAclParams) (auth : AuthClaims) : Except AppError Unit :=
  match params.approveScope with
  | some scope => validateApproveScopeGrant auth scope
  | none => .ok ()

end UpdateAclParams

def updateAcl (auth : AuthClaims) (did : String) (params : UpdateAclParams) : AclProgram AclEntry :=
  (Program.lift auth.requireAdmin).bind fun _ =>
  (Program.lift (refuseSelfModification auth did "update")).bind fun _ =>
  (getAclEntry did).bind fun found =>
  match found with
  | none => Program.fail (entryNotFound did)
  | some ⟨entry, _⟩ =>
    if !isAclEntryVisible auth entry then Program.fail (notManageable auth entry did "update")
    else if !callerCoversEntry auth entry then Program.fail (notCovered did "update")
    else
      (callerEntry auth).bind fun me =>
      (Program.lift (params.checkRole auth)).bind fun _ =>
      (Program.lift (params.checkCapabilities auth entry)).bind fun _ =>
      (Program.lift params.checkStepUpRequire).bind fun _ =>
      (Program.lift (params.checkContexts auth entry)).bind fun _ =>
      (requireContextsExist (params.addedContexts entry)).bind fun _ =>
      (Program.lift params.checkKeys).bind fun _ =>
      (Program.lift (params.checkApproveScope auth)).bind fun _ =>
      (requireApproveContextsExist (params.approveScope.getD .none)).bind fun _ =>
      let entry := params.patched entry
      (Program.lift (validateRoleAssignment auth entry.role)).bind fun _ =>
      (Program.lift (validateAclModification auth entry.role entry.allowedContexts)).bind fun _ =>
      (Program.lift (validateWithinCaller auth me entry)).bind fun _ =>
      (storeAclEntry entry).bind fun _ => pure entry

/-! ### Changing a role -/

def parseRole (raw : String) : Except AppError Role :=
  match Role.parse raw with
  | .ok role => .ok role
  | .error _ =>
    .error (.validation (s!"role not recognized: {raw}; expected one of admin, initiator, " ++
      "application, reader, monitor"))

def staleRole (subject : String) (found : Role) (expected : Role) : AppError :=
  .conflict (s!"role of {subject} is {found.display}, not {expected.display} — the change was based on stale " ++
    "state. Re-read the entry and retry with the current role")

def changeRole (auth : AuthClaims) (subject fromRole toRole : String) : AclProgram AclEntry :=
  (Program.lift auth.requireAdmin).bind fun _ =>
  (Program.lift (refuseSelfModification auth subject "change the role of")).bind fun _ =>
  (getAclEntry subject).bind fun found =>
  match found with
  | none => Program.fail (entryNotFound subject)
  | some ⟨entry, _⟩ =>
    if !isAclEntryVisible auth entry then Program.fail (notManageable auth entry subject "change-role")
    else if !callerCoversEntry auth entry then Program.fail (notCovered subject "change-role")
    else
      (Program.lift (parseRole fromRole)).bind fun fromRole =>
      (Program.lift (parseRole toRole)).bind fun toRole =>
      if entry.role ≠ fromRole then Program.fail (staleRole subject entry.role fromRole)
      else
        (Program.lift (validateRoleAssignment auth toRole)).bind fun _ =>
        (Program.lift (validateAclModification auth toRole entry.allowedContexts)).bind fun _ =>
        (callerEntry auth).bind fun me =>
        (Program.lift (validateWithinCaller auth me { entry with role := toRole })).bind fun _ =>
        (updateAclEntryVersioned { entry with role := toRole } entry.version).bind fun _ =>
        pure { entry with role := toRole }

/-! ### Deleting and rotating -/

def deleteAcl (auth : AuthClaims) (did : String) : AclProgram Unit :=
  (Program.lift auth.requireManage).bind fun _ =>
  if auth.did = did then Program.fail (.conflict "cannot delete your own ACL entry")
  else
    (getAclEntry did).bind fun found =>
    match found with
    | none => Program.fail (entryNotFound did)
    | some ⟨entry, _⟩ =>
      if !isAclEntryVisible auth entry then Program.fail (notManageable auth entry did "delete")
      else if !callerCoversEntry auth entry then Program.fail (notCovered did "delete")
      else
        (Program.lift (validateRoleAssignment auth entry.role)).bind fun _ =>
        deleteAclEntry did

/-- The caller's entry under its new subject: everything moves across but a hand-off marker. -/
def rotatedEntry (old : AclEntry) (newDid : String) : AclEntry := { old with did := newDid, handoff := none }

/-- `presented` is the DID the presentation proved, or why it was refused. -/
def swapAcl (auth : AuthClaims) (presented : Except AppError String) : AclProgram AclEntry :=
  nowEpoch.bind fun now =>
  (Program.lift presented).bind fun newDid =>
  if newDid = auth.did then Program.fail (.conflict "new DID equals current DID; nothing to swap")
  else
    (getAclEntry auth.did).bind fun found =>
    match found with
    | none => Program.fail (.notFound s!"no ACL entry for caller: {auth.did}")
    | some ⟨old, _⟩ =>
      if old.isExpired now then
        Program.fail (.forbidden s!"ACL entry for {auth.did} has expired; an expired entry cannot be rotated")
      else
        (getAclEntry newDid).bind fun taken =>
        if taken.isSome then Program.fail (entryExists newDid)
        else
          (storeAclEntry (rotatedEntry old newDid)).bind fun _ =>
          (deleteAclEntry auth.did).bind fun _ => pure (rotatedEntry old newDid)

/-! ### Exercising a hand-off -/

structure HandOffSuccessor where
  did : String
  role : Role
  label : Option String
  allowedContexts : List String
  capabilities : List Capability
  deriving DecidableEq

/-- The granter's token, as it stood when it set the marker. -/
def granterClaims (auth : AuthClaims) (marker : HandOff) : AuthClaims :=
  { auth with
    did := marker.grantedBy
    role := marker.bound.role
    allowedContexts := marker.bound.allowedContexts }

def granterEntry (marker : HandOff) (now : Nat) : AclEntry :=
  { AclEntry.new marker.grantedBy marker.bound.role "handoff" now with
    allowedContexts := marker.bound.allowedContexts
    capabilities := marker.bound.capabilities
    approveScope := marker.bound.approveScope
    allowedKeys := marker.bound.allowedKeys
    expiresAt := marker.bound.expiresAt }

def successorEntry (auth : AuthClaims) (me : AclEntry) (marker : HandOff) (successor : HandOffSuccessor)
    (now : Nat) : AclEntry :=
  { AclEntry.new successor.did successor.role auth.did now with
    label := successor.label
    allowedContexts := successor.allowedContexts
    capabilities := successor.capabilities
    allowedKeys := me.allowedKeys
    expiresAt := marker.bound.expiresAt }

/-- The successor against the marked entry: role and act scope by the token, the rest by its row without its expiry. -/
def withinMarked (auth : AuthClaims) (me entry : AclEntry) : Except AppError Unit := do
  validateRoleAssignment auth entry.role
  validateAclModification auth entry.role entry.allowedContexts
  validateWithinCaller auth { me with expiresAt := none } entry
  match (entry.capabilities.filter isAdditive).find? fun c => !me.capabilities.contains c with
  | some c =>
    .error (.forbidden s!"the successor would hold {c.debug}, which the hand-off entry does not (VTI-ACL-055)")
  | none => .ok ()

def withinGranter (auth : AuthClaims) (marker : HandOff) (entry : AclEntry) (now : Nat) : Except AppError Unit :=
  let judged : Except AppError Unit := do
    validateRoleAssignment (granterClaims auth marker) entry.role
    validateAclModification (granterClaims auth marker) entry.role entry.allowedContexts
    validateAdditiveCapabilityGrant (granterClaims auth marker) (entry.capabilities.filter isAdditive)
    validateWithinCaller (granterClaims auth marker) (granterEntry marker now) entry
  match judged with
  | .ok () => .ok ()
  | .error e =>
    .error (.forbidden (s!"the successor exceeds the authority {marker.grantedBy} held when it marked this " ++
      s!"hand-off (VTI-ACL-055): {e.display}"))

def moveRefusal (did : String) : MoveOutcome → Except AppError Unit
  | .moved => .ok ()
  | .sourceMissing => .error (.conflict "the hand-off was exercised or revoked concurrently (VTI-ACL-056)")
  | .sourceChanged =>
    .error (.conflict "the hand-off entry changed while the rollover was prepared; retry (VTI-ACL-056)")
  | .targetExists => .error (entryExists did)

/-- `audited` is whether the record before the commit was written. -/
def exerciseHandoff (auth : AuthClaims) (successor : HandOffSuccessor) (audited : Except AppError Unit) :
    AclProgram AclEntry :=
  nowEpoch.bind fun now =>
  (getAclEntry auth.did).bind fun found =>
  match found with
  | none =>
    Program.fail (.forbidden (s!"{auth.did} has no ACL entry, so there is no hand-off to exercise — it may already " ++
      "have been exercised (VTI-ACL-055)"))
  | some row =>
    let me := row.val
    match me.handoff with
    | none =>
      Program.fail (.forbidden (s!"{auth.did} carries no hand-off marker, so it cannot write a successor that " ++
        "outlives it (VTI-ACL-058) — the granter must mark the entry as a hand-off when creating it"))
    | some marker =>
      if me.isExpired now then
        Program.fail (.forbidden (s!"the hand-off entry for {auth.did} has expired; an expired marker cannot be " ++
          "exercised (VTI-ACL-055)"))
      else if marker.bound.expiresAt.any fun t => decide (t ≤ now) then
        Program.fail (.forbidden
          "the granter's authority this hand-off is bounded by has expired (VTI-ACL-055)")
      else if successor.did = auth.did then
        Program.fail (.validation "a hand-off's successor must be a different subject")
      else
        let beyond := capabilitiesBeyondRole successor.role successor.capabilities
        if !beyond.isEmpty then
          Program.fail (.validation
            s!"role {successor.role.display} does not carry {debugList Capability.debug beyond}")
        else
          (requireContextsExist successor.allowedContexts).bind fun _ =>
          nowEpoch.bind fun createdAt =>
          let entry := successorEntry auth me marker successor createdAt
          (Program.lift (withinMarked auth me entry)).bind fun _ =>
          (Program.lift (withinGranter auth marker entry now)).bind fun _ =>
          (Program.lift audited).bind fun _ =>
          (moveAclEntryIfUnchanged auth.did row entry).bind fun outcome =>
          (Program.lift (moveRefusal entry.did outcome)).bind fun _ => pure entry

end TrustInfrastructure.Access
