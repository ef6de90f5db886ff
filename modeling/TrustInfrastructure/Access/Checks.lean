import TrustInfrastructure.Access.Types
import TrustInfrastructure.Lib.Except

/-!
# Access control: the checks

The validators the ACL operations run before they write, each a computation that fails with the message the caller
is told. Two readings of the caller are in play: its token (`AuthClaims`: role and contexts) bounds the role and the
act scope of what it writes, and its own stored entry bounds every other axis (`validateWithinCaller`).

The second half says what each check has established once it passed, in terms of what the entries cover: a proof
about an operation peels the checks off with these and unfolds none of them.
-/

namespace TrustInfrastructure.Access

open Lib (bind_eq_ok)

/-! ### Shapes -/

def maxIdentifierLen : Nat := 64

def maxContextDepth : Nat := 8

/-- A character as `{:?}` prints it, for the characters that need no other escape. -/
def debugChar (c : Char) : String :=
  match c with
  | '\t' => "'\\t'"
  | '\r' => "'\\r'"
  | '\n' => "'\\n'"
  | '\'' => "'\\''"
  | '\\' => "'\\\\'"
  | c => "'" ++ c.toString ++ "'"

/-- Unicode white space, which `str::trim` takes off both ends. -/
def isWhiteSpace (c : Char) : Bool :=
  let n := c.toNat
  decide (9 ≤ n ∧ n ≤ 13 ∨ n = 0x20 ∨ n = 0x85 ∨ n = 0xA0 ∨ n = 0x1680 ∨ 0x2000 ≤ n ∧ n ≤ 0x200A ∨ n = 0x2028 ∨
    n = 0x2029 ∨ n = 0x202F ∨ n = 0x205F ∨ n = 0x3000)

def trim (text : String) : String :=
  String.ofList ((text.toList.dropWhile isWhiteSpace).reverse.dropWhile isWhiteSpace).reverse

/-- The first character of a text an identifier may not hold, and its position. -/
def invalidCharacter (text : List Char) : Option (Char × Nat) :=
  text.zipIdx.find? fun (c, _) => !(c.isAlphanum || c == '.' || c == '_' || c == '-')

def validateIdentifier (label value : String) : Except AppError Unit :=
  if value.isEmpty then .error (.validation s!"{label} must not be empty")
  else if value.utf8ByteSize > maxIdentifierLen then
    .error (.validation s!"{label} is {value.utf8ByteSize} bytes; maximum is {maxIdentifierLen}")
  else
    match invalidCharacter value.toList with
    | some (ch, i) =>
      .error (.validation (s!"{label} contains an invalid character {debugChar ch} at position {i}; " ++
        "allowed: A-Z, a-z, 0-9, '.', '_', '-'"))
    | none => .ok ()

def validateSegments : List (List Char) → Except AppError Unit
  | [] => .ok ()
  | segment :: rest => do
    if segment.isEmpty then throw (.validation "context path must not contain an empty segment ('//')")
    validateIdentifier "context path segment" (String.ofList segment)
    validateSegments rest

def validateContextPath (value : String) : Except AppError Unit :=
  if value.isEmpty then .error (.validation "context path must not be empty")
  else if value.toList.head? = some '/' || value.toList.getLast? = some '/' then
    .error (.validation "context path must not start or end with '/'")
  else if (segments value).length > maxContextDepth then
    .error (.validation
      s!"context path is {(segments value).length} levels deep; maximum is {maxContextDepth}")
  else validateSegments (segments value)

/-- Run a check on each of a list, stopping at the first that fails. -/
def checkAll (check : String → Except AppError Unit) : List String → Except AppError Unit
  | [] => .ok ()
  | c :: cs => do
    check c
    checkAll check cs

def validateAllowedKeys (allowedKeys : Option (List String)) : Except AppError Unit :=
  checkAll (fun key =>
    if (trim key).isEmpty then
      .error (.validation ("allowedKeys must not contain an empty key id — pass an empty " ++
        "list to authorize no keys, or omit the member for no filter"))
    else .ok ()) (allowedKeys.getD [])

def parseStepUpRequire (text : Option String) : Except AppError (Option StepUpMode) :=
  match text.map trim with
  | none => .ok none
  | some other =>
    if other.isEmpty then .ok none
    else
      .error (.validation (s!"stepUp.require ('{other}" ++
        "') is no longer honoured and this VTA will not store it — a per-entry override raised an " ++
        "`[auth.step_up]` floor, and the floors have been retired. Gating is expressed as a rule: " ++
        "`pnm approvals require <task-uri> --reauth` (or `--consent`), which " ++
        "`pnm approvals list` can show you. Re-send this request without the field."))

/-! ### The caller's token -/

namespace AuthClaims

def requireContext (auth : AuthClaims) (contextId : String) : Except AppError Unit :=
  if auth.hasContextAccess contextId then .ok ()
  else .error (.forbidden s!"no access to context: {contextId}")

def requireAdmin (auth : AuthClaims) : Except AppError Unit :=
  if auth.role = .admin then .ok () else .error (.forbidden "admin role required")

def requireManage (auth : AuthClaims) : Except AppError Unit :=
  if auth.role = .admin ∨ auth.role = .initiator then .ok ()
  else .error (.forbidden "admin or initiator role required")

end AuthClaims

def validateRoleAssignment (caller : AuthClaims) (targetRole : Role) : Except AppError Unit :=
  if caller.role = .monitor ∨ caller.role = .reader ∨ caller.role = .application then
    .error (.forbidden "insufficient role to assign roles")
  else if targetRole = .admin ∧ caller.role ≠ .admin then
    .error (.forbidden "only admins can assign the admin role")
  else .ok ()

def validateAclModification (caller : AuthClaims) (targetRole : Role) (targetContexts : List String) :
    Except AppError Unit := do
  checkAll validateContextPath targetContexts
  if caller.isSuperAdmin then .ok ()
  else
    match actScopeFor targetRole targetContexts with
    | .all => .error (.forbidden "only super admin can create an unrestricted (super-admin) account")
    | .none => .ok ()
    | .contexts cs => checkAll caller.requireContext cs

def validateAdditiveCapabilityGrant (caller : AuthClaims) (requested : List Capability) : Except AppError Unit :=
  let additive := requested.filter isAdditive
  if additive.isEmpty || caller.isSuperAdmin then .ok ()
  else
    .error (.forbidden (s!"only an unscoped holder credential can grant {debugList Capability.debug additive}: " ++
      "it confers authority over the holder's own identity, which sits above every trust context, and an " ++
      "administrator scoped to one context cannot confer what it does not itself hold"))

def validateApproveScopeGrant (caller : AuthClaims) (scope : ApproveScope) : Except AppError Unit :=
  match scope with
  | .none => .ok ()
  | .all =>
    if caller.isSuperAdmin then .ok ()
    else .error (.forbidden "only super admin can grant approve-all authority")
  | .contexts cs => do
    if cs.isEmpty then throw (.forbidden "approve scope must name at least one context (or use 'all')")
    checkAll validateContextPath cs
    checkAll caller.requireContext cs

/-! ### Whose entry a caller may see and manage -/

def isAclEntryVisible (caller : AuthClaims) (entry : AclEntry) : Bool :=
  caller.isSuperAdmin || entry.actScope.namedContexts.any caller.hasContextAccess

def isAclEntryAuditable (caller : AuthClaims) (entry : AclEntry) : Bool :=
  isAclEntryVisible caller entry ||
    match entry.approveScope with
    | .all => true
    | .contexts cs => cs.any caller.hasContextAccess
    | .none => false

def notManageable (auth : AuthClaims) (entry : AclEntry) (did verb : String) : AppError :=
  if isAclEntryAuditable auth entry then
    .forbidden (s!"{did} is visible to you because it may confer in a context you administer, " ++
      s!"but it acts outside your contexts — only an admin of the contexts it acts in can {verb} it")
  else .notFound s!"ACL entry not found for DID: {did}"

def callerCoversEntry (auth : AuthClaims) (entry : AclEntry) : Bool :=
  if auth.isSuperAdmin then true
  else
    let acts := match entry.actScope with
      | .contexts cs => cs.all auth.hasContextAccess
      | .none => true
      | .all => false
    let approves := match entry.approveScope with
      | .none => true
      | .contexts cs => cs.all auth.hasContextAccess
      | .all => false
    let namesSomething := decide (entry.actScope ≠ .none) || decide (entry.approveScope ≠ .none)
    acts && approves && namesSomething

def notCovered (did verb : String) : AppError :=
  .forbidden (s!"{did} holds authority outside your contexts — only an administrator whose scope covers " ++
    s!"every context it acts or approves in can {verb} it")

def refuseSelfModification (auth : AuthClaims) (did verb : String) : Except AppError Unit :=
  if auth.did = did then
    .error (.forbidden (s!"you cannot {verb} your own ACL entry (VTI-ACL-052) — another administrator whose " ++
      "scope covers it must make this change; to move your entry to a new key, rotate with acl/swap-key"))
  else .ok ()

/-! ### Within the caller's own entry -/

def aclEntryCanConfer (entry : AclEntry) (ctx : String) : Bool :=
  entry.approveScope.covers ctx || (decide (entry.role = .admin) && entry.actScope.covers ctx)

/-- The capabilities of `target` that the caller, acting with the token's role, does not hold. -/
def capabilitiesBeyondCaller (auth : AuthClaims) (caller target : AclEntry) : List Capability :=
  let ceiling := effectiveCapabilities auth.role caller.capabilities
  (effectiveCapabilities target.role target.capabilities).filter fun c => !isAdditive c && !ceiling.contains c

def withinCapabilities (auth : AuthClaims) (caller target : AclEntry) : Except AppError Unit :=
  let beyond := capabilitiesBeyondCaller auth caller target
  if beyond.isEmpty then .ok ()
  else
    .error (.forbidden (s!"this entry would hold {debugList Capability.debug beyond}, which your own entry does " ++
      "not — you can grant only capabilities you hold (VTI-ACL-053); narrow its capabilities to a subset of yours"))

def withinKeys (caller target : AclEntry) : Except AppError Unit :=
  match caller.allowedKeys with
  | none => .ok ()
  | some mine =>
    match target.allowedKeys with
    | none =>
      .error (.forbidden ("your entry is narrowed to a set of keys, so you cannot write an entry with " ++
        "no key filter — name the keys it may use, within your own (VTI-ACL-053)"))
    | some theirs =>
      let outside := theirs.filter fun key => !mine.contains key
      if outside.isEmpty then .ok ()
      else .error (.forbidden s!"keys {debugList debugText outside} are outside your own key filter (VTI-ACL-053)")

def withinExpiry (caller target : AclEntry) : Except AppError Unit :=
  match caller.expiresAt with
  | none => .ok ()
  | some mine =>
    match target.expiresAt with
    | none =>
      .error (.forbidden (s!"your entry expires at {mine}, so you cannot write a permanent one — give it " ++
        "an expiry no later than yours (VTI-ACL-053)"))
    | some theirs =>
      if theirs > mine then
        .error (.forbidden (s!"this entry would expire at {theirs}, after your own ({mine}) — an entry you " ++
          "write cannot outlive your authority (VTI-ACL-053)"))
      else .ok ()

/-- The caller as it acts now: the token's role and contexts, with its row's approve scope. -/
def actingEntry (auth : AuthClaims) (caller : AclEntry) : AclEntry :=
  { caller with role := auth.role, allowedContexts := auth.allowedContexts }

def withinApproveScope (auth : AuthClaims) (caller target : AclEntry) : Except AppError Unit :=
  match target.approveScope with
  | .contexts cs =>
    let cannot := cs.filter fun c => !aclEntryCanConfer (actingEntry auth caller) c
    if cannot.isEmpty then .ok ()
    else
      .error (.forbidden (s!"you cannot confer approve authority in {debugList debugText cannot}: you neither " ++
        "approve nor administer there yourself (VTI-ACL-042)"))
  | _ => .ok ()

def validateWithinCaller (auth : AuthClaims) (caller target : AclEntry) : Except AppError Unit := do
  withinCapabilities auth caller target
  withinKeys caller target
  withinExpiry caller target
  withinApproveScope auth caller target

/-! ### What a check that passed has established -/

section
variable {auth : AuthClaims} {caller target : AclEntry}

theorem checkAll_ok {check : String → Except AppError Unit} {cs : List String} (h : checkAll check cs = .ok ()) :
    ∀ c ∈ cs, check c = .ok () := by
  induction cs with
  | nil => exact fun c hc => nomatch hc
  | cons _ _ ih =>
    obtain ⟨_, hc, hrest⟩ := bind_eq_ok.mp h
    intro d hd
    rcases List.mem_cons.mp hd with rfl | hd
    · exact hc
    · exact ih hrest d hd

theorem requireContext_ok {contextId : String} (h : auth.requireContext contextId = .ok ()) :
    auth.hasContextAccess contextId = true := by
  unfold AuthClaims.requireContext at h
  split at h
  · assumption
  · cases h

theorem refuseSelfModification_ok {did verb : String} (h : refuseSelfModification auth did verb = .ok ()) :
    auth.did ≠ did := by
  unfold refuseSelfModification at h
  split at h
  · cases h
  · assumption

theorem validateRoleAssignment_ok {targetRole : Role} (h : validateRoleAssignment auth targetRole = .ok ())
    (hadmin : targetRole = .admin) : auth.role = .admin := by
  unfold validateRoleAssignment at h
  split at h
  · cases h
  · split at h
    · cases h
    · rename_i hnot
      by_contra hrole
      exact hnot ⟨hadmin, hrole⟩

section
variable {targetRole : Role} {targetContexts : List String}
  (h : validateAclModification auth targetRole targetContexts = .ok ())
include h

theorem validateAclModification_ok (contextId : String)
    (hcovers : (actScopeFor targetRole targetContexts).covers contextId = true) :
    auth.actScope.covers contextId = true := by
  obtain ⟨_, -, h⟩ := bind_eq_ok.mp h
  split at h
  · rename_i hsuper
    rw [isSuperAdmin_iff.mp hsuper]
    rfl
  · split at h
    · cases h
    · rename_i hscope
      rw [hscope] at hcovers
      cases hcovers
    · rename_i cs hscope
      rw [hscope] at hcovers
      exact coversContext_trans (fun c hc => requireContext_ok (checkAll_ok h c hc)) hcovers

/-- Only a super-admin's check lets an unrestricted target through. -/
theorem isSuperAdmin_of_validateAclModification (hall : actScopeFor targetRole targetContexts = .all) :
    auth.isSuperAdmin = true := by
  obtain ⟨_, -, h⟩ := bind_eq_ok.mp h
  split at h
  · assumption
  · rw [hall] at h
    cases h

end

theorem validateAdditiveCapabilityGrant_ok {requested : List Capability} {cap : Capability}
    (h : validateAdditiveCapabilityGrant auth requested = .ok ()) (hcap : cap ∈ requested)
    (hadditive : isAdditive cap = true) : auth.isSuperAdmin = true := by
  unfold validateAdditiveCapabilityGrant at h
  dsimp only at h
  split at h
  · rename_i hpass
    rcases Bool.or_eq_true _ _ |>.mp hpass with hnone | hsuper
    · have hmem : cap ∈ requested.filter isAdditive := List.mem_filter.mpr ⟨hcap, hadditive⟩
      rw [List.isEmpty_iff.mp hnone] at hmem
      nomatch hmem
    · exact hsuper
  · cases h

theorem validateApproveScopeGrant_all (h : validateApproveScopeGrant auth .all = .ok ()) :
    auth.isSuperAdmin = true := by
  unfold validateApproveScopeGrant at h
  dsimp only at h
  split at h
  · assumption
  · cases h

theorem isSuperAdmin_of_callerCoversEntry (h : callerCoversEntry auth target = true)
    (hall : target.approveScope = .all) : auth.isSuperAdmin = true := by
  by_contra hsuper
  simp [callerCoversEntry, hsuper, hall] at h

/-- What a caller's own entry bounds, apart from role and act scope: each axis of `target` is within it. -/
structure Within (auth : AuthClaims) (caller target : AclEntry) : Prop where
  capabilities : ∀ cap ∈ target.effective, isAdditive cap = false →
    cap ∈ effectiveCapabilities auth.role caller.capabilities
  keys : ∀ mine, caller.allowedKeys = some mine → ∃ theirs, target.allowedKeys = some theirs ∧ theirs ⊆ mine
  expiry : ∀ mine, caller.expiresAt = some mine → ∃ theirs, target.expiresAt = some theirs ∧ theirs ≤ mine
  approves : ∀ cs, target.approveScope = .contexts cs →
    ∀ c ∈ cs, aclEntryCanConfer (actingEntry auth caller) c = true

theorem withinCapabilities_ok (h : withinCapabilities auth caller target = .ok ()) (cap : Capability)
    (hcap : cap ∈ target.effective) (hadditive : isAdditive cap = false) :
    cap ∈ effectiveCapabilities auth.role caller.capabilities := by
  unfold withinCapabilities at h
  dsimp only at h
  split at h
  · rename_i hnone
    by_contra hnot
    have hmem : cap ∈ capabilitiesBeyondCaller auth caller target := by
      unfold capabilitiesBeyondCaller
      simp only [List.mem_filter, hadditive, Bool.not_false, Bool.true_and, Bool.not_eq_true',
        List.contains_eq_mem, decide_eq_false_iff_not]
      exact ⟨hcap, hnot⟩
    rw [List.isEmpty_iff.mp hnone] at hmem
    nomatch hmem
  · cases h

theorem withinKeys_ok (h : withinKeys caller target = .ok ()) (mine : List String)
    (hmine : caller.allowedKeys = some mine) : ∃ theirs, target.allowedKeys = some theirs ∧ theirs ⊆ mine := by
  unfold withinKeys at h
  rw [hmine] at h
  dsimp only at h
  split at h
  · cases h
  · rename_i theirs htheirs
    refine ⟨theirs, htheirs, fun key hkey => ?_⟩
    split at h
    · rename_i hnone
      by_contra hnot
      have hmem : key ∈ theirs.filter fun key => !mine.contains key := by
        simp only [List.mem_filter, Bool.not_eq_true', List.contains_eq_mem, decide_eq_false_iff_not]
        exact ⟨hkey, hnot⟩
      rw [List.isEmpty_iff.mp hnone] at hmem
      nomatch hmem
    · cases h

theorem withinExpiry_ok (h : withinExpiry caller target = .ok ()) (mine : Nat) (hmine : caller.expiresAt = some mine) :
    ∃ theirs, target.expiresAt = some theirs ∧ theirs ≤ mine := by
  unfold withinExpiry at h
  rw [hmine] at h
  dsimp only at h
  split at h
  · cases h
  · rename_i theirs htheirs
    split at h
    · cases h
    · exact ⟨theirs, htheirs, by omega⟩

theorem withinApproveScope_ok (h : withinApproveScope auth caller target = .ok ()) (cs : List String)
    (hscope : target.approveScope = .contexts cs) (c : String) (hc : c ∈ cs) :
    aclEntryCanConfer (actingEntry auth caller) c = true := by
  unfold withinApproveScope at h
  rw [hscope] at h
  dsimp only at h
  split at h
  · rename_i hnone
    by_contra hnot
    have hmem : c ∈ cs.filter fun c => !aclEntryCanConfer (actingEntry auth caller) c := by
      simp only [List.mem_filter, Bool.not_eq_true']
      exact ⟨hc, by simpa using hnot⟩
    rw [List.isEmpty_iff.mp hnone] at hmem
    nomatch hmem
  · cases h

theorem validateWithinCaller_ok (h : validateWithinCaller auth caller target = .ok ()) :
    Within auth caller target := by
  obtain ⟨_, hcapabilities, h⟩ := bind_eq_ok.mp h
  obtain ⟨_, hkeys, h⟩ := bind_eq_ok.mp h
  obtain ⟨_, hexpiry, happroves⟩ := bind_eq_ok.mp h
  exact ⟨withinCapabilities_ok hcapabilities, withinKeys_ok hkeys, withinExpiry_ok hexpiry,
    withinApproveScope_ok happroves⟩

end

end TrustInfrastructure.Access
