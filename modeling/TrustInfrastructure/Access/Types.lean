import TrustInfrastructure.Lib.Rows

/-!
# Access control: roles, scopes, entries

The data of the ACL: an entry says what a subject may do, on five axes. Where it may act is decoded from its role and
contexts (`actScopeFor`), where it may confer authority by approving is its `ApproveScope`, what it may do there is its
role's capabilities narrowed by its own list (`effectiveCapabilities`), which keys it may sign with is a filter, and
until when is its expiry. "Empty" means a different thing on each axis: an empty context list is everywhere for an
admin and nowhere for everyone else, an empty capability list is all the role has, and an empty key filter is no key
at all, where an absent one is every key.

A context is named by its path, and authority over it is authority over its subtree (`isAncestorOrSelf`).
-/

namespace TrustInfrastructure.Access

/-- The errors of `vti_common::error::AppError` that the ACL operations answer with. -/
inductive AppError where
  | internal (message : String)
  | notFound (message : String)
  | conflict (message : String)
  | validation (message : String)
  | authentication (message : String)
  | forbidden (message : String)
  deriving DecidableEq

def AppError.display : AppError → String
  | .internal message => "internal error: " ++ message
  | .notFound message => "not found: " ++ message
  | .conflict message => "conflict: " ++ message
  | .validation message => "validation error: " ++ message
  | .authentication message => "authentication error: " ++ message
  | .forbidden message => "forbidden: " ++ message

/-- A list as `{:?}` prints it. -/
def debugList (debug : α → String) (xs : List α) : String := "[" ++ ", ".intercalate (xs.map debug) ++ "]"

/-- A text as `{:?}` prints it; what it escapes inside is left as it is. -/
def debugText (text : String) : String := "\"" ++ text ++ "\""

/-! ### Roles and capabilities -/

inductive Role where
  | admin
  | initiator
  | application
  | reader
  | monitor
  deriving DecidableEq

namespace Role

def display : Role → String
  | .admin => "admin"
  | .initiator => "initiator"
  | .application => "application"
  | .reader => "reader"
  | .monitor => "monitor"

def parse (text : String) : Except AppError Role :=
  match text with
  | "admin" => .ok .admin
  | "initiator" => .ok .initiator
  | "application" => .ok .application
  | "reader" => .ok .reader
  | "monitor" => .ok .monitor
  | _ => .error (.internal s!"unknown role: {text}")

end Role

inductive Capability where
  | vaultRead
  | vaultWrite
  | proxyLogin
  | fillRelease
  | policyAdmin
  | deviceAdmin
  | sign
  | keyMint
  | keyExport
  | signTrustTask
  | signSshsig
  | signJws
  | signCsr
  | signDocument
  | credentialWrite
  | memoryRead
  | memoryWrite
  | roomPresent
  | roomOpen
  | personaHolder
  | externalAccountsManage
  | externalAuthUse
  | pcsVetter
  | pcsApplicant
  | witnessRequest
  | pcsVoter
  | pcsTrustee
  | credentialPresent
  deriving DecidableEq

def Capability.debug : Capability → String
  | .vaultRead => "VaultRead"
  | .vaultWrite => "VaultWrite"
  | .proxyLogin => "ProxyLogin"
  | .fillRelease => "FillRelease"
  | .policyAdmin => "PolicyAdmin"
  | .deviceAdmin => "DeviceAdmin"
  | .sign => "Sign"
  | .keyMint => "KeyMint"
  | .keyExport => "KeyExport"
  | .signTrustTask => "SignTrustTask"
  | .signSshsig => "SignSshsig"
  | .signJws => "SignJws"
  | .signCsr => "SignCsr"
  | .signDocument => "SignDocument"
  | .credentialWrite => "CredentialWrite"
  | .memoryRead => "MemoryRead"
  | .memoryWrite => "MemoryWrite"
  | .roomPresent => "RoomPresent"
  | .roomOpen => "RoomOpen"
  | .personaHolder => "PersonaHolder"
  | .externalAccountsManage => "ExternalAccountsManage"
  | .externalAuthUse => "ExternalAuthUse"
  | .pcsVetter => "PcsVetter"
  | .pcsApplicant => "PcsApplicant"
  | .witnessRequest => "WitnessRequest"
  | .pcsVoter => "PcsVoter"
  | .pcsTrustee => "PcsTrustee"
  | .credentialPresent => "CredentialPresent"

/-- Capabilities no role derives, held only where granted by name. -/
def additiveCapabilities : List Capability := [.personaHolder]

def isAdditive (cap : Capability) : Bool := additiveCapabilities.contains cap

def derivedCapabilitiesForRole : Role → List Capability
  | .admin =>
    [.vaultRead, .vaultWrite, .credentialWrite, .memoryRead, .memoryWrite, .roomPresent, .roomOpen, .proxyLogin,
      .fillRelease, .policyAdmin, .deviceAdmin, .sign, .signSshsig, .signJws, .signCsr, .signDocument,
      .signTrustTask, .keyMint, .keyExport, .externalAccountsManage, .externalAuthUse, .pcsVetter, .pcsApplicant,
      .pcsVoter, .pcsTrustee, .witnessRequest, .credentialPresent]
  | .initiator =>
    [.vaultRead, .vaultWrite, .credentialWrite, .memoryRead, .memoryWrite, .roomPresent, .roomOpen, .proxyLogin,
      .fillRelease, .deviceAdmin, .sign, .signSshsig, .signJws, .signCsr, .signDocument, .signTrustTask, .keyMint,
      .externalAuthUse, .pcsVetter, .pcsApplicant, .pcsVoter, .pcsTrustee, .witnessRequest, .credentialPresent]
  | .application =>
    [.vaultRead, .proxyLogin, .fillRelease, .sign, .signSshsig, .signJws, .signCsr, .signDocument, .signTrustTask,
      .memoryRead, .memoryWrite, .roomPresent, .roomOpen, .externalAuthUse]
  | .reader => [.vaultRead, .memoryRead]
  | .monitor => []

def effectiveCapabilities (role : Role) (explicit : List Capability) : List Capability :=
  let derived := derivedCapabilitiesForRole role
  let narrowing := explicit.filter fun c => !isAdditive c
  let effective := if narrowing.isEmpty then derived else derived.filter fun c => narrowing.contains c
  effective ++ explicit.filter isAdditive

def capabilitiesBeyondRole (role : Role) (requested : List Capability) : List Capability :=
  requested.filter fun c => !isAdditive c && !(derivedCapabilitiesForRole role).contains c

/-! ### Contexts and scopes -/

def segments (path : String) : List (List Char) := path.toList.splitOn '/'

/-- `ancestor` is `descendant` or a context above it: segment by segment, so that `acme` is not above `acme-evil`. -/
def isAncestorOrSelf (ancestor descendant : String) : Bool :=
  if ancestor.isEmpty || descendant.isEmpty then false
  else (segments ancestor).isPrefixOf (segments descendant)

def coversContext (contexts : List String) (contextId : String) : Bool :=
  contexts.any fun c => isAncestorOrSelf c contextId

inductive ActScope where
  | none
  | all
  | contexts (cs : List String)
  deriving DecidableEq

namespace ActScope

def covers : ActScope → String → Bool
  | .none, _ => false
  | .all, _ => true
  | .contexts cs, contextId => coversContext cs contextId

def isUnrestricted : ActScope → Bool
  | .all => true
  | _ => false

def namedContexts : ActScope → List String
  | .contexts cs => cs
  | _ => []

end ActScope

/-- Where a subject may confer authority by an approval. -/
inductive ApproveScope where
  | none
  | all
  | contexts (cs : List String)
  deriving DecidableEq

def ApproveScope.covers : ApproveScope → String → Bool
  | .none, _ => false
  | .all, _ => true
  | .contexts cs, contextId => coversContext cs contextId

def actScopeFor (role : Role) (allowedContexts : List String) : ActScope :=
  match allowedContexts with
  | [] => if role = .admin then .all else .none
  | cs => .contexts cs

/-! ### Entries and callers -/

inductive StepUpMode where
  | none
  | selfApprove
  | delegated
  | delegatedAny
  deriving DecidableEq

/-- The granter's authority when it marked a hand-off. -/
structure HandOffBound where
  role : Role
  allowedContexts : List String
  capabilities : List Capability
  approveScope : ApproveScope
  allowedKeys : Option (List String)
  expiresAt : Option Nat
  deriving DecidableEq

structure HandOff where
  grantedBy : String
  grantedAt : Nat
  bound : HandOffBound
  deriving DecidableEq

structure AclEntry where
  did : String
  role : Role
  label : Option String
  allowedContexts : List String
  createdAt : Nat
  createdBy : String
  expiresAt : Option Nat
  capabilities : List Capability
  version : Nat
  stepUpApprover : Option String
  stepUpRequire : Option StepUpMode
  approveScope : ApproveScope
  allowedKeys : Option (List String)
  handoff : Option HandOff
  deriving DecidableEq

/-- A caller, as its token or its message's authentication says. -/
structure AuthClaims where
  did : String
  role : Role
  allowedContexts : List String
  sessionId : String
  amr : List String
  deriving DecidableEq

namespace AclEntry

def new (did : String) (role : Role) (createdBy : String) (now : Nat) : AclEntry where
  did := did
  role := role
  label := none
  allowedContexts := []
  createdAt := now
  createdBy := createdBy
  expiresAt := none
  capabilities := []
  version := 0
  stepUpApprover := none
  stepUpRequire := none
  approveScope := .none
  allowedKeys := none
  handoff := none

def actScope (entry : AclEntry) : ActScope := actScopeFor entry.role entry.allowedContexts

def isExpired (entry : AclEntry) (now : Nat) : Bool :=
  match entry.expiresAt with
  | some deadline => decide (deadline ≤ now)
  | none => false

def isSuperAdmin (entry : AclEntry) : Bool := decide (entry.role = .admin) && entry.actScope.isUnrestricted

def effective (entry : AclEntry) : List Capability := effectiveCapabilities entry.role entry.capabilities

def allowsKey (entry : AclEntry) (key : String) : Bool :=
  match entry.allowedKeys with
  | none => true
  | some keys => keys.contains key

end AclEntry

namespace AuthClaims

def actScope (auth : AuthClaims) : ActScope := actScopeFor auth.role auth.allowedContexts

def isSuperAdmin (auth : AuthClaims) : Bool := decide (auth.role = .admin) && auth.actScope.isUnrestricted

def hasContextAccess (auth : AuthClaims) (contextId : String) : Bool := auth.actScope.covers contextId

/-- The on-host offline CLI, which has no entry of its own. -/
def isLocalCliPrincipal (auth : AuthClaims) : Bool :=
  "cli:".isPrefixOf auth.did && decide (auth.sessionId = auth.did) && decide (auth.amr = ["cli"])

end AuthClaims

/-! ### Paths -/

theorem isAncestorOrSelf_iff {a d : String} :
    isAncestorOrSelf a d = true ↔ a ≠ "" ∧ d ≠ "" ∧ segments a <+: segments d := by
  unfold isAncestorOrSelf
  by_cases ha : a = ""
  · simp [ha]
  · by_cases hd : d = ""
    · simp [hd]
    · simp [ha, hd]

theorem isAncestorOrSelf_trans {a b c : String} (hab : isAncestorOrSelf a b = true)
    (hbc : isAncestorOrSelf b c = true) : isAncestorOrSelf a c = true := by
  rw [isAncestorOrSelf_iff] at hab hbc ⊢
  exact ⟨hab.1, hbc.2.1, hab.2.2.trans hbc.2.2⟩

theorem coversContext_trans {cs : List String} {scope : ActScope} {contextId : String}
    (hall : ∀ c ∈ cs, scope.covers c = true) (h : coversContext cs contextId = true) :
    scope.covers contextId = true := by
  obtain ⟨c, hc, hbelow⟩ := List.any_eq_true.mp h
  have hcovered := hall c hc
  cases scope with
  | none => cases hcovered
  | all => rfl
  | contexts =>
    obtain ⟨d, hd, habove⟩ := List.any_eq_true.mp hcovered
    exact List.any_eq_true.mpr ⟨d, hd, isAncestorOrSelf_trans habove hbelow⟩

theorem isSuperAdmin_iff {auth : AuthClaims} : auth.isSuperAdmin = true ↔ auth.actScope = .all := by
  unfold AuthClaims.isSuperAdmin AuthClaims.actScope actScopeFor
  cases auth.allowedContexts with
  | nil => by_cases hrole : auth.role = .admin <;> simp [hrole, ActScope.isUnrestricted]
  | cons => simp [ActScope.isUnrestricted]

theorem mem_effectiveCapabilities_of_additive {role : Role} {explicit : List Capability} {cap : Capability}
    (hadditive : isAdditive cap = true) : cap ∈ effectiveCapabilities role explicit ↔ cap ∈ explicit := by
  have hnotDerived : cap ∉ derivedCapabilitiesForRole role := by
    have hcap : cap = .personaHolder := by simpa [isAdditive, additiveCapabilities] using hadditive
    subst hcap
    cases role <;> decide
  unfold effectiveCapabilities
  dsimp only
  rw [List.mem_append, List.mem_filter]
  split <;> simp [hnotDerived, hadditive]

end TrustInfrastructure.Access
