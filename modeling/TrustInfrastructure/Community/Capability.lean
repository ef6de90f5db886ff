import Mathlib.Order.UpperLower.Closure

/-!
# What an administrator of a community may do

A capability names something an administrator may do, and a reference to it may narrow it to one of the community's
resources. Holding a reference is holding everything it covers: the same capability, at the same resource or at one
inside it. Containment of resources is textual, a namespace covers the names that continue it after a slash, so
`covers` is a preorder and what a list of references lets its holder do is the lower set it generates
(`AdminAuthority.exercises`, `AdminAuthority.approves`).

An entry's administrative authority has five axes: a role, which is a ceiling and grants nothing, whether it acts at
all, which capabilities it holds under the ceiling or beside it, whether it approves, and what.
-/

namespace TrustInfrastructure.Community

/-! ### Capabilities -/

inductive Capability where
  | rolesAssign
  | approvalsAdmin
  | policyAdmin
  | configAdmin
  | backupExport
  | backupRestore
  | auditRead
  | didAdmin
  | membersManage
  | joinDecide
  | invitationsManage
  | credentialsIssue
  | credentialsRevoke
  | vettingManage
  | surfaceAdmin
  | registryAdmin
  | sessionsRevoke
  | roomsAdmin
  | roomsManage
  | directoryAdmin
  | electionsManage
  | directoryNotes
  | groupsManage
  | notificationsRead
  | notificationsRelay
  | boardsManage
  | badgesAdmin
  | gitNsAdmin
  | gitRepoManage
  | gitCommitSign
  deriving DecidableEq

namespace Capability

def all : List Capability :=
  [rolesAssign, approvalsAdmin, policyAdmin, configAdmin, backupExport, backupRestore, auditRead, didAdmin,
    membersManage, joinDecide, invitationsManage, credentialsIssue, credentialsRevoke, vettingManage, surfaceAdmin,
    registryAdmin, sessionsRevoke, roomsAdmin, roomsManage, directoryAdmin, electionsManage, directoryNotes,
    groupsManage, notificationsRead, notificationsRelay, boardsManage, badgesAdmin, gitNsAdmin, gitRepoManage,
    gitCommitSign]

def asStr : Capability → String
  | rolesAssign => "vtc.roles.assign"
  | approvalsAdmin => "vtc.approvals.admin"
  | policyAdmin => "vtc.policy.admin"
  | configAdmin => "vtc.config.admin"
  | backupExport => "vtc.backup.export"
  | backupRestore => "vtc.backup.restore"
  | auditRead => "vtc.audit.read"
  | didAdmin => "vtc.did.admin"
  | membersManage => "vtc.members.manage"
  | joinDecide => "vtc.join.decide"
  | invitationsManage => "vtc.invitations.manage"
  | credentialsIssue => "vtc.credentials.issue"
  | credentialsRevoke => "vtc.credentials.revoke"
  | vettingManage => "vtc.vetting.manage"
  | surfaceAdmin => "vtc.surface.admin"
  | registryAdmin => "vtc.registry.admin"
  | sessionsRevoke => "vtc.sessions.revoke"
  | roomsAdmin => "vtc.rooms.admin"
  | roomsManage => "vtc.rooms.manage"
  | directoryAdmin => "vtc.directory.admin"
  | electionsManage => "vtc.elections.manage"
  | directoryNotes => "vtc.directory.notes"
  | groupsManage => "vtc.groups.manage"
  | notificationsRead => "vtc.notifications.read"
  | notificationsRelay => "vtc.notifications.relay"
  | boardsManage => "vtc.boards.manage"
  | badgesAdmin => "vtc.badges.admin"
  | gitNsAdmin => "git.ns.admin"
  | gitRepoManage => "git.repo.manage"
  | gitCommitSign => "git.commit.sign"

end Capability

inductive PolicyPurpose where
  | join
  | removal
  | personhood
  | registry
  | directory
  | roleDefinitions
  | crossCommunityRoles
  | crossCommunityRelationships
  | relationships
  | roleChange
  | rooms
  | vetterEligibility
  | gitNamespace
  | admission
  | directoryWrite
  | groups
  deriving DecidableEq

def PolicyPurpose.asStr : PolicyPurpose → String
  | join => "join"
  | removal => "removal"
  | personhood => "personhood"
  | registry => "registry"
  | directory => "directory"
  | roleDefinitions => "roleDefinitions"
  | crossCommunityRoles => "crossCommunityRoles"
  | crossCommunityRelationships => "crossCommunityRelationships"
  | relationships => "relationships"
  | roleChange => "roleChange"
  | rooms => "rooms"
  | vetterEligibility => "vetterEligibility"
  | gitNamespace => "gitNamespace"
  | admission => "admission"
  | directoryWrite => "directoryWrite"
  | groups => "groups"

/-! ### Resources -/

inductive ResourceQualifier where
  | gitNs (value : String)
  | gitRepo (value : String)
  | policy (purpose : PolicyPurpose)
  | criterion (value : String)
  | group (value : String)
  | board (value : String)
  deriving DecidableEq

/-- The name `inner` continues `outer` after a slash. -/
def continues (outer inner : String) : Bool := (outer.toList ++ ['/']).isPrefixOf inner.toList

theorem continues_trans {a b c : String} (hab : continues a b = true) (hbc : continues b c = true) :
    continues a c = true := by
  rw [continues, List.isPrefixOf_iff_prefix] at *
  exact hab.trans ((List.prefix_append _ _).trans hbc)

namespace ResourceQualifier

/-- Holding a capability at the first covers acting on the second: the resource itself, or one inside it. -/
def covers (held wanted : ResourceQualifier) : Bool :=
  if held = wanted then true
  else match held, wanted with
    | .gitNs ns, .gitRepo repo => continues ns repo
    | .gitNs outer, .gitNs inner => continues outer inner
    | _, _ => false

@[simp]
theorem covers_refl (q : ResourceQualifier) : q.covers q = true := if_pos rfl

theorem covers_cases {held wanted : ResourceQualifier} (h : held.covers wanted = true) :
    held = wanted ∨ ∃ ns name, held = .gitNs ns ∧ continues ns name = true ∧
      (wanted = .gitRepo name ∨ wanted = .gitNs name) := by
  unfold covers at h
  split at h
  case isTrue heq => exact .inl heq
  case isFalse =>
    split at h
    case h_1 ns repo _ => exact .inr ⟨ns, repo, rfl, h, .inl rfl⟩
    case h_2 outer inner _ => exact .inr ⟨outer, inner, rfl, h, .inr rfl⟩
    case h_3 => cases h

theorem covers_of_continues {ns name : String} (h : continues ns name = true) {q : ResourceQualifier}
    (hq : q = .gitRepo name ∨ q = .gitNs name) : (gitNs ns).covers q = true := by
  unfold covers
  split
  · rfl
  · rcases hq with rfl | rfl <;> exact h

theorem covers_trans {a b c : ResourceQualifier} (hab : a.covers b = true) (hbc : b.covers c = true) :
    a.covers c = true := by
  rcases covers_cases hab with rfl | ⟨ns, name, rfl, hname, hb⟩
  · exact hbc
  · rcases covers_cases hbc with rfl | ⟨ns', name', rfl, hname', hc⟩
    · exact hab
    · obtain rfl : ns' = name := by
        rcases hb with hb | hb
        · cases hb
        · cases hb
          rfl
      exact covers_of_continues (continues_trans hname hname') hc

def display : ResourceQualifier → String
  | .gitNs v => "git-ns:" ++ v
  | .gitRepo v => "git-repo:" ++ v
  | .policy p => "policy:" ++ p.asStr
  | .criterion v => "criterion:" ++ v
  | .group v => "group:" ++ v
  | .board v => "board:" ++ v

end ResourceQualifier

def Capability.admits (cap : Capability) (resource : ResourceQualifier) : Bool :=
  match cap, resource with
  | .rolesAssign, _ => true
  | .policyAdmin, .policy _ => true
  | .vettingManage, .criterion _ => true
  | .gitNsAdmin, .gitNs _ => true
  | .groupsManage, .group _ | .notificationsRelay, .group _ => true
  | .boardsManage, .board _ => true
  | .gitRepoManage, .gitNs _ | .gitRepoManage, .gitRepo _ => true
  | .gitCommitSign, .gitNs _ | .gitCommitSign, .gitRepo _ => true
  | _, _ => false

/-! ### References and grants -/

structure CapRef where
  capability : Capability
  resource : Option ResourceQualifier
  deriving DecidableEq

namespace CapRef

/-- An unqualified reference: every resource of the capability's kind. -/
def all (capability : Capability) : CapRef := ⟨capability, none⟩

/-- An unqualified reference is covered only by an unqualified holding. -/
def covers (held wanted : CapRef) : Bool :=
  decide (held.capability = wanted.capability) &&
    match held.resource, wanted.resource with
    | none, _ => true
    | some _, none => false
    | some held, some want => held.covers want

def display (r : CapRef) : String :=
  match r.resource with
  | none => r.capability.asStr
  | some resource => r.capability.asStr ++ "@" ++ resource.display

@[simp]
theorem covers_refl (r : CapRef) : r.covers r = true := by
  rcases r with ⟨cap, _ | q⟩ <;> simp [covers]

theorem covers_trans {a b c : CapRef} (hab : a.covers b = true) (hbc : b.covers c = true) : a.covers c = true := by
  obtain ⟨capA, resA⟩ := a
  obtain ⟨capB, resB⟩ := b
  obtain ⟨capC, resC⟩ := c
  simp only [covers, Bool.and_eq_true, decide_eq_true_eq] at hab hbc ⊢
  refine ⟨hab.1.trans hbc.1, ?_⟩
  rcases resA with _ | qa
  · rfl
  rcases resB with _ | qb
  · exact absurd hab.2 (by simp)
  rcases resC with _ | qc
  · exact absurd hbc.2 (by simp)
  exact ResourceQualifier.covers_trans hab.2 hbc.2

/-- A reference is below those that cover it. -/
instance : Preorder CapRef where
  le wanted held := held.covers wanted = true
  le_refl := covers_refl
  le_trans _ _ _ hab hbc := covers_trans hbc hab

theorem le_def {wanted held : CapRef} : wanted ≤ held ↔ held.covers wanted = true := Iff.rfl

end CapRef

def covered (held : List CapRef) : LowerSet CapRef := lowerClosure {c | c ∈ held}

theorem mem_covered {held : List CapRef} {wanted : CapRef} :
    wanted ∈ covered held ↔ (held.any fun h => h.covers wanted) = true := by
  simp only [covered, mem_lowerClosure, Set.mem_ofPred_eq, List.any_eq_true, CapRef.le_def]

theorem covered_le_iff {held : List CapRef} {s : LowerSet CapRef} : covered held ≤ s ↔ ∀ c ∈ held, c ∈ s :=
  lowerClosure_le

structure CapabilityGrant where
  capability : Capability
  resource : Option ResourceQualifier
  /-- Held beside the role: a capability no role implies. -/
  additive : Bool
  deriving DecidableEq

def CapabilityGrant.capRef (g : CapabilityGrant) : CapRef := ⟨g.capability, g.resource⟩

/-! ### Scopes -/

inductive VtcActScope where
  | all
  | none
  deriving DecidableEq

def VtcActScope.isAll (scope : VtcActScope) : Bool := decide (scope = .all)

inductive CapabilityScope where
  | ceiling
  | none
  | listed (grants : List CapabilityGrant)
  deriving DecidableEq

/-! ### Roles -/

inductive Qualification where
  | unqualified
  | required
  | optional
  deriving DecidableEq

structure CeilingItem where
  capability : Capability
  qualification : Qualification
  deriving DecidableEq

def CeilingItem.admits (item : CeilingItem) (r : CapRef) : Bool :=
  decide (item.capability = r.capability) &&
    !(match r.resource, item.qualification with
      | none, .required => true
      | some _, .unqualified => true
      | _, _ => false)

inductive AdminRole where
  | communityAdmin
  | moderator
  | vettingLead
  | repoManager
  | credentialOfficer
  | auditor
  | approver
  | custom (name : String)
  deriving DecidableEq

namespace AdminRole

def asStr : AdminRole → String
  | .communityAdmin => "community-admin"
  | .moderator => "moderator"
  | .vettingLead => "vetting-lead"
  | .repoManager => "repo-manager"
  | .credentialOfficer => "credential-officer"
  | .auditor => "auditor"
  | .approver => "approver"
  | .custom name => name

def isBuiltIn : AdminRole → Bool
  | .custom _ => false
  | _ => true

def ceiling : AdminRole → List CeilingItem
  | .communityAdmin =>
    ((Capability.all.filter fun c => "vtc.".toList.isPrefixOf c.asStr.toList).map fun c => ⟨c, .optional⟩) ++
      [⟨.gitNsAdmin, .optional⟩, ⟨.gitRepoManage, .optional⟩]
  | .moderator =>
    [⟨.membersManage, .unqualified⟩, ⟨.joinDecide, .unqualified⟩, ⟨.invitationsManage, .unqualified⟩]
  | .vettingLead => [⟨.vettingManage, .optional⟩]
  | .repoManager => [⟨.gitRepoManage, .required⟩, ⟨.gitNsAdmin, .required⟩]
  | .credentialOfficer => [⟨.credentialsIssue, .unqualified⟩, ⟨.credentialsRevoke, .unqualified⟩]
  | .auditor => [⟨.auditRead, .unqualified⟩]
  | .approver | .custom _ => []

def approveCeiling : AdminRole → List CeilingItem
  | .communityAdmin | .approver => Capability.all.map fun c => ⟨c, .optional⟩
  | .auditor | .custom _ => []
  | other => other.ceiling

def ceilingAdmits (role : AdminRole) (r : CapRef) : Bool := role.ceiling.any fun i => i.admits r

def approveCeilingAdmits (role : AdminRole) (r : CapRef) : Bool := role.approveCeiling.any fun i => i.admits r

def defaultAct : AdminRole → VtcActScope
  | .approver => .none
  | _ => .all

def defaultApprove : AdminRole → VtcActScope
  | .auditor | .custom _ => .none
  | _ => .all

end AdminRole

def unqualifiedRefs (items : List CeilingItem) : List CapRef :=
  (items.filter fun i => i.qualification ≠ .required).map fun i => .all i.capability

/-! ### The authority of an entry -/

/-- A custom role's two ceilings, as its stored definition states them. -/
structure RoleCeilings where
  ceiling : List CapRef
  approve : List CapRef
  deriving DecidableEq

structure AdminAuthority where
  adminRole : Option AdminRole
  act : VtcActScope
  capabilities : CapabilityScope
  approve : VtcActScope
  approveCapabilities : CapabilityScope
  /-- The stored definition of a custom role, resolved when the entry is read. -/
  custom : Option RoleCeilings
  deriving DecidableEq

/-- Why a written entry does not fit its role. -/
inductive CeilingError where
  | roleNotRecognized (role : String)
  | outsideCeiling (caps : List String)
  | additiveWithinCeiling (caps : List String)
  | badQualifier (cap : String)
  | needsQualifiers (role : String)
  deriving DecidableEq

namespace AdminAuthority

def none : AdminAuthority := ⟨.none, .none, .none, .none, .none, .none⟩

def forRole (role : AdminRole) : AdminAuthority where
  adminRole := some role
  act := role.defaultAct
  capabilities := .ceiling
  approve := role.defaultApprove
  approveCapabilities := if role.defaultApprove.isAll then .ceiling else .none
  custom := .none

/-- Whether the reference lies inside the role's ceiling: nothing lies inside no role, or inside a custom role with no
definition. -/
def ceilingAdmits (a : AdminAuthority) (r : CapRef) : Bool :=
  match a.adminRole with
  | .none => false
  | some (.custom _) => a.custom.any fun d => d.ceiling.any fun c => c.covers r
  | some role => role.ceilingAdmits r

def approveCeilingAdmits (a : AdminAuthority) (r : CapRef) : Bool :=
  match a.adminRole with
  | .none => false
  | some (.custom _) => a.custom.any fun d => d.approve.any fun c => c.covers r
  | some role => role.approveCeilingAdmits r

def ceilingNames (a : AdminAuthority) (cap : Capability) : Bool :=
  match a.adminRole with
  | .none => false
  | some (.custom _) => a.custom.any fun d => d.ceiling.any fun c => decide (c.capability = cap)
  | some role => role.ceiling.any fun i => decide (i.capability = cap)

/-- The capabilities this authority holds when its act scope is `all`: those listed under the ceiling, and the
additive ones. -/
def effective (a : AdminAuthority) : List CapRef :=
  match a.capabilities with
  | .none => []
  | .ceiling =>
    match a.adminRole with
    | .none => []
    | some (.custom _) => (a.custom.map RoleCeilings.ceiling).getD []
    | some role => unqualifiedRefs role.ceiling
  | .listed grants => (grants.filter fun g => g.additive || a.ceilingAdmits g.capRef).map CapabilityGrant.capRef

/-- The capabilities this authority may approve when its approve scope is `all`. -/
def effectiveApprovable (a : AdminAuthority) : List CapRef :=
  match a.adminRole with
  | .none => []
  | some role =>
    match a.approveCapabilities with
    | .none => []
    | .ceiling =>
      match role with
      | .custom _ => (a.custom.map RoleCeilings.approve).getD []
      | role => unqualifiedRefs role.approveCeiling
    | .listed grants => (grants.map CapabilityGrant.capRef).filter fun r => a.approveCeilingAdmits r

def can (a : AdminAuthority) (cap : Capability) (resource : Option ResourceQualifier) : Bool :=
  a.act.isAll && a.effective.any fun h => h.covers ⟨cap, resource⟩

def canAny (a : AdminAuthority) (cap : Capability) : Bool :=
  a.act.isAll && a.effective.any fun h => decide (h.capability = cap)

def canApprove (a : AdminAuthority) (wanted : CapRef) : Bool :=
  a.approve.isAll && a.effectiveApprovable.any fun h => h.covers wanted

def holds (a : AdminAuthority) (wanted : CapRef) : Bool := a.can wanted.capability wanted.resource

def exercisable (a : AdminAuthority) : List CapRef := if a.act.isAll then a.effective else []

/-- What this authority can approve: its approvable set, or nothing when its approve scope is `none`. -/
def approvable (a : AdminAuthority) : List CapRef := if a.approve.isAll then a.effectiveApprovable else []

/-- Whether moving from `prev` to this gives the subject anything it could not exercise or approve before. -/
def widensFrom (a prev : AdminAuthority) : Bool :=
  (a.exercisable.any fun c => !(prev.exercisable.any fun h => h.covers c)) ||
    a.approvable.any fun c => !(prev.approvable.any fun h => h.covers c)

def additive (a : AdminAuthority) : List CapRef :=
  match a.capabilities with
  | .listed grants => (grants.filter CapabilityGrant.additive).map CapabilityGrant.capRef
  | _ => []

def named (grants : List CapabilityGrant) (pick : CapabilityGrant → Bool) : List String :=
  (grants.filter pick).map fun g => g.capRef.display

def validateApprove (a : AdminAuthority) : Except CeilingError Unit :=
  match a.approveCapabilities with
  | .listed grants =>
    let outside := named grants fun g => !a.approveCeilingAdmits g.capRef
    if outside = [] then .ok () else .error (.outsideCeiling outside)
  | _ => .ok ()

/-- The listed capabilities against the ceiling: first that each qualifier fits its capability, then that what is not
additive lies inside, then that what is additive lies outside. -/
def validateListed (a : AdminAuthority) (grants : List CapabilityGrant) : Except CeilingError Unit :=
  match grants.find? fun g => g.resource.any fun r => !g.capability.admits r with
  | some g => .error (.badQualifier g.capRef.display)
  | .none =>
    let outside := named grants fun g => !g.additive && !a.ceilingAdmits g.capRef
    if outside = [] then
      let within := named grants fun g => g.additive && a.ceilingNames g.capability
      if within = [] then .ok () else .error (.additiveWithinCeiling within)
    else .error (.outsideCeiling outside)

/-- A role whose whole ceiling is held at qualifiers cannot be granted `ceiling`. -/
def validateCeiling (role : AdminRole) : Except CeilingError Unit :=
  if role.isBuiltIn && role.ceiling.all (fun i => decide (i.qualification = .required)) && !role.ceiling.isEmpty then
    .error (.needsQualifiers role.asStr)
  else .ok ()

def validateAgainstCeiling (a : AdminAuthority) : Except CeilingError Unit :=
  match a.adminRole with
  | .none =>
    match a.capabilities with
    | .listed grants =>
      match grants.find? fun g => !g.additive with
      | some g => .error (.outsideCeiling [g.capRef.display])
      | .none => .ok ()
    | _ => .ok ()
  | some role =>
    if !role.isBuiltIn && a.custom.isNone then .error (.roleNotRecognized role.asStr)
    else
      match a.capabilities with
      | .listed grants => a.validateListed grants >>= fun _ => a.validateApprove
      | .ceiling => validateCeiling role >>= fun _ => a.validateApprove
      | .none => a.validateApprove

/-! ### Authority as a lower set -/

def exercises (a : AdminAuthority) : LowerSet CapRef := covered a.exercisable

def approves (a : AdminAuthority) : LowerSet CapRef := covered a.approvable

section
variable {a : AdminAuthority}

theorem mem_exercises {cap : Capability} {resource : Option ResourceQualifier} :
    (⟨cap, resource⟩ : CapRef) ∈ a.exercises ↔ a.can cap resource = true := by
  rw [exercises, mem_covered, can, exercisable]
  cases a.act.isAll <;> simp

theorem mem_exercises_iff_holds {wanted : CapRef} : wanted ∈ a.exercises ↔ a.holds wanted = true := mem_exercises

theorem mem_approves {wanted : CapRef} : wanted ∈ a.approves ↔ a.canApprove wanted = true := by
  rw [approves, mem_covered, canApprove, approvable]
  cases a.approve.isAll <;> simp

theorem canAny_iff {cap : Capability} : a.canAny cap = true ↔ ∃ resource, (⟨cap, resource⟩ : CapRef) ∈ a.exercises := by
  simp only [mem_exercises, canAny, can, Bool.and_eq_true, List.any_eq_true, decide_eq_true_eq]
  constructor
  · rintro ⟨hact, held, hmem, rfl⟩
    exact ⟨held.resource, hact, held, hmem, CapRef.covers_refl held⟩
  · rintro ⟨resource, hact, held, hmem, hcovers⟩
    refine ⟨hact, held, hmem, ?_⟩
    simp only [CapRef.covers, Bool.and_eq_true, decide_eq_true_eq] at hcovers
    exact hcovers.1

end

end AdminAuthority

end TrustInfrastructure.Community
