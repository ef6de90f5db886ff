import TrustInfrastructure.Community.Capability
import Mathlib.Logic.Relation

/-!
# Who may grant what

An entry of the access control list says what its subject may do, from three sources: its administrative authority,
the resource grants it carries, each a delegation of its own, and the grants its groups provision onto it, which count
inside its role's ceiling. `checkWrite` decides which entries an administrator may write and `coversEntry` which it may
modify or remove. Both weigh the other's administrative authority against the granter's, so both say that one lower set
of capabilities lies inside another (`Weighs.adminWithin`), and a chain of writes never leaves the first granter's
(`bounded_of_chain`).

They are not one containment read both ways. `coversEntry` reads nothing of the target but its administrative
authority, so an entry whose resource or group grants exceed the granter is covered all the same; and it asks an
assigner at a qualifier for more than `checkWrite` did, so such an assigner may write an entry without authority and
not take it back.
-/

namespace TrustInfrastructure.Community

variable {cap : Capability} {now : Nat}

/-! ### Resource grants and group grants -/

inductive RepoGrade where
  | create
  | own
  | maintain
  deriving DecidableEq

/-- Instants are nanoseconds since the epoch. -/
structure BreakGlassMark where
  effectiveAt : Option Int
  deriving DecidableEq

structure ResourceGrant where
  capability : Capability
  resource : ResourceQualifier
  grade : Option RepoGrade
  expiresAt : Option Int
  breakGlass : Option BreakGlassMark
  deriving DecidableEq

namespace ResourceGrant

def isLapsed (g : ResourceGrant) (now : Int) : Bool := g.expiresAt.any fun e => decide (e ≤ now)

def isLive (g : ResourceGrant) (now : Int) : Bool :=
  !g.isLapsed now && !(g.breakGlass.bind BreakGlassMark.effectiveAt).any fun e => decide (e > now)

/-- Whether this grant, in effect, confers the capability at the wanted resource, with the implications of the rights
model: a namespace's administrator manages and signs inside it, an owner signs, a creator only creates. -/
def confers (g : ResourceGrant) (cap : Capability) (wanted : Option ResourceQualifier) : Bool :=
  match wanted with
  | none => false
  | some wanted =>
    let inside := g.resource.covers wanted
    let exact := decide (g.resource = wanted)
    match g.capability, g.grade with
    | .gitNsAdmin, _ => inside && decide (cap = .gitNsAdmin ∨ cap = .gitRepoManage ∨ cap = .gitCommitSign)
    | .gitRepoManage, some .own | .gitRepoManage, none =>
      inside && decide (cap = .gitRepoManage ∨ cap = .gitCommitSign)
    | .gitRepoManage, some .maintain => inside && decide (cap = .gitCommitSign)
    | .gitRepoManage, some .create => exact && decide (cap = .gitRepoManage)
    | .gitCommitSign, _ => inside && decide (cap = .gitCommitSign)
    | .groupsManage, _ => exact && decide (cap = .groupsManage)
    | .boardsManage, _ => exact && decide (cap = .boardsManage)
    | _, _ => false

theorem confers_self {g : ResourceGrant} {wanted : Option ResourceQualifier}
    (h : g.confers cap wanted = true) : g.confers cap (some g.resource) = true := by
  rcases wanted with _ | wanted
  · cases h
  simp only [confers] at h ⊢
  split at h <;> simp_all

end ResourceGrant

structure GroupGrant where
  capability : Capability
  resource : Option ResourceQualifier
  deriving DecidableEq

namespace GroupGrant

def capRef (g : GroupGrant) : CapRef := ⟨g.capability, g.resource⟩

def inEffect (g : GroupGrant) (admin : AdminAuthority) : Bool := admin.act.isAll && admin.ceilingAdmits g.capRef

def effective (admin : AdminAuthority) (grants : List GroupGrant) : List CapRef :=
  (grants.filter fun g => g.inEffect admin).map capRef

end GroupGrant

/-! ### Entries -/

structure Suspension where
  actionId : String
  landsAt : Nat
  requester : String
  deriving DecidableEq

structure VtcAclEntry where
  did : String
  admin : AdminAuthority
  expiresAt : Option Nat
  resourceGrants : List ResourceGrant
  groupGrants : List GroupGrant
  /-- The marker of a cooling-off reduction: read beside the row, never stored on it. -/
  suspension : Option Suspension
  deriving DecidableEq

variable {e granter next a b c inner outer : VtcAclEntry}

/-- The two clocks an authorization reads: seconds for entries, nanoseconds for resource grants. -/
structure Clock where
  epoch : Nat
  utc : Int
  deriving DecidableEq

variable {t : Clock}

namespace VtcAclEntry

def isExpired (e : VtcAclEntry) (now : Nat) : Bool := e.expiresAt.any fun deadline => decide (now ≥ deadline)

def resourceGrantConfers (e : VtcAclEntry) (t : Clock) (cap : Capability) (resource : Option ResourceQualifier) :
    Bool :=
  e.resourceGrants.any fun g => g.isLive t.utc && g.confers cap resource

def groupGrantConfers (e : VtcAclEntry) (cap : Capability) (resource : Option ResourceQualifier) : Bool :=
  (GroupGrant.effective e.admin e.groupGrants).any fun h => h.covers ⟨cap, resource⟩

def can (e : VtcAclEntry) (t : Clock) (cap : Capability) (resource : Option ResourceQualifier) : Bool :=
  e.suspension.isNone && !e.isExpired t.epoch &&
    (e.admin.can cap resource || e.resourceGrantConfers t cap resource || e.groupGrantConfers cap resource)

/-- The same at any qualifier. -/
def canAny (e : VtcAclEntry) (t : Clock) (cap : Capability) : Bool :=
  e.suspension.isNone && !e.isExpired t.epoch &&
    (e.admin.canAny cap ||
      ((GroupGrant.effective e.admin e.groupGrants).any fun h => decide (h.capability = cap)) ||
      e.resourceGrants.any fun g => g.isLive t.utc && g.confers cap (some g.resource))

def canApprove (e : VtcAclEntry) (t : Clock) (wanted : CapRef) : Bool :=
  e.suspension.isNone && !e.isExpired t.epoch && e.admin.canApprove wanted

/-- The row itself, without the marker read beside it. -/
def asWritten (e : VtcAclEntry) : VtcAclEntry := { e with suspension := none }

@[simp]
theorem asWritten_admin (e : VtcAclEntry) : e.asWritten.admin = e.admin := rfl

@[simp]
theorem asWritten_isExpired (e : VtcAclEntry) : e.asWritten.isExpired = e.isExpired := rfl

@[simp]
theorem asWritten_suspension (e : VtcAclEntry) : e.asWritten.suspension = none := rfl

theorem canAny_iff : e.canAny t cap = true ↔ ∃ resource, e.can t cap resource = true := by
  simp only [canAny, can, Bool.and_eq_true, Bool.or_eq_true, AdminAuthority.canAny_iff, AdminAuthority.mem_exercises,
    resourceGrantConfers, groupGrantConfers, List.any_eq_true, decide_eq_true_eq]
  constructor
  · rintro ⟨hlive, (⟨resource, h⟩ | ⟨held, hmem, rfl⟩) | ⟨g, hg, h⟩⟩
    · exact ⟨resource, hlive, .inl (.inl h)⟩
    · exact ⟨held.resource, hlive, .inr ⟨held, hmem, CapRef.covers_refl held⟩⟩
    · exact ⟨some g.resource, hlive, .inl (.inr ⟨g, hg, h⟩)⟩
  · rintro ⟨resource, hlive, (h | ⟨g, hg, hgLive, h⟩) | ⟨held, hmem, h⟩⟩
    · exact ⟨hlive, .inl (.inl ⟨resource, h⟩)⟩
    · exact ⟨hlive, .inr ⟨g, hg, hgLive, g.confers_self h⟩⟩
    · simp only [CapRef.covers, Bool.and_eq_true, decide_eq_true_eq] at h
      exact ⟨hlive, .inl (.inr ⟨held, hmem, h.1⟩)⟩

end VtcAclEntry

/-! ### The two checks -/

inductive GrantRefusal where
  | permissionDenied (message : String)
  | delegationExceedsGranter (axes : List String) (detail : String)
  | approveWiderThanGranter (message : String)
  | additiveRequiresUnrestricted
  | ceiling (e : CeilingError)
  deriving DecidableEq

def isUnrestricted (e : VtcAclEntry) (now : Nat) : Bool :=
  !e.isExpired now && decide (e.admin.adminRole = some .communityAdmin) && e.admin.act.isAll &&
    decide (e.admin.capabilities = .ceiling)

def mayAssign (granter : VtcAclEntry) (c : CapRef) : Bool :=
  granter.admin.holds c && granter.admin.holds ⟨.rolesAssign, c.resource⟩

def beyond (granter next : VtcAclEntry) : List CapRef :=
  (next.admin.effective ++ next.admin.additive).filter fun c => !mayAssign granter c

def expiryAxis (granter next : VtcAclEntry) : List (String × String) :=
  match granter.expiresAt with
  | none => []
  | some mine =>
    match next.expiresAt with
    | none => [("expiresAt", "no expiry, where yours is " ++ toString mine)]
    | some theirs =>
      if theirs > mine then
        [("expiresAt", "an expiry of " ++ toString theirs ++ ", after your own (" ++ toString mine ++ ")")]
      else []

def exceeded (granter next : VtcAclEntry) : List (String × String) :=
  (if next.admin.act.isAll && !granter.admin.act.isAll then [("act", "act scope all")] else []) ++
    (if beyond granter next = [] then []
      else [("capabilities", ", ".intercalate ((beyond granter next).map CapRef.display) ++
        " (you do not hold them with vtc.roles.assign)")]) ++
    expiryAxis granter next

def checkApprove (granter next : VtcAclEntry) : Except GrantRefusal Unit :=
  if next.admin.approve.isAll then
    if granter.admin.approve.isAll then
      let wider := next.admin.effectiveApprovable.filter fun c => !granter.admin.canApprove c
      if wider = [] then .ok ()
      else .error (.approveWiderThanGranter
        ("this entry would approve " ++ ", ".intercalate (wider.map CapRef.display)))
    else .error (.approveWiderThanGranter "this entry would approve, and you approve nothing")
  else .ok ()

/-- Check that the granter may write `next`, the whole resulting entry. -/
def checkWrite (granter next : VtcAclEntry) (now : Nat) : Except GrantRefusal Unit :=
  match next.admin.validateAgainstCeiling with
  | .error e => .error (.ceiling e)
  | .ok () =>
    if granter.isExpired now then
      .error (.permissionDenied ("your ACL entry (" ++ granter.did ++
        ") has expired; an expired entry confers no authority to grant (VTI-ACL-004)"))
    else if granter.did = next.did then
      .error (.permissionDenied ("you cannot grant yourself anything (VTI-OPS-050, VTI-ACL-052) — you may change " ++
        "your own entry's label, but any other change must be made by another " ++
        "administrator holding vtc.roles.assign"))
    else if !granter.admin.canAny .rolesAssign then
      .error (.permissionDenied (granter.did ++
        " does not hold vtc.roles.assign, which writing an ACL entry needs (VTI-ACL-030)"))
    else if next.admin.adminRole = some .communityAdmin ∧ granter.admin.adminRole ≠ some .communityAdmin then
      .error (.permissionDenied "only a community administrator can make another — the role is above yours")
    else if next.admin.additive ≠ [] ∧ isUnrestricted granter now = false then
      .error .additiveRequiresUnrestricted
    else
      let axes := exceeded granter next
      if axes = [] then checkApprove granter next
      else .error (.delegationExceedsGranter (axes.map Prod.fst)
        ("this entry would hold " ++ "; ".intercalate (axes.map Prod.snd)))

def coversEntry (granter target : VtcAclEntry) (now : Nat) : Bool :=
  if granter.isExpired now || decide (granter.did = target.did) then false
  else if !granter.admin.canAny .rolesAssign then false
  else if target.admin.adminRole = some .communityAdmin ∧ granter.admin.adminRole ≠ some .communityAdmin then false
  else if target.admin.effective.isEmpty && !granter.admin.can .rolesAssign none then false
  else (target.admin.effective.all fun c => mayAssign granter c) &&
    (decide (target.admin.approve = .none) ||
      (granter.admin.approve.isAll && target.admin.effectiveApprovable.all fun c => granter.admin.canApprove c))

/-! ### What a check that passed says -/

/-- What both checks ask of a granter before they weigh the entry. -/
structure Assigns (granter entry : VtcAclEntry) (now : Nat) : Prop where
  live : granter.isExpired now = false
  other : granter.did ≠ entry.did
  assigns : granter.admin.canAny .rolesAssign = true
  role : entry.admin.adminRole = some .communityAdmin → granter.admin.adminRole = some .communityAdmin

structure Weighs (granter entry : VtcAclEntry) : Prop where
  caps : ∀ c ∈ entry.admin.effective, mayAssign granter c = true
  approve : entry.admin.approve.isAll = true →
    granter.admin.approve.isAll = true ∧ ∀ c ∈ entry.admin.effectiveApprovable, granter.admin.canApprove c = true

theorem VtcActScope.isAll_iff {scope : VtcActScope} : scope.isAll = true ↔ scope ≠ .none := by
  cases scope <;> decide

theorem checkApprove_eq_ok :
    checkApprove granter next = .ok () ↔ (next.admin.approve.isAll = true →
      granter.admin.approve.isAll = true ∧
        ∀ c ∈ next.admin.effectiveApprovable, granter.admin.canApprove c = true) := by
  unfold checkApprove
  split
  case isFalse h => simp [h]
  case isTrue h =>
    split
    case isFalse hmine => simp [h, hmine]
    case isTrue hmine =>
      dsimp only
      split
      case isTrue hwider =>
        rw [List.filter_eq_nil_iff] at hwider
        exact iff_of_true rfl fun _ => ⟨hmine, fun c hc => by simpa using hwider c hc⟩
      case isFalse hwider =>
        refine iff_of_false (by simp) fun hall => hwider ?_
        rw [List.filter_eq_nil_iff]
        intro c hc
        simpa using (hall h).2 c hc

theorem beyond_eq_nil :
    beyond granter next = [] ↔ (∀ c ∈ next.admin.effective, mayAssign granter c = true) ∧
      ∀ c ∈ next.admin.additive, mayAssign granter c = true := by
  rw [beyond, List.filter_eq_nil_iff, List.forall_mem_append]
  simp

theorem expiryAxis_eq_nil :
    expiryAxis granter next = [] ↔ ∀ t, next.isExpired t = false → granter.isExpired t = false := by
  rcases hmine : granter.expiresAt with _ | mine
  · simp [expiryAxis, VtcAclEntry.isExpired, hmine]
  rcases htheirs : next.expiresAt with _ | theirs
  · simp only [expiryAxis, VtcAclEntry.isExpired, hmine, htheirs, Option.any_none, Option.any_some,
      decide_eq_false_iff_not, reduceCtorEq, false_iff, not_forall]
    exact ⟨mine, trivial, fun h => h (Nat.le_refl mine)⟩
  · simp only [expiryAxis, VtcAclEntry.isExpired, hmine, htheirs, Option.any_some, decide_eq_false_iff_not]
    constructor
    · intro h t ht
      split at h
      · cases h
      · omega
    · intro h
      have := h mine
      rw [if_neg (by omega)]

/-- A write passes exactly when the entry fits its role, the granter assigns roles, and the entry exceeds the granter on
no axis. -/
theorem checkWrite_eq_ok :
    checkWrite granter next now = .ok () ↔
      next.admin.validateAgainstCeiling = .ok () ∧ Assigns granter next now ∧
        (next.admin.additive ≠ [] → isUnrestricted granter now = true) ∧
        (next.admin.act.isAll = true → granter.admin.act.isAll = true) ∧
        (∀ c ∈ next.admin.additive, mayAssign granter c = true) ∧
        (∀ t, next.isExpired t = false → granter.isExpired t = false) ∧ Weighs granter next := by
  have hexceeded : exceeded granter next = [] ↔ (next.admin.act.isAll = true → granter.admin.act.isAll = true) ∧
      beyond granter next = [] ∧ expiryAxis granter next = [] := by
    rw [exceeded, List.append_eq_nil_iff, List.append_eq_nil_iff, and_assoc]
    refine and_congr ?_ (and_congr_left' ?_)
    · cases next.admin.act.isAll <;> cases granter.admin.act.isAll <;> simp
    · split <;> simp_all
  rw [beyond_eq_nil, expiryAxis_eq_nil] at hexceeded
  unfold checkWrite
  split
  case h_1 e he => simp [he]
  case h_2 hvalid =>
    split
    case isTrue hexpired => exact iff_of_false (by simp) fun h => by simp [h.2.1.live] at hexpired
    case isFalse hlive =>
    split
    case isTrue hsame => exact iff_of_false (by simp) fun h => h.2.1.other hsame
    case isFalse hother =>
    split
    case isTrue hnone => exact iff_of_false (by simp) fun h => by simp [h.2.1.assigns] at hnone
    case isFalse hassigns =>
    split
    case isTrue hrole => exact iff_of_false (by simp) fun h => hrole.2 (h.2.1.role hrole.1)
    case isFalse hrole =>
    split
    case isTrue hadd => exact iff_of_false (by simp) fun h => by simp [h.2.2.1 hadd.1] at hadd
    case isFalse hadd =>
    dsimp only
    split
    case isFalse haxes =>
      refine iff_of_false (by simp) fun h => haxes (hexceeded.mpr ?_)
      exact ⟨h.2.2.2.1, ⟨h.2.2.2.2.2.2.caps, h.2.2.2.2.1⟩, h.2.2.2.2.2.1⟩
    case isTrue haxes =>
      obtain ⟨hact, ⟨hcaps, hadditive⟩, hexpiry⟩ := hexceeded.mp haxes
      rw [checkApprove_eq_ok]
      constructor
      · intro happrove
        refine ⟨hvalid, ⟨by simpa using hlive, hother, by simpa using hassigns, ?_⟩, ?_, hact, hadditive, hexpiry,
          hcaps, happrove⟩
        · exact fun h => not_not.mp fun hne => hrole ⟨h, hne⟩
        · exact fun h => by simpa using fun hne => hadd ⟨h, hne⟩
      · exact fun h => h.2.2.2.2.2.2.approve

/-- An entry is covered exactly when the granter assigns roles, community-wide if the entry holds nothing, and could
have granted its administrative authority. -/
theorem coversEntry_iff {target : VtcAclEntry} :
    coversEntry granter target now = true ↔ Assigns granter target now ∧ Weighs granter target ∧
      (target.admin.effective ≠ [] ∨ granter.admin.can .rolesAssign none = true) := by
  unfold coversEntry
  split
  case isTrue h =>
    refine iff_of_false (by simp) fun ⟨hassigns, _⟩ => ?_
    simp [hassigns.live, hassigns.other] at h
  case isFalse hself =>
  split
  case isTrue h => exact iff_of_false (by simp) fun ⟨hassigns, _⟩ => by simp [hassigns.assigns] at h
  case isFalse hassigns =>
  split
  case isTrue h => exact iff_of_false (by simp) fun ⟨hassigns, _⟩ => h.2 (hassigns.role h.1)
  case isFalse hrole =>
  split
  case isTrue h =>
    refine iff_of_false (by simp) fun ⟨_, _, hwide⟩ => ?_
    simp only [Bool.and_eq_true, List.isEmpty_iff, Bool.not_eq_true'] at h
    rcases hwide with hne | hcan
    · exact hne h.1
    · rw [h.2] at hcan
      cases hcan
  case isFalse hwide =>
  simp only [Bool.or_eq_true, decide_eq_true_eq, not_or, Bool.not_eq_true] at hself
  simp only [Bool.and_eq_true, List.isEmpty_iff, Bool.not_eq_true', not_and_or, Bool.not_eq_false] at hwide
  simp only [Bool.and_eq_true, Bool.or_eq_true, decide_eq_true_eq, List.all_eq_true]
  constructor
  · rintro ⟨hcaps, happrove⟩
    refine ⟨⟨hself.1, hself.2, by simpa using hassigns, fun h => not_not.mp fun hne => hrole ⟨h, hne⟩⟩,
      ⟨hcaps, fun hall => ?_⟩, hwide⟩
    exact happrove.resolve_left (VtcActScope.isAll_iff.mp hall)
  · rintro ⟨_, hweighs, _⟩
    refine ⟨hweighs.caps, ?_⟩
    by_cases hnone : target.admin.approve = .none
    · exact .inl hnone
    · exact .inr (hweighs.approve (VtcActScope.isAll_iff.mpr hnone))

/-! ### Containment -/

/-- The administrative authority of the first lies inside that of the second. -/
structure AdminWithin (inner outer : VtcAclEntry) : Prop where
  exercises : inner.admin.exercises ≤ outer.admin.exercises
  approves : inner.admin.approves ≤ outer.admin.approves

theorem AdminWithin.trans (hab : AdminWithin a b) (hbc : AdminWithin b c) : AdminWithin a c :=
  ⟨hab.exercises.trans hbc.exercises, hab.approves.trans hbc.approves⟩

theorem Weighs.adminWithin {entry : VtcAclEntry} (h : Weighs granter entry) : AdminWithin entry granter := by
  constructor
  · rw [AdminAuthority.exercises, covered_le_iff, AdminAuthority.exercisable]
    intro c hc
    split at hc
    · have hassign := h.caps c hc
      rw [mayAssign, Bool.and_eq_true] at hassign
      exact AdminAuthority.mem_exercises_iff_holds.mpr hassign.1
    · cases hc
  · rw [AdminAuthority.approves, covered_le_iff, AdminAuthority.approvable]
    intro c hc
    split at hc
    case isTrue hall => exact AdminAuthority.mem_approves.mpr ((h.approve hall).2 c hc)
    case isFalse => cases hc

/-- Everything the first may exercise or approve at an instant the second may. -/
structure Within (inner outer : VtcAclEntry) (t : Clock) : Prop where
  can : ∀ cap resource, inner.can t cap resource = true → outer.can t cap resource = true
  canAny : ∀ cap, inner.canAny t cap = true → outer.canAny t cap = true
  canApprove : ∀ wanted, inner.canApprove t wanted = true → outer.canApprove t wanted = true

def GrantsWithin (inner outer : VtcAclEntry) (t : Clock) : Prop :=
  ∀ cap resource, inner.can t cap resource = true →
    inner.resourceGrantConfers t cap resource = true ∨ inner.groupGrantConfers cap resource = true →
    outer.can t cap resource = true

theorem VtcAclEntry.can_asWritten (hlive : e.isExpired t.epoch = false)
    {resource : Option ResourceQualifier} (h : e.admin.can cap resource = true) :
    e.asWritten.can t cap resource = true := by
  simp [VtcAclEntry.can, hlive, h]

theorem VtcAclEntry.canApprove_asWritten (hlive : e.isExpired t.epoch = false)
    {wanted : CapRef} (h : e.admin.canApprove wanted = true) : e.asWritten.canApprove t wanted = true := by
  simp [VtcAclEntry.canApprove, hlive, h]

/-- An entry whose administrative authority lies inside a live one's is wholly inside it exactly when its grants are. -/
theorem within_iff (hadmin : AdminWithin inner outer) (hlive : outer.isExpired t.epoch = false) :
    Within inner outer.asWritten t ↔ GrantsWithin inner outer.asWritten t := by
  constructor
  · exact fun h cap resource hcan _ => h.can cap resource hcan
  · intro h
    have hcan : ∀ cap resource, inner.can t cap resource = true → outer.asWritten.can t cap resource = true := by
      intro cap resource hcan
      have hsource := hcan
      simp only [VtcAclEntry.can, Bool.and_eq_true, Bool.or_eq_true] at hsource
      rcases hsource.2 with (hadm | hgrant) | hgrant
      · refine VtcAclEntry.can_asWritten hlive (AdminAuthority.mem_exercises.mp ?_)
        exact hadmin.exercises (AdminAuthority.mem_exercises.mpr hadm)
      · exact h cap resource hcan (.inl hgrant)
      · exact h cap resource hcan (.inr hgrant)
    refine ⟨hcan, ?_, ?_⟩
    · intro cap hany
      obtain ⟨resource, hres⟩ := VtcAclEntry.canAny_iff.mp hany
      exact VtcAclEntry.canAny_iff.mpr ⟨resource, hcan cap resource hres⟩
    · intro wanted happrove
      simp only [VtcAclEntry.canApprove, Bool.and_eq_true] at happrove
      refine VtcAclEntry.canApprove_asWritten hlive (AdminAuthority.mem_approves.mp ?_)
      exact hadmin.approves (AdminAuthority.mem_approves.mpr happrove.2)

/-! ### Writing, covering, and chains of writes -/

/-- At every instant the first is live the second is, and may exercise and approve what the first may through its
administrative authority. -/
structure Bounded (inner outer : VtcAclEntry) : Prop where
  live : ∀ t, inner.isExpired t = false → outer.isExpired t = false
  admin : AdminWithin inner outer

theorem Bounded.trans (hab : Bounded a b) (hbc : Bounded b c) : Bounded a c :=
  ⟨fun t h => hbc.live t (hab.live t h), hab.admin.trans hbc.admin⟩

theorem bounded_of_checkWrite (h : checkWrite granter next now = .ok ()) : Bounded next granter := by
  obtain ⟨_, _, _, _, _, hexpiry, hweighs⟩ := checkWrite_eq_ok.mp h
  exact ⟨hexpiry, hweighs.adminWithin⟩

def WrittenBy (next granter : VtcAclEntry) : Prop := ∃ now, checkWrite granter next now = .ok ()

theorem bounded_of_chain {first : VtcAclEntry} (h : Relation.TransGen WrittenBy e first) : Bounded e first := by
  induction h with
  | single h =>
    obtain ⟨_, h⟩ := h
    exact bounded_of_checkWrite h
  | tail _ h ih =>
    obtain ⟨_, h⟩ := h
    exact ih.trans (bounded_of_checkWrite h)

theorem Bounded.exercises (h : Bounded inner outer) (hlive : inner.isExpired t.epoch = false) :
    outer.isExpired t.epoch = false ∧
      (∀ cap resource, inner.admin.can cap resource = true → outer.asWritten.can t cap resource = true) ∧
      (∀ wanted, inner.admin.canApprove wanted = true → outer.asWritten.canApprove t wanted = true) := by
  have houter := h.live t.epoch hlive
  refine ⟨houter, fun cap resource hcan => ?_, fun wanted happrove => ?_⟩
  · exact VtcAclEntry.can_asWritten houter
      (AdminAuthority.mem_exercises.mp (h.admin.exercises (AdminAuthority.mem_exercises.mpr hcan)))
  · exact VtcAclEntry.canApprove_asWritten houter
      (AdminAuthority.mem_approves.mp (h.admin.approves (AdminAuthority.mem_approves.mpr happrove)))

/-- What an administrator writes is inside its own administrative authority and does not outlive it, and so along any
chain of writes; whole entries are inside when their resource and group grants are. What it covers is inside it under
that condition and no other. And what it writes it covers, exactly when the entry holds something or the administrator
assigns roles community-wide. -/
theorem writes_and_covers_within (granter : VtcAclEntry) :
    (∀ next now, checkWrite granter next now = .ok () →
      ∀ t : Clock, now ≤ t.epoch → next.isExpired t.epoch = false →
        granter.isExpired t.epoch = false ∧
          (∀ cap resource, next.admin.can cap resource = true → granter.asWritten.can t cap resource = true) ∧
          ∀ wanted, next.admin.canApprove wanted = true → granter.asWritten.canApprove t wanted = true) ∧
    (∀ target (t : Clock), coversEntry granter target t.epoch = true →
      (Within target granter.asWritten t ↔ GrantsWithin target granter.asWritten t)) ∧
    (∀ next now, checkWrite granter next now = .ok () →
      (coversEntry granter next now = true ↔
        next.admin.effective ≠ [] ∨ granter.admin.can .rolesAssign none = true)) ∧
    (∀ last, Relation.TransGen WrittenBy last granter →
      ∀ t : Clock, last.isExpired t.epoch = false →
        (granter.isExpired t.epoch = false ∧
          (∀ cap resource, last.admin.can cap resource = true → granter.asWritten.can t cap resource = true) ∧
          ∀ wanted, last.admin.canApprove wanted = true → granter.asWritten.canApprove t wanted = true) ∧
        (Within last granter.asWritten t ↔ GrantsWithin last granter.asWritten t)) := by
  refine ⟨?_, ?_, ?_, ?_⟩
  · intro next now h t _ hlive
    exact (bounded_of_checkWrite h).exercises hlive
  · intro target t h
    obtain ⟨hassigns, hweighs, _⟩ := coversEntry_iff.mp h
    exact within_iff hweighs.adminWithin hassigns.live
  · intro next now h
    obtain ⟨_, hassigns, _, _, _, _, hweighs⟩ := checkWrite_eq_ok.mp h
    rw [coversEntry_iff]
    exact ⟨fun h => h.2.2, fun h => ⟨hassigns, hweighs, h⟩⟩
  · intro last hchain t hlive
    have hbounded := bounded_of_chain hchain
    exact ⟨hbounded.exercises hlive, within_iff hbounded.admin (hbounded.live _ hlive)⟩

/-- An entry without expiry, grants or marker. -/
def plainEntry (did : String) (admin : AdminAuthority) : VtcAclEntry := ⟨did, admin, none, [], [], none⟩

def communityAdmin : VtcAclEntry := plainEntry "did:key:zAdmin" (.forRole .communityAdmin)

def roleAssigner : VtcAclEntry :=
  plainEntry "did:key:zAssigner"
    { AdminAuthority.forRole .communityAdmin with capabilities := .listed [⟨.rolesAssign, none, false⟩] }

def namespaceHolder : VtcAclEntry :=
  { plainEntry "did:key:zHolder" .none with
    resourceGrants := [⟨.gitNsAdmin, .gitNs "github.com/acme", none, none, none⟩] }

def groupModerator : VtcAclEntry :=
  { plainEntry "did:key:zGroup" { AdminAuthority.forRole .moderator with capabilities := .none, approve := .none } with
    groupGrants := [⟨.invitationsManage, none⟩] }

def acmeManager : VtcAclEntry :=
  plainEntry "did:key:zAcme"
    { AdminAuthority.forRole .repoManager with
      capabilities := .listed [⟨.gitRepoManage, some (.gitNs "github.com/acme"), false⟩,
        ⟨.rolesAssign, some (.gitNs "github.com/acme"), true⟩] }

def plainMember : VtcAclEntry := plainEntry "did:key:zMember" .none

/-- The assigner covers the holder of a namespace it has no right in, and the moderator whose group lets it invite; and
the manager of a namespace does not cover the entry it may write. -/
theorem covers_beyond_own_authority :
    (coversEntry roleAssigner namespaceHolder 100 = true ∧
      namespaceHolder.can ⟨100, 100⟩ .gitNsAdmin (some (.gitNs "github.com/acme")) = true ∧
      roleAssigner.can ⟨100, 100⟩ .gitNsAdmin (some (.gitNs "github.com/acme")) = false) ∧
    (coversEntry roleAssigner groupModerator 100 = true ∧
      groupModerator.can ⟨100, 100⟩ .invitationsManage none = true ∧
      roleAssigner.can ⟨100, 100⟩ .invitationsManage none = false) ∧
    (checkWrite acmeManager plainMember 100 = .ok () ∧ coversEntry acmeManager plainMember 100 = false) := by
  decide +kernel

/-- The administrator with its full ceiling writes a moderator whose group lets it invite, covers it, and bounds it. -/
theorem admin_writes_moderator :
    checkWrite communityAdmin groupModerator 100 = .ok () ∧ coversEntry communityAdmin groupModerator 100 = true ∧
      groupModerator.can ⟨100, 100⟩ .invitationsManage none = true ∧
      Within groupModerator communityAdmin.asWritten ⟨100, 100⟩ := by
  have hwrite : checkWrite communityAdmin groupModerator 100 = .ok () := by decide +kernel
  have hcovers := ((writes_and_covers_within communityAdmin).2.2.1 groupModerator 100 hwrite).mpr
    (.inr (by decide +kernel))
  refine ⟨hwrite, hcovers, by decide +kernel,
    ((writes_and_covers_within communityAdmin).2.1 _ ⟨100, 100⟩ hcovers).mpr fun cap resource _ h => ?_⟩
  have hgroup : GroupGrant.effective groupModerator.admin groupModerator.groupGrants = [.all .invitationsManage] := by
    decide +kernel
  -- What the group lets it do the administrator may do itself.
  obtain rfl : .invitationsManage = cap := by
    rcases h with h | h
    · cases h
    · simpa [VtcAclEntry.groupGrantConfers, hgroup, CapRef.covers, CapRef.all] using h
  refine VtcAclEntry.can_asWritten rfl (List.any_eq_true.mpr ⟨.all .invitationsManage, by decide +kernel, ?_⟩)
  rfl

end TrustInfrastructure.Community
