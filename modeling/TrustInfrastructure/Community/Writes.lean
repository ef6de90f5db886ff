import TrustInfrastructure.Community.Granting

/-!
# What a write confers

A write of an entry is planned and then committed. The plan lists the authority-conferring capabilities the subject did
not hold (`newlyConferred`), and with any in the list the write waits for the consent of their other holders. The commit
stores the planned entry with the resource and group grants that are on the stored one.

The list is made from the planned entry and the one before it as sets of capabilities, and the entry ends up holding
more than it says in two ways. A planned entry of `acl/grant` has no group grants, so one that the new authority puts
in effect is not listed; and a longer life is no capability, though after the old expiry all of them are conferred by
the write alone. `Planned` says when neither happens, and `conferral_listed_iff` that these are the only ways.
-/

namespace TrustInfrastructure.Community

variable {c : CapRef} {now : Nat} {p next : VtcAclEntry}

/-! ### Authority-conferring capabilities -/

def PolicyPurpose.decidesAuthority : PolicyPurpose → Bool
  | .roleChange | .removal | .join | .crossCommunityRoles | .gitNamespace | .admission => true
  | _ => false

def CapRef.isAuthorityConferring (r : CapRef) : Bool :=
  match r.capability, r.resource with
  | .rolesAssign, _ | .approvalsAdmin, _ | .configAdmin, _ | .backupRestore, _ | .didAdmin, _ | .gitNsAdmin, _ => true
  | .policyAdmin, none => true
  | .policyAdmin, some (.policy purpose) => purpose.decidesAuthority
  | _, _ => false

namespace AdminAuthority

def isAdministrator (a : AdminAuthority) : Bool :=
  match a.adminRole with
  | .none => false
  | some (.custom _) => a.custom.isSome
  | some _ => true

def narrowsFrom (a prev : AdminAuthority) : Bool := prev.widensFrom a

def conferring (a : AdminAuthority) : List CapRef := a.exercisable.filter CapRef.isAuthorityConferring

end AdminAuthority

namespace VtcAclEntry

def conferring (e : VtcAclEntry) : List CapRef :=
  e.admin.conferring ++ (GroupGrant.effective e.admin e.groupGrants).filter CapRef.isAuthorityConferring

end VtcAclEntry

def newlyConferred (prev : Option VtcAclEntry) (next : VtcAclEntry) (now : Nat) : List CapRef :=
  let held := ((prev.filter fun p => !p.isExpired now).map VtcAclEntry.conferring).getD []
  next.conferring.filter fun c => !held.any fun h => h.covers c

/-- The expiry comes sooner than it did. -/
def shortens (was next : Option Nat) : Bool :=
  match was, next with
  | none, some _ => true
  | some was, some next => decide (next < was)
  | _, none => false

/-- The expiry comes later than it did. -/
def lengthens (was next : Option Nat) : Bool :=
  match was, next with
  | some _, none => true
  | some was, some next => decide (next > was)
  | none, _ => false

def lostConferring (prev : VtcAclEntry) (next : Option VtcAclEntry) (now : Nat) : List CapRef :=
  if prev.isExpired now then []
  else
    let kept := ((next.filter fun n => !shortens prev.expiresAt n.expiresAt).map VtcAclEntry.conferring).getD []
    prev.conferring.filter fun c => !kept.any fun k => k.covers c

def isLiveRoleAssigner (e : VtcAclEntry) (now : Nat) : Bool := !e.isExpired now && e.admin.can .rolesAssign none

/-! ### Planning and committing -/

inductive WriteError where
  | forbidden (message : String)
  | refused (why : GrantRefusal)
  | validation (message : String)
  deriving DecidableEq

structure GrantPlan where
  entry : VtcAclEntry
  prior : Option VtcAclEntry
  conferred : List CapRef
  widens : Bool
  reducesAdmin : Option VtcAclEntry
  endsAssigner : Bool
  reduces : Bool
  deriving DecidableEq

section
variable (roles : String → Option RoleCeilings)

def VtcAclEntry.resolve (e : VtcAclEntry) : VtcAclEntry :=
  { e with admin := { e.admin with
      custom := match e.admin.adminRole with
        | some (.custom name) => roles name
        | _ => none } }

/-- The actor's own entry, as it was read; `none` is no entry. -/
def actorEntry (did : String) (read : Option VtcAclEntry) (now : Nat) : Except WriteError VtcAclEntry :=
  match read with
  | none => .error (.forbidden (did ++ " has no ACL entry of its own, so there is no authority to bound this write " ++
      "by (VTI-ACL-001, VTI-ACL-053)"))
  | some e =>
    if e.isExpired now then .error (.forbidden ("your ACL entry (" ++ did ++
      ") has expired; an expired entry confers no authority to grant (VTI-ACL-004)"))
    else .ok e

/-- `plan_write`, for a subject other than the actor. -/
def planWrite (actorDid : String) (actor : Option VtcAclEntry) (next : VtcAclEntry) (existing : Option VtcAclEntry)
    (now : Nat) : Except WriteError GrantPlan :=
  match actorEntry actorDid actor now with
  | .error e => .error e
  | .ok actor =>
    if existing.any fun prev => !coversEntry actor prev now then
      .error (.forbidden (next.did ++ " holds authority outside yours — only an administrator holding " ++
        "vtc.roles.assign over everything it holds can rewrite it (VTI-ACL-050)"))
    else
      let next := next.resolve roles
      match checkWrite actor next now with
      | .error why => .error (.refused why)
      | .ok () =>
        let priorLive := existing.filter fun p => !p.isExpired now
        let reduces := priorLive.any fun p => next.admin.narrowsFrom p.admin || shortens p.expiresAt next.expiresAt
        .ok {
          entry := next
          prior := existing
          conferred := newlyConferred priorLive next now
          widens := next.admin.isAdministrator && (priorLive.all fun p =>
            next.admin.widensFrom p.admin || lengthens p.expiresAt next.expiresAt)
          reducesAdmin := priorLive.filter fun p => reduces && p.admin.isAdministrator
          endsAssigner := (priorLive.any fun p => isLiveRoleAssigner p now) && !isLiveRoleAssigner next now
          reduces := reduces }

def roleString (e : VtcAclEntry) : String := (e.admin.adminRole.map AdminRole.asStr).getD "member"

/-- The entry `acl/grant` describes: it has no resource or group grants. -/
def entryFromGrant (did : String) (admin : AdminAuthority) (expiresAt : Option Nat) : VtcAclEntry :=
  ⟨did, admin, expiresAt, [], [], none⟩

/-- `acl/grant`: the role stays, and a grant never narrows. -/
def planGrant (actorDid : String) (actor : Option VtcAclEntry) (next : VtcAclEntry) (existing : Option VtcAclEntry)
    (now : Nat) : Except WriteError GrantPlan :=
  match existing with
  | none => planWrite roles actorDid actor next none now
  | some prev =>
    if prev.admin.adminRole ≠ next.admin.adminRole then
      .error (.forbidden (next.did ++ " already holds role " ++ roleString prev ++
        "; role changes use acl/change-role/0.2"))
    else if next.admin.narrowsFrom prev.admin then
      .error (.forbidden ("this grant would narrow " ++ next.did ++
        "'s entry; a grant never narrows — use acl/update/0.2 or acl/revoke/0.2"))
    else planWrite roles actorDid actor next (some prev) now

def VtcAclEntry.keepGrants (e : VtcAclEntry) (stored : Option VtcAclEntry) : VtcAclEntry :=
  { e with
    resourceGrants := (stored.map VtcAclEntry.resourceGrants).getD []
    groupGrants := (stored.map VtcAclEntry.groupGrants).getD [] }

/-- `commit_grant`: `attrition` is what `check_attrition` answers, asked when the subject stops assigning roles. -/
def commitGrant (attrition : Except WriteError Unit) (plan : GrantPlan) (stored : Option VtcAclEntry) :
    Except WriteError VtcAclEntry :=
  match if plan.endsAssigner then attrition else .ok () with
  | .error e => .error e
  | .ok () =>
    match plan.entry.admin.adminRole with
    | some (.custom name) =>
      if (roles name).isNone then
        .error (.validation ("'" ++ name ++
          "' is not a role this community can grant — it was deleted (VTI-ACL-011)"))
      else .ok (plan.entry.keepGrants stored)
    | _ => .ok (plan.entry.keepGrants stored)

end

/-! ### What an entry confers at an instant -/

namespace VtcAclEntry

def resourceConferring (e : VtcAclEntry) (t : Clock) : List CapRef :=
  (e.resourceGrants.filter fun g => g.isLive t.utc && decide (g.capability = .gitNsAdmin)).map fun g =>
    ⟨.gitNsAdmin, some g.resource⟩

/-- All it confers authority by, from its role, its groups and its resource grants. -/
def sources (e : VtcAclEntry) (t : Clock) : List CapRef := e.conferring ++ e.resourceConferring t

/-- The stored row lets its subject exercise the capability at that instant. -/
def Confers (e : VtcAclEntry) (t : Clock) (c : CapRef) : Prop := e.asWritten.can t c.capability c.resource = true

instance (e : VtcAclEntry) (t : Clock) (c : CapRef) : Decidable (e.Confers t c) :=
  inferInstanceAs (Decidable (_ = true))

end VtcAclEntry

theorem isAuthorityConferring_of_covers {held : CapRef} (hcovers : held.covers c = true)
    (hc : c.isAuthorityConferring = true) : held.isAuthorityConferring = true := by
  obtain ⟨cap, resource⟩ := held
  obtain ⟨cap', resource'⟩ := c
  simp only [CapRef.covers, Bool.and_eq_true, decide_eq_true_eq] at hcovers
  obtain ⟨rfl, hresource⟩ := hcovers
  cases cap <;> first | rfl | cases hc | skip
  -- a qualified policy capability covers itself alone
  rcases resource with _ | q
  · rfl
  rcases resource' with _ | q'
  · cases hresource
  rcases ResourceQualifier.covers_cases hresource with rfl | ⟨ns, name, rfl, _, rfl | rfl⟩
  · exact hc
  · cases hc
  · cases hc

theorem ResourceGrant.confers_iff {g : ResourceGrant} (hc : c.isAuthorityConferring = true) :
    g.confers c.capability c.resource = true ↔
      g.capability = .gitNsAdmin ∧ (⟨.gitNsAdmin, some g.resource⟩ : CapRef).covers c = true := by
  obtain ⟨cap, _ | wanted⟩ := c
  · simp [ResourceGrant.confers, CapRef.covers]
  have hcap : cap ≠ .gitRepoManage ∧ cap ≠ .gitCommitSign ∧ cap ≠ .groupsManage ∧ cap ≠ .boardsManage := by
    refine ⟨?_, ?_, ?_, ?_⟩ <;> rintro rfl <;> cases hc
  by_cases hgrant : g.capability = .gitNsAdmin
  · simp only [ResourceGrant.confers, CapRef.covers, hgrant, hcap, or_false, true_and, Bool.and_eq_true,
      decide_eq_true_eq, eq_comm (a := cap)]
    exact and_comm
  · refine iff_of_false ?_ fun h => hgrant h.1
    simp only [ResourceGrant.confers]
    split <;> simp_all

namespace VtcAclEntry

variable {e : VtcAclEntry} {t : Clock} {c c' : CapRef}

theorem isAuthorityConferring_of_mem_sources (h : c ∈ e.sources t) : c.isAuthorityConferring = true := by
  simp only [sources, conferring, AdminAuthority.conferring, resourceConferring, List.mem_append, List.mem_filter,
    List.mem_map] at h
  obtain ((h | h) | ⟨g, _, rfl⟩) := h
  · exact h.2
  · exact h.2
  · rfl

/-- At an instant at which it is live, an entry confers what its sources cover. -/
theorem confers_iff (hc : c.isAuthorityConferring = true) :
    e.Confers t c ↔ e.isExpired t.epoch = false ∧ ∃ s ∈ e.sources t, s.covers c = true := by
  have hconf : ∀ held : List CapRef, (held.any fun h => h.covers c) = true ↔
      ∃ s ∈ held.filter CapRef.isAuthorityConferring, s.covers c = true := by
    intro held
    simp only [List.any_eq_true, List.mem_filter, and_assoc]
    refine exists_congr fun s => and_congr_right fun _ => ?_
    exact ⟨fun h => ⟨isAuthorityConferring_of_covers h hc, h⟩, fun h => h.2⟩
  have hadmin : e.admin.can c.capability c.resource = true ↔ ∃ s ∈ e.admin.conferring, s.covers c = true := by
    rw [← AdminAuthority.mem_exercises, AdminAuthority.exercises, mem_covered]
    exact hconf _
  have hresource : e.resourceGrantConfers t c.capability c.resource = true ↔
      ∃ s ∈ e.resourceConferring t, s.covers c = true := by
    simp only [resourceGrantConfers, resourceConferring, List.any_eq_true, List.mem_map, List.mem_filter,
      Bool.and_eq_true, decide_eq_true_eq, ResourceGrant.confers_iff hc]
    constructor
    · rintro ⟨g, hg, hlive, hcap, hcovers⟩
      exact ⟨_, ⟨g, ⟨hg, hlive, hcap⟩, rfl⟩, hcovers⟩
    · rintro ⟨_, ⟨g, ⟨hg, hlive, hcap⟩, rfl⟩, hcovers⟩
      exact ⟨g, hg, hlive, hcap, hcovers⟩
  have hgroup : e.groupGrantConfers c.capability c.resource = true ↔
      ∃ s ∈ (GroupGrant.effective e.admin e.groupGrants).filter CapRef.isAuthorityConferring, s.covers c = true :=
    hconf _
  have hwritten : e.Confers t c ↔ e.isExpired t.epoch = false ∧ ((e.admin.can c.capability c.resource = true ∨
      e.resourceGrantConfers t c.capability c.resource = true) ∨
        e.groupGrantConfers c.capability c.resource = true) := by
    rw [← Bool.or_eq_true, ← Bool.or_eq_true, ← Bool.not_eq_true', ← Bool.and_eq_true]
    exact Iff.rfl
  rw [hwritten, hadmin, hresource, hgroup]
  constructor
  · rintro ⟨hlive, (⟨s, hs, h⟩ | ⟨s, hs, h⟩) | ⟨s, hs, h⟩⟩
    · exact ⟨hlive, s, List.mem_append_left _ (List.mem_append_left _ hs), h⟩
    · exact ⟨hlive, s, List.mem_append_right _ hs, h⟩
    · exact ⟨hlive, s, List.mem_append_left _ (List.mem_append_right _ hs), h⟩
  · rintro ⟨hlive, s, hs, h⟩
    rcases List.mem_append.mp hs with hs | hs
    · rcases List.mem_append.mp hs with hs | hs
      · exact ⟨hlive, .inl (.inl ⟨s, hs, h⟩)⟩
      · exact ⟨hlive, .inr ⟨s, hs, h⟩⟩
    · exact ⟨hlive, .inl (.inr ⟨s, hs, h⟩)⟩

theorem Confers.mono (h : e.Confers t c) (hc : c'.isAuthorityConferring = true) (hcovers : c.covers c' = true) :
    e.Confers t c' := by
  obtain ⟨hlive, s, hs, hsc⟩ := (confers_iff (isAuthorityConferring_of_covers hcovers hc)).mp h
  exact (confers_iff hc).mpr ⟨hlive, s, hs, CapRef.covers_trans hsc hcovers⟩

theorem isExpired_mono {later : Nat} (hle : now ≤ later) (h : e.isExpired later = false) :
    e.isExpired now = false := by
  unfold isExpired at h ⊢
  cases hexpires : e.expiresAt with
  | none => rfl
  | some =>
    rw [hexpires] at h
    simp only [Option.any_some, decide_eq_false_iff_not] at h ⊢
    omega

end VtcAclEntry

/-! ### When the plan lists what is conferred -/

/-- A reference of the planned entry covers it that the entry before, if live at the write, did not hold. -/
def Listed (p next : VtcAclEntry) (now : Nat) (c : CapRef) : Prop :=
  ∃ n ∈ next.conferring, n.covers c = true ∧ ¬ (p.isExpired now = false ∧ ∃ h ∈ p.conferring, h.covers n = true)

/-- What the plan of a rewrite must not leave out, of an entry `p` rewritten as `next`: a group grant the new authority
puts in effect, and all that outlives `p`. And a shorter life must take no resource grant with it. -/
structure Planned (p next : VtcAclEntry) (now : Nat) : Prop where
  groups : ∀ t : Clock, now ≤ t.epoch → p.isExpired t.epoch = false → next.isExpired t.epoch = false →
    ∀ g ∈ p.groupGrants, g.inEffect next.admin = true → g.capRef.isAuthorityConferring = true →
      p.Confers t g.capRef ∨ Listed p next now g.capRef
  outlived : ∀ t : Clock, now ≤ t.epoch → p.isExpired t.epoch = true → next.isExpired t.epoch = false →
    ∀ c ∈ (next.keepGrants (some p)).sources t, Listed p next now c
  shortened : ∀ t : Clock, now ≤ t.epoch → p.isExpired t.epoch = false → next.isExpired t.epoch = true →
    ∀ c ∈ p.resourceConferring t, ∃ h ∈ p.conferring, h.covers c = true

/-- All an entry newly confers at any instant from the write on is in the list that waits for consent. -/
def ConferralListed (existing : Option VtcAclEntry) (stored : VtcAclEntry) (conferred : List CapRef) (now : Nat) :
    Prop :=
  ∀ (t : Clock) (c : CapRef), now ≤ t.epoch → c.isAuthorityConferring = true → stored.Confers t c →
    (∀ p ∈ existing, ¬ p.Confers t c) → ∃ g ∈ conferred, g.covers c = true

/-- All an entry loses at any instant from the write on is in what the write takes away. -/
def LossListed (existing : Option VtcAclEntry) (stored : VtcAclEntry) (now : Nat) : Prop :=
  ∀ p ∈ existing, ∀ (t : Clock) (c : CapRef), now ≤ t.epoch → c.isAuthorityConferring = true → p.Confers t c →
    ¬ stored.Confers t c → ∃ g ∈ lostConferring p (some stored) now, g.covers c = true

theorem mem_newlyConferred {n : CapRef} :
    n ∈ newlyConferred (some p) next now ↔
      n ∈ next.conferring ∧ ¬ (p.isExpired now = false ∧ ∃ h ∈ p.conferring, h.covers n = true) := by
  cases hexpired : p.isExpired now <;> simp [newlyConferred, Option.filter_some, hexpired]

theorem listed_iff : Listed p next now c ↔ ∃ g ∈ newlyConferred (some p) next now, g.covers c = true := by
  simp only [Listed, mem_newlyConferred, and_assoc]
  refine exists_congr fun n => and_congr_right fun _ => and_comm

theorem newlyConferred_filter (existing : Option VtcAclEntry) (next : VtcAclEntry) (now : Nat) :
    newlyConferred (existing.filter fun p => !p.isExpired now) next now = newlyConferred existing next now := by
  rcases existing with _ | p
  · rfl
  · cases hexpired : p.isExpired now <;> simp [newlyConferred, Option.filter_some, hexpired]

/-- Where a stored entry gets what it confers: the planned authority, the groups it was in, and its resource grants. -/
theorem mem_sources_keepGrants {e : VtcAclEntry} {t : Clock} :
    c ∈ (e.keepGrants (some p)).sources t ↔ c ∈ e.admin.conferring ∨
      (∃ g ∈ p.groupGrants, g.inEffect e.admin = true ∧ g.capRef.isAuthorityConferring = true ∧ g.capRef = c) ∨
      c ∈ p.resourceConferring t := by
  have hgroups : c ∈ (GroupGrant.effective e.admin p.groupGrants).filter CapRef.isAuthorityConferring ↔
      ∃ g ∈ p.groupGrants, g.inEffect e.admin = true ∧ g.capRef.isAuthorityConferring = true ∧ g.capRef = c := by
    simp only [GroupGrant.effective, List.mem_filter, List.mem_map, and_assoc]
    constructor
    · rintro ⟨⟨g, hg, heffect, rfl⟩, hc⟩
      exact ⟨g, hg, heffect, hc, rfl⟩
    · rintro ⟨g, hg, heffect, hc, rfl⟩
      exact ⟨⟨g, hg, heffect, rfl⟩, hc⟩
  rw [← hgroups, VtcAclEntry.sources, List.mem_append, VtcAclEntry.conferring, List.mem_append, or_assoc]
  exact Iff.rfl

section
variable {p e : VtcAclEntry} {now : Nat}

/-- The list of a rewrite is complete exactly when no group grant is put in effect unlisted and nothing outlives the
entry before unlisted. -/
theorem conferralListed_iff :
    ConferralListed (some p) (e.keepGrants (some p)) (newlyConferred (some p) e now) now ↔
      (∀ t : Clock, now ≤ t.epoch → p.isExpired t.epoch = false → e.isExpired t.epoch = false →
        ∀ g ∈ p.groupGrants, g.inEffect e.admin = true → g.capRef.isAuthorityConferring = true →
          p.Confers t g.capRef ∨ Listed p e now g.capRef) ∧
      (∀ t : Clock, now ≤ t.epoch → p.isExpired t.epoch = true → e.isExpired t.epoch = false →
        ∀ c ∈ (e.keepGrants (some p)).sources t, Listed p e now c) := by
  constructor
  · intro h
    have hsource : ∀ t : Clock, now ≤ t.epoch → e.isExpired t.epoch = false →
        ∀ c ∈ (e.keepGrants (some p)).sources t, p.Confers t c ∨ Listed p e now c := by
      intro t hle hlive c hmem
      have hc := VtcAclEntry.isAuthorityConferring_of_mem_sources hmem
      by_cases hconfers : p.Confers t c
      · exact .inl hconfers
      · refine .inr (listed_iff.mpr (h t c hle hc ?_ ?_))
        · exact (VtcAclEntry.confers_iff hc).mpr ⟨hlive, c, hmem, c.covers_refl⟩
        · rintro _ ⟨⟩
          exact hconfers
    refine ⟨fun t hle _ hlive g hg heffect hc => ?_, fun t hle hexpired hlive c hmem => ?_⟩
    · exact hsource t hle hlive g.capRef (mem_sources_keepGrants.mpr (.inr (.inl ⟨g, hg, heffect, hc, rfl⟩)))
    · refine (hsource t hle hlive c hmem).resolve_left fun hconfers => ?_
      have hdead := ((VtcAclEntry.confers_iff (VtcAclEntry.isAuthorityConferring_of_mem_sources hmem)).mp hconfers).1
      cases hexpired.symm.trans hdead
  · rintro ⟨hgroups, houtlived⟩ t c hle hc hstored hnone
    have hnone : ¬ p.Confers t c := hnone p rfl
    obtain ⟨hlive, s, hs, hcovers⟩ := (VtcAclEntry.confers_iff hc).mp hstored
    have hlisted : Listed p e now s → ∃ g ∈ newlyConferred (some p) e now, g.covers c = true := by
      intro h
      obtain ⟨g, hg, hgs⟩ := listed_iff.mp h
      exact ⟨g, hg, CapRef.covers_trans hgs hcovers⟩
    have hsc := VtcAclEntry.isAuthorityConferring_of_mem_sources hs
    have hnot : ¬ p.Confers t s := fun h => hnone (h.mono hc hcovers)
    cases hexpired : p.isExpired t.epoch with
    | true => exact hlisted (houtlived t hle hexpired hlive s hs)
    | false =>
      have hheld : ∀ {h : CapRef}, h ∈ p.sources t → ¬ h.covers s = true := fun hmem hcov =>
        hnot ((VtcAclEntry.confers_iff hsc).mpr ⟨hexpired, _, hmem, hcov⟩)
      rcases mem_sources_keepGrants.mp hs with hs | ⟨g, hg, heffect, hgc, rfl⟩ | hs
      · refine hlisted ⟨s, List.mem_append_left _ hs, s.covers_refl, fun ⟨_, h, hh, hcov⟩ => ?_⟩
        exact hheld (List.mem_append_left _ hh) hcov
      · exact hlisted ((hgroups t hle hexpired hlive g hg heffect hgc).resolve_left hnot)
      · exact absurd s.covers_refl (hheld (List.mem_append_right _ hs))

theorem shortens_eq_true {was : VtcAclEntry} {t : Nat} (hwas : was.isExpired t = false)
    (hnext : next.isExpired t = true) : shortens was.expiresAt next.expiresAt = true := by
  unfold VtcAclEntry.isExpired at hwas hnext
  unfold shortens
  rcases hexpires : was.expiresAt with _ | deadline <;> rcases hexpires' : next.expiresAt with _ | deadline' <;>
    simp_all
  omega

/-- Of what a rewrite takes away, only a resource grant that goes with the entry's life can be left out. -/
theorem lossListed_iff :
    LossListed (some p) (e.keepGrants (some p)) now ↔
      ∀ t : Clock, now ≤ t.epoch → p.isExpired t.epoch = false → e.isExpired t.epoch = true →
        ∀ c ∈ p.resourceConferring t, ∃ h ∈ p.conferring, h.covers c = true := by
  constructor
  · intro h t hle hlive hexpired c hmem
    have hc := VtcAclEntry.isAuthorityConferring_of_mem_sources (List.mem_append_right p.conferring hmem)
    obtain ⟨g, hg, hcovers⟩ := h p rfl t c hle hc
      ((VtcAclEntry.confers_iff hc).mpr ⟨hlive, c, List.mem_append_right _ hmem, c.covers_refl⟩) fun hconfers => by
        cases hexpired.symm.trans ((VtcAclEntry.confers_iff hc).mp hconfers).1
    unfold lostConferring at hg
    split at hg
    · cases hg
    · exact ⟨g, (List.mem_filter.mp hg).1, hcovers⟩
  · rintro h _ ⟨⟩ t c hle hc hconfers hlost
    obtain ⟨hlive, s, hs, hcovers⟩ := (VtcAclEntry.confers_iff hc).mp hconfers
    have hnow := VtcAclEntry.isExpired_mono hle hlive
    rw [lostConferring, hnow]
    cases hexpired : e.isExpired t.epoch with
    | true =>
      have hshort : shortens p.expiresAt (e.keepGrants (some p)).expiresAt = true := shortens_eq_true hlive hexpired
      obtain ⟨s', hs', hcovers'⟩ : ∃ s' ∈ p.conferring, s'.covers c = true := by
        rcases List.mem_append.mp hs with hs | hs
        · exact ⟨s, hs, hcovers⟩
        · obtain ⟨s', hs', hcovers'⟩ := h t hle hlive hexpired s hs
          exact ⟨s', hs', CapRef.covers_trans hcovers' hcovers⟩
      refine ⟨s', ?_, hcovers'⟩
      simpa [Option.filter_some, hshort] using hs'
    | false =>
      have hkept : ∀ k ∈ (e.keepGrants (some p)).sources t, ¬ k.covers s = true := by
        intro k hk hks
        exact hlost ((VtcAclEntry.confers_iff hc).mpr ⟨hexpired, k, hk, CapRef.covers_trans hks hcovers⟩)
      rcases List.mem_append.mp hs with hs | hs
      · refine ⟨s, List.mem_filter.mpr ⟨hs, ?_⟩, hcovers⟩
        simp only [Bool.not_eq_true', List.any_eq_false]
        intro k hk hks
        rw [Option.filter_some] at hk
        split at hk
        · exact hkept k (List.mem_append_left _ hk) hks
        · cases hk
      · exact absurd s.covers_refl (hkept s (mem_sources_keepGrants.mpr (.inr (.inr hs))))

end

theorem stored_of_commit {roles : String → Option RoleCeilings} {actorDid : String} {actor : Option VtcAclEntry}
    {existing : Option VtcAclEntry} {plan : GrantPlan}
    {attrition : Except WriteError Unit} {stored : VtcAclEntry}
    (hplan : planWrite roles actorDid actor next existing now = .ok plan)
    (hcommit : commitGrant roles attrition plan existing = .ok stored) :
    stored = (next.resolve roles).keepGrants existing ∧
      plan.conferred = newlyConferred existing (next.resolve roles) now := by
  have hentry : plan.entry = next.resolve roles ∧
      plan.conferred = newlyConferred existing (next.resolve roles) now := by
    unfold planWrite at hplan
    split at hplan
    · cases hplan
    split at hplan
    · cases hplan
    dsimp only at hplan
    split at hplan
    · cases hplan
    · cases hplan
      exact ⟨rfl, newlyConferred_filter existing _ now⟩
  refine ⟨?_, hentry.2⟩
  have hstored : stored = plan.entry.keepGrants existing := by
    unfold commitGrant at hcommit
    split at hcommit
    · cases hcommit
    split at hcommit
    · split at hcommit
      · cases hcommit
      · cases hcommit
        rfl
    · cases hcommit
      rfl
  rw [hstored, hentry.1]

/-- A committed write is gated by consent to all it confers, and all it takes away is listed, exactly when the plan
left out nothing that the stored entry puts in effect, outlives the one before with, or loses with its life. -/
theorem conferral_listed_iff {roles : String → Option RoleCeilings} {actorDid : String} {actor : Option VtcAclEntry}
    {next : VtcAclEntry} {existing : Option VtcAclEntry} {now : Nat} {plan : GrantPlan}
    {attrition : Except WriteError Unit} {stored : VtcAclEntry}
    (hplan : planWrite roles actorDid actor next existing now = .ok plan)
    (hcommit : commitGrant roles attrition plan existing = .ok stored) :
    ConferralListed existing stored plan.conferred now ∧ LossListed existing stored now ↔
      ∀ p ∈ existing, Planned p (next.resolve roles) now := by
  obtain ⟨rfl, hconferred⟩ := stored_of_commit hplan hcommit
  rw [hconferred]
  cases existing with
  | none =>
    refine iff_of_true ⟨fun t c _ hc hstored _ => ?_, fun p hp => absurd hp (Option.not_mem_none p)⟩
      fun p hp => absurd hp (Option.not_mem_none p)
    obtain ⟨_, s, hs, hcovers⟩ := (VtcAclEntry.confers_iff hc).mp hstored
    -- a new entry has no grants but those of its authority
    have hs : s ∈ (next.resolve roles).admin.conferring := by
      simpa [VtcAclEntry.sources, VtcAclEntry.conferring, VtcAclEntry.keepGrants, VtcAclEntry.resourceConferring,
        GroupGrant.effective] using hs
    exact ⟨s, List.mem_filter.mpr ⟨List.mem_append_left _ hs, rfl⟩, hcovers⟩
  | some p =>
    rw [conferralListed_iff, lossListed_iff]
    constructor
    · intro ⟨⟨hgroups, houtlived⟩, hshortened⟩ q hq
      obtain rfl : p = q := Option.some.inj hq
      exact ⟨hgroups, houtlived, hshortened⟩
    · intro h
      obtain ⟨hgroups, houtlived, hshortened⟩ := h p rfl
      exact ⟨⟨hgroups, houtlived⟩, hshortened⟩

def idleAssigner : VtcAclEntry :=
  { plainEntry roleAssigner.did { AdminAuthority.forRole .communityAdmin with
      act := .none, capabilities := .listed [⟨.auditRead, none, false⟩] } with
    expiresAt := some 100, groupGrants := [⟨.rolesAssign, none⟩] }

/-- An idle administrator becomes an assigner of roles, which its group would have made it as well: that waits for
consent, and so does all it confers after its old expiry. -/
theorem conferral_listed_iff_roleAssigner :
    ∃ plan stored, planWrite (fun _ => none) communityAdmin.did (some communityAdmin) roleAssigner
      (some idleAssigner) 50 =
        .ok plan ∧ commitGrant (fun _ => none) (.ok ()) plan (some idleAssigner) = .ok stored ∧
      stored.groupGrants = idleAssigner.groupGrants ∧ plan.conferred = [.all .rolesAssign] ∧
      ConferralListed (some idleAssigner) stored plan.conferred 50 := by
  have hplan : planWrite (fun _ => none) communityAdmin.did (some communityAdmin) roleAssigner (some idleAssigner) 50 =
      .ok ⟨roleAssigner, some idleAssigner, [.all .rolesAssign], true, none, false, false⟩ := by
    decide +kernel
  have hcommit : commitGrant (fun _ => none) (.ok ())
      ⟨roleAssigner, some idleAssigner, [.all .rolesAssign], true, none, false, false⟩ (some idleAssigner) =
        .ok (roleAssigner.keepGrants (some idleAssigner)) := by
    decide +kernel
  have hnew : Listed idleAssigner roleAssigner 50 (.all .rolesAssign) := by
    unfold Listed
    decide +kernel
  have honly : ∀ c ∈ (roleAssigner.keepGrants (some idleAssigner)).conferring,
    c = .all .rolesAssign := by decide +kernel
  have hplanned : Planned idleAssigner roleAssigner 50 := by
    refine ⟨fun t _ _ _ g hg _ _ => .inr ?_, fun t _ _ _ c hc => ?_, fun t _ _ hexpired => (by cases hexpired)⟩
    · cases List.mem_singleton.mp hg
      exact hnew
    · rcases List.mem_append.mp hc with hc | hc
      · exact honly c hc ▸ hnew
      · cases hc
  have hlisted := (conferral_listed_iff hplan hcommit).mpr fun p hp => Option.some.inj hp ▸ hplanned
  exact ⟨_, _, hplan, hcommit, rfl, rfl, hlisted.1⟩
/-! ### Conferred without consent -/

def expiringAdmin : VtcAclEntry :=
  { plainEntry "did:key:zExpiring" (.forRole .communityAdmin) with expiresAt := some 100 }

def idleAdmin : VtcAclEntry :=
  { plainEntry "did:key:zIdle" { AdminAuthority.forRole .communityAdmin with
      act := .none, capabilities := .listed [⟨.auditRead, none, false⟩] } with
    groupGrants := [⟨.rolesAssign, none⟩] }

/-- The entry a grant makes of another: the same role and lists, acting, for ever. -/
def renewed (e : VtcAclEntry) : VtcAclEntry := entryFromGrant e.did { e.admin with act := .all } none

def renewal (e : VtcAclEntry) : Except WriteError (List CapRef × VtcAclEntry) := do
  let plan ← planGrant (fun _ => none) communityAdmin.did (some communityAdmin) (renewed e) (some e) 50
  let stored ← commitGrant (fun _ => none) (.ok ()) plan (some e)
  return (plan.conferred, stored)

/-- Nothing waits for consent when an administrator is renewed, and the stored entry assigns roles at an instant at
which the one before did not: after its expiry, or since it acts and so does its group's grant. -/
theorem authority_conferred_unasked :
    (renewal expiringAdmin = .ok ([], renewed expiringAdmin) ∧
      (renewed expiringAdmin).Confers ⟨100, 100⟩ (.all .rolesAssign) ∧
      ¬ expiringAdmin.Confers ⟨100, 100⟩ (.all .rolesAssign)) ∧
    (renewal idleAdmin = .ok ([], (renewed idleAdmin).keepGrants (some idleAdmin)) ∧
      ((renewed idleAdmin).keepGrants (some idleAdmin)).Confers ⟨50, 50⟩ (.all .rolesAssign) ∧
      ¬ idleAdmin.Confers ⟨50, 50⟩ (.all .rolesAssign)) := by
  decide +kernel

end TrustInfrastructure.Community
