import TrustInfrastructure.Access.Operations

/-!
# Access control: what a call does

A `Call` is one of the ACL operations with its arguments. What all proofs about calls need is said here once, as a
conduct over diaries (`Permits`): which operation a call may perform after what it has done so far. A call reads until
it writes; what it writes is determined by what it read, and every check of the operation has passed on that.

* `Granted auth me before entry` collects the checks behind an entry that is written: on the token, on the caller's own
  entry and on the entry as it was before.
* `follows` walks through the seven programs and shows that each keeps to `Permits`, and that one that ends well has
  written (`Done`).
-/

namespace TrustInfrastructure.Access

open Lib (Program Conduct Record Rows RowOp Check Write MoveOutcome rowStore)
open Lib.Program (Follows Ends follows_bind follows_perform follows_check)
open AclProgram

/-! ### Calls -/

inductive Call where
  | create (auth : AuthClaims) (params : CreateAclParams)
  | update (auth : AuthClaims) (did : String) (params : UpdateAclParams)
  | changeRole (auth : AuthClaims) (subject fromRole toRole : String)
  | delete (auth : AuthClaims) (did : String)
  | swap (auth : AuthClaims) (presented : Except AppError String)
  | exercise (auth : AuthClaims) (successor : HandOffSuccessor) (audited : Except AppError Unit)
  | wait (seconds : Nat)

/-- The call's program; its answer is the entry the operation returns, where it returns one. -/
def Call.program : Call → AclProgram (Option AclEntry)
  | .create auth params => (createAcl auth params).bind fun entry => pure (some entry)
  | .update auth did params => (updateAcl auth did params).bind fun entry => pure (some entry)
  | .changeRole auth subject fromRole toRole =>
    (Access.changeRole auth subject fromRole toRole).bind fun entry => pure (some entry)
  | .delete auth did => (deleteAcl auth did).bind fun _ => pure none
  | .swap auth presented => (swapAcl auth presented).bind fun entry => pure (some entry)
  | .exercise auth successor audited =>
    (exerciseHandoff auth successor audited).bind fun entry => pure (some entry)
  | .wait seconds =>
    (Program.perform (I := aclStore) (.tick seconds : RowOp AclRow)).bind fun _ => pure none

/-! ### Diaries of calls -/

abbrev Diary := List (Record aclStore)

def Unwritten (diary : Diary) : Prop := ∀ r ∈ diary, aclStore.writes r.op = false

def Saw (diary : Diary) (did : String) (found : Option (Stored did)) : Prop :=
  (⟨(.get (.entry did) : RowOp AclRow), found⟩ : Record aclStore) ∈ diary

/-- The operation is in the diary, with some answer. -/
def Wrote (diary : Diary) (o : RowOp AclRow) : Prop := ∃ r, (⟨o, r⟩ : Record aclStore) ∈ diary

def CallerIs (auth : AuthClaims) (diary : Diary) (me : AclEntry) : Prop :=
  (auth.isLocalCliPrincipal = true ∧
      ∃ now, me = { AclEntry.new auth.did .admin auth.did now with approveScope := .all }) ∨
    (auth.isLocalCliPrincipal = false ∧ ∃ row : Stored auth.did, Saw diary auth.did (some row) ∧ me = row.val)

/-- The checks behind an entry that is written over `before`. -/
structure Granted (auth : AuthClaims) (me : AclEntry) (before : Option AclEntry) (entry : AclEntry) : Prop where
  role : validateRoleAssignment auth entry.role = .ok ()
  scope : validateAclModification auth entry.role entry.allowedContexts = .ok ()
  within : Within auth me entry
  additive : ∀ cap ∈ entry.capabilities, isAdditive cap = true →
    (∃ old, before = some old ∧ cap ∈ old.capabilities) ∨ auth.isSuperAdmin = true
  approveAll : entry.approveScope = .all → auth.isSuperAdmin = true

/-- What `changeRole` stores in place of the row it read. -/
def roleChanged (entry : AclEntry) (role : Role) : AclEntry :=
  { entry with role := role, version := entry.version + 1 }

/-- The condition `updateAclEntryVersioned` writes under: the row is still the one it read again. -/
def stillThat (did : String) : Option (Stored did) → Check AclRow
  | some row => .unchanged (.entry did) row
  | none => .absent (.entry did)

inductive Permits : Call → Diary → RowOp AclRow → Prop
  | read {call diary o} (unwritten : Unwritten diary) (reads : o.writes = false) : Permits call diary o
  | create {auth params diary me entry} (unwritten : Unwritten diary) (absent : Saw diary params.did none)
      (caller : CallerIs auth diary me) (granted : Granted auth me none entry) (subject : entry.did = params.did) :
      Permits (.create auth params) diary (.batch [] [putEntry entry])
  | update {auth did params diary me} {row : Stored did} (unwritten : Unwritten diary) (other : auth.did ≠ did)
      (seen : Saw diary did (some row)) (caller : CallerIs auth diary me)
      (granted : Granted auth me (some row.val) (params.patched row.val)) :
      Permits (.update auth did params) diary (.batch [] [putEntry (params.patched row.val)])
  | changeRole {auth subject fromRole toRole diary me role} {row : Stored subject} {again : Option (Stored row.val.did)}
      (unwritten : Unwritten diary) (other : auth.did ≠ subject) (seen : Saw diary subject (some row))
      (caller : CallerIs auth diary me) (granted : Granted auth me (some row.val) { row.val with role := role })
      (seenAgain : Saw diary row.val.did again)
      (sameVersion : (again.map fun row => row.val.version).getD 0 = row.val.version) :
      Permits (.changeRole auth subject fromRole toRole) diary
        (.batch [stillThat row.val.did again] [putEntry (roleChanged row.val role)])
  | delete {auth did diary} {row : Stored did} (unwritten : Unwritten diary) (seen : Saw diary did (some row)) :
      Permits (.delete auth did) diary (.batch [] [.delete (.entry did)])
  | swapStore {auth newDid diary} {row : Stored auth.did} (unwritten : Unwritten diary) (other : newDid ≠ auth.did)
      (seen : Saw diary auth.did (some row)) :
      Permits (.swap auth (.ok newDid)) diary (.batch [] [putEntry (rotatedEntry row.val newDid)])
  | swapRemove {auth newDid diary r} {row : Stored auth.did} (unwritten : Unwritten diary) (other : newDid ≠ auth.did)
      (seen : Saw diary auth.did (some row)) :
      Permits (.swap auth (.ok newDid))
        (⟨(.batch [] [putEntry (rotatedEntry row.val newDid)] : RowOp AclRow), r⟩ :: diary)
        (.batch [] [.delete (.entry auth.did)])
  | exercise {auth : AuthClaims} {successor audited diary now createdAt marker} {row : Stored auth.did}
      (unwritten : Unwritten diary)
      (other : successor.did ≠ auth.did) (seen : Saw diary auth.did (some row)) (marked : row.val.handoff = some marker)
      (withinMarked : withinMarked auth row.val (successorEntry auth row.val marker successor createdAt) = .ok ())
      (withinGranter :
        withinGranter auth marker (successorEntry auth row.val marker successor createdAt) now = .ok ()) :
      Permits (.exercise auth successor audited) diary
        (.move (.entry auth.did) row (.entry successor.did)
          (⟨successorEntry auth row.val marker successor createdAt, rfl⟩ : Stored successor.did))
  | wait {seconds diary} : Permits (.wait seconds) diary (.tick seconds)

def Done : Call → Diary → Option AclEntry → Prop
  | .create _ _, diary, entry => ∃ e, entry = some e ∧ Wrote diary (.batch [] [putEntry e])
  | .update _ _ _, diary, entry => ∃ e, entry = some e ∧ Wrote diary (.batch [] [putEntry e])
  | .changeRole _ _ _ _, diary, _ =>
    ∃ checks e, (⟨(.batch checks [putEntry e] : RowOp AclRow), true⟩ : Record aclStore) ∈ diary
  | .delete _ did, diary, _ => Wrote diary (.batch [] [.delete (.entry did)])
  | .swap auth _, diary, entry =>
    ∃ e, entry = some e ∧ Wrote diary (.batch [] [putEntry e]) ∧
      Wrote diary (.batch [] [.delete (.entry auth.did)]) ∧ ∃ row, Saw diary auth.did (some row)
  | .exercise auth _ _, diary, entry =>
    ∃ (row : Stored auth.did) (e : AclEntry), entry = some e ∧
      (⟨(.move (.entry auth.did) row (.entry e.did) (Stored.of e) : RowOp AclRow), .moved⟩ :
        Record aclStore) ∈ diary
  | .wait _, _, _ => True

abbrev conduct : Conduct aclStore (Call × Diary) := Conduct.ofDiary Permits

/-! ### The steps of the programs -/

section
variable {call : Call} {diary : Diary} {β : Type} {Q : Call × Diary → β → Prop}

theorem unwritten_nil : Unwritten [] := fun _ h => nomatch h

theorem Unwritten.cons (h : Unwritten diary) {o : RowOp AclRow} (r : RowOp.Reply o) (ho : o.writes = false) :
    Unwritten ((⟨o, r⟩ : Record aclStore) :: diary) := by
  intro record hrecord
  rcases List.mem_cons.mp hrecord with rfl | hrecord
  · exact ho
  · exact h record hrecord

theorem Saw.mono {did : String} {found : Option (Stored did)} {more : Diary} (h : Saw diary did found)
    (hmore : diary ⊆ more) : Saw more did found :=
  hmore h

theorem CallerIs.mono {auth : AuthClaims} {me : AclEntry} {more : Diary} (h : CallerIs auth diary me)
    (hmore : diary ⊆ more) : CallerIs auth more me := by
  rcases h with hcli | ⟨hcli, row, hrow, hme⟩
  · exact .inl hcli
  · exact .inr ⟨hcli, row, hrow.mono hmore, hme⟩

theorem follows_read {o : RowOp AclRow} {f : RowOp.Reply o → AclProgram β} (ho : o.writes = false)
    (hdiary : Unwritten diary)
    (h : ∀ r, Unwritten ((⟨o, r⟩ : Record aclStore) :: diary) →
      (f r).Follows conduct (Ends Q) (call, (⟨o, r⟩ : Record aclStore) :: diary)) :
    ((Program.perform (I := aclStore) o).bind f).Follows conduct (Ends Q) (call, diary) :=
  follows_perform (C := conduct) (Permits.read hdiary ho) fun r => h r (hdiary.cons r ho)

theorem follows_nowEpoch {f : Nat → AclProgram β} (hdiary : Unwritten diary)
    (h : ∀ now more, diary ⊆ more → Unwritten more → (f now).Follows conduct (Ends Q) (call, more)) :
    (Program.bind nowEpoch f).Follows conduct (Ends Q) (call, diary) :=
  follows_read rfl hdiary fun now hmore => h now _ (List.subset_cons_self _ _) hmore

theorem follows_getAclEntry (did : String) {f : Option (Stored did) → AclProgram β} (hdiary : Unwritten diary)
    (h : ∀ found more, diary ⊆ more → Unwritten more → Saw more did found →
      (f found).Follows conduct (Ends Q) (call, more)) :
    (Program.bind (getAclEntry did) f).Follows conduct (Ends Q) (call, diary) :=
  follows_read rfl hdiary fun found hmore => h found _ (List.subset_cons_self _ _) hmore List.mem_cons_self

theorem follows_applyBatch {checks : List (Check AclRow)} {writes : List (Write AclRow)} {f : Bool → AclProgram β}
    (hpermits : Permits call diary (.batch checks writes))
    (h : ∀ r : Bool, (f r).Follows conduct (Ends Q)
      (call, (⟨(.batch checks writes : RowOp AclRow), r⟩ : Record aclStore) :: diary)) :
    (Program.bind (applyBatch checks writes) f).Follows conduct (Ends Q) (call, diary) :=
  follows_perform (C := conduct) hpermits h

theorem follows_requireContextsExist (contexts : List String) {f : Unit → AclProgram β} (hdiary : Unwritten diary)
    (h : ∀ more, diary ⊆ more → Unwritten more → (f ()).Follows conduct (Ends Q) (call, more)) :
    ((requireContextsExist contexts).bind f).Follows conduct (Ends Q) (call, diary) := by
  unfold requireContextsExist
  induction contexts generalizing diary with
  | nil => exact h diary (fun _ hr => hr) hdiary
  | cons _ _ ih =>
    rw [Program.forEach, Program.bind_assoc, Program.bind_assoc]
    refine follows_read rfl hdiary fun found hmore => ?_
    cases found with
    | none => trivial
    | some => exact ih hmore fun more hsub => h more fun r hr => hsub (List.mem_cons_of_mem _ hr)

theorem follows_requireApproveContextsExist (scope : ApproveScope) {f : Unit → AclProgram β}
    (hdiary : Unwritten diary)
    (h : ∀ more, diary ⊆ more → Unwritten more → (f ()).Follows conduct (Ends Q) (call, more)) :
    ((requireApproveContextsExist scope).bind f).Follows conduct (Ends Q) (call, diary) := by
  cases scope with
  | none | all => exact h diary (fun _ hr => hr) hdiary
  | contexts cs => exact follows_requireContextsExist cs hdiary h

theorem follows_callerEntry (auth : AuthClaims) {f : AclEntry → AclProgram β} (hdiary : Unwritten diary)
    (h : ∀ me more, diary ⊆ more → Unwritten more → CallerIs auth more me →
      (f me).Follows conduct (Ends Q) (call, more)) :
    ((callerEntry auth).bind f).Follows conduct (Ends Q) (call, diary) := by
  unfold callerEntry
  split
  · rename_i hcli
    rw [Program.bind_assoc]
    exact follows_nowEpoch hdiary fun now more hsub hmore => h _ more hsub hmore (.inl ⟨hcli, now, rfl⟩)
  · rename_i hcli
    rw [Program.bind_assoc]
    refine follows_getAclEntry auth.did hdiary fun found more hsub hmore hsaw => ?_
    match found, hsaw with
    | none, _ => trivial
    | some ⟨entry, hdid⟩, hsaw =>
      rw [Program.bind_assoc]
      refine follows_nowEpoch hmore fun now most hsub' hmost => ?_
      split
      · trivial
      · exact h entry most (fun r hr => hsub' (hsub hr)) hmost
          (.inr ⟨Bool.eq_false_iff.mpr hcli, ⟨entry, hdid⟩, hsaw.mono hsub', rfl⟩)

theorem follows_mintHandoff (auth : AuthClaims) (me : AclEntry) (subject : String) (expiresAt : Option Nat)
    {f : HandOff → AclProgram β} (hdiary : Unwritten diary)
    (h : ∀ marker more, diary ⊆ more → Unwritten more → (f marker).Follows conduct (Ends Q) (call, more)) :
    ((mintHandoff auth me subject expiresAt).bind f).Follows conduct (Ends Q) (call, diary) := by
  unfold mintHandoff
  split
  · trivial
  split
  · trivial
  split
  · trivial
  rw [Program.bind_assoc]
  exact follows_nowEpoch hdiary fun now more hsub hmore => h _ more hsub hmore

theorem follows_storeAclEntry {entry : AclEntry} {f : Unit → AclProgram β}
    (hpermits : Permits call diary (.batch [] [putEntry entry]))
    (h : ∀ r : Bool, (f ()).Follows conduct (Ends Q)
      (call, (⟨(.batch [] [putEntry entry] : RowOp AclRow), r⟩ : Record aclStore) :: diary)) :
    ((storeAclEntry entry).bind f).Follows conduct (Ends Q) (call, diary) := by
  rw [storeAclEntry, Program.bind_assoc]
  exact follows_applyBatch hpermits h

theorem follows_deleteAclEntry {did : String} {f : Unit → AclProgram β}
    (hpermits : Permits call diary (.batch [] [.delete (.entry did)]))
    (h : ∀ r : Bool, (f ()).Follows conduct (Ends Q)
      (call, (⟨(.batch [] [.delete (.entry did)] : RowOp AclRow), r⟩ : Record aclStore) :: diary)) :
    ((deleteAclEntry did).bind f).Follows conduct (Ends Q) (call, diary) := by
  rw [deleteAclEntry, Program.bind_assoc]
  exact follows_applyBatch hpermits h

end

/-! ### The checks behind what is written -/

section
variable {auth : AuthClaims} {me : AclEntry}

theorem granted_created {params : CreateAclParams} {stepUpRequire : Option StepUpMode} {now : Nat}
    (hrole : validateRoleAssignment auth params.role = .ok ())
    (hscope : validateAclModification auth params.role params.allowedContexts = .ok ())
    (hadditive : validateAdditiveCapabilityGrant auth params.capabilities = .ok ())
    (happrove : validateApproveScopeGrant auth params.approveScope = .ok ())
    (hwithin : validateWithinCaller auth me (createdEntry auth params stepUpRequire now) = .ok ()) :
    Granted auth me none (createdEntry auth params stepUpRequire now) where
  role := hrole
  scope := hscope
  within := validateWithinCaller_ok hwithin
  additive _ hcap hcapAdditive := .inr (validateAdditiveCapabilityGrant_ok hadditive hcap hcapAdditive)
  approveAll hall := by
    have hparams : params.approveScope = .all := hall
    rw [hparams] at happrove
    exact validateApproveScopeGrant_all happrove

/-- A marker adds nothing that the checks bound. -/
theorem Granted.marked {before : Option AclEntry} {entry : AclEntry} (h : Granted auth me before entry)
    (marker : HandOff) : Granted auth me before { entry with handoff := some marker } :=
  ⟨h.role, h.scope, ⟨h.within.capabilities, h.within.keys, h.within.expiry, h.within.approves⟩, h.additive,
    h.approveAll⟩

theorem granted_patched {params : UpdateAclParams} {entry : AclEntry} (hcovers : callerCoversEntry auth entry = true)
    (hcapabilities : params.checkCapabilities auth entry = .ok ()) (happrove : params.checkApproveScope auth = .ok ())
    (hrole : validateRoleAssignment auth (params.patched entry).role = .ok ())
    (hscope : validateAclModification auth (params.patched entry).role (params.patched entry).allowedContexts = .ok ())
    (hwithin : validateWithinCaller auth me (params.patched entry) = .ok ()) :
    Granted auth me (some entry) (params.patched entry) where
  role := hrole
  scope := hscope
  within := validateWithinCaller_ok hwithin
  additive cap hcap hcapAdditive := by
    unfold UpdateAclParams.checkCapabilities at hcapabilities
    unfold UpdateAclParams.patched at hcap
    cases hparams : params.capabilities with
    | none =>
      rw [hparams] at hcap
      exact .inl ⟨entry, rfl, hcap⟩
    | some =>
      rw [hparams] at hcap hcapabilities
      obtain ⟨_, _, hgrant⟩ := Lib.bind_eq_ok.mp hcapabilities
      exact .inr (validateAdditiveCapabilityGrant_ok hgrant hcap hcapAdditive)
  approveAll hall := by
    unfold UpdateAclParams.checkApproveScope at happrove
    unfold UpdateAclParams.patched at hall
    cases hparams : params.approveScope with
    | none =>
      rw [hparams] at hall
      exact isSuperAdmin_of_callerCoversEntry hcovers hall
    | some scope =>
      rw [hparams] at hall happrove
      have hscope : scope = .all := hall
      rw [hscope] at happrove
      exact validateApproveScopeGrant_all happrove

theorem granted_roleChanged {entry : AclEntry} {role : Role} (hcovers : callerCoversEntry auth entry = true)
    (hrole : validateRoleAssignment auth role = .ok ())
    (hscope : validateAclModification auth role entry.allowedContexts = .ok ())
    (hwithin : validateWithinCaller auth me { entry with role := role } = .ok ()) :
    Granted auth me (some entry) { entry with role := role } where
  role := hrole
  scope := hscope
  within := validateWithinCaller_ok hwithin
  additive _ hcap _ := .inl ⟨entry, rfl, hcap⟩
  approveAll hall := by
    have hentry : entry.approveScope = .all := hall
    exact isSuperAdmin_of_callerCoversEntry hcovers hentry

end

/-! ### The programs -/

section
variable {auth : AuthClaims}

/-- An operation's answer handed on. -/
theorem follows_answer {call : Call} {p : AclProgram AclEntry}
    (h : p.Follows conduct (Ends fun l entry => Done l.1 l.2 (some entry)) (call, [])) :
    (p.bind fun entry => pure (some entry)).Follows conduct (Ends fun l answer => Done l.1 l.2 answer) (call, []) := by
  refine follows_bind (h.mono fun l r hr => ?_)
  cases r with
  | ok => exact hr
  | error => trivial

theorem follows_createAcl (params : CreateAclParams) :
    (createAcl auth params).Follows conduct (Ends fun l entry => Done l.1 l.2 (some entry))
      (.create auth params, []) := by
  refine follows_check fun _ _ => ?_
  refine follows_check fun _ hrole => ?_
  refine follows_check fun _ hscope => ?_
  refine follows_check fun _ _ => ?_
  refine follows_check fun _ _ => ?_
  refine follows_check fun _ hadditive => ?_
  refine follows_check fun _ happrove => ?_
  refine follows_requireContextsExist _ unwritten_nil fun d₁ _ h₁ => ?_
  refine follows_requireApproveContextsExist _ h₁ fun d₂ _ h₂ => ?_
  refine follows_check fun stepUpRequire _ => ?_
  refine follows_getAclEntry _ h₂ fun existing d₃ _ h₃ hsaw => ?_
  split
  · trivial
  · rename_i hnone
    refine follows_nowEpoch h₃ fun now d₄ hsub₄ h₄ => ?_
    refine follows_callerEntry auth h₄ fun me d₅ hsub₅ h₅ hcaller => ?_
    refine follows_check fun _ hwithin => ?_
    have hexisting : existing = none := by
      cases existing with
      | none => rfl
      | some => exact absurd rfl hnone
    subst hexisting
    have hsaw₅ : Saw d₅ params.did none := (hsaw.mono hsub₄).mono hsub₅
    have hgranted := granted_created hrole hscope hadditive happrove hwithin
    split
    · rw [Program.bind_assoc]
      refine follows_mintHandoff auth me params.did params.expiresAt h₅ fun marker d₆ hsub₆ h₆ => ?_
      refine follows_storeAclEntry ?_ fun r => ⟨_, rfl, r, List.mem_cons_self⟩
      exact .create h₆ (hsaw₅.mono hsub₆) (hcaller.mono hsub₆) (hgranted.marked marker) rfl
    · refine follows_storeAclEntry ?_ fun r => ⟨_, rfl, r, List.mem_cons_self⟩
      exact .create h₅ hsaw₅ hcaller hgranted rfl

theorem follows_updateAcl (did : String) (params : UpdateAclParams) :
    (updateAcl auth did params).Follows conduct (Ends fun l entry => Done l.1 l.2 (some entry))
      (.update auth did params, []) := by
  refine follows_check fun _ _ => ?_
  refine follows_check fun _ hself => ?_
  refine follows_getAclEntry _ unwritten_nil fun found d₁ _ h₁ hsaw => ?_
  match found, hsaw with
  | none, _ => trivial
  | some ⟨entry, hdid⟩, hsaw =>
    dsimp only
    split
    · trivial
    split
    · trivial
    rename_i hcovers
    refine follows_callerEntry auth h₁ fun me d₂ hsub₂ h₂ hcaller => ?_
    refine follows_check fun _ _ => ?_
    refine follows_check fun _ hcapabilities => ?_
    refine follows_check fun _ _ => ?_
    refine follows_check fun _ _ => ?_
    refine follows_requireContextsExist _ h₂ fun d₃ hsub₃ h₃ => ?_
    refine follows_check fun _ _ => ?_
    refine follows_check fun _ happrove => ?_
    refine follows_requireApproveContextsExist _ h₃ fun d₄ hsub₄ h₄ => ?_
    refine follows_check fun _ hrole => ?_
    refine follows_check fun _ hscope => ?_
    refine follows_check fun _ hwithin => ?_
    refine follows_storeAclEntry ?_ fun r => ⟨_, rfl, r, List.mem_cons_self⟩
    have hcovered : callerCoversEntry auth entry = true := by simpa using hcovers
    exact .update h₄ (refuseSelfModification_ok hself)
      (((hsaw.mono hsub₂).mono hsub₃).mono hsub₄) ((hcaller.mono hsub₃).mono hsub₄)
      (granted_patched hcovered hcapabilities happrove hrole hscope hwithin)

theorem follows_updateAclEntryVersioned {subject fromRole toRole : String} {diary : Diary} {me : AclEntry} {role : Role}
    {row : Stored subject} {f : Nat → AclProgram AclEntry} {Q : Call × Diary → AclEntry → Prop}
    (hdiary : Unwritten diary) (hother : auth.did ≠ subject) (hsaw : Saw diary subject (some row))
    (hcaller : CallerIs auth diary me) (hgranted : Granted auth me (some row.val) { row.val with role := role })
    (h : ∀ n more, (∃ checks e, (⟨(.batch checks [putEntry e] : RowOp AclRow), true⟩ : Record aclStore) ∈ more) →
      (f n).Follows conduct (Ends Q) (.changeRole auth subject fromRole toRole, more)) :
    ((updateAclEntryVersioned { row.val with role := role } row.val.version).bind f).Follows conduct (Ends Q)
      (.changeRole auth subject fromRole toRole, diary) := by
  rw [updateAclEntryVersioned, Program.bind_assoc]
  refine follows_getAclEntry _ hdiary fun current more hsub hmore hagain => ?_
  dsimp only
  split
  · trivial
  · rename_i hversion
    rw [Program.bind_assoc]
    have hpermits : Permits (.changeRole auth subject fromRole toRole) more
        (.batch [stillThat row.val.did current] [putEntry (roleChanged row.val role)]) :=
      .changeRole hmore hother (hsaw.mono hsub) (hcaller.mono hsub) hgranted hagain (not_not.mp hversion)
    cases current with
    | none | some =>
      refine follows_applyBatch hpermits fun applied => ?_
      cases applied with
      | false => trivial
      | true => exact h _ _ ⟨_, _, List.mem_cons_self⟩

theorem follows_changeRole (subject fromRole toRole : String) :
    (changeRole auth subject fromRole toRole).Follows conduct (Ends fun l entry => Done l.1 l.2 (some entry))
      (.changeRole auth subject fromRole toRole, []) := by
  refine follows_check fun _ _ => ?_
  refine follows_check fun _ hself => ?_
  refine follows_getAclEntry _ unwritten_nil fun found d₁ _ h₁ hsaw => ?_
  match found, hsaw with
  | none, _ => trivial
  | some ⟨entry, hdid⟩, hsaw =>
    dsimp only
    split
    · trivial
    split
    · trivial
    rename_i hcovers
    refine follows_check fun fromRole _ => ?_
    refine follows_check fun toRole _ => ?_
    split
    · trivial
    refine follows_check fun _ hrole => ?_
    refine follows_check fun _ hscope => ?_
    refine follows_callerEntry auth h₁ fun me d₂ hsub₂ h₂ hcaller => ?_
    refine follows_check fun _ hwithin => ?_
    have hcovered : callerCoversEntry auth entry = true := by simpa using hcovers
    exact follows_updateAclEntryVersioned h₂ (refuseSelfModification_ok hself)
      (hsaw.mono hsub₂) hcaller (granted_roleChanged hcovered hrole hscope hwithin) fun _ _ hdone => hdone

theorem follows_deleteAcl (did : String) :
    (deleteAcl auth did).Follows conduct (Ends fun l _ => Done l.1 l.2 none) (.delete auth did, []) := by
  refine follows_check fun _ _ => ?_
  split
  · trivial
  refine follows_getAclEntry _ unwritten_nil fun found d₁ _ h₁ hsaw => ?_
  match found, hsaw with
  | none, _ => trivial
  | some ⟨entry, hdid⟩, hsaw =>
    dsimp only
    split
    · trivial
    split
    · trivial
    refine follows_check fun _ _ => ?_
    exact follows_applyBatch (.delete h₁ hsaw) fun r => ⟨r, List.mem_cons_self⟩

theorem follows_swapAcl (presented : Except AppError String) :
    (swapAcl auth presented).Follows conduct (Ends fun l entry => Done l.1 l.2 (some entry))
      (.swap auth presented, []) := by
  refine follows_nowEpoch unwritten_nil fun now d₁ _ h₁ => ?_
  refine follows_check fun newDid hpresented => ?_
  subst hpresented
  split
  · trivial
  rename_i hother
  refine follows_getAclEntry _ h₁ fun found d₂ _ h₂ hsaw => ?_
  match found, hsaw with
  | none, _ => trivial
  | some ⟨old, hdid⟩, hsaw =>
    dsimp only
    split
    · trivial
    refine follows_getAclEntry _ h₂ fun taken d₃ hsub₃ h₃ _ => ?_
    split
    · trivial
    have hsaw₃ := hsaw.mono hsub₃
    refine follows_storeAclEntry (.swapStore h₃ hother hsaw₃) fun r => ?_
    refine follows_deleteAclEntry (.swapRemove h₃ hother hsaw₃) fun r' => ?_
    exact ⟨_, rfl, ⟨r, List.mem_cons_of_mem _ List.mem_cons_self⟩, ⟨r', List.mem_cons_self⟩,
      _, List.mem_cons_of_mem _ (List.mem_cons_of_mem _ hsaw₃)⟩

theorem follows_exerciseHandoff (successor : HandOffSuccessor) (audited : Except AppError Unit) :
    (exerciseHandoff auth successor audited).Follows conduct (Ends fun l entry => Done l.1 l.2 (some entry))
      (.exercise auth successor audited, []) := by
  refine follows_nowEpoch unwritten_nil fun now d₁ _ h₁ => ?_
  refine follows_getAclEntry _ h₁ fun found d₂ _ h₂ hsaw => ?_
  match found, hsaw with
  | none, _ => trivial
  | some row, hsaw =>
    dsimp only
    split
    · trivial
    rename_i marker hmarked
    split
    · trivial
    split
    · trivial
    split
    · trivial
    rename_i hother
    split
    · trivial
    refine follows_requireContextsExist _ h₂ fun d₃ hsub₃ h₃ => ?_
    refine follows_nowEpoch h₃ fun createdAt d₄ hsub₄ h₄ => ?_
    refine follows_check fun _ hmine => ?_
    refine follows_check fun _ hgranter => ?_
    refine follows_check fun _ _ => ?_
    have hpermits : Permits (.exercise auth successor audited) d₄
        (.move (.entry auth.did) row (.entry successor.did)
          (⟨successorEntry auth row.val marker successor createdAt, rfl⟩ : Stored successor.did)) :=
      .exercise h₄ hother ((hsaw.mono hsub₃).mono hsub₄) hmarked hmine hgranter
    refine follows_perform (C := conduct) hpermits fun outcome => ?_
    refine follows_check fun _ hmoved => ?_
    cases outcome with
    | moved => exact ⟨row, _, rfl, List.mem_cons_self⟩
    | sourceMissing | sourceChanged | targetExists => cases hmoved

/-- **Every call keeps to its conduct, and one that ends well has written.** -/
theorem follows_program (call : Call) :
    call.program.Follows conduct (Ends fun l answer => Done l.1 l.2 answer) (call, []) := by
  cases call with
  | create _ params => exact follows_answer (follows_createAcl params)
  | update _ did params => exact follows_answer (follows_updateAcl did params)
  | changeRole _ subject fromRole toRole => exact follows_answer (follows_changeRole subject fromRole toRole)
  | delete _ did =>
    refine follows_bind ((follows_deleteAcl did).mono fun l r hr => ?_)
    cases r with
    | ok => exact hr
    | error => trivial
  | swap _ presented => exact follows_answer (follows_swapAcl presented)
  | exercise _ successor audited => exact follows_answer (follows_exerciseHandoff successor audited)
  | wait => exact follows_perform (C := conduct) .wait fun _ => trivial

end

end TrustInfrastructure.Access
