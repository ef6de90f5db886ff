import TrustInfrastructure.Consent.Handlers

/-!
# Task consent: what a call does

A `Call` is one of the store functions or one of the handlers, with its arguments. `Permits` says which operation a
call may perform after what is in its diary, and `Done` what a call that ended well has done. The store functions are
shared by the handlers, so the walk through each of them (`follows_readLivePending`, `follows_addApproval`,
`follows_grantFromPending`, …) is made once, for any call that is permitted what the function does.

A decision is `Checked` against the request it looked up, the first request in its diary (`lookedUp`). Its approval and
its denial act on whatever request is under that digest later.
-/

namespace TrustInfrastructure.Consent

open Lib (Program Conduct Record Rows RowOp Check Write Bytes)
open Lib.Program (Follows Ends follows_bind follows_perform)
open ConsentProgram

/-! ### Calls -/

inductive Call where
  | storePending (p : PendingTaskConsent)
  | storeBoundPending (p : PendingTaskConsent) (keepUntil : Nat)
  | getPending (digest : String) (now : Nat)
  | addApproval (digest approver : String) (now : Nat)
  | grantFromPending (grant : TaskConsentGrant) (now : Nat)
  | removePendingIfPresent (p : PendingTaskConsent)
  | denyBoundPending (p : PendingTaskConsent)
  | consumeGrant (requester typeUri digest : String) (now : Nat)
  | getGrant (requester digest : String) (now : Nat)
  | sweepExpired (pendings : List String) (marks grants : List (String × String)) (now : Nat)
  | decide (d : Decision)
  | submit (sub : Submission)
  /-- An operator names the members of an approver set. -/
  | setApprovers (name : String) (members : List String)

inductive Answer where
  | done
  | flag (holds : Bool)
  | pending (found : Option PendingTaskConsent)
  | grant (found : Option TaskConsentGrant)
  | count (pruned : Nat)
  | decided (outcome : Decided)
  | gated (outcome : Gated)

def Call.program (hash : Bytes → String) : Call → ConsentProgram Answer
  | .storePending p => (Consent.storePending p).bind fun _ => pure .done
  | .storeBoundPending p keepUntil => (Consent.storeBoundPending p keepUntil).bind fun b => pure (.flag b)
  | .getPending digest now => (Consent.getPending digest now).bind fun found => pure (.pending found)
  | .addApproval digest approver now =>
    (Consent.addApproval digest approver now).bind fun found => pure (.pending found)
  | .grantFromPending grant now => (Consent.grantFromPending grant now).bind fun b => pure (.flag b)
  | .removePendingIfPresent p => (Consent.removePendingIfPresent p).bind fun b => pure (.flag b)
  | .denyBoundPending p => (Consent.denyBoundPending p).bind fun b => pure (.flag b)
  | .consumeGrant requester typeUri digest now =>
    (Consent.consumeGrant requester typeUri digest now).bind fun found => pure (.grant found)
  | .getGrant requester digest now => (Consent.getGrant requester digest now).bind fun found => pure (.grant found)
  | .sweepExpired pendings marks grants now =>
    (Consent.sweepExpired pendings marks grants now).bind fun n => pure (.count n)
  | .decide d => (handleDecision d).bind fun outcome => pure (.decided outcome)
  | .submit sub => (consentGate hash sub).bind fun outcome => pure (.gated outcome)
  | .setApprovers name members =>
    (Program.perform (I := consentStore) (.insert (.approvers name) members : RowOp ConsentRow)).bind
      fun _ => pure .done

/-! ### Diaries of calls -/

abbrev Diary := List (Record consentStore)

/-- The first request a call read. -/
def lookedUp : Diary → Option PendingTaskConsent
  | [] => none
  | ⟨.get (.pending _), found⟩ :: diary => (lookedUp diary).or ((show Option (PendingRow _) from found).map Subtype.val)
  | _ :: diary => lookedUp diary

theorem lookedUp_cons {diary : Diary} {p : PendingTaskConsent} (h : lookedUp diary = some p)
    (r : Record consentStore) : lookedUp (r :: diary) = some p := by
  unfold lookedUp
  split
  · rename_i heq
    cases heq
  · rename_i heq
    obtain ⟨-, rfl⟩ := List.cons.inj heq
    rw [h, Option.some_or]
  · rename_i heq
    obtain ⟨-, rfl⟩ := List.cons.inj heq
    exact h

theorem lookedUp_cons_cases {diary : Diary} {p : PendingTaskConsent} {r : Record consentStore}
    (h : lookedUp (r :: diary) = some p) : lookedUp diary = some p ∨ ∃ row : PendingRow p.digest, row.val = p ∧
      r = ⟨(.get (.pending p.digest) : RowOp ConsentRow), some row⟩ := by
  unfold lookedUp at h
  split at h
  · cases h
  · rename_i found rest heq
    obtain ⟨rfl, rfl⟩ := List.cons.inj heq
    rcases Option.or_eq_some_iff.mp h with hbefore | ⟨-, hfound⟩
    · exact .inl hbefore
    · obtain ⟨⟨row, rfl⟩, rfl, rfl⟩ := Option.map_eq_some_iff.mp hfound
      exact .inr ⟨⟨row, rfl⟩, rfl, rfl⟩
  · rename_i heq
    obtain ⟨-, rfl⟩ := List.cons.inj heq
    exact .inl h

theorem lookedUp_of_suffix {diary more : Diary} {p : PendingTaskConsent} (h : lookedUp diary = some p)
    (hsuffix : diary <:+ more) : lookedUp more = some p := by
  obtain ⟨recent, rfl⟩ := hsuffix
  induction recent with
  | nil => exact h
  | cons r _ ih => exact lookedUp_cons ih r

structure Checked (d : Decision) (diary : Diary) (approver : String) (p : PendingTaskConsent) : Prop where
  signer : d.signer = .ok approver
  found : lookedUp diary = some p
  challenge : d.challenge = p.challenge
  eligible : p.boundApprover = some approver ∨ (p.boundApprover = none ∧ ∃ members : Option (List String),
    (⟨(.get (.approvers p.approverSet) : RowOp ConsentRow), members⟩ : Record consentStore) ∈ diary ∧
      approver ∈ members.getD [])
  notRequester : p.excludeRequester = true → approver ≠ p.requesterDid

theorem Checked.mono {d : Decision} {diary more : Diary} {approver : String} {p : PendingTaskConsent}
    (h : Checked d diary approver p) (hsuffix : diary <:+ more) : Checked d more approver p where
  signer := h.signer
  found := lookedUp_of_suffix h.found hsuffix
  challenge := h.challenge
  eligible := h.eligible.imp_right fun ⟨hnone, members, hmem, hin⟩ => ⟨hnone, members, hsuffix.subset hmem, hin⟩
  notRequester := h.notRequester

def Approves (call : Call) (diary : Diary) (digest approver : String) : Prop :=
  match call with
  | .addApproval d a _ => d = digest ∧ a = approver
  | .decide d => d.decision = .approve ∧ ∃ p, Checked d diary approver p ∧ p.digest = digest
  | _ => False

def Mints (call : Call) (grant : TaskConsentGrant) : Prop :=
  match call with
  | .grantFromPending g _ => g = grant
  | .decide _ => True
  | _ => False

def Denies (call : Call) (diary : Diary) (p : PendingTaskConsent) : Prop :=
  match call with
  | .removePendingIfPresent q => q = p
  | .denyBoundPending q => q = p
  | .decide d => d.decision = .deny ∧ ∃ approver, Checked d diary approver p
  | _ => False

def Spends (hash : Bytes → String) (call : Call) (requester digest : String) : Prop :=
  match call with
  | .consumeGrant r _ d _ => r = requester ∧ d = digest
  | .submit sub => sub.requester = requester ∧ payloadDigest hash sub.typeUri sub.payload = digest
  | _ => False

def raise (p : PendingTaskConsent) : RowOp ConsentRow := .batch [] [putPending p, putWire p]

def raiseBound (p : PendingTaskConsent) (mark : BoundRequestMark) : RowOp ConsentRow :=
  .batch [.absent (.bound p.requesterDid p.digest), .absent (.pending p.digest)] [putMark mark, putPending p, putWire p]

def record (p : PendingTaskConsent) (approver : String) (h : approver ∉ p.approvals) : RowOp ConsentRow :=
  .batch [unchanged p] [putPending (p.approved approver h)]

/-- The batch that completes a request. -/
def mint (p : PendingTaskConsent) (grant : TaskConsentGrant) : RowOp ConsentRow :=
  .batch [unchanged p] (mintWrites p grant)

/-- The batch of a denial; `more` marks a bound request as denied. -/
def refuse (p : PendingTaskConsent) (more : List (Write ConsentRow)) : RowOp ConsentRow :=
  .batch [.present (.pending p.digest)] (retire p ++ more)

inductive Permits (hash : Bytes → String) : Call → Diary → RowOp ConsentRow → Prop
  | read {call diary k} : Permits hash call diary (.get k)
  | prune {call diary now k row} (h : lapsed now k row = true) :
      Permits hash call diary (.batch [.unchanged k row] (removal k row))
  | store {p diary} : Permits hash (.storePending p) diary (raise p)
  | storeBound {p keepUntil diary approver} :
      Permits hash (.storeBoundPending p keepUntil) diary (raiseBound p (markOf p approver keepUntil))
  | approve {call diary p approver} (h : approver ∉ p.approvals) (approves : Approves call diary p.digest approver) :
      Permits hash call diary (record p approver h)
  | mint {call diary p grant} (mints : Mints call grant) (same : p.digest = grant.digest)
      (supported : supports p grant = true) : Permits hash call diary (mint p grant)
  | remove {call diary p} (denies : Denies call diary p) : Permits hash call diary (refuse p [])
  | denyBound {call diary p} {mark : BoundRequestMark} (denies : Denies call diary p) :
      Permits hash call diary (refuse p [putMark mark])
  | consume {call diary requester digest} (spends : Spends hash call requester digest) :
      Permits hash call diary (.take (.grant requester digest))
  | retire {sub diary p} : Permits hash (.submit sub) diary (.batch [] (retire p))
  | raise {sub diary require plan} : Permits hash (.submit sub) diary (raise (mintedPending hash sub require plan))
  | setApprovers {name members diary} : Permits hash (.setApprovers name members) diary
      (.insert (.approvers name) members)

def Recorded (diary : Diary) (digest approver : String) : Prop :=
  (∃ p : PendingRow digest, (⟨(.get (.pending digest) : RowOp ConsentRow), some p⟩ : Record consentStore) ∈ diary ∧
    approver ∈ p.val.approvals) ∨
  ∃ p, ∃ h : approver ∉ p.approvals, p.digest = digest ∧
    (⟨record p approver h, true⟩ : Record consentStore) ∈ diary

def Minted (diary : Diary) (grant : TaskConsentGrant) : Prop :=
  ∃ p, p.digest = grant.digest ∧ supports p grant = true ∧ (⟨mint p grant, true⟩ : Record consentStore) ∈ diary

/-- The request under the digest of `p` was removed by a denial. -/
def Refused (diary : Diary) (p : PendingTaskConsent) : Prop :=
  ∃ more, (⟨refuse p more, true⟩ : Record consentStore) ∈ diary

def Done : Call → Diary → Answer → Prop
  | .addApproval digest approver _, diary, .pending (some p) => approver ∈ p.approvals ∧ Recorded diary digest approver
  | .grantFromPending grant _, diary, .flag true => Minted diary grant
  | .removePendingIfPresent p, diary, .flag true => Refused diary p
  | .denyBoundPending p, diary, .flag true => Refused diary p
  | .consumeGrant requester typeUri digest now, diary, .grant (some g) => ∃ row : GrantRow requester digest,
    (⟨(.take (.grant requester digest) : RowOp ConsentRow), some row⟩ : Record consentStore) ∈ diary ∧
      row.val = g ∧ g.typeUri = typeUri ∧ now < g.expiresAt
  | .decide _, diary, .decided .denied => ∃ p, Refused diary p
  | _, _, _ => True

abbrev conduct (hash : Bytes → String) : Conduct consentStore (Call × Diary) := Conduct.ofDiary (Permits hash)

/-! ### The store functions -/

section
variable {hash : Bytes → String} {call : Call} {diary : Diary} {β : Type} {Q : Call × Diary → β → Prop}

theorem follows_get (k : ConsentKey) {f : Option (ConsentRow k) → ConsentProgram β}
    (h : ∀ found, (f found).Follows (conduct hash) (Ends Q)
      (call, (⟨(.get k : RowOp ConsentRow), found⟩ : Record consentStore) :: diary)) :
    (Program.bind (get k) f).Follows (conduct hash) (Ends Q) (call, diary) :=
  follows_perform (C := conduct hash) Permits.read h

theorem follows_applyBatch {checks : List (Check ConsentRow)} {writes : List (Write ConsentRow)}
    {f : Bool → ConsentProgram β} (hpermits : Permits hash call diary (.batch checks writes))
    (h : ∀ applied : Bool, (f applied).Follows (conduct hash) (Ends Q)
      (call, (⟨(.batch checks writes : RowOp ConsentRow), applied⟩ : Record consentStore) :: diary)) :
    (Program.bind (applyBatch checks writes) f).Follows (conduct hash) (Ends Q) (call, diary) :=
  follows_perform (C := conduct hash) hpermits h

theorem follows_readLivePending (digest : String) (now : Nat) {f : Option PendingTaskConsent → ConsentProgram β}
    (hnone : ∀ more, diary <:+ more → (f none).Follows (conduct hash) (Ends Q) (call, more))
    (hsome : ∀ p : PendingRow digest, (f (some p.val)).Follows (conduct hash) (Ends Q)
      (call, (⟨(.get (.pending digest) : RowOp ConsentRow), some p⟩ : Record consentStore) :: diary)) :
    (Program.bind (readLivePending digest now) f).Follows (conduct hash) (Ends Q) (call, diary) := by
  rw [readLivePending, Program.bind_assoc]
  refine follows_get (.pending digest) fun found => ?_
  match found with
  | none => exact hnone _ (List.suffix_cons _ _)
  | some p =>
    dsimp only
    split
    · rename_i hlapsed
      rw [Program.bind_assoc]
      exact follows_applyBatch (.prune hlapsed) fun _ =>
        hnone _ ((List.suffix_cons _ _).trans (List.suffix_cons _ _))
    · exact hsome p

theorem follows_addApproval {digest approver : String} {now : Nat} {f : Option PendingTaskConsent → ConsentProgram β}
    (happroves : ∀ more, diary <:+ more → Approves call more digest approver)
    (hnone : ∀ more, diary <:+ more → (f none).Follows (conduct hash) (Ends Q) (call, more))
    (hsome : ∀ p more, diary <:+ more → p.digest = digest → approver ∈ p.approvals → Recorded more digest approver →
      (f (some p)).Follows (conduct hash) (Ends Q) (call, more)) :
    (Program.bind (addApproval digest approver now) f).Follows (conduct hash) (Ends Q) (call, diary) := by
  unfold addApproval
  generalize writeAttempts = attempts
  induction attempts generalizing diary with
  | zero => trivial
  | succ _ ih =>
    rw [addApprovalWithin, Program.bind_assoc]
    refine follows_readLivePending digest now (fun more hsuffix => hnone more hsuffix) fun p => ?_
    dsimp only
    split
    · rename_i hin
      exact hsome p.val _ (List.suffix_cons _ _) p.property hin (.inl ⟨p, List.mem_cons_self, hin⟩)
    · rename_i hnot
      rw [Program.bind_assoc]
      refine follows_applyBatch (.approve hnot ?_) fun applied => ?_
      · rw [p.property]
        exact happroves _ (List.suffix_cons _ _)
      · have hsuffix : diary <:+ ⟨record p.val approver hnot, applied⟩ ::
            ⟨(.get (.pending digest) : RowOp ConsentRow), some p⟩ :: diary :=
          (List.suffix_cons _ _).trans (List.suffix_cons _ _)
        cases applied with
        | true =>
          refine hsome (p.val.approved approver hnot) _ hsuffix p.property ?_ (.inr ⟨p.val, hnot, p.property,
            List.mem_cons_self⟩)
          exact List.mem_append_right _ (List.mem_singleton_self approver)
        | false =>
          exact ih (fun more hmore => happroves more (hsuffix.trans hmore))
            (fun more hmore => hnone more (hsuffix.trans hmore))
            fun q more hmore => hsome q more (hsuffix.trans hmore)

theorem follows_grantFromPending {grant : TaskConsentGrant} {now : Nat} {f : Bool → ConsentProgram β}
    (hmints : Mints call grant)
    (hfalse : ∀ more, diary <:+ more → (f false).Follows (conduct hash) (Ends Q) (call, more))
    (htrue : ∀ more, diary <:+ more → Minted more grant → (f true).Follows (conduct hash) (Ends Q) (call, more)) :
    (Program.bind (grantFromPending grant now) f).Follows (conduct hash) (Ends Q) (call, diary) := by
  unfold grantFromPending
  generalize writeAttempts = attempts
  induction attempts generalizing diary with
  | zero => trivial
  | succ _ ih =>
    rw [grantFromPendingWithin, Program.bind_assoc]
    refine follows_readLivePending grant.digest now (fun more hsuffix => hfalse more hsuffix) fun p => ?_
    dsimp only
    split
    · exact hfalse _ (List.suffix_cons _ _)
    · rename_i hsupports
      have hsupported : supports p.val grant = true := by simpa using hsupports
      rw [Program.bind_assoc]
      refine follows_applyBatch (.mint hmints p.property hsupported) fun applied => ?_
      have hsuffix : diary <:+ ⟨mint p.val grant, applied⟩ ::
          ⟨(.get (.pending grant.digest) : RowOp ConsentRow), some p⟩ :: diary :=
        (List.suffix_cons _ _).trans (List.suffix_cons _ _)
      cases applied with
      | true => exact htrue _ hsuffix ⟨p.val, p.property, hsupported, List.mem_cons_self⟩
      | false =>
        exact ih (fun more hmore => hfalse more (hsuffix.trans hmore))
          fun more hmore => htrue more (hsuffix.trans hmore)

theorem follows_removePendingIfPresent {p : PendingTaskConsent} {f : Bool → ConsentProgram β}
    (hdenies : Denies call diary p)
    (h : ∀ removed more, diary <:+ more → (removed = true → Refused more p) →
      (f removed).Follows (conduct hash) (Ends Q) (call, more)) :
    (Program.bind (removePendingIfPresent p) f).Follows (conduct hash) (Ends Q) (call, diary) := by
  refine follows_applyBatch (.remove hdenies) fun removed => h removed _ (List.suffix_cons _ _) fun htrue => ?_
  subst htrue
  exact ⟨[], List.mem_cons_self⟩

theorem follows_denyBoundPending {p : PendingTaskConsent} {f : Bool → ConsentProgram β}
    (hdenies : ∀ more, diary <:+ more → Denies call more p)
    (h : ∀ removed more, diary <:+ more → (removed = true → Refused more p) →
      (f removed).Follows (conduct hash) (Ends Q) (call, more)) :
    (Program.bind (denyBoundPending p) f).Follows (conduct hash) (Ends Q) (call, diary) := by
  rw [denyBoundPending, Program.bind_assoc]
  refine follows_get (.bound p.requesterDid p.digest) fun found => ?_
  match found with
  | none =>
    exact follows_removePendingIfPresent (hdenies _ (List.suffix_cons _ _)) fun removed more hmore =>
      h removed more ((List.suffix_cons _ _).trans hmore)
  | some mark =>
    refine follows_applyBatch (.denyBound (hdenies _ (List.suffix_cons _ _))) fun removed =>
      h removed _ ((List.suffix_cons _ _).trans (List.suffix_cons _ _)) fun htrue => ?_
    subst htrue
    exact ⟨_, List.mem_cons_self⟩

theorem follows_consumeGrant {requester typeUri digest : String} {now : Nat}
    {f : Option TaskConsentGrant → ConsentProgram β} (hspends : Spends hash call requester digest)
    (hnone : ∀ more, diary <:+ more → (f none).Follows (conduct hash) (Ends Q) (call, more))
    (hsome : ∀ (g : GrantRow requester digest) more, diary <:+ more →
      (⟨(.take (.grant requester digest) : RowOp ConsentRow), some g⟩ : Record consentStore) ∈ more →
      g.val.typeUri = typeUri → now < g.val.expiresAt → (f (some g.val)).Follows (conduct hash) (Ends Q) (call, more)) :
    (Program.bind (consumeGrant requester typeUri digest now) f).Follows (conduct hash) (Ends Q) (call, diary) := by
  rw [consumeGrant, Program.bind_assoc]
  refine follows_perform (C := conduct hash) (Permits.consume hspends) fun found => ?_
  match found with
  | none => exact hnone _ (List.suffix_cons _ _)
  | some g =>
    dsimp only
    split
    · exact hnone _ (List.suffix_cons _ _)
    rename_i hlapsed
    split
    · trivial
    rename_i htype
    refine hsome g _ (List.suffix_cons _ _) List.mem_cons_self (by simpa using htype) ?_
    have hlive : ¬ g.val.expiresAt ≤ now := fun hle => hlapsed (decide_eq_true hle)
    omega

theorem follows_scan (keys : List ConsentKey) {f : List ((k : ConsentKey) × ConsentRow k) → ConsentProgram β}
    (h : ∀ rows more, (f rows).Follows (conduct hash) (Ends Q) (call, more)) :
    (Program.bind (scan keys) f).Follows (conduct hash) (Ends Q) (call, diary) := by
  induction keys generalizing diary f with
  | nil => exact h [] diary
  | cons k _ ih =>
    rw [scan, Program.bind_assoc]
    refine follows_get k fun found => ?_
    rw [Program.bind_assoc]
    refine ih fun rows more => ?_
    cases found with
    | none => exact h rows more
    | some => exact h _ more

theorem follows_pruneAll (now : Nat) (rows : List ((k : ConsentKey) × ConsentRow k)) {f : Nat → ConsentProgram β}
    (h : ∀ pruned more, (f pruned).Follows (conduct hash) (Ends Q) (call, more)) :
    (Program.bind (pruneAll now rows) f).Follows (conduct hash) (Ends Q) (call, diary) := by
  induction rows generalizing diary f with
  | nil => exact h 0 diary
  | cons row _ ih =>
    obtain ⟨k, row⟩ := row
    rw [pruneAll]
    split
    · rename_i hlapsed
      rw [Program.bind_assoc]
      refine follows_applyBatch (.prune hlapsed) fun applied => ?_
      rw [Program.bind_assoc]
      exact ih fun pruned more => h _ more
    · exact ih h

theorem follows_sweepPrefix (now : Nat) (keys : List ConsentKey) {f : Nat → ConsentProgram β}
    (h : ∀ pruned more, (f pruned).Follows (conduct hash) (Ends Q) (call, more)) :
    (Program.bind (sweepPrefix now keys) f).Follows (conduct hash) (Ends Q) (call, diary) := by
  rw [sweepPrefix, Program.bind_assoc]
  exact follows_scan keys fun rows _ => follows_pruneAll now rows h

end

/-! ### The handlers -/

section
variable {hash : Bytes → String} {diary : Diary} {d : Decision} {sub : Submission}

theorem follows_eligibleApprovers {call : Call} {β : Type} {Q : Call × Diary → β → Prop} (p : PendingTaskConsent)
    {f : List String → ConsentProgram β}
    (h : ∀ members more, diary <:+ more →
      (∀ a ∈ members, p.boundApprover = some a ∨ (p.boundApprover = none ∧ ∃ found : Option (List String),
        (⟨(.get (.approvers p.approverSet) : RowOp ConsentRow), found⟩ : Record consentStore) ∈ more ∧
          a ∈ found.getD [])) →
      (f members).Follows (conduct hash) (Ends Q) (call, more)) :
    (Program.bind (eligibleApprovers p) f).Follows (conduct hash) (Ends Q) (call, diary) := by
  unfold eligibleApprovers
  split
  · rename_i bound hbound
    refine h [bound] diary (List.suffix_refl _) fun a ha => .inl ?_
    rw [hbound, List.mem_singleton.mp ha]
  · rename_i hnone
    rw [approverSetMembers, Program.bind_assoc]
    refine follows_get (.approvers p.approverSet) fun found => ?_
    exact h (found.getD []) _ (List.suffix_cons _ _) fun a ha => .inr ⟨hnone, found, List.mem_cons_self, ha⟩

theorem follows_denyPending {p : PendingTaskConsent} {approver : String} (hdeny : d.decision = .deny)
    (hchecked : Checked d diary approver p) :
    (denyPending p).Follows (conduct hash) (Ends fun l outcome => Done l.1 l.2 (.decided outcome))
      (.decide d, diary) := by
  have hdenies : ∀ more, diary <:+ more → Denies (.decide d) more p := fun more hmore =>
    ⟨hdeny, approver, hchecked.mono hmore⟩
  have hanswer : ∀ removed more, diary <:+ more → (removed = true → Refused more p) →
      (if removed then pure .denied else Program.fail noPending : ConsentProgram Decided).Follows (conduct hash)
        (Ends fun l outcome => Done l.1 l.2 (.decided outcome)) (.decide d, more) := by
    intro removed more _ hrefused
    cases removed with
    | true => exact ⟨p, hrefused rfl⟩
    | false => trivial
  unfold denyPending
  split
  · exact follows_denyBoundPending hdenies hanswer
  · exact follows_removePendingIfPresent (hdenies diary (List.suffix_refl _)) hanswer

theorem follows_approvePending {p : PendingTaskConsent} {approver : String} (happrove : d.decision = .approve)
    (hchecked : Checked d diary approver p) :
    (approvePending d p approver).Follows (conduct hash) (Ends fun l outcome => Done l.1 l.2 (.decided outcome))
      (.decide d, diary) := by
  refine follows_addApproval (fun more hmore => ⟨happrove, p, hchecked.mono hmore, rfl⟩) (fun _ _ => trivial)
    fun updated more _ _ _ _ => ?_
  dsimp only
  split
  · exact follows_grantFromPending trivial (fun _ _ => trivial) fun _ _ _ => trivial
  · trivial

theorem follows_handleDecision (d : Decision) :
    (handleDecision d).Follows (conduct hash) (Ends fun l outcome => Done l.1 l.2 (.decided outcome))
      (.decide d, []) := by
  unfold handleDecision
  split
  · trivial
  rename_i approver hsigner
  rw [pendingByWireDigest, Program.bind_assoc]
  refine follows_get (.wire d.payloadDigest) fun found => ?_
  match found with
  | none => trivial
  | some internal =>
    refine follows_readLivePending internal d.now (fun _ _ => trivial) fun p => ?_
    dsimp only
    split
    · trivial
    rename_i hchallenge
    split
    · trivial
    refine follows_eligibleApprovers p.val fun members more hmore hmembers => ?_
    split
    · trivial
    rename_i hmember
    split
    · trivial
    rename_i hrequester
    split
    · trivial
    have hchecked : Checked d more approver p.val :=
      { signer := hsigner
        found := lookedUp_of_suffix rfl hmore
        challenge := not_not.mp hchallenge
        eligible := hmembers approver (not_not.mp hmember)
        notRequester := fun hexclude heq => hrequester ⟨hexclude, heq⟩ }
    split
    · rename_i hdeny
      exact follows_denyPending hdeny hchecked
    · rename_i happrove
      exact follows_approvePending happrove hchecked

theorem follows_mintPending (require : RequireConsent) (plan : Plan) :
    (mintPending (mintedPending hash sub require plan)).Follows (conduct hash)
      (Ends fun l outcome => Done l.1 l.2 (.gated outcome)) (.submit sub, diary) := by
  rw [mintPending, storePending, Program.bind_assoc]
  exact follows_applyBatch .raise fun _ => trivial

theorem follows_reuseOrMint (require : RequireConsent) (plan : Plan) :
    (reuseOrMint hash sub require plan).Follows (conduct hash) (Ends fun l outcome => Done l.1 l.2 (.gated outcome))
      (.submit sub, diary) := by
  refine follows_readLivePending _ sub.now (fun _ _ => follows_mintPending require plan) fun p => ?_
  dsimp only
  split
  · trivial
  · rw [deletePending, Program.bind_assoc]
    exact follows_applyBatch .retire fun _ => follows_mintPending require plan

theorem follows_consentGate (sub : Submission) :
    (consentGate hash sub).Follows (conduct hash) (Ends fun l outcome => Done l.1 l.2 (.gated outcome))
      (.submit sub, []) := by
  unfold consentGate
  split
  · trivial
  rename_i require _
  rw [approverSetMembers, Program.bind_assoc]
  refine follows_get (.approvers require.approverSet) fun found => ?_
  dsimp only [Program.pure_eq, Program.bind_ok]
  split
  · trivial
  refine follows_consumeGrant ⟨rfl, rfl⟩ (fun more _ => ?_) fun g more _ _ _ _ => ?_
  · dsimp only
    split
    · trivial
    split
    · trivial
    · exact follows_reuseOrMint require _
  · dsimp only [spend]
    split
    · trivial
    split <;> trivial

/-- A store function's answer handed on. -/
theorem follows_answer {α : Type} {call : Call} {p : ConsentProgram α} {answer : α → Answer}
    (h : p.Follows (conduct hash) (Ends fun l a => Done l.1 l.2 (answer a)) (call, [])) :
    (p.bind fun a => pure (answer a)).Follows (conduct hash) (Ends fun l a => Done l.1 l.2 a) (call, []) := by
  refine follows_bind (h.mono fun l r hr => ?_)
  cases r with
  | ok => exact hr
  | error => trivial

/-- **Every call keeps to its conduct, and one that ends well has done what it answers.** -/
theorem follows_program (call : Call) :
    (call.program hash).Follows (conduct hash) (Ends fun l answer => Done l.1 l.2 answer) (call, []) := by
  cases call with
  | storePending =>
    rw [Call.program, storePending, Program.bind_assoc]
    exact follows_applyBatch .store fun _ => trivial
  | storeBoundPending =>
    rw [Call.program, storeBoundPending]
    split
    · trivial
    · exact follows_applyBatch .storeBound fun _ => trivial
  | getPending digest now => exact follows_readLivePending digest now (fun _ _ => trivial) fun _ => trivial
  | addApproval =>
    exact follows_addApproval (fun _ _ => ⟨rfl, rfl⟩) (fun _ _ => trivial) fun p more _ _ hin hrecorded =>
      ⟨hin, hrecorded⟩
  | grantFromPending => exact follows_grantFromPending rfl (fun _ _ => trivial) fun _ _ hminted => hminted
  | removePendingIfPresent =>
    refine follows_removePendingIfPresent rfl fun removed more _ hrefused => ?_
    cases removed with
    | true => exact hrefused rfl
    | false => trivial
  | denyBoundPending =>
    refine follows_denyBoundPending (fun _ _ => rfl) fun removed more _ hrefused => ?_
    cases removed with
    | true => exact hrefused rfl
    | false => trivial
  | consumeGrant =>
    exact follows_consumeGrant ⟨rfl, rfl⟩ (fun _ _ => trivial) fun g more _ hmem htype hlive =>
      ⟨g, hmem, rfl, htype, hlive⟩
  | getGrant requester digest =>
    rw [Call.program, getGrant, Program.bind_assoc]
    refine follows_get (.grant requester digest) fun found => ?_
    match found with
    | none => trivial
    | some g =>
      dsimp only
      split
      · rename_i hlapsed
        rw [Program.bind_assoc]
        exact follows_applyBatch (.prune hlapsed) fun _ => trivial
      · trivial
  | sweepExpired _ _ _ now =>
    rw [Call.program, sweepExpired, Program.bind_assoc]
    refine follows_sweepPrefix now _ fun requests _ => ?_
    rw [Program.bind_assoc]
    refine follows_sweepPrefix now _ fun bound _ => ?_
    rw [Program.bind_assoc]
    exact follows_sweepPrefix now _ fun granted _ => trivial
  | decide d => exact follows_answer (follows_handleDecision d)
  | submit sub => exact follows_answer (follows_consentGate sub)
  | setApprovers => exact follows_perform (C := conduct hash) .setApprovers fun _ => trivial

end

end TrustInfrastructure.Consent
