import TrustInfrastructure.Consent.Calls

/-!
# A decision and the request it was made for

Decisions and submissions run concurrently. A decision is checked against the request it looked up, but it acts on the
request that is then stored under the same internal digest; the gate may have retired the one and raised another, under
another policy or for another requester, in between. So an approval signed for one request can complete another, and a
denial can remove a request it was not made for (`decisions_cross`).

While a decision is under way, the requests under its digest are the one it looked up, with more approvals or fewer of
them missing, unless the gate stores another (`Quiet` says it does not). So an approval or a denial then finds the
request it was checked against (`matched_of_quiet`), and a grant is only ever minted from a request whose approvers
signed for just that request (`decisions_match`). The invariant (`Proper`) is about the approvals of every stored
request, and one operation keeps it (`proper_step`).
-/

namespace TrustInfrastructure.Consent

open Lib (Program Conduct Record Event Crew Rows RowOp Check Write Bytes run Along)
open ConsentProgram

variable {approver : String} {p : PendingTaskConsent} {d : Decision} {more : List (Write ConsentRow)}

section
variable {ι : Type} [DecidableEq ι] (hash : Bytes → String)

abbrev ConsentEvent (ι : Type) := Event consentStore ι

def calls (s : ConsentState) (task : ι → Call) : Crew consentStore (Call × Diary) ι Refusal Answer :=
  Crew.tasks s (Call.program hash) task

def after (s : ConsentState) (task : ι → Call) (schedule : List ι) :
    Crew consentStore (Call × Diary) ι Refusal Answer :=
  run (Crew.step (conduct hash)) (calls hash s task) schedule

/-- Decisions, submissions, and what else goes on: approver sets are changed, requests are read and swept. -/
def Call.handles : Call → Bool
  | .decide _ => true
  | .submit _ => true
  | .setApprovers _ _ => true
  | .getPending _ _ => true
  | .sweepExpired _ _ _ _ => true
  | _ => false

/-! ### The condition -/

/-- The digest a request is stored under. -/
def stores : RowOp ConsentRow → Option String
  | .batch [] (.put (.pending digest) _ :: _) => some digest
  | _ => none

/-- The request a decision under way has looked up. -/
def deciding (task : ι → Call) (c : Crew consentStore (Call × Diary) ι Refusal Answer) (j : ι) :
    Option PendingTaskConsent :=
  match task j with
  | .decide _ => if (c.threads j).running then lookedUp (Crew.diary j c.history) else none
  | _ => none

/-- No request is stored under a digest while a decision on a request of that digest is under way. -/
def Quiet (task : ι → Call) (c : Crew consentStore (Call × Diary) ι Refusal Answer) (i : ι) : Prop :=
  match c.threads i with
  | .ret _ => True
  | .op o _ => ∀ digest ∈ stores o, ∀ j, ∀ p ∈ deciding task c j, p.digest ≠ digest

instance instDecidableQuiet [Fintype ι] (task : ι → Call) (c : Crew consentStore (Call × Diary) ι Refusal Answer)
    (i : ι) : Decidable (Quiet task c i) :=
  match h : c.threads i with
  | .ret _ => .isTrue (by rw [Quiet, h]; trivial)
  | .op o _ => decidable_of_iff (∀ digest ∈ stores o, ∀ j, ∀ p ∈ deciding task c j, p.digest ≠ digest)
      (by rw [Quiet, h])

def RunsQuiet (s : ConsentState) (task : ι → Call) (schedule : List ι) : Prop :=
  Along (Crew.step (conduct hash)) (Quiet task) (calls hash s task) schedule

instance instDecidableRunsQuiet [Fintype ι] (s : ConsentState) (task : ι → Call) (schedule : List ι) :
    Decidable (RunsQuiet hash s task schedule) :=
  inferInstanceAs (Decidable (Along _ _ _ _))

/-! ### What a decision acts on -/

def actsOn : RowOp ConsentRow → Option String
  | .batch [.unchanged (.pending digest) _] (.put (.pending _) _ :: _) => some digest
  | .batch [.present (.pending digest)] _ => some digest
  | _ => none

def sameRequest (p q : PendingTaskConsent) : Bool :=
  decide (p.challenge = q.challenge) && decide (p.approverSet = q.approverSet) &&
    decide (p.boundApprover = q.boundApprover) && decide (p.excludeRequester = q.excludeRequester) &&
    decide (p.requesterDid = q.requesterDid)

/-- An approval or a denial finds the request it was checked against. -/
def matched (s : ConsentState) (history : List (ConsentEvent ι)) (i : ι) (o : RowOp ConsentRow) : Bool :=
  (actsOn o).all fun digest =>
    match s.row (.pending digest), lookedUp (Crew.diary i history) with
    | some (q : PendingRow digest), some p => sameRequest p q.val
    | _, _ => true

/-! ### The invariant -/

/-- An approver of the request signed an approval that carries its challenge, and was found in its approver set and not
excluded. -/
def Signed (task : ι → Call) (history : List (ConsentEvent ι)) (approver : String) (p : PendingTaskConsent) : Prop :=
  ∃ j d, task j = .decide d ∧ d.signer = .ok approver ∧ d.decision = .approve ∧ d.challenge = p.challenge ∧
    (∃ members : Option (List String),
      (⟨j, .get (.approvers p.approverSet), members⟩ : ConsentEvent ι) ∈ history ∧ approver ∈ members.getD []) ∧
    (p.excludeRequester = true → approver ≠ p.requesterDid)

/-- Every approval on a stored request was signed for it; every grant was minted from a request whose approvals
were. -/
structure Proper (task : ι → Call) (s : ConsentState) (history : List (ConsentEvent ι)) : Prop where
  requests : ∀ digest, ∀ p : PendingRow digest, s.row (.pending digest) = some p →
    p.val.boundApprover = none ∧ ∀ a ∈ p.val.approvals, Signed task history a p.val
  minted : ∀ i p g, (⟨i, mint p g, true⟩ : ConsentEvent ι) ∈ history → ∀ a ∈ g.approvers, Signed task history a p
  grants : ∀ requester digest, ∀ g : GrantRow requester digest, s.row (.grant requester digest) = some g →
    ∃ i p, (⟨i, mint p g.val, true⟩ : ConsentEvent ι) ∈ history

variable {hash} {task : ι → Call} {s s' : ConsentState} {history : List (ConsentEvent ι)} {e : ConsentEvent ι} {i : ι}
  {o : RowOp ConsentRow}

omit [DecidableEq ι] in
theorem Signed.cons (h : Signed task history approver p)
    (e : ConsentEvent ι) : Signed task (e :: history) approver p := by
  obtain ⟨j, d, htask, hsigner, happrove, hchallenge, ⟨members, hmem, hin⟩, hexclude⟩ := h
  exact ⟨j, d, htask, hsigner, happrove, hchallenge, ⟨members, List.mem_cons_of_mem _ hmem, hin⟩, hexclude⟩

omit [DecidableEq ι] in
theorem Proper.cons (h : Proper task s history)
    (hrequests : ∀ digest, ∀ p : PendingRow digest, s'.row (.pending digest) = some p →
      s.row (.pending digest) = some p ∨
        (p.val.boundApprover = none ∧ ∀ a ∈ p.val.approvals, Signed task history a p.val))
    (hminted : ∀ i p g, (⟨i, mint p g, true⟩ : ConsentEvent ι) = e → ∀ a ∈ g.approvers, Signed task history a p)
    (hgrants : ∀ requester digest, ∀ g : GrantRow requester digest, s'.row (.grant requester digest) = some g →
      s.row (.grant requester digest) = some g ∨ ∃ i p, (⟨i, mint p g.val, true⟩ : ConsentEvent ι) = e) :
    Proper task s' (e :: history) where
  requests digest p hp := by
    have hsigned : p.val.boundApprover = none ∧ ∀ a ∈ p.val.approvals, Signed task history a p.val :=
      (hrequests digest p hp).elim (h.requests digest p) id
    exact ⟨hsigned.1, fun a ha => (hsigned.2 a ha).cons e⟩
  minted j p g hmem a ha := by
    rcases List.mem_cons.mp hmem with heq | hmem
    · exact (hminted j p g heq a ha).cons e
    · exact (h.minted j p g hmem a ha).cons e
  grants requester digest g hg := by
    rcases hgrants requester digest g hg with hg | ⟨j, p, heq⟩
    · obtain ⟨j, p, hmem⟩ := h.grants requester digest g hg
      exact ⟨j, p, List.mem_cons_of_mem _ hmem⟩
    · exact ⟨j, p, heq ▸ List.mem_cons_self⟩

omit [DecidableEq ι] in
theorem Proper.ungranted (h : Proper task s history)
    (hnone : ∀ requester digest, ∀ g : GrantRow requester digest, Write.put (.grant requester digest) g ∉ o.puts)
    (hrequests : ∀ digest, ∀ p : PendingRow digest, (RowOp.exec o s).2.row (.pending digest) = some p →
      s.row (.pending digest) = some p ∨
        (p.val.boundApprover = none ∧ ∀ a ∈ p.val.approvals, Signed task history a p.val)) :
    Proper task (RowOp.exec o s).2 (⟨i, o, (RowOp.exec o s).1⟩ :: history) := by
  refine h.cons hrequests (fun j p g heq => ?_) fun requester digest g hg => ?_
  · obtain ⟨-, hop, -⟩ := Event.mk.inj heq
    exact absurd (hop ▸ List.mem_cons_self) (hnone g.requesterDid g.digest ⟨g, rfl, rfl⟩)
  · exact .inl ((RowOp.row_or_put_of_exec hg).resolve_right (hnone requester digest g))

/-- A batch that checks for a request was applied to a store that holds it. -/
theorem row_of_unchanged (h : [unchanged p].all s.holds = true) :
    s.row (.pending p.digest) = some (⟨p, rfl⟩ : PendingRow p.digest) := by
  simpa [unchanged, Rows.holds] using h

def mintOf : RowOp ConsentRow → Option (PendingTaskConsent × TaskConsentGrant)
  | .batch [.unchanged (.pending _) p] (.put (.grant _ _) g :: _) => some (p.val, g.val)
  | _ => none

omit [DecidableEq ι] in
theorem Proper.mint {g : TaskConsentGrant} (h : Proper task s history) (hsupports : supports p g = true) :
    Proper task (RowOp.exec (mint p g) s).2 (⟨i, Consent.mint p g, (RowOp.exec (Consent.mint p g) s).1⟩ ::
      history) := by
  have happrovers : ∀ a ∈ g.approvers, a ∈ p.approvals := by
    simp only [supports, Bool.and_eq_true, List.all_eq_true, decide_eq_true_eq] at hsupports
    exact hsupports.1.2
  have hputs : ∀ digest, ∀ q : PendingRow digest, Write.put (.pending digest) q ∉ (Consent.mint p g).puts := by
    intro digest q hq
    simp [Consent.mint, RowOp.puts, mintWrites, putGrant, retire] at hq
  refine h.cons (fun digest q hq => .inl ((RowOp.row_or_put_of_exec hq).resolve_right (hputs digest q)))
    (fun j q g' heq => ?_) fun requester digest g' hg' => ?_
  · obtain ⟨-, hop, hreply⟩ := Event.mk.inj heq
    obtain ⟨rfl, rfl⟩ := Prod.mk.inj (Option.some.inj (congrArg mintOf hop))
    rcases RowOp.exec_batch_cases [unchanged q] (mintWrites q g') s with ⟨hholds, -⟩ | hexec
    · exact fun a ha => (h.requests _ _ (row_of_unchanged hholds)).2 a (happrovers a ha)
    · rw [show RowOp.exec (Consent.mint q g') s = _ from hexec] at hreply
      cases hreply
  · rcases RowOp.exec_batch_cases [unchanged p] (mintWrites p g) s with ⟨-, hexec⟩ | hexec
    · rw [show RowOp.exec (Consent.mint p g) s = _ from hexec] at hg' ⊢
      rcases s.row_or_put_of_foldl_apply _ hg' with hrow | hput
      · exact .inl hrow
      · have hsame : g'.val = g := by
          simp only [mintWrites, putGrant, retire, List.mem_cons, reduceCtorEq, List.not_mem_nil, or_false] at hput
          cases hput
          rfl
        exact .inr ⟨i, p, by rw [hsame]⟩
    · rw [show RowOp.exec (Consent.mint p g) s = _ from hexec] at hg'
      exact .inl hg'

theorem Checked.signed {q : PendingTaskConsent} (htask : task i = .decide d)
    (hchecked : Checked d (Crew.diary i history) approver p) (happrove : d.decision = .approve)
    (hsame : sameRequest p q = true) (hbound : q.boundApprover = none) : Signed task history approver q := by
  simp only [sameRequest, Bool.and_eq_true, decide_eq_true_eq] at hsame
  obtain ⟨⟨⟨⟨hchallenge, hset⟩, hboundSame⟩, hexclude⟩, hrequester⟩ := hsame
  rcases hchecked.eligible with happrover | ⟨-, members, hmem, hin⟩
  · rw [hboundSame, hbound] at happrover
    cases happrover
  · refine ⟨i, d, htask, hchecked.signer, happrove, hchecked.challenge.trans hchallenge,
      ⟨members, hset ▸ Crew.mem_diary.mp hmem, hin⟩, fun hq => ?_⟩
    rw [← hrequester]
    exact hchecked.notRequester (hexclude.trans hq)

theorem Proper.record (hnot : approver ∉ p.approvals) (h : Proper task s history) (hcalls : (task i).handles = true)
    (happroves : Approves (task i) (Crew.diary i history) p.digest approver)
    (hmatched : matched s history i (record p approver hnot) = true) :
    Proper task (RowOp.exec (record p approver hnot) s).2
      (⟨i, Consent.record p approver hnot, (RowOp.exec (Consent.record p approver hnot) s).1⟩ :: history) := by
  refine h.ungranted (fun requester digest g hg => ?_) fun digest q hq => ?_
  · simp [Consent.record, RowOp.puts, putPending] at hg
  rcases RowOp.exec_batch_cases [unchanged p] [putPending (p.approved approver hnot)] s with ⟨hholds, hexec⟩ | hexec
  · rw [show RowOp.exec (Consent.record p approver hnot) s = _ from hexec] at hq
    rcases s.row_or_put_of_foldl_apply _ hq with hrow | hput
    · exact .inl hrow
    have hrow := row_of_unchanged hholds
    obtain ⟨hbound, hsigned⟩ := h.requests p.digest ⟨p, rfl⟩ hrow
    -- The request is one a decision was checked against, so the new approver signed for it too.
    have hnew : Signed task history approver p := by
      unfold Approves at happroves
      split at happroves
      · rename_i htask
        rw [htask] at hcalls
        cases hcalls
      · rename_i d htask
        obtain ⟨happrove, looked, hchecked, -⟩ := happroves
        have hsame : sameRequest looked p = true := by
          have hfound : lookedUp (Crew.diary i history) = some looked := hchecked.found
          simpa [matched, actsOn, Consent.record, unchanged, putPending, hrow, hfound] using hmatched
        exact hchecked.signed htask happrove hsame hbound
      · exact happroves.elim
    have heq : q.val = p.approved approver hnot := by
      rw [List.mem_singleton, putPending] at hput
      cases hput
      rfl
    refine .inr ⟨by rw [heq]; exact hbound, fun a ha => ?_⟩
    rw [heq] at ha ⊢
    rcases List.mem_append.mp ha with ha | ha
    · exact hsigned a ha
    · rw [List.mem_singleton.mp ha]
      exact hnew
  · rw [show RowOp.exec (Consent.record p approver hnot) s = _ from hexec] at hq
    exact .inl hq

/-- A request is written by an approval of it, or by the gate that raises it. -/
theorem Permits.put_pending {call : Call} {diary : Diary} {digest : String} {q : PendingRow digest}
    (h : Permits hash call diary o) (hcalls : call.handles = true) (hput : Write.put (.pending digest) q ∈ o.puts) :
    (∃ p approver, ∃ hnot : approver ∉ p.approvals, o = Consent.record p approver hnot ∧ p.digest = digest ∧
      q.val = p.approved approver hnot) ∨
    ∃ p, o = Consent.raise p ∧ p.digest = digest ∧ q.val = p ∧ p.boundApprover = none ∧ p.approvals = [] := by
  cases h with
  | read | consume => cases hput
  | @prune _ _ _ k => cases k <;> simp [RowOp.puts, removal, Consent.retire] at hput
  | store | storeBound => cases hcalls
  | @approve _ _ p approver hnot =>
    rw [Consent.record, RowOp.puts, List.mem_singleton, putPending] at hput
    cases hput
    exact .inl ⟨p, approver, hnot, rfl, rfl, rfl⟩
  | mint => simp [Consent.mint, RowOp.puts, mintWrites, putGrant, Consent.retire] at hput
  | remove | denyBound => simp [refuse, RowOp.puts, Consent.retire, putMark] at hput
  | retire => simp [RowOp.puts, Consent.retire] at hput
  | @raise sub _ require plan =>
    simp only [Consent.raise, RowOp.puts, putPending, putWire, List.mem_cons, List.not_mem_nil, or_false] at hput
    rcases hput with hput | hput <;> cases hput
    exact .inr ⟨_, rfl, rfl, rfl, rfl, rfl⟩
  | setApprovers => simp [RowOp.puts] at hput

theorem Permits.put_grant {call : Call} {diary : Diary} {requester digest : String} {g : GrantRow requester digest}
    (h : Permits hash call diary o) (hput : Write.put (.grant requester digest) g ∈ o.puts) :
    ∃ p grant, o = Consent.mint p grant := by
  cases h with
  | read | consume => cases hput
  | @prune _ _ _ k => cases k <;> simp [RowOp.puts, removal, Consent.retire] at hput
  | store | raise => simp [Consent.raise, RowOp.puts, putPending, putWire] at hput
  | storeBound => simp [raiseBound, RowOp.puts, putMark, putPending, putWire] at hput
  | approve => simp [Consent.record, RowOp.puts, putPending] at hput
  | @mint _ _ p grant => exact ⟨p, grant, rfl⟩
  | remove | denyBound => simp [refuse, RowOp.puts, Consent.retire, putMark] at hput
  | retire => simp [RowOp.puts, Consent.retire] at hput
  | setApprovers => simp [RowOp.puts] at hput

/-- **One operation** of matched decisions and submissions keeps the invariant. -/
theorem proper_step (hcalls : (task i).handles = true) (h : Proper task s history)
    (hpermits : Permits hash (task i) (Crew.diary i history) o) (hmatched : matched s history i o = true) :
    Proper task (consentStore.exec o s).2 (⟨i, o, (consentStore.exec o s).1⟩ :: history) := by
  have hpending {digest : String} {q : PendingRow digest} := hpermits.put_pending (q := q) hcalls
  have hgrant {requester digest : String} {g : GrantRow requester digest} := hpermits.put_grant (g := g)
  generalize hcall : task i = call at hcalls hpermits
  generalize hdiary : Crew.diary i history = diary at hpermits
  cases hpermits with
  | approve hnot happroves => exact h.record hnot (hcall ▸ hcalls) (hcall ▸ hdiary ▸ happroves) hmatched
  | mint _ _ hsupports => exact h.mint hsupports
  | _ =>
    refine h.ungranted (fun requester digest g hg => ?_) fun digest q hq =>
      (RowOp.row_or_put_of_exec hq).imp_right fun hput => ?_
    · obtain ⟨p, grant, ho⟩ := hgrant hg
      cases ho
    · rcases hpending hput with ⟨p, approver, hnot, ho, -⟩ | ⟨p, -, -, hq, hbound, happrovals⟩
      · cases ho
      · rw [hq, happrovals]
        exact ⟨hbound, nofun⟩

/-! ### Denials -/

/-- Requests are gone after they were retired, whatever else is written. -/
theorem row_retired (hmore : ∀ w ∈ more, ConsentKey.pending p.digest ≠ w.key) (s : ConsentState) :
    ((retire p ++ more).foldl Rows.apply s).row (.pending p.digest) = none := by
  rw [List.foldl_append, Rows.row_foldl_apply_of_notMem more _ hmore]
  simp only [retire, List.foldl_cons, List.foldl_nil, Rows.apply]
  rw [Rows.row_set_of_ne _ (by simp), Rows.row_set_self]

theorem Permits.refuses {diary : Diary} (h : Permits hash (.decide d) diary (refuse p more)) :
    (∃ approver q, Checked d diary approver q ∧ q.digest = p.digest) ∧
      ∀ w ∈ more, ConsentKey.pending p.digest ≠ w.key := by
  generalize ho : refuse p more = o at h
  cases h with
  | read | prune | approve | mint | consume => cases ho
  | @remove _ _ q hdenies =>
    obtain ⟨hchecks, hwrites⟩ := RowOp.batch.inj ho
    have hdigest : p.digest = q.digest := by simpa using hchecks
    have hnil : more = [] := List.length_eq_zero_iff.mp (by simpa [Consent.retire] using congrArg List.length hwrites)
    obtain ⟨-, approver, hchecked⟩ := hdenies
    exact ⟨⟨approver, q, hchecked, hdigest.symm⟩, fun w hw => by rw [hnil] at hw; cases hw⟩
  | @denyBound _ _ q mark hdenies =>
    obtain ⟨hchecks, hwrites⟩ := RowOp.batch.inj ho
    have hdigest : p.digest = q.digest := by simpa using hchecks
    have hmark : more = [putMark mark] := (List.append_inj hwrites rfl).2
    obtain ⟨-, approver, hchecked⟩ := hdenies
    refine ⟨⟨approver, q, hchecked, hdigest.symm⟩, fun w hw => ?_⟩
    rw [hmark, List.mem_singleton] at hw
    rw [hw]
    exact fun heq => by cases heq

/-! ### Matched runs -/

/-- A run in which every approval and every denial finds the request it was checked against. -/
def RunsMatched (hash : Bytes → String) (s : ConsentState) (task : ι → Call) (schedule : List ι) : Prop :=
  Along (Crew.step (conduct hash)) (Crew.Meets fun s _ history i o => matched s history i o = true) (calls hash s task)
    schedule

/-! ### Quiet runs -/

section
variable {c : Crew consentStore (Call × Diary) ι Refusal Answer} {k : consentStore.Reply o → ConsentProgram Answer}

omit [DecidableEq ι] in
theorem row_of_exec {digest : String} {q : PendingRow digest} {call : Call} {diary : Diary}
    (hpermits : Permits hash call diary o) (hcalls : call.handles = true)
    (hrow : (RowOp.exec o s).2.row (.pending digest) = some q) :
    (∃ p : PendingRow digest, s.row (.pending digest) = some p ∧ sameRequest p.val q.val = true) ∨
      stores o = some digest := by
  have hsame (p : PendingTaskConsent) : sameRequest p p = true := by simp [sameRequest]
  rcases RowOp.row_or_put_of_exec hrow with hbefore | hput
  · exact .inl ⟨q, hbefore, hsame q.val⟩
  rcases hpermits.put_pending hcalls hput with ⟨p, approver, hnot, rfl, rfl, hq⟩ | ⟨p, rfl, rfl, -⟩
  · rcases RowOp.exec_batch_cases [unchanged p] [putPending (p.approved approver hnot)] s with ⟨hholds, -⟩ | hexec
    · refine .inl ⟨⟨p, rfl⟩, row_of_unchanged hholds, ?_⟩
      rw [hq]
      exact hsame p
    · rw [show RowOp.exec (record p approver hnot) s = _ from hexec] at hrow
      exact .inl ⟨q, hrow, hsame q.val⟩
  · exact .inr rfl

/-- A request stored under the digest of a decision under way is the one the decision looked up. -/
def Current (task : ι → Call) (c : Crew consentStore (Call × Diary) ι Refusal Answer) : Prop :=
  ∀ j, ∀ p ∈ deciding task c j, ∀ q : PendingRow p.digest, c.store.row (.pending p.digest) = some q →
    sameRequest p q.val = true

theorem deciding_eq_some {j : ι} {p : PendingTaskConsent} : deciding task c j = some p ↔
    (∃ d, task j = .decide d) ∧ (c.threads j).running = true ∧ lookedUp (Crew.diary j c.history) = some p := by
  unfold deciding
  split
  · simp_all
  · simp_all

/-- A decision that is deciding after an operation was so before, or has just looked its request up. -/
theorem deciding_perform {j : ι} {p : PendingTaskConsent} (hthread : c.threads i = .op o k)
    (h : deciding task (c.perform (conduct hash) i o k) j = some p) :
    deciding task c j = some p ∨ ∃ row : PendingRow p.digest, row.val = p ∧
      (RowOp.exec o c.store).2 = c.store ∧ c.store.row (.pending p.digest) = some row := by
  rw [deciding_eq_some] at h ⊢
  obtain ⟨hdecide, hrunning, hlooked⟩ := h
  by_cases hj : j = i
  · subst hj
    rw [Crew.perform, Crew.diary_cons_self] at hlooked
    rcases lookedUp_cons_cases hlooked with hbefore | ⟨row, hrow, hget⟩
    · exact .inl ⟨hdecide, by rw [hthread, Program.running], hbefore⟩
    · obtain ⟨rfl, hreply⟩ := Record.mk.inj hget
      exact .inr ⟨row, hrow, rfl, eq_of_heq hreply⟩
  · left
    rw [Crew.perform, Crew.diary_cons_of_ne (Ne.symm hj)] at hlooked
    simp only [Crew.perform, Function.update_of_ne hj] at hrunning
    exact ⟨hdecide, hrunning, hlooked⟩

theorem current_step (hcalls : ∀ i, (task i).handles = true) (hcurrent : Current task c)
    (hthread : c.threads i = .op o k)
    (hpermits : Permits hash (task i) (Crew.diary i c.history) o) (hquiet : Quiet task c i) :
    Current task (c.perform (conduct hash) i o k) := by
  intro j p hdeciding q hrow
  rcases deciding_perform hthread hdeciding with hbefore | ⟨row, hlooked, hsame, hstored⟩
  · rcases row_of_exec hpermits (hcalls i) hrow with ⟨p', hp', hsame⟩ | hstores
    · have hfirst := hcurrent j p hbefore p' hp'
      simp only [sameRequest, Bool.and_eq_true, decide_eq_true_eq] at hfirst hsame ⊢
      simp [hfirst, hsame]
    · rw [Quiet, hthread] at hquiet
      exact absurd rfl (hquiet p.digest hstores j p hbefore)
  · change (RowOp.exec o c.store).2.row (.pending p.digest) = some q at hrow
    rw [hsame, hstored] at hrow
    obtain rfl := Option.some.inj hrow
    rw [hlooked]
    simp [sameRequest]

omit [DecidableEq ι] in
theorem Permits.acts {call : Call} {diary : Diary} {digest : String} (h : Permits hash call diary o)
    (hcalls : call.handles = true) (hacts : actsOn o = some digest) :
    ∃ d p, call = .decide d ∧ lookedUp diary = some p ∧ p.digest = digest := by
  cases h with
  | approve _ happroves =>
    unfold Approves at happroves
    split at happroves
    · cases hcalls
    · obtain ⟨-, p, hchecked, hdigest⟩ := happroves
      exact ⟨_, p, rfl, hchecked.found, hdigest.trans (Option.some.inj hacts)⟩
    · exact happroves.elim
  | remove hdenies | denyBound hdenies =>
    unfold Denies at hdenies
    split at hdenies
    · cases hcalls
    · cases hcalls
    · obtain ⟨-, approver, hchecked⟩ := hdenies
      exact ⟨_, _, rfl, hchecked.found, Option.some.inj hacts⟩
    · exact hdenies.elim
  | @prune _ _ _ k => cases k <;> cases hacts
  | _ => cases hacts

theorem current_run {schedule : List ι} (hcalls : ∀ i, (task i).handles = true)
    (hquiet : RunsQuiet hash s task schedule) : let c := after hash s task schedule
    Current task c ∧ c.Permitted (Permits hash) task := by
  have hstart : Current task (calls hash s task) := fun j p hdeciding => by
    obtain ⟨-, -, hlooked⟩ := deciding_eq_some.mp hdeciding
    cases hlooked
  obtain ⟨⟨hcurrent, hknow⟩, hfollows⟩ := Crew.tasks_induction (G := Current task) follows_program hstart hquiet
    fun c i o k hcurrent _ hpermitted _ hthread hquiet =>
      current_step hcalls hcurrent hthread (hpermitted i o k hthread) hquiet
  exact ⟨hcurrent, Crew.permitted_of_follow hknow hfollows⟩

/-- In a quiet run every approval and every denial finds the request it was checked against. -/
theorem matched_of_quiet {schedule : List ι} (hcalls : ∀ i, (task i).handles = true)
    (hquiet : RunsQuiet hash s task schedule) : RunsMatched hash s task schedule := by
  refine Lib.along_iff.mpr fun before i later heq => ?_
  rw [heq] at hquiet
  obtain ⟨hcurrent, hpermits⟩ := current_run hcalls ((Lib.along_append before (i :: later)).mp hquiet).1
  change Crew.Meets _ (after hash s task before) i
  generalize after hash s task before = c at *
  rw [Crew.Meets]
  split
  · trivial
  rename_i o k hthread
  unfold matched
  cases hacts : actsOn o with
  | none => rfl
  | some digest =>
    obtain ⟨d, p, hdecide, hlooked, rfl⟩ := (hpermits i o k hthread).acts (hcalls i) hacts
    have hdeciding : deciding task c i = some p :=
      deciding_eq_some.mpr ⟨⟨d, hdecide⟩, by rw [hthread, Program.running], hlooked⟩
    rw [Option.all_some, hlooked]
    cases hrow : c.store.row (.pending p.digest) with
    | none => rfl
    | some q => exact hcurrent i p hdeciding q hrow

end

def NoneStored (s : ConsentState) : Prop :=
  (∀ digest, s.row (.pending digest) = none) ∧ ∀ requester digest, s.row (.grant requester digest) = none

omit [DecidableEq ι] in
theorem proper_start (h : NoneStored s) : Proper task s ([] : List (ConsentEvent ι)) := by
  refine ⟨fun digest p hp => ?_, fun _ _ _ hmem => (nomatch hmem), fun requester digest g hg => ?_⟩
  · rw [h.1 digest] at hp
    cases hp
  · rw [h.2 requester digest] at hg
    cases hg

/-- **A consent decision acts only on the request it was made for**, in every run of decisions and submissions in which
no request is stored under the digest of a decision under way. A grant that is stored was minted from a stored request
`p`, and each approver it names signed an approval with the challenge of `p`, was then found in the approver set of `p`,
and is not the requester if `p` excludes the requester. A denial that reported success removed a request that carries
the challenge of the denial. -/
theorem decisions_match (hash : Bytes → String) (s : ConsentState) (task : ι → Call) (schedule : List ι)
    (hnone : NoneStored s) (hcalls : ∀ i, (task i).handles = true) (hquiet : RunsQuiet hash s task schedule) :
    let c := after hash s task schedule
    (∀ requester digest, ∀ g : GrantRow requester digest, c.store.row (.grant requester digest) = some g →
      ∃ i p, (⟨i, mint p g.val, true⟩ : ConsentEvent ι) ∈ c.history) ∧
    (∀ i p g, (⟨i, mint p g, true⟩ : ConsentEvent ι) ∈ c.history → ∀ a ∈ g.approvers, Signed task c.history a p) ∧
    (∀ i d, task i = .decide d → c.threads i = .ret (.ok (.decided .denied)) →
      ∃ before later digest, ∃ p : PendingRow digest, schedule = before ++ i :: later ∧
        (after hash s task before).store.row (.pending digest) = some p ∧
        (after hash s task (before ++ [i])).store.row (.pending digest) = none ∧ p.val.challenge = d.challenge) := by
  have hmatched := matched_of_quiet hcalls hquiet
  have hstep : ∀ s history i o, Proper task s history → Permits hash (task i) (Crew.diary i history) o →
      matched s history i o = true →
      Proper task (consentStore.exec o s).2 (⟨i, o, (consentStore.exec o s).1⟩ :: history) :=
    fun _ _ i _ hproper hpermits hmatch => proper_step (hcalls i) hproper hpermits hmatch
  obtain ⟨hproper, hends⟩ := Crew.tasks_invariant follows_program (proper_start hnone) hstep hmatched
  refine ⟨hproper.grants, hproper.minted, fun i d htask hret => ?_⟩
  have hdone := hends i _ hret
  rw [htask] at hdone
  obtain ⟨p, more, hmem⟩ := hdone
  -- The step of the run at which the denial removed a request.
  obtain ⟨before, later, k, hsplit, hthread, hreply⟩ :=
    Crew.exists_step_of_mem_history rfl (Crew.mem_diary.mp hmem)
  dsimp only at hsplit hthread hreply
  have halong : RunsMatched hash s task (before ++ [i]) := by
    rw [hsplit, show before ++ i :: later = (before ++ [i]) ++ later by simp] at hmatched
    exact ((Lib.along_append _ _).mp hmatched).1
  obtain ⟨-, hpermits, hmatch⟩ := Crew.tasks_next follows_program (proper_start hnone) hstep halong hthread
  rcases RowOp.exec_batch_cases [.present (.pending p.digest)] (retire p ++ more) (after hash s task before).store with
    ⟨hholds, hexec⟩ | hexec
  · obtain ⟨q, hq⟩ : ∃ q : PendingRow p.digest, (after hash s task before).store.row (.pending p.digest) = some q := by
      have hsome : ((after hash s task before).store.row (.pending p.digest)).isSome = true := by
        simpa [Rows.holds] using hholds
      exact Option.isSome_iff_exists.mp hsome
    rw [htask] at hpermits
    obtain ⟨⟨approver, looked, hchecked, -⟩, hmore⟩ := hpermits.refuses
    have hsame : sameRequest looked q.val = true := by
      have hfound : lookedUp (Crew.diary i (after hash s task before).history) = some looked := hchecked.found
      change matched (after hash s task before).store (after hash s task before).history i (refuse p more) =
        true at hmatch
      simpa [matched, actsOn, refuse, hq, hfound] using hmatch
    refine ⟨before, later, p.digest, q, hsplit, hq, ?_, ?_⟩
    · have hstore : (after hash s task (before ++ [i])).store =
          (consentStore.exec (refuse p more) (after hash s task before).store).2 := by
        rw [after, Lib.run_concat]
        exact Crew.store_step hthread
      rw [hstore, show consentStore.exec (refuse p more) _ = _ from hexec]
      exact row_retired hmore _
    · simp only [sameRequest, Bool.and_eq_true, decide_eq_true_eq] at hsame
      exact (hchecked.challenge.trans hsame.1.1.1.1).symm
  · change (RowOp.exec (refuse p more) (after hash s task before).store).1 = true at hreply
    rw [show RowOp.exec (refuse p more) _ = _ from hexec] at hreply
    cases hreply

end

/-! ### Decisions that cross a request's re-mint -/

def plainHash (bytes : Bytes) : String := String.ofList (bytes.map fun b => Char.ofNat b.toNat)

def staffed : ConsentState where
  row
    | .approvers "ops" => some ["did:bob"]
    | .approvers "board" => some ["did:carol"]
    | _ => none
  clock := 0

def submission (requester approverSet version challenge : String) : Submission where
  requester := requester
  typeUri := "dids/update"
  payload := "document"
  require := some ⟨approverSet, 1, true⟩
  now := 100
  challenge := challenge
  correlator := "urn:uuid:" ++ challenge
  plan := .ok (some ⟨some ⟨"did:webvh:subject", version⟩, ⟨none⟩, none, true⟩)
  canConfer _ _ := false

def bobDecides (verdict : Verdict) : Decision where
  signer := .ok "did:bob"
  payloadDigest := wireDigest plainHash "dids/update" "document" "one"
  challenge := "one"
  actionId := none
  evidence := none
  decision := verdict
  now := 100
  delegatedContexts := []

def crossingCalls : Fin 4 → Call
  | 0 => .submit (submission "did:alice" "ops" "1" "one")
  | 1 => .decide (bobDecides .approve)
  | 2 => .submit (submission "did:mallory" "board" "2" "two")
  | _ => .decide (bobDecides .deny)

/-- Alice's request is raised, a decision is checked against it, and Mallory's replaces it. -/
def reminted (i : Fin 4) : List (Fin 4) := [0, 0, 0, 0] ++ [i, i, i] ++ [2, 2, 2, 2, 2]

def sharedDigest : String := payloadDigest plainHash "dids/update" "document"

theorem decisions_cross :
    (((after plainHash staffed crossingCalls (reminted 1)).store.row (.pending sharedDigest)).map fun
        p : PendingRow sharedDigest => (p.val.requesterDid, p.val.approverSet, p.val.challenge)) =
        some ("did:mallory", "board", "two") ∧
      ((after plainHash staffed crossingCalls (reminted 1 ++ [1, 1, 1, 1])).store.row
        (.grant "did:mallory" sharedDigest)).map (fun g : GrantRow _ _ => g.val.approvers) = some ["did:bob"] ∧
      (((after plainHash staffed crossingCalls (reminted 3)).store.row (.pending sharedDigest)).map fun
        p : PendingRow sharedDigest => p.val.challenge) = some "two" ∧
      (match (after plainHash staffed crossingCalls (reminted 3 ++ [3])).threads 3 with
        | .ret (.ok (.decided .denied)) => true
        | _ => false) = true ∧
      (after plainHash staffed crossingCalls (reminted 3 ++ [3])).store.row (.pending sharedDigest) = none := by
  decide +kernel

/-- Alice's request is approved by Bob and granted; Mallory's is raised after that, and Bob's denial comes too late. -/
theorem decisions_match_approved :
    let c := after plainHash staffed crossingCalls [0, 0, 0, 0, 1, 1, 1, 1, 1, 1, 1, 2, 2, 2, 2, 3, 3]
    ((c.store.row (.pending sharedDigest)).map fun p : PendingRow sharedDigest => p.val.challenge) = some "two" ∧
      ∃ p : PendingTaskConsent, p.challenge = "one" ∧ Signed crossingCalls c.history "did:bob" p := by
  intro c
  have hgrant : ((c.store.row (.grant "did:alice" sharedDigest)).map fun g : GrantRow _ _ => g.val.approvers) =
      some ["did:bob"] := by
    decide +kernel
  obtain ⟨g, hg, happrovers⟩ := Option.map_eq_some_iff.mp hgrant
  obtain ⟨hgrants, hminted, -⟩ := decisions_match plainHash staffed crossingCalls
    [0, 0, 0, 0, 1, 1, 1, 1, 1, 1, 1, 2, 2, 2, 2, 3, 3] ⟨fun _ => rfl, fun _ _ => rfl⟩ (by decide) (by decide +kernel)
  obtain ⟨i, p, hmem⟩ := hgrants _ _ g hg
  have hsigned := hminted i p g.val hmem "did:bob" (by rw [happrovers]; exact List.mem_cons_self)
  refine ⟨by decide +kernel, p, ?_, hsigned⟩
  obtain ⟨j, d, htask, -, -, hchallenge, -⟩ := hsigned
  fin_cases j <;> cases htask <;> exact hchallenge.symm

end TrustInfrastructure.Consent
