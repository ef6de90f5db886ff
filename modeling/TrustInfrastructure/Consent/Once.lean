import TrustInfrastructure.Consent.Decisions

/-!
# A request ends once, and its grant is spent once

Approvals, grants, denials, reads and sweeps of one store run concurrently, and each request is raised once. Every
batch that ends a request requires that it is still there, so it ends once: by a grant, by a denial or by lapsing. A
grant is minted only by a batch that ends its request, and is handed out by an atomic take.

The invariants count events: `Ended` says that a request that is there has not been closed and was opened, and that who
was recorded on it stays on it; `Kept` says that a grant was taken, or is there, at most as often as it was minted.
-/

namespace TrustInfrastructure.Consent

open Lib (Program Conduct Record Event Crew Rows RowOp Check Write Bytes run Along)
open ConsentProgram

variable {checks : List (Check ConsentRow)} {writes : List (Write ConsentRow)} {digest requester : String}
  {p : PendingTaskConsent}

/-! ### What an event does to a request and to a grant -/

section
variable {ι : Type}

/-- The digest a request is raised under. -/
def opensOn : RowOp ConsentRow → Option String
  | .batch [] (.put (.pending digest) _ :: _) => some digest
  | .batch [.absent _, .absent _] (_ :: .put (.pending digest) _ :: _) => some digest
  | _ => none

/-- The digest of the request that is ended: it lapses, its grant is minted, or it is denied. -/
def closesOn : RowOp ConsentRow → Option String
  | .batch [.unchanged (.pending digest) _] (.delete _ :: _) => some digest
  | .batch [.unchanged (.pending digest) _] (.put (.grant _ _) _ :: _) => some digest
  | .batch [.present (.pending digest)] _ => some digest
  | _ => none

def mintsFor : RowOp ConsentRow → Option (String × String)
  | .batch _ (.put (.grant requester digest) _ :: _) => some (requester, digest)
  | _ => none

def applied : ConsentEvent ι → Bool
  | ⟨_, .batch _ _, done⟩ => (show Bool from done)
  | _ => false

def opened (digest : String) (e : ConsentEvent ι) : Bool := applied e && decide (opensOn e.op = some digest)

def closed (digest : String) (e : ConsentEvent ι) : Bool := applied e && decide (closesOn e.op = some digest)

def granted (requester digest : String) (e : ConsentEvent ι) : Bool :=
  applied e && decide (mintsFor e.op = some (requester, digest))

def spent (requester digest : String) : ConsentEvent ι → Bool
  | ⟨_, .take (.grant r d), found⟩ => decide (r = requester ∧ d = digest) &&
      (show Option (GrantRow r d) from found).isSome
  | _ => false

def Shows (digest approver : String) (e : ConsentEvent ι) : Prop :=
  (∃ i, ∃ p : PendingRow digest, e = ⟨i, .get (.pending digest), some p⟩ ∧ approver ∈ p.val.approvals) ∨
    ∃ i p, ∃ h : approver ∉ p.approvals, p.digest = digest ∧ e = ⟨i, record p approver h, true⟩

/-! ### The invariants -/

structure Ended (s : ConsentState) (history : List (ConsentEvent ι)) : Prop where
  once : ∀ digest, history.countP (closed digest) ≤ 1
  there : ∀ digest, ∀ p : PendingRow digest, s.row (.pending digest) = some p →
    history.countP (closed digest) = 0 ∧ history.countP (opened digest) ≠ 0
  wasOpen : ∀ digest, history.countP (opened digest) = 0 → history.countP (closed digest) = 0
  recorded : ∀ e ∈ history, ∀ digest approver, Shows digest approver e → history.countP (opened digest) ≠ 0 ∧
    ∀ p : PendingRow digest, s.row (.pending digest) = some p → approver ∈ p.val.approvals

def grantsThere (s : ConsentState) (requester digest : String) : Nat := (s.row (.grant requester digest)).isSome.toNat

structure Kept (s : ConsentState) (history : List (ConsentEvent ι)) : Prop where
  counted : ∀ requester digest, history.countP (spent requester digest) + grantsThere s requester digest ≤
    history.countP (granted requester digest)
  stored : ∀ requester digest, ∀ g : GrantRow requester digest, s.row (.grant requester digest) = some g →
    ∃ i p, (⟨i, mint p g.val, true⟩ : ConsentEvent ι) ∈ history
  taken : ∀ i requester digest, ∀ g : GrantRow requester digest,
    (⟨i, .take (.grant requester digest), some g⟩ : ConsentEvent ι) ∈ history →
    ∃ j p, (⟨j, mint p g.val, true⟩ : ConsentEvent ι) ∈ history
  closes : ∀ e ∈ history, ∀ requester digest, granted requester digest e = true → closed digest e = true

variable {s s' : ConsentState} {history : List (ConsentEvent ι)} {e : ConsentEvent ι} {i : ι} {o : RowOp ConsentRow}

/-- One more event keeps `Ended`: it closes only a request that is there and then is gone, opens one that was never
opened, and otherwise keeps what is recorded. -/
theorem Ended.cons (h : Ended s history)
    (hclosed : ∀ digest, closed digest e = true →
      (∃ p : PendingRow digest, s.row (.pending digest) = some p) ∧ s'.row (.pending digest) = none)
    (hopened : ∀ digest, opened digest e = true → history.countP (opened digest) = 0)
    (hrows : ∀ digest, ∀ p : PendingRow digest, s'.row (.pending digest) = some p → opened digest e = true ∨
      ∃ q : PendingRow digest, s.row (.pending digest) = some q ∧ q.val.approvals ⊆ p.val.approvals)
    (hshows : ∀ digest approver, Shows digest approver e → (∃ p : PendingRow digest, s.row (.pending digest) = some p) ∧
      ∀ p : PendingRow digest, s'.row (.pending digest) = some p → approver ∈ p.val.approvals) :
    Ended s' (e :: history) where
  once digest := by
    rw [List.countP_cons]
    split
    · rename_i hclose
      obtain ⟨⟨p, hp⟩, -⟩ := hclosed digest hclose
      rw [(h.there digest p hp).1]
    · exact h.once digest
  there digest p hp := by
    have hnot : closed digest e = false := by
      cases hclose : closed digest e with
      | false => rfl
      | true =>
        rw [(hclosed digest hclose).2] at hp
        cases hp
    rw [List.countP_cons, List.countP_cons, hnot]
    rcases hrows digest p hp with hopen | ⟨q, hq, -⟩
    · rw [h.wasOpen digest (hopened digest hopen), hopen]
      simp
    · obtain ⟨hzero, hone⟩ := h.there digest q hq
      exact ⟨by simp [hzero], by omega⟩
  wasOpen digest hzero := by
    rw [List.countP_cons] at hzero
    rw [List.countP_cons, h.wasOpen digest (by omega)]
    split
    · rename_i hclose
      obtain ⟨⟨p, hp⟩, -⟩ := hclosed digest hclose
      exact absurd (show history.countP (opened digest) = 0 by omega) (h.there digest p hp).2
    · rfl
  recorded e' he' digest approver hshow := by
    rw [List.countP_cons]
    rcases List.mem_cons.mp he' with rfl | he'
    · obtain ⟨⟨p, hp⟩, hin⟩ := hshows digest approver hshow
      have hone := (h.there digest p hp).2
      exact ⟨by omega, hin⟩
    · obtain ⟨hone, hin⟩ := h.recorded e' he' digest approver hshow
      refine ⟨by omega, fun p hp => ?_⟩
      rcases hrows digest p hp with hopen | ⟨q, hq, hsub⟩
      · exact absurd (hopened digest hopen) hone
      · exact hsub (hin q hq)

theorem Kept.cons (h : Kept s history)
    (hcounted : ∀ requester digest, (spent requester digest e).toNat + grantsThere s' requester digest ≤
      (granted requester digest e).toNat + grantsThere s requester digest)
    (hstored : ∀ requester digest, ∀ g : GrantRow requester digest, s'.row (.grant requester digest) = some g →
      s.row (.grant requester digest) = some g ∨ ∃ i p, (⟨i, mint p g.val, true⟩ : ConsentEvent ι) = e)
    (htaken : ∀ i requester digest, ∀ g : GrantRow requester digest,
      (⟨i, .take (.grant requester digest), some g⟩ : ConsentEvent ι) = e → s.row (.grant requester digest) = some g)
    (hcloses : ∀ requester digest, granted requester digest e = true → closed digest e = true) :
    Kept s' (e :: history) where
  counted requester digest := by
    have hbefore := h.counted requester digest
    have hnow := hcounted requester digest
    rw [List.countP_cons, List.countP_cons]
    cases hspent : spent requester digest e <;> cases hgranted : granted requester digest e <;>
      simp only [hspent, hgranted, Bool.toNat_true, Bool.toNat_false, if_true, Bool.false_eq_true,
        if_false] at hnow ⊢ <;>
      omega
  stored requester digest g hg := by
    rcases hstored requester digest g hg with hg | ⟨j, p, heq⟩
    · obtain ⟨j, p, hmem⟩ := h.stored requester digest g hg
      exact ⟨j, p, List.mem_cons_of_mem _ hmem⟩
    · exact ⟨j, p, heq ▸ List.mem_cons_self⟩
  taken j requester digest g hmem := by
    have hmint : ∃ k p, (⟨k, mint p g.val, true⟩ : ConsentEvent ι) ∈ history := by
      rcases List.mem_cons.mp hmem with heq | hmem
      · exact h.stored requester digest g (htaken j requester digest g heq)
      · exact h.taken j requester digest g hmem
    obtain ⟨k, p, hk⟩ := hmint
    exact ⟨k, p, List.mem_cons_of_mem _ hk⟩
  closes e' he' := by
    rcases List.mem_cons.mp he' with rfl | he'
    · exact hcloses
    · exact h.closes e' he'

/-- An event that neither ends nor raises a request, nor shows who is recorded on one. -/
theorem Ended.frame (h : Ended s history) (hclosed : ∀ digest, closed digest e = false)
    (hopened : ∀ digest, opened digest e = false) (hshows : ∀ digest approver, ¬ Shows digest approver e)
    (hrows : ∀ digest, ∀ p : PendingRow digest, s'.row (.pending digest) = some p → s.row (.pending digest) = some p) :
    Ended s' (e :: history) := by
  refine h.cons (fun digest hclose => ?_) (fun digest hopen => ?_)
    (fun digest p hp => .inr ⟨p, hrows digest p hp, fun _ ha => ha⟩) fun digest approver hshow =>
      absurd hshow (hshows digest approver)
  · rw [hclosed digest] at hclose
    cases hclose
  · rw [hopened digest] at hopen
    cases hopen

theorem not_shows_refused (checks : List (Check ConsentRow)) (writes : List (Write ConsentRow))
    (digest approver : String) :
    ¬ Shows digest approver (⟨i, .batch checks writes, false⟩ : ConsentEvent ι) := by
  rintro (⟨j, p, heq, -⟩ | ⟨j, p, hnot, -, heq⟩)
  · cases heq
  · exact Bool.false_ne_true (congrArg applied heq)

theorem Ended.refused (h : Ended s history) (checks : List (Check ConsentRow)) (writes : List (Write ConsentRow)) :
    Ended s ((⟨i, .batch checks writes, false⟩ : ConsentEvent ι) :: history) :=
  h.frame (fun _ => rfl) (fun _ => rfl) (not_shows_refused checks writes) fun _ _ hp => hp

theorem Kept.refused (h : Kept s history) (checks : List (Check ConsentRow)) (writes : List (Write ConsentRow)) :
    Kept s ((⟨i, .batch checks writes, false⟩ : ConsentEvent ι) :: history) :=
  h.cons (fun _ _ => by simp [spent, granted, applied]) (fun _ _ _ hg => .inl hg) (fun _ _ _ _ heq => by cases heq)
    fun _ _ hgranted => by cases hgranted

/-- An operation that writes no grant. -/
theorem Kept.quiet (h : Kept s history)
    (hkeys : ∀ requester digest, ConsentKey.grant requester digest ∉ RowOp.wrote o (RowOp.exec o s).1) :
    Kept (RowOp.exec o s).2 ((⟨i, o, (RowOp.exec o s).1⟩ : ConsentEvent ι) :: history) := by
  have hrow : ∀ requester digest, (RowOp.exec o s).2.row (.grant requester digest) = s.row (.grant requester digest) :=
    fun requester digest => RowOp.row_exec_of_notMem_wrote o s (hkeys requester digest)
  refine h.cons (fun requester digest => ?_) (fun requester digest g hg => .inl (hrow requester digest ▸ hg))
    (fun j requester digest g heq => ?_) fun requester digest hgranted => ?_
  · have hspent : spent requester digest (⟨i, o, (RowOp.exec o s).1⟩ : ConsentEvent ι) = false := by
      unfold spent
      split
      · rename_i r d found heq
        obtain ⟨-, rfl, -⟩ := Event.mk.inj heq
        exact absurd (List.mem_singleton_self _) (hkeys r d)
      · rfl
    rw [hspent, grantsThere, grantsThere, hrow]
    simp
  · obtain ⟨-, rfl, -⟩ := Event.mk.inj heq
    exact absurd (List.mem_singleton_self _) (hkeys requester digest)
  · simp only [granted, Bool.and_eq_true, decide_eq_true_eq] at hgranted
    obtain ⟨happlied, hmints⟩ := hgranted
    unfold mintsFor at hmints
    split at hmints
    · rename_i checks r d g rest
      cases hmints
      have htrue : (RowOp.exec (.batch checks (.put (.grant requester digest) g :: rest)) s).1 = true := happlied
      refine absurd ?_ (hkeys requester digest)
      rw [htrue]
      exact List.mem_cons_self
    · cases hmints

theorem Ended.close (h : Ended s history) (hcloses : closesOn (.batch checks writes) = some digest)
    (hopens : opensOn (.batch checks writes) = none)
    (hthere : ∃ p : PendingRow digest, s.row (.pending digest) = some p)
    (hgone : (writes.foldl Rows.apply s).row (.pending digest) = none)
    (hputs : ∀ d, ∀ p : PendingRow d, Write.put (.pending d) p ∉ writes) :
    Ended (writes.foldl Rows.apply s) ((⟨i, .batch checks writes, true⟩ : ConsentEvent ι) :: history) := by
  refine h.cons (fun d hclose => ?_) (fun d hopen => ?_) (fun d p hp => ?_) fun d approver hshow => ?_
  · have heq : some digest = some d := by
      rw [← hcloses]
      simpa [closed, applied] using hclose
    cases heq
    exact ⟨hthere, hgone⟩
  · simp [opened, applied, hopens] at hopen
  · exact .inr ⟨p, (s.row_or_put_of_foldl_apply writes hp).resolve_right (hputs d p), fun _ ha => ha⟩
  · rcases hshow with ⟨j, p, heq, -⟩ | ⟨j, p, hnot, -, heq⟩
    · cases heq
    · obtain ⟨-, hop, -⟩ := Event.mk.inj heq
      rw [hop] at hcloses
      cases hcloses

theorem Ended.open (h : Ended s history) (digest : String) (hopens : opensOn (.batch checks writes) = some digest)
    (hcloses : closesOn (.batch checks writes) = none) (hfirst : history.countP (opened digest) = 0)
    (hputs : ∀ d, ∀ p : PendingRow d, Write.put (.pending d) p ∈ writes → d = digest) :
    Ended (writes.foldl Rows.apply s) ((⟨i, .batch checks writes, true⟩ : ConsentEvent ι) :: history) := by
  have hopened : ∀ d, opened d (⟨i, .batch checks writes, true⟩ : ConsentEvent ι) = decide (digest = d) := by
    intro d
    simp [opened, applied, hopens]
  refine h.cons (fun d hclose => ?_) (fun d hopen => ?_) (fun d p hp => ?_) fun d approver hshow => ?_
  · simp [closed, applied, hcloses] at hclose
  · rw [hopened d] at hopen
    rw [← of_decide_eq_true hopen]
    exact hfirst
  · rcases s.row_or_put_of_foldl_apply writes hp with hrow | hput
    · exact .inr ⟨p, hrow, fun _ ha => ha⟩
    · exact .inl ((hopened d).trans (decide_eq_true (hputs d p hput).symm))
  · rcases hshow with ⟨j, p, heq, -⟩ | ⟨j, p, hnot, -, heq⟩
    · cases heq
    · obtain ⟨-, hop, -⟩ := Event.mk.inj heq
      rw [hop] at hopens
      cases hopens

def recordOf : RowOp ConsentRow → Option (PendingTaskConsent × List String)
  | .batch [.unchanged (.pending _) p] [.put (.pending _) q] => some (p.val, q.val.approvals)
  | _ => none

theorem Ended.record {approver : String} (hnot : approver ∉ p.approvals) (h : Ended s history)
    (hrow : s.row (.pending p.digest) = some (⟨p, rfl⟩ : PendingRow p.digest)) :
    Ended ([putPending (p.approved approver hnot)].foldl Rows.apply s)
      ((⟨i, Consent.record p approver hnot, true⟩ : ConsentEvent ι) :: history) := by
  have hafter : ∀ digest, ∀ q : PendingRow digest,
      ([putPending (p.approved approver hnot)].foldl Rows.apply s).row (.pending digest) = some q →
      (s.row (.pending digest) = some q ∧ digest ≠ p.digest) ∨
        (q.val = p.approved approver hnot ∧ p.digest = digest) := by
    intro digest q hq
    by_cases hdigest : digest = p.digest
    · subst hdigest
      rw [show ([putPending (p.approved approver hnot)].foldl Rows.apply s).row (.pending p.digest) =
        some (⟨p.approved approver hnot, rfl⟩ : PendingRow p.digest) from s.row_set_self _ _] at hq
      cases hq
      exact .inr ⟨rfl, rfl⟩
    · have hne : ConsentKey.pending digest ≠ ConsentKey.pending p.digest :=
        fun heq => hdigest (ConsentKey.pending.inj heq)
      rw [show ([putPending (p.approved approver hnot)].foldl Rows.apply s).row (.pending digest) =
          s.row (.pending digest)
        from s.row_set_of_ne hne _] at hq
      exact .inl ⟨hq, hdigest⟩
  refine h.cons (fun digest hclose => by cases hclose) (fun digest hopen => by cases hopen)
    (fun digest q hq => .inr ?_) fun digest approver' hshow => ?_
  · rcases hafter digest q hq with ⟨hq, -⟩ | ⟨heq, rfl⟩
    · exact ⟨q, hq, fun _ ha => ha⟩
    · exact ⟨⟨p, rfl⟩, hrow, fun a ha => heq ▸ List.mem_append_left _ ha⟩
  · rcases hshow with ⟨j, q, heq, -⟩ | ⟨j, q, hnot', rfl, heq⟩
    · cases heq
    · obtain ⟨-, hop, -⟩ := Event.mk.inj heq
      obtain ⟨rfl, happrovals⟩ := Prod.mk.inj (Option.some.inj (congrArg recordOf hop))
      refine ⟨⟨⟨p, rfl⟩, hrow⟩, fun q hq => ?_⟩
      rcases hafter _ q hq with ⟨-, hne⟩ | ⟨heq, -⟩
      · exact absurd rfl hne
      · rw [heq, happrovals]
        exact List.mem_append_right _ (List.mem_singleton_self approver')

/-! ### One operation -/

def Call.onStore : Call → Bool
  | .decide _ => false
  | .submit _ => false
  | .setApprovers _ _ => false
  | _ => true

def firstRaised (s : ConsentState) (history : List (ConsentEvent ι)) (i : ι) (o : RowOp ConsentRow) : Bool :=
  (opensOn o).all fun digest =>
    !opened digest (⟨i, o, (RowOp.exec o s).1⟩ : ConsentEvent ι) || decide (history.countP (opened digest) = 0)

/-- A batch is applied or refused; refused, it keeps every count. -/
theorem once_batch (hended : Ended s history) (hkept : Kept s history) (happlied : checks.all s.holds = true →
      Ended (writes.foldl Rows.apply s) ((⟨i, .batch checks writes, true⟩ : ConsentEvent ι) :: history) ∧
      Kept (writes.foldl Rows.apply s) ((⟨i, .batch checks writes, true⟩ : ConsentEvent ι) :: history)) :
    Ended (RowOp.exec (.batch checks writes) s).2
        ((⟨i, .batch checks writes, (RowOp.exec (.batch checks writes) s).1⟩ : ConsentEvent ι) :: history) ∧
      Kept (RowOp.exec (.batch checks writes) s).2
        ((⟨i, .batch checks writes, (RowOp.exec (.batch checks writes) s).1⟩ : ConsentEvent ι) :: history) := by
  rcases RowOp.exec_batch_cases checks writes s with ⟨hholds, hexec⟩ | hexec
  · rw [hexec]
    exact happlied hholds
  · rw [hexec]
    exact ⟨hended.refused checks writes, hkept.refused checks writes⟩

/-- As `Kept.quiet`, for a batch that is applied. -/
theorem Kept.applied (h : Kept s history)
    (hholds : checks.all s.holds = true) (hkeys : ∀ requester digest, ∀ w ∈ writes, w.key ≠ .grant requester digest) :
    Kept (writes.foldl Rows.apply s) ((⟨i, .batch checks writes, true⟩ : ConsentEvent ι) :: history) := by
  have hexec := RowOp.exec_batch_applied hholds writes
  have hquiet := Kept.quiet (i := i) (o := .batch checks writes) h fun requester digest hmem => by
    rw [hexec] at hmem
    obtain ⟨w, hw, hkey⟩ := List.mem_map.mp hmem
    exact hkeys requester digest w hw hkey
  rwa [hexec] at hquiet

theorem Ended.retired {more : List (Write ConsentRow)}
    (h : Ended s history) (hcloses : closesOn (.batch checks (retire p ++ more)) = some p.digest)
    (hopens : opensOn (.batch checks (retire p ++ more)) = none)
    (hthere : ∃ q : PendingRow p.digest, s.row (.pending p.digest) = some q)
    (hmore : ∀ digest, ∀ w ∈ more, ConsentKey.pending digest ≠ w.key) :
    Ended ((retire p ++ more).foldl Rows.apply s)
      ((⟨i, .batch checks (retire p ++ more), true⟩ : ConsentEvent ι) :: history) := by
  refine h.close hcloses hopens hthere (row_retired (hmore p.digest) s) fun digest q hq => ?_
  rcases List.mem_append.mp hq with hq | hq
  · simp [retire] at hq
  · exact hmore digest _ hq rfl

theorem Kept.mint {g : TaskConsentGrant} (h : Kept s history) (hsame : p.digest = g.digest) :
    Kept ((mintWrites p g).foldl Rows.apply s)
      ((⟨i, Consent.mint p g, true⟩ : ConsentEvent ι) :: history) := by
  have hputs : ∀ requester digest, ∀ g' : GrantRow requester digest,
      Write.put (.grant requester digest) g' ∈ mintWrites p g → g'.val = g := by
    intro requester digest g' hput
    simp only [mintWrites, putGrant, retire, List.mem_cons, reduceCtorEq, List.not_mem_nil, or_false] at hput
    cases hput
    rfl
  refine h.cons (fun requester digest => ?_) (fun requester digest g' hg' => ?_) (fun _ _ _ _ heq => by cases heq)
    fun requester digest hgranted => ?_
  · by_cases hkey : (g.requesterDid, g.digest) = (requester, digest)
    · have hgranted : granted requester digest (⟨i, Consent.mint p g, true⟩ : ConsentEvent ι) = true :=
        decide_eq_true (congrArg some hkey)
      have hone : grantsThere ((mintWrites p g).foldl Rows.apply s) requester digest ≤ 1 := Bool.toNat_le _
      rw [hgranted, show spent requester digest (⟨i, Consent.mint p g, true⟩ : ConsentEvent ι) = false from rfl]
      simp only [Bool.toNat_true, Bool.toNat_false]
      omega
    · have hrow : ((mintWrites p g).foldl Rows.apply s).row (.grant requester digest) =
          s.row (.grant requester digest) := by
        refine s.row_foldl_apply_of_notMem _ fun w hw heq => ?_
        simp only [mintWrites, putGrant, retire, List.mem_cons, List.not_mem_nil, or_false] at hw
        rcases hw with rfl | rfl | rfl
        · obtain ⟨rfl, rfl⟩ := ConsentKey.grant.inj heq
          exact hkey rfl
        · cases heq
        · cases heq
      rw [grantsThere, hrow,
        show spent requester digest (⟨i, Consent.mint p g, true⟩ : ConsentEvent ι) = false from rfl,
        grantsThere, Bool.toNat_false]
      omega
  · rcases s.row_or_put_of_foldl_apply _ hg' with hrow | hput
    · exact .inl hrow
    · exact .inr ⟨i, p, by rw [hputs requester digest g' hput]⟩
  · have hkey : some (g.requesterDid, g.digest) = some (requester, digest) := of_decide_eq_true hgranted
    cases hkey
    exact decide_eq_true (congrArg some hsame)

theorem Kept.lapse (h : Kept s history) :
    Kept (s.set (.grant requester digest) none)
      ((⟨i, .batch checks [.delete (.grant requester digest)], true⟩ : ConsentEvent ι) :: history) := by
  refine h.cons (fun r d => ?_) (fun r d g hg => .inl (Rows.row_of_set_none hg)) (fun _ _ _ _ heq => by cases heq)
    fun _ _ hgranted => by simp [granted, mintsFor] at hgranted
  have hfewer : grantsThere (s.set (.grant requester digest) none) r d ≤ grantsThere s r d := by
    unfold grantsThere
    cases hrow : (s.set (.grant requester digest) none).row (.grant r d) with
    | none => exact Nat.zero_le _
    | some => rw [Rows.row_of_set_none hrow]
  rw [show spent r d (⟨i, .batch checks [.delete (.grant requester digest)], true⟩ : ConsentEvent ι) = false from rfl,
    Bool.toNat_false]
  omega

theorem spent_take (requester digest r d : String) (found : Option (GrantRow r d)) :
    spent requester digest (⟨i, .take (.grant r d), found⟩ : ConsentEvent ι) =
      (decide (r = requester ∧ d = digest) && found.isSome) :=
  rfl

theorem Kept.consume (h : Kept s history) :
    Kept (s.set (.grant requester digest) none)
      ((⟨i, .take (.grant requester digest), s.row (.grant requester digest)⟩ : ConsentEvent ι) :: history) := by
  refine h.cons (fun r d => ?_) (fun r d g hg => .inl (Rows.row_of_set_none hg)) (fun j r d g heq => ?_)
    fun _ _ hgranted => by cases hgranted
  · rw [show granted r d
      (⟨i, .take (.grant requester digest), s.row (.grant requester digest)⟩ : ConsentEvent ι) = false from rfl]
    by_cases hkey : requester = r ∧ digest = d
    · obtain ⟨rfl, rfl⟩ := hkey
      rw [grantsThere, Rows.row_set_self, spent_take, decide_eq_true ⟨rfl, rfl⟩, Bool.true_and]
      simp [grantsThere]
    · have hne : ConsentKey.grant r d ≠ ConsentKey.grant requester digest := fun heq => by
        obtain ⟨rfl, rfl⟩ := ConsentKey.grant.inj heq
        exact hkey ⟨rfl, rfl⟩
      rw [grantsThere, Rows.row_set_of_ne s hne, spent_take, decide_eq_false hkey, Bool.false_and]
      simp [grantsThere]
  · obtain ⟨-, hop, hreply⟩ := Event.mk.inj heq
    cases hop
    exact (eq_of_heq hreply).symm

variable [DecidableEq ι] {hash : Bytes → String} {task : ι → Call}

/-- **One operation** of the store functions keeps both invariants. -/
theorem once_step {o : RowOp ConsentRow} (hcalls : (task i).onStore = true) (hended : Ended s history)
    (hkept : Kept s history) (hpermits : Permits hash (task i) (Crew.diary i history) o)
    (hfirst : firstRaised s history i o = true) :
    Ended (consentStore.exec o s).2 ((⟨i, o, (consentStore.exec o s).1⟩ : ConsentEvent ι) :: history) ∧
      Kept (consentStore.exec o s).2 ((⟨i, o, (consentStore.exec o s).1⟩ : ConsentEvent ι) :: history) := by
  generalize task i = call at hcalls hpermits
  generalize Crew.diary i history = diary at hpermits
  cases hpermits with
  | @read =>
    refine ⟨hended.cons (fun _ hclose => by cases hclose) (fun _ hopen => by cases hopen)
      (fun _ p hp => .inr ⟨p, hp, fun _ ha => ha⟩) fun digest approver hshow => ?_,
        hkept.quiet fun _ _ hmem => by cases hmem⟩
    rcases hshow with ⟨j, p, heq, hin⟩ | ⟨j, p, hnot, -, heq⟩
    · obtain ⟨-, hop, hreply⟩ := Event.mk.inj heq
      cases hop
      have hrow : s.row (.pending digest) = some p := eq_of_heq hreply
      refine ⟨⟨p, hrow⟩, fun q hq => ?_⟩
      rw [show s.row (.pending digest) = some q from hq] at hrow
      cases hrow
      exact hin
    · cases heq
  | @prune _ _ _ k row hlapsed =>
    refine once_batch hended hkept fun hholds => ?_
    cases k with
    | pending digest =>
      obtain ⟨p, rfl⟩ := row
      have hrow : s.row (.pending p.digest) = some (⟨p, rfl⟩ : PendingRow p.digest) := row_of_unchanged hholds
      have hnone : ∀ digest, ∀ w ∈ ([] : List (Write ConsentRow)), ConsentKey.pending digest ≠ w.key := by simp
      refine ⟨hended.retired rfl rfl ⟨_, hrow⟩ hnone, hkept.applied hholds ?_⟩
      simp [removal, retire, Write.key]
    | wire | approvers => cases hlapsed
    | grant =>
      refine ⟨hended.frame (by simp [closed, closesOn]) (by simp [opened, opensOn])
        (fun _ _ hshow => ?_) fun _ _ hp => Rows.row_of_set_none hp, ?_⟩
      · rcases hshow with ⟨_, _, heq, _⟩ | ⟨_, _, _, _, heq⟩ <;> cases heq
      · exact hkept.lapse
    | bound =>
      refine ⟨hended.frame (by simp [closed, closesOn]) (by simp [opened, opensOn])
        (fun _ _ hshow => ?_) (fun _ _ hp => Rows.row_of_set_none hp), hkept.applied hholds ?_⟩
      · rcases hshow with ⟨_, _, heq, _⟩ | ⟨_, _, _, _, heq⟩ <;> cases heq
      · simp [removal, Write.key]
  | @store p =>
    refine once_batch hended hkept fun hholds => ⟨hended.open p.digest rfl rfl ?_ ?_, hkept.applied hholds ?_⟩
    · simpa [firstRaised, opensOn, raise, putPending, opened, applied, RowOp.exec] using hfirst
    · intro d q hq
      simp only [putPending, putWire, List.mem_cons, List.not_mem_nil, or_false] at hq
      rcases hq with hq | hq <;> cases hq
      rfl
    · simp [putPending, putWire, Write.key]
  | @storeBound p =>
    refine once_batch hended hkept fun hholds => ⟨hended.open p.digest rfl rfl ?_ ?_, hkept.applied hholds ?_⟩
    · simpa [firstRaised, opensOn, raiseBound, putMark, putPending, opened, applied, RowOp.exec, hholds] using hfirst
    · intro d q hq
      simp only [putMark, putPending, putWire, List.mem_cons, List.not_mem_nil, or_false] at hq
      rcases hq with hq | hq | hq <;> cases hq
      rfl
    · simp [putMark, putPending, putWire, Write.key]
  | @approve _ _ _ _ hnot =>
    refine once_batch hended hkept fun hholds => ⟨hended.record hnot (row_of_unchanged hholds), hkept.applied hholds ?_⟩
    simp [putPending, Write.key]
  | @mint _ _ p _ _ hsame =>
    refine once_batch hended hkept fun hholds => ⟨hended.close rfl rfl ⟨_, row_of_unchanged hholds⟩ ?_ ?_,
      hkept.mint hsame⟩
    · have hnone : ∀ w ∈ ([] : List (Write ConsentRow)), ConsentKey.pending p.digest ≠ w.key := by simp
      exact row_retired hnone _
    · simp [mintWrites, putGrant, retire]
  | @remove =>
    refine once_batch hended hkept fun hholds => ⟨hended.retired rfl rfl ?_ (by simp), hkept.applied hholds ?_⟩
    · exact Option.isSome_iff_exists.mp (by simpa [Rows.holds] using hholds)
    · simp [retire, Write.key]
  | @denyBound =>
    refine once_batch hended hkept fun hholds => ⟨hended.retired rfl rfl ?_ fun _ w hw => ?_, hkept.applied hholds ?_⟩
    · exact Option.isSome_iff_exists.mp (by simpa [Rows.holds] using hholds)
    · rw [List.mem_singleton.mp hw]
      exact fun heq => by cases heq
    · simp [retire, putMark, Write.key]
  | @consume =>
    refine ⟨hended.frame (fun _ => rfl) (fun _ => rfl) (fun _ _ hshow => ?_) fun _ _ hp => Rows.row_of_set_none hp,
      hkept.consume⟩
    rcases hshow with ⟨_, _, heq, _⟩ | ⟨_, _, _, _, heq⟩ <;> cases heq
  | retire | raise | setApprovers => cases hcalls

/-! ### Runs -/

def RunsOnce (hash : Bytes → String) (s : ConsentState) (task : ι → Call) (schedule : List ι) : Prop :=
  Along (Crew.step (conduct hash)) (Crew.Meets fun s _ history i o => firstRaised s history i o = true)
    (calls hash s task) schedule

instance instDecidableRunsOnce (s : ConsentState) (task : ι → Call) (schedule : List ι) :
    Decidable (RunsOnce hash s task schedule) :=
  inferInstanceAs (Decidable (Along _ _ _ _))

omit [DecidableEq ι] in
theorem once_start (h : NoneStored s) : Ended s ([] : List (ConsentEvent ι)) ∧ Kept s ([] : List (ConsentEvent ι)) := by
  refine ⟨⟨fun _ => Nat.zero_le _, fun digest p hp => ?_, fun _ _ => rfl, fun _ hmem => (nomatch hmem)⟩,
    ⟨fun requester digest => ?_, fun requester digest g hg => ?_, fun _ _ _ _ hmem => (nomatch hmem),
      fun _ hmem => (nomatch hmem)⟩⟩
  · rw [h.1 digest] at hp
    cases hp
  · simp [grantsThere, h.2]
  · rw [h.2 requester digest] at hg
    cases hg

def Call.resolves : Call → Option String
  | .grantFromPending g _ => some g.digest
  | .removePendingIfPresent p => some p.digest
  | .denyBoundPending p => some p.digest
  | _ => none

/-- The step of a call that reports that it granted or denied a request. -/
theorem closed_of_done {call : Call} (hresolves : call.resolves = some digest)
    (hdone : Done call (Crew.diary i history) (.flag true)) :
    ∃ e ∈ history, e.thread = i ∧ closed digest e = true := by
  have hrefused : ∀ p, Refused (Crew.diary i history) p → ∃ e ∈ history, e.thread = i ∧ closed p.digest e = true := by
    rintro p ⟨more, hmem⟩
    exact ⟨_, Crew.mem_diary.mp hmem, rfl, decide_eq_true rfl⟩
  cases call with
  | grantFromPending =>
    cases hresolves
    obtain ⟨p, hsame, -, hmem⟩ := hdone
    exact ⟨_, Crew.mem_diary.mp hmem, rfl, decide_eq_true (congrArg some hsame)⟩
  | removePendingIfPresent p =>
    cases hresolves
    exact hrefused p hdone
  | denyBoundPending p =>
    cases hresolves
    exact hrefused p hdone
  | _ => cases hresolves

/-- **A request ends at most once, and its grant is spent at most once**, in every run of the store functions in which
no digest is raised twice: at most one call reports that it granted or denied the request of a digest; a grant names
approvers who are on the request it was minted from, which holds each of them once and holds enough; who was recorded on
a request stays on it; and at most one call receives a grant, before its expiry, for the requester, digest and type it
was minted for. -/
theorem consent_ends_once (hash : Bytes → String) (s : ConsentState) (task : ι → Call) (schedule : List ι)
    (hnone : NoneStored s) (hcalls : ∀ i, (task i).onStore = true) (honce : RunsOnce hash s task schedule) :
    (∀ i j digest, (task i).resolves = some digest → (task j).resolves = some digest →
      (after hash s task schedule).threads i = .ret (.ok (.flag true)) →
      (after hash s task schedule).threads j = .ret (.ok (.flag true)) → i = j) ∧
    (∀ i g now, task i = .grantFromPending g now →
      (after hash s task schedule).threads i = .ret (.ok (.flag true)) →
      ∃ p, (⟨i, mint p g, true⟩ : ConsentEvent ι) ∈ (after hash s task schedule).history ∧ p.digest = g.digest ∧
        p.requesterDid = g.requesterDid ∧ p.typeUri = g.typeUri ∧ (∀ a ∈ g.approvers, a ∈ p.approvals) ∧
        p.approvals.Nodup ∧ p.minApprovals ≤ p.approvals.length) ∧
    (∀ i digest approver now p, task i = .addApproval digest approver now →
      (after hash s task schedule).threads i = .ret (.ok (.pending (some p))) →
      approver ∈ p.approvals ∧ ∀ q : PendingRow digest,
        (after hash s task schedule).store.row (.pending digest) = some q → approver ∈ q.val.approvals) ∧
    (∀ i j requester digest typeUri typeUri' now now' g g', task i = .consumeGrant requester typeUri digest now →
      task j = .consumeGrant requester typeUri' digest now' →
      (after hash s task schedule).threads i = .ret (.ok (.grant (some g))) →
      (after hash s task schedule).threads j = .ret (.ok (.grant (some g'))) → i = j) ∧
    (∀ i requester typeUri digest now g, task i = .consumeGrant requester typeUri digest now →
      (after hash s task schedule).threads i = .ret (.ok (.grant (some g))) →
      g.requesterDid = requester ∧ g.digest = digest ∧ g.typeUri = typeUri ∧ now < g.expiresAt ∧
        ∃ j p, (⟨j, mint p g, true⟩ : ConsentEvent ι) ∈ (after hash s task schedule).history) := by
  obtain ⟨⟨hended, hkept⟩, hends⟩ := Crew.tasks_invariant
    (J := fun s history => Ended s history ∧ Kept s history) follows_program (once_start hnone)
    (fun s history i o hinv hpermits hfirst => once_step (hcalls i) hinv.1 hinv.2 hpermits hfirst) honce
  change Ended (after hash s task schedule).store (after hash s task schedule).history at hended
  change Kept (after hash s task schedule).store (after hash s task schedule).history at hkept
  have hconsumed : ∀ i requester typeUri digest now g, task i = .consumeGrant requester typeUri digest now →
      (after hash s task schedule).threads i = .ret (.ok (.grant (some g))) → ∃ row : GrantRow requester digest,
        (⟨i, .take (.grant requester digest), some row⟩ : ConsentEvent ι) ∈ (after hash s task schedule).history ∧
          row.val = g ∧ g.typeUri = typeUri ∧ now < g.expiresAt := by
    intro i requester typeUri digest now g htask hret
    have hdone := hends i _ hret
    rw [htask] at hdone
    obtain ⟨row, hmem, hrest⟩ := hdone
    exact ⟨row, Crew.mem_diary.mp hmem, hrest⟩
  refine ⟨?_, ?_, ?_, ?_, ?_⟩
  · intro i j digest hi hj hreti hretj
    obtain ⟨e, he, rfl, hclosed⟩ := closed_of_done hi (hends i _ hreti)
    obtain ⟨e', he', rfl, hclosed'⟩ := closed_of_done hj (hends j _ hretj)
    rw [Lib.eq_of_countP_le_one (hended.once digest) he he' hclosed hclosed']
  · intro i g now htask hret
    have hdone := hends i _ hret
    rw [htask] at hdone
    obtain ⟨p, hsame, hsupports, hmem⟩ := hdone
    simp only [supports, Bool.and_eq_true, List.all_eq_true, decide_eq_true_eq] at hsupports
    obtain ⟨⟨⟨hrequester, htype⟩, happrovers⟩, henough⟩ := hsupports
    exact ⟨p, Crew.mem_diary.mp hmem, hsame, hrequester, htype, happrovers, p.distinct, henough⟩
  · intro i digest approver now p htask hret
    have hdone := hends i _ hret
    rw [htask] at hdone
    obtain ⟨hin, hrecorded⟩ := hdone
    refine ⟨hin, fun q hq => ?_⟩
    rcases hrecorded with ⟨p, hmem, hp⟩ | ⟨p, hnot, hdigest, hmem⟩
    · exact (hended.recorded _ (Crew.mem_diary.mp hmem) digest approver (.inl ⟨i, p, rfl, hp⟩)).2 q hq
    · exact (hended.recorded _ (Crew.mem_diary.mp hmem) digest approver (.inr ⟨i, p, hnot, hdigest, rfl⟩)).2 q hq
  · intro i j requester digest typeUri typeUri' now now' g g' hi hj hreti hretj
    obtain ⟨row, hmem, -⟩ := hconsumed i requester typeUri digest now g hi hreti
    obtain ⟨row', hmem', -⟩ := hconsumed j requester typeUri' digest now' g' hj hretj
    -- A grant is taken no more often than it was minted, and every mint ends the request.
    have hspent : (after hash s task schedule).history.countP (spent requester digest) ≤ 1 := by
      have hcounted := hkept.counted requester digest
      have hmints : (after hash s task schedule).history.countP (granted requester digest) ≤
          (after hash s task schedule).history.countP (closed digest) :=
        List.countP_mono_left fun e he => hkept.closes e he requester digest
      have hone := hended.once digest
      omega
    exact congrArg Event.thread (Lib.eq_of_countP_le_one hspent hmem hmem' (by simp [spent_take])
      (by simp [spent_take]))
  · intro i requester typeUri digest now g htask hret
    obtain ⟨row, hmem, rfl, htype, hlive⟩ := hconsumed i requester typeUri digest now g htask hret
    exact ⟨row.property.1, row.property.2, htype, hlive, hkept.taken i requester digest row hmem⟩

end

/-! ### A grant that names an approver twice -/

def raisedRequest : PendingTaskConsent := mintedPending plainHash (submission "did:alice" "ops" "1" "one")
    ⟨"ops", 1, true⟩ unplanned

def grantNaming (approvers : List String) : TaskConsentGrant :=
  { grantOf raisedRequest [] 100 with approvers := approvers }

def grantCalls (approvers : List String) : Nat → Call
  | 0 => .storePending raisedRequest
  | 1 => .addApproval sharedDigest "did:bob" 100
  | 2 => .grantFromPending (grantNaming approvers) 100
  | _ => .consumeGrant "did:alice" "dids/update" sharedDigest 200

theorem granted_twice_named :
    (match (after plainHash staffed (grantCalls ["did:bob", "did:bob"]) [0, 1, 1, 2, 2]).threads 2 with
        | .ret (.ok (.flag minted)) => minted
        | _ => false) = true ∧
      ((after plainHash staffed (grantCalls ["did:bob", "did:bob"]) [0, 1, 1, 2, 2]).store.row
        (.grant "did:alice" sharedDigest)).map (fun g : GrantRow _ _ => g.val.approvers) = some ["did:bob", "did:bob"] ∧
      ¬ ["did:bob", "did:bob"].Nodup := by
  decide +kernel

def endedGranted : ConsentProgram Answer → Bool
  | .ret (.ok (.grant (some _))) => true
  | _ => false

/-- The grant is minted from the request and spent. -/
theorem consent_ends_once_spent :
    ∃ g : TaskConsentGrant, g.requesterDid = "did:alice" ∧ 200 < g.expiresAt ∧ ∃ j p,
      (⟨j, mint p g, true⟩ : ConsentEvent Nat) ∈
        (after plainHash staffed (grantCalls ["did:bob"]) [0, 1, 1, 2, 2, 3]).history := by
  have hcalls : ∀ i, (grantCalls ["did:bob"] i).onStore = true := by
    intro i
    rcases i with _ | _ | _ | i <;> rfl
  have hends :
    endedGranted ((after plainHash staffed (grantCalls ["did:bob"]) [0, 1, 1, 2, 2, 3]).threads 3) = true := by
    decide +kernel
  unfold endedGranted at hends
  split at hends
  · rename_i g hret
    obtain ⟨hrequester, -, -, hlive, hminted⟩ := (consent_ends_once plainHash staffed (grantCalls ["did:bob"])
      [0, 1, 1, 2, 2, 3] ⟨fun _ => rfl, fun _ _ => rfl⟩ hcalls (by decide +kernel)).2.2.2.2 3 _ _ _ _ g rfl hret
    exact ⟨g, hrequester, hlive, hminted⟩
  · cases hends

end TrustInfrastructure.Consent
