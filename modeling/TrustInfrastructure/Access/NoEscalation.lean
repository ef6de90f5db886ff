import TrustInfrastructure.Access.Calls

/-!
# No operation grants more than its caller holds

`createAcl`, `updateAcl` and `changeRole`, each run alone. A call reads, and then writes at most one row
(`grant_outcome`); the row it writes has passed the checks of `Granted` against the caller's own entry. When the token
says what that entry says, this bounds the row on every axis by the caller (`Bounded`).

Over sequences of calls, authority is taken apart into single powers (`Power`): to act in one context, to hold one
capability, to sign with one key, to be live at one time, to confer in one context. A row that is bounded by its writer
has no power that its writer lacks, so that a set of principals none of whom has a power never gets it by its own
calls, through whatever intermediate entries (`no_escalation`).
-/

namespace TrustInfrastructure.Access

open Lib (Program Conduct Record Replays Rows RowOp Check Write run Along run_induction)
open AclProgram

/-! ### One call alone -/

def Call.grant : Call → Option (AuthClaims × String)
  | .create auth params => some (auth, params.did)
  | .update auth did _ => some (auth, did)
  | .changeRole auth subject _ _ => some (auth, subject)
  | _ => none

section
variable {call : Call} {auth : AuthClaims} {subject : String} {s₀ s : AclState} {diary : Diary}

/-- What was read is what the store has. -/
def Answers (s₀ : AclState) (diary : Diary) : Prop :=
  ∀ did found, Saw diary did found → s₀.row (.entry did) = found

theorem answers_cons_read {o : RowOp AclRow} (hreads : o.writes = false) (h : Answers s₀ diary) :
    Answers s₀ ((⟨o, (RowOp.exec o s₀).1⟩ : Record aclStore) :: diary) := by
  intro did found hsaw
  rcases List.mem_cons.mp hsaw with heq | hsaw
  · cases heq
    rfl
  · exact h did found hsaw

theorem replays_grant (hgrant : call.grant = some (auth, subject)) (h : Replays Permits call s₀ diary s) :
    Answers s₀ diary ∧ (Unwritten diary ∧ s = s₀ ∨
      ∃ o reads, diary = ⟨o, (aclStore.exec o s₀).1⟩ :: reads ∧ aclStore.writes o = true ∧ Unwritten reads ∧
        Answers s₀ reads ∧ Permits call reads o ∧ s = (aclStore.exec o s₀).2) := by
  induction h with
  | nil => exact ⟨fun _ _ hsaw => (nomatch hsaw), .inl ⟨unwritten_nil, rfl⟩⟩
  | @cons diary s o _ hmay ih =>
    obtain ⟨hanswers, hstate⟩ := ih
    have hunwritten : Unwritten diary := by
      cases hmay <;> first | assumption | cases hgrant
    rcases hstate with ⟨-, rfl⟩ | ⟨o', reads, rfl, hwrites, -⟩
    · by_cases ho : aclStore.writes o = true
      · refine ⟨?_, .inr ⟨o, diary, rfl, ho, hunwritten, hanswers, hmay, rfl⟩⟩
        intro did found hsaw
        rcases List.mem_cons.mp hsaw with heq | hsaw
        · cases heq
          cases ho
        · exact hanswers did found hsaw
      · have hreads : aclStore.writes o = false := by simpa using ho
        refine ⟨answers_cons_read hreads hanswers, .inl ⟨hunwritten.cons _ hreads, aclStore.exec_read o s hreads⟩⟩
    · rw [hunwritten _ List.mem_cons_self] at hwrites
      cases hwrites

def CallerIn (s : AclState) (auth : AuthClaims) (me : AclEntry) : Prop :=
  (auth.isLocalCliPrincipal = true ∧
      ∃ now, me = { AclEntry.new auth.did .admin auth.did now with approveScope := .all }) ∨
    (auth.isLocalCliPrincipal = false ∧ entryOf s auth.did = some me)

theorem entryOf_of_row {did : String} {row : Stored did} (h : s.row (.entry did) = some row) :
    entryOf s did = some row.val := by
  unfold entryOf
  rw [h]

theorem entryOf_of_none {did : String} (h : s.row (.entry did) = none) : entryOf s did = none := by
  unfold entryOf
  rw [h]

theorem callerIn_of_answers {me : AclEntry} (hanswers : Answers s diary) (h : CallerIs auth diary me) :
    CallerIn s auth me := by
  rcases h with hcli | ⟨hcli, row, hsaw, rfl⟩
  · exact .inl hcli
  · exact .inr ⟨hcli, entryOf_of_row (hanswers _ _ hsaw)⟩

def put (s : AclState) (entry : AclEntry) : AclState :=
  s.set (.entry entry.did) (some (Stored.of entry))

theorem entryOf_put_self (s : AclState) (entry : AclEntry) : entryOf (put s entry) entry.did = some entry :=
  entryOf_of_row (s.row_set_self _ _)

theorem entryOf_put_of_ne (s : AclState) {entry : AclEntry} {did : String} (h : did ≠ entry.did) :
    entryOf (put s entry) did = entryOf s did := by
  have hkey : AclKey.entry did ≠ AclKey.entry entry.did := fun heq => h (AclKey.entry.inj heq)
  unfold entryOf put
  rw [s.row_set_of_ne hkey]

/-- Version and role checks aside, what `changeRole` stores is what it was granted. -/
theorem Granted.versioned {me : AclEntry} {before : Option AclEntry} {entry : AclEntry}
    (h : Granted auth me before entry) (version : Nat) : Granted auth me before { entry with version := version } :=
  ⟨h.role, h.scope, ⟨h.within.capabilities, h.within.keys, h.within.expiry, h.within.approves⟩, h.additive,
    h.approveAll⟩

theorem permits_grant {o : RowOp AclRow} (hgrant : call.grant = some (auth, subject)) (h : Permits call diary o)
    (hwrites : o.writes = true) (hanswers : Answers s diary) :
    (∃ checks writes, o = .batch checks writes ∧ RowOp.exec (.batch checks writes) s = (false, s)) ∨
      ∃ me entry, CallerIn s auth me ∧ Granted auth me (entryOf s subject) entry ∧ entry.did = subject ∧
        (aclStore.exec o s).2 = put s entry := by
  cases h with
  | read _ hreads =>
    rw [hreads] at hwrites
    cases hwrites
  | create _ habsent hcaller hgranted hsubject =>
    cases hgrant
    refine .inr ⟨_, _, callerIn_of_answers hanswers hcaller, ?_, hsubject, rfl⟩
    rw [entryOf_of_none (hanswers _ _ habsent)]
    exact hgranted
  | @update _ _ params _ _ row _ _ hseen hcaller hgranted =>
    cases hgrant
    refine .inr ⟨_, params.patched row.val, callerIn_of_answers hanswers hcaller, ?_, row.property, rfl⟩
    rw [entryOf_of_row (hanswers _ _ hseen)]
    exact hgranted
  | @changeRole _ _ _ _ _ _ role row again _ _ hseen hcaller hgranted =>
    cases hgrant
    cases hholds : [stillThat row.val.did again].all s.holds with
    | true =>
      refine .inr ⟨_, roleChanged row.val role, callerIn_of_answers hanswers hcaller, ?_, row.property, ?_⟩
      · rw [entryOf_of_row (hanswers _ _ hseen)]
        exact hgranted.versioned _
      · exact congrArg Prod.snd (RowOp.exec_batch_applied hholds _)
    | false => exact .inl ⟨_, _, rfl, RowOp.exec_batch_refused hholds _⟩
  | delete | swapStore | swapRemove | exercise | wait => cases hgrant

/-- What is done at the end of a diary that only read before: nothing but the last operation wrote. -/
theorem wrote_last {o o' : RowOp AclRow} {r : RowOp.Reply o} {r' : RowOp.Reply o'} (hreads : Unwritten diary)
    (hwrites : o'.writes = true) (h : (⟨o', r'⟩ : Record aclStore) ∈ (⟨o, r⟩ : Record aclStore) :: diary) :
    (⟨o', r'⟩ : Record aclStore) = ⟨o, r⟩ := by
  rcases List.mem_cons.mp h with heq | hmem
  · exact heq
  · exact absurd (hwrites.symm.trans (hreads _ hmem)) (by simp)

/-- **A call that grants, run alone**: it leaves the store as it was and fails, or it has put one entry for its
subject, which was granted. -/
theorem grant_outcome (hgrant : call.grant = some (auth, subject)) (s : AclState) :
    (call.program.final s = s ∧ ∀ answer, call.program.result s ≠ .ok answer) ∨
      ∃ me entry, CallerIn s auth me ∧ Granted auth me (entryOf s subject) entry ∧ entry.did = subject ∧
        call.program.final s = put s entry := by
  obtain ⟨whole, hreplays, hends⟩ := (follows_program call).replays (.nil : Replays Permits call s [] s)
  -- A call that ended well has a write in its diary, and a conditional one was applied.
  have hdone : ∀ answer, call.program.result s = .ok answer →
      ∃ checks entry, (⟨(.batch checks [putEntry entry] : RowOp AclRow), true⟩ : Record aclStore) ∈ whole ∨
        checks = [] ∧ Wrote whole (.batch checks [putEntry entry]) := by
    intro answer hanswer
    rw [hanswer] at hends
    cases call with
    | create | update => exact ⟨[], hends.choose, .inr ⟨rfl, hends.choose_spec.2⟩⟩
    | changeRole => exact ⟨hends.choose, hends.choose_spec.choose, .inl hends.choose_spec.choose_spec⟩
    | delete | swap | exercise | wait => cases hgrant
  obtain ⟨-, ⟨hunwritten, hfinal⟩ | ⟨o, reads, rfl, hwrites, hunwritten, hanswers, hpermits, hfinal⟩⟩ :=
    replays_grant hgrant hreplays
  · refine .inl ⟨hfinal, fun answer hanswer => ?_⟩
    obtain ⟨checks, entry, hmem | ⟨-, r, hmem⟩⟩ := hdone answer hanswer
    · exact absurd (hunwritten _ hmem) (by simp [RowOp.writes])
    · exact absurd (hunwritten _ hmem) (by simp [RowOp.writes])
  · rcases permits_grant hgrant hpermits hwrites hanswers with ⟨checks, writes, rfl, hrefused⟩ | hput
    · refine .inl ⟨by rw [hfinal]; exact congrArg Prod.snd hrefused, fun answer hanswer => ?_⟩
      have hreply : (RowOp.exec (.batch checks writes) s).1 = false := congrArg Prod.fst hrefused
      obtain ⟨checks', entry, hmem | ⟨rfl, r, hmem⟩⟩ := hdone answer hanswer
      · have heq := Record.mk.inj (wrote_last hunwritten rfl hmem)
        obtain ⟨rfl, rfl⟩ := RowOp.batch.inj heq.1
        exact absurd ((eq_of_heq heq.2).trans hreply) (by simp)
      · obtain ⟨rfl, -⟩ := RowOp.batch.inj (Record.mk.inj (wrote_last hunwritten rfl hmem)).1
        cases hreply
    · rw [hfinal]
      exact .inr hput

end

/-! ### Bounded by the caller -/

/-- On every axis, `entry` holds no more than `me`; an additive capability is new to it only if `me` is a
super-admin. -/
structure Bounded (me : AclEntry) (before : Option AclEntry) (entry : AclEntry) : Prop where
  acts : ∀ ctx, entry.actScope.covers ctx = true → me.actScope.covers ctx = true
  everywhere : entry.isSuperAdmin = true → me.isSuperAdmin = true
  capabilities : ∀ cap ∈ entry.effective, isAdditive cap = false → cap ∈ me.effective
  additive : ∀ cap ∈ entry.effective, isAdditive cap = true →
    (∃ old, before = some old ∧ cap ∈ old.effective) ∨ me.isSuperAdmin = true
  keys : ∀ mine, me.allowedKeys = some mine → ∃ theirs, entry.allowedKeys = some theirs ∧ theirs ⊆ mine
  expiry : ∀ mine, me.expiresAt = some mine → ∃ theirs, entry.expiresAt = some theirs ∧ theirs ≤ mine
  confers : ∀ ctx, entry.approveScope.covers ctx = true → aclEntryCanConfer me ctx = true
  approveAll : entry.approveScope = .all → me.isSuperAdmin = true

section
variable {auth : AuthClaims} {me entry : AclEntry} {before : Option AclEntry}

theorem AclEntry.isSuperAdmin_eq_true : me.isSuperAdmin = true ↔ me.role = .admin ∧ me.actScope = .all := by
  unfold AclEntry.isSuperAdmin
  cases me.actScope <;> simp [ActScope.isUnrestricted]

theorem aclEntryCanConfer_of_isSuperAdmin (h : me.isSuperAdmin = true) (ctx : String) :
    aclEntryCanConfer me ctx = true := by
  obtain ⟨hrole, hscope⟩ := AclEntry.isSuperAdmin_eq_true.mp h
  simp [aclEntryCanConfer, hrole, hscope, ActScope.covers]

theorem aclEntryCanConfer_below {above below : String} (h : aclEntryCanConfer me above = true)
    (hbelow : isAncestorOrSelf above below = true) : aclEntryCanConfer me below = true := by
  have hcovers : coversContext [above] below = true := by simp [coversContext, hbelow]
  unfold aclEntryCanConfer at h ⊢
  rw [Bool.or_eq_true] at h ⊢
  rcases h with happroves | hadmin
  · refine .inl ?_
    cases hscope : me.approveScope with
    | none =>
      rw [hscope] at happroves
      cases happroves
    | all => rfl
    | contexts cs =>
      rw [hscope] at happroves
      have habove : (ActScope.contexts cs).covers above = true := happroves
      exact coversContext_trans (by simpa using habove) hcovers
  · refine .inr ?_
    rw [Bool.and_eq_true] at hadmin ⊢
    exact ⟨hadmin.1, coversContext_trans (by simpa using hadmin.2) hcovers⟩

/-- When the token says what the caller's entry says, an entry that was granted is bounded by the caller's. -/
theorem bounded_of_granted (hrole : me.role = auth.role) (hcontexts : me.allowedContexts = auth.allowedContexts)
    (h : Granted auth me before entry) : Bounded me before entry := by
  have hscope : me.actScope = auth.actScope := by rw [AclEntry.actScope, hrole, hcontexts, AuthClaims.actScope]
  have hsuper : auth.isSuperAdmin = true → me.isSuperAdmin = true := fun hauth => by
    rw [AclEntry.isSuperAdmin, hrole, hscope]
    exact hauth
  have hacting : actingEntry auth me = me := by
    rw [actingEntry, ← hrole, ← hcontexts]
  refine ⟨fun ctx hctx => ?_, fun hall => ?_, fun cap hcap hno => ?_, fun cap hcap hadd => ?_, h.within.keys,
    h.within.expiry, fun ctx hctx => ?_, fun hall => hsuper (h.approveAll hall)⟩
  · rw [hscope]
    exact validateAclModification_ok h.scope ctx hctx
  · exact hsuper (isSuperAdmin_of_validateAclModification h.scope (AclEntry.isSuperAdmin_eq_true.mp hall).2)
  · rw [AclEntry.effective, hrole]
    exact h.within.capabilities cap hcap hno
  · rcases h.additive cap ((mem_effectiveCapabilities_of_additive hadd).mp hcap) hadd with ⟨old, hold, hmem⟩ | hauth
    · exact .inl ⟨old, hold, (mem_effectiveCapabilities_of_additive hadd).mpr hmem⟩
    · exact .inr (hsuper hauth)
  · cases happrove : entry.approveScope with
    | none =>
      rw [happrove] at hctx
      cases hctx
    | all => exact aclEntryCanConfer_of_isSuperAdmin (hsuper (h.approveAll happrove)) ctx
    | contexts cs =>
      rw [happrove] at hctx
      obtain ⟨c, hc, hbelow⟩ := List.any_eq_true.mp hctx
      have hconfers := h.within.approves cs happrove c hc
      rw [hacting] at hconfers
      exact aclEntryCanConfer_below hconfers hbelow

end

/-! ### Powers -/

/-- A single thing an entry may be good for. -/
inductive Power where
  | act (ctx : String)
  | actEverywhere
  | use (cap : Capability)
  | signWith (key : String)
  | live (time : Nat)
  | confer (ctx : String)
  | approveAll

namespace Power

def of (e : AclEntry) : Power → Prop
  | .act ctx => e.actScope.covers ctx = true
  | .actEverywhere => e.isSuperAdmin = true
  | .use cap => cap ∈ e.effective
  | .signWith key => e.allowsKey key = true
  | .live time => e.isExpired time = false
  | .confer ctx => aclEntryCanConfer e ctx = true
  | .approveAll => e.approveScope = .all ∨ e.isSuperAdmin = true

/-- The powers that are granted only by who has them. -/
def bounded : Power → Bool
  | .use cap => !isAdditive cap
  | _ => true

end Power

section
variable {auth : AuthClaims} {me entry : AclEntry} {before : Option AclEntry}

theorem Bounded.live (h : Bounded me before entry) {time : Nat} (hlive : entry.isExpired time = false) :
    me.isExpired time = false := by
  unfold AclEntry.isExpired at hlive ⊢
  cases hmine : me.expiresAt with
  | none => rfl
  | some mine =>
    obtain ⟨theirs, htheirs, hle⟩ := h.expiry mine hmine
    rw [htheirs] at hlive
    have hlater : ¬ theirs ≤ time := by simpa using hlive
    exact decide_eq_false (by omega)

theorem Bounded.signsWith (h : Bounded me before entry) {key : String} (hkey : entry.allowsKey key = true) :
    me.allowsKey key = true := by
  unfold AclEntry.allowsKey at hkey ⊢
  cases hmine : me.allowedKeys with
  | none => rfl
  | some mine =>
    obtain ⟨theirs, htheirs, hsub⟩ := h.keys mine hmine
    rw [htheirs] at hkey
    have hmem : key ∈ theirs := by simpa using hkey
    simpa using hsub hmem

theorem Bounded.power (h : Bounded me before entry) (hadmin : entry.role = .admin → me.role = .admin) (power : Power)
    (hbounded : power.bounded = true) (hpower : power.of entry) : power.of me := by
  cases power with
  | act ctx => exact h.acts ctx hpower
  | actEverywhere => exact h.everywhere hpower
  | use cap => exact h.capabilities cap hpower (by simpa [Power.bounded] using hbounded)
  | signWith => exact h.signsWith hpower
  | live => exact h.live hpower
  | confer ctx =>
    rcases (Bool.or_eq_true _ _).mp hpower with happroves | hacts
    · exact h.confers ctx happroves
    · obtain ⟨hrole, hcovers⟩ := (Bool.and_eq_true _ _).mp hacts
      have hmine : me.role = .admin := hadmin (by simpa using hrole)
      show aclEntryCanConfer me ctx = true
      simp [aclEntryCanConfer, hmine, h.acts ctx hcovers]
  | approveAll =>
    rcases hpower with hall | hsuper
    · exact .inr (h.approveAll hall)
    · exact .inr (h.everywhere hsuper)

end

/-! ### Sequences of calls -/

/-- The store after a call run alone. -/
def Call.after (s : AclState) (call : Call) : AclState := call.program.final s

/-- The token of a caller with a live entry of its own says what that entry says. -/
def Matches (s : AclState) (auth : AuthClaims) : Prop :=
  auth.isLocalCliPrincipal = false ∧
    ∃ me, entryOf s auth.did = some me ∧ me.isExpired s.clock = false ∧ me.role = auth.role ∧
      me.allowedContexts = auth.allowedContexts

/-- A call by one of `principals`, or time passing. -/
def CallBy (principals : Set String) (s : AclState) (call : Call) : Prop :=
  match call.grant with
  | some (auth, _) => auth.did ∈ principals ∧ Matches s auth
  | none => ∃ seconds, call = .wait seconds

/-- No live entry of `principals` has the power. -/
def Lacks (principals : Set String) (power : Power) (s : AclState) : Prop :=
  ∀ who ∈ principals, ∀ e, entryOf s who = some e → e.isExpired s.clock = false → ¬ power.of e

/-- No entry of `principals`, live or not, has the capability. -/
def NoneHolds (principals : Set String) (cap : Capability) (s : AclState) : Prop :=
  ∀ who ∈ principals, ∀ e, entryOf s who = some e → cap ∉ e.effective

section
variable {principals : Set String} {s : AclState} {call : Call}

theorem isExpired_mono {e : AclEntry} {now later : Nat} (hle : now ≤ later) (h : e.isExpired later = false) :
    e.isExpired now = false := by
  unfold AclEntry.isExpired at h ⊢
  split
  · rename_i deadline hdeadline
    rw [hdeadline] at h
    have hnot : ¬ deadline ≤ later := by simpa using h
    exact decide_eq_false (by omega)
  · rfl

/-- A call whose caller's token matches: it fails and nothing changes, or it has put an entry bounded by its
caller's. -/
theorem grant_bounded {auth : AuthClaims} {subject : String} (hgrant : call.grant = some (auth, subject))
    (hmatches : Matches s auth) :
    (call.after s = s ∧ ∀ answer, call.program.result s ≠ .ok answer) ∨
      ∃ me entry, entryOf s auth.did = some me ∧ me.isExpired s.clock = false ∧
        (entry.role = .admin → me.role = .admin) ∧ Bounded me (entryOf s subject) entry ∧ entry.did = subject ∧
        call.after s = put s entry := by
  obtain ⟨hcli, me, hme, hlive, hrole, hcontexts⟩ := hmatches
  rcases grant_outcome hgrant s with hfails | ⟨me', entry, hcaller, hgranted, hsubject, hput⟩
  · exact .inl hfails
  · have heq : me' = me := by
      rcases hcaller with ⟨htrue, -⟩ | ⟨-, hown⟩
      · rw [hcli] at htrue
        cases htrue
      · rw [hme] at hown
        exact (Option.some.inj hown).symm
    subst heq
    refine .inr ⟨me', entry, hme, hlive, fun hadmin => ?_, bounded_of_granted hrole hcontexts hgranted, hsubject, hput⟩
    rw [hrole]
    exact validateRoleAssignment_ok hgranted.role hadmin

/-- What a step of a sequence does to the store: time passes, or nothing changes, or a bounded entry is put. -/
theorem callBy_cases (h : CallBy principals s call) :
    (∃ seconds, call.after s = { s with clock := s.clock + seconds }) ∨ call.after s = s ∨
      ∃ who ∈ principals, ∃ me entry, entryOf s who = some me ∧ me.isExpired s.clock = false ∧
        (entry.role = .admin → me.role = .admin) ∧ Bounded me (entryOf s entry.did) entry ∧
        call.after s = put s entry := by
  unfold CallBy at h
  cases hgrant : call.grant with
  | none =>
    rw [hgrant] at h
    obtain ⟨seconds, rfl⟩ := h
    exact .inl ⟨seconds, rfl⟩
  | some grant =>
    obtain ⟨auth, subject⟩ := grant
    rw [hgrant] at h
    rcases grant_bounded hgrant h.2 with ⟨hsame, -⟩ | ⟨me, entry, hme, hlive, hadmin, hentry, rfl, hput⟩
    · exact .inr (.inl hsame)
    · exact .inr (.inr ⟨auth.did, h.1, me, entry, hme, hlive, hadmin, hentry, hput⟩)

theorem lacks_after {power : Power} (hbounded : power.bounded = true) (h : CallBy principals s call)
    (hlacks : Lacks principals power s) : Lacks principals power (call.after s) := by
  intro who hwho e he hlive
  rcases callBy_cases h with ⟨seconds, hafter⟩ | hafter | ⟨writer, hwriter, me, entry, hme, hmeLive, hadmin, hentry,
    hafter⟩
  · rw [hafter] at he hlive
    exact hlacks who hwho e he (isExpired_mono (by simp) hlive)
  · rw [hafter] at he hlive
    exact hlacks who hwho e he hlive
  · rw [hafter] at he hlive
    by_cases hsubject : who = entry.did
    · rw [hsubject, entryOf_put_self] at he
      cases he
      exact fun hpower => hlacks writer hwriter me hme hmeLive (hentry.power hadmin power hbounded hpower)
    · rw [entryOf_put_of_ne s hsubject] at he
      exact hlacks who hwho e he hlive

theorem noneHolds_after {cap : Capability} (hadditive : isAdditive cap = true) (h : CallBy principals s call)
    (hlacks : Lacks principals .actEverywhere s) (hnone : NoneHolds principals cap s) :
    NoneHolds principals cap (call.after s) := by
  intro who hwho e he
  rcases callBy_cases h with ⟨seconds, hafter⟩ | hafter | ⟨writer, hwriter, me, entry, hme, hmeLive, -, hentry, hafter⟩
  · rw [hafter] at he
    exact hnone who hwho e he
  · rw [hafter] at he
    exact hnone who hwho e he
  · rw [hafter] at he
    by_cases hsubject : who = entry.did
    · rw [hsubject, entryOf_put_self] at he
      cases he
      intro hcap
      rcases hentry.additive cap hcap hadditive with ⟨old, hold, hmem⟩ | hsuper
      · exact hnone _ (hsubject ▸ hwho) old hold hmem
      · exact hlacks writer hwriter me hme hmeLive hsuper
    · rw [entryOf_put_of_ne s hsubject] at he
      exact hnone who hwho e he

end

/-- **No operation grants more than its caller holds.** In every sequence of `create`, `update` and `changeRole` calls,
run one at a time and with time passing between them, each caller being one of `principals` with a live entry its token
agrees with: every call that succeeds has written for its subject an entry bounded by its caller's, and a power none of
`principals` has at the start, none of them has in the end; nor an additive capability, if none of them is a
super-admin. -/
theorem no_escalation (principals : Set String) (s : AclState) (calls : List Call)
    (hcalls : Along Call.after (CallBy principals) s calls) :
    (∀ before call after auth subject answer, calls = before ++ call :: after →
      call.grant = some (auth, subject) → call.program.result (run Call.after s before) = .ok answer →
      ∃ me entry, entryOf (run Call.after s before) auth.did = some me ∧
        entryOf (run Call.after s (before ++ [call])) subject = some entry ∧
        Bounded me (entryOf (run Call.after s before) subject) entry) ∧
    (∀ power : Power, power.bounded = true → Lacks principals power s →
      Lacks principals power (run Call.after s calls)) ∧
    (∀ cap, isAdditive cap = true → Lacks principals .actEverywhere s → NoneHolds principals cap s →
      NoneHolds principals cap (run Call.after s calls)) := by
  refine ⟨?_, fun power hbounded hlacks => ?_, fun cap hadditive hlacks hnone => ?_⟩
  · rintro before call after auth subject answer rfl hgrant hanswer
    have hcall : CallBy principals (run Call.after s before) call := ((Lib.along_append before _).mp hcalls).2.1
    unfold CallBy at hcall
    rw [hgrant] at hcall
    rw [Lib.run_concat]
    rcases grant_bounded hgrant hcall.2 with ⟨-, hfails⟩ | ⟨me, entry, hme, -, -, hentry, rfl, hput⟩
    · exact absurd hanswer (hfails answer)
    · refine ⟨me, entry, hme, ?_, hentry⟩
      rw [hput, entryOf_put_self]
  · exact run_induction (I := Lacks principals power) hlacks hcalls fun s call hs hcall =>
      lacks_after hbounded hcall hs
  · have hboth := run_induction (I := fun s => Lacks principals .actEverywhere s ∧ NoneHolds principals cap s)
      ⟨hlacks, hnone⟩ hcalls fun s call hs hcall =>
        ⟨lacks_after rfl hcall hs.1, noneHolds_after hadditive hcall hs.1 hs.2⟩
    exact hboth.2

def rootedAcl : AclState :=
  (put ⟨fun _ => none, 100⟩ (AclEntry.new "did:root" .admin "setup" 0)).set (.context "acme") (some ())

def rootClaims : AuthClaims := ⟨"did:root", .admin, [], "session", ["did"]⟩

/-- An administrator of `acme` alone, for a time. -/
def scopedAdmin : AclEntry :=
  { AclEntry.new "did:ann" .admin "did:root" 0 with allowedContexts := ["acme"], expiresAt := some 1000 }

def scopedAcl : AclState := put rootedAcl scopedAdmin

def scopedClaims : AuthClaims := ⟨"did:ann", .admin, ["acme"], "session", ["did"]⟩

/-- A reader of `acme`, for a shorter time. -/
def readerParams : CreateAclParams :=
  ⟨"did:bob", .reader, none, ["acme"], some 900, none, none, .none, none, [], false⟩

def createReader : Call := .create scopedClaims readerParams

theorem no_escalation_reader :
    (∃ me entry, entryOf scopedAcl "did:ann" = some me ∧ me.isSuperAdmin = false ∧
      entryOf (run Call.after scopedAcl [createReader]) "did:bob" = some entry ∧
      Bounded me (entryOf scopedAcl "did:bob") entry) ∧
    Lacks {"did:ann"} .actEverywhere (run Call.after scopedAcl [createReader]) := by
  obtain ⟨hbounded, hlacks, -⟩ := no_escalation {"did:ann"} scopedAcl [createReader]
    ⟨⟨rfl, by decide +kernel, scopedAdmin, rfl, rfl, rfl, rfl⟩, trivial⟩
  obtain ⟨me, entry, hme, hentry, hwithin⟩ := hbounded [] createReader [] scopedClaims "did:bob"
    (some (createdEntry scopedClaims readerParams none 100)) rfl rfl (by decide +kernel)
  cases hme
  refine ⟨⟨scopedAdmin, entry, rfl, by decide, hentry, hwithin⟩, hlacks .actEverywhere rfl ?_⟩
  rintro who rfl e he -
  cases he
  exact Bool.false_ne_true

end TrustInfrastructure.Access
