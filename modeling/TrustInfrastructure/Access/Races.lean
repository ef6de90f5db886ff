import TrustInfrastructure.Access.NoEscalation

/-!
# Calls that race

Any number of ACL calls under way at once, one store operation at a time. `updateAcl`, `createAcl` and `swapAcl` write
what they computed from rows read earlier without a condition, and only `changeRole` moves the version its own
condition compares. So an update can undo another one and a delete, and two rotations of one entry can both succeed
(`updates_race`).

What the operations are meant to keep holds when no call overlaps another one of the same subject, changes of role
apart, which may overlap each other (`Apart`): then an update and a role change replace the row they were computed from,
no call that read an entry before its deletion brings it back, and of two rotations of one subject that succeed the one
has read what the other left (`writes_kept`). Since a call began, only calls of other subjects have run, or changes of
role beside a change of role (`since_begun`). Among the latter the version decides: it has moved if another change was
stored since the row was read (`Versioned`).
-/

namespace TrustInfrastructure.Access

open Lib (Program Conduct Record Event Crew Rows RowOp Check Write run Along)
open AclProgram

variable {ι : Type} [DecidableEq ι]

abbrev AclEvent (ι : Type) := Event aclStore ι

abbrev AclCrew (ι : Type) := Crew aclStore (Call × Diary) ι AppError (Option AclEntry)

/-- The calls are under way, none having begun. -/
def calls (s : AclState) (task : ι → Call) : AclCrew ι := Crew.tasks s Call.program task

def after (s : AclState) (task : ι → Call) (schedule : List ι) : AclCrew ι :=
  run (Crew.step conduct) (calls s task) schedule

/-! ### What happened to a row -/

/-- The event has written or deleted the subject's row. -/
def touches (did : String) (e : AclEvent ι) : Bool := decide (AclKey.entry did ∈ RowOp.wrote e.op e.reply)

def finds (did : String) (e : AclEvent ι) : Bool :=
  match e with
  | ⟨_, .get (.entry d), found⟩ => decide (d = did) && Option.isSome (α := Stored d) found
  | _ => false

def storedBy : Write AclRow → Option String
  | .put (.entry did) _ => some did
  | _ => none

def stored (e : AclEvent ι) : List String :=
  match e with
  | ⟨_, .batch _ writes, done⟩ => if (show Bool from done) then writes.filterMap storedBy else []
  | ⟨_, .move _ _ (.entry did) _, outcome⟩ => if (show Lib.MoveOutcome from outcome) = .moved then [did] else []
  | _ => []

/-- The subject a rotation is of. -/
def Call.rotates : Call → Option String
  | .swap auth _ => some auth.did
  | _ => none

theorem swap_of_rotates {call : Call} {did : String} (h : call.rotates = some did) :
    ∃ auth presented, call = .swap auth presented ∧ auth.did = did := by
  cases call with
  | swap auth presented => exact ⟨auth, presented, rfl, Option.some.inj h⟩
  | create | update | changeRole | delete | exercise | wait => cases h

def Call.edits : Call → Option String
  | .update _ did _ => some did
  | .changeRole _ subject _ _ => some subject
  | _ => none

/-! ### Calls that overlap -/

/-- The subjects whose rows the call may write. -/
def Call.subjects : Call → List String
  | .create _ params => [params.did]
  | .update _ did _ => [did]
  | .changeRole _ subject _ _ => [subject]
  | .delete _ did => [did]
  | .swap auth presented => auth.did :: presented.toOption.toList
  | .exercise auth successor _ => [auth.did, successor.did]
  | .wait _ => []

/-- The call compares the version of the row it writes. -/
def Call.guarded : Call → Bool
  | .changeRole _ _ _ _ => true
  | _ => false

/-- The calls write the row of one subject, and not both compare its version. -/
def Call.conflicts (a b : Call) : Bool :=
  (a.subjects.any fun did => decide (did ∈ b.subjects)) && !(a.guarded && b.guarded)

/-- The call has begun and has not ended. -/
def underWay (c : AclCrew ι) (j : ι) : Bool := (c.history.any fun e => decide (e.thread = j)) && (c.threads j).running

/-- A call begins only while no call it conflicts with is under way. -/
def Apart (task : ι → Call) (c : AclCrew ι) (i : ι) : Prop :=
  (∀ e ∈ c.history, e.thread ≠ i) → ∀ j, underWay c j = true → (task i).conflicts (task j) = false

instance instDecidableApart [Fintype ι] (task : ι → Call) (c : AclCrew ι) (i : ι) : Decidable (Apart task c i) :=
  inferInstanceAs (Decidable (_ → ∀ j, underWay c j = true → (task i).conflicts (task j) = false))

def RunsApart (s : AclState) (task : ι → Call) (schedule : List ι) : Prop :=
  Along (Crew.step conduct) (Apart task) (calls s task) schedule

instance instDecidableRunsApart [Fintype ι] (s : AclState) (task : ι → Call) (schedule : List ι) :
    Decidable (RunsApart s task schedule) :=
  inferInstanceAs (Decidable (Along _ _ _ _))

/-- Every operation of `j` was performed before every operation of `i`. -/
def Precedes (j i : ι) (history : List (AclEvent ι)) : Prop :=
  history.Pairwise fun newer older => newer.thread = j → older.thread ≠ i

/-- Of two calls that conflict and have begun, one had ended when the other began. -/
def Separate (task : ι → Call) (c : AclCrew ι) : Prop :=
  ∀ i j, i ≠ j → (task i).conflicts (task j) = true → (∃ e ∈ c.history, e.thread = i) →
    (∃ e ∈ c.history, e.thread = j) →
    (Precedes j i c.history ∧ (c.threads j).running = false) ∨ (Precedes i j c.history ∧ (c.threads i).running = false)

/-- Calls write the rows of their subjects. -/
def Owned (task : ι → Call) (history : List (AclEvent ι)) : Prop :=
  ∀ e ∈ history, ∀ did, touches did e = true → did ∈ (task e.thread).subjects

section
variable {task : ι → Call} {c : AclCrew ι} {i j : ι} {o : RowOp AclRow}
  {k : aclStore.Reply o → AclProgram (Option AclEntry)} {did : String}

theorem Call.conflicts_comm (a b : Call) : a.conflicts b = b.conflicts a := by
  have hsubjects : (a.subjects.any fun did => decide (did ∈ b.subjects)) =
      b.subjects.any fun did => decide (did ∈ a.subjects) := by
    rw [Bool.eq_iff_iff]
    simp only [List.any_eq_true, decide_eq_true_eq]
    exact ⟨fun ⟨did, ha, hb⟩ => ⟨did, hb, ha⟩, fun ⟨did, hb, ha⟩ => ⟨did, ha, hb⟩⟩
  rw [Call.conflicts, Call.conflicts, hsubjects, Bool.and_comm a.guarded]

theorem guarded_of_shared {a b : Call} (ha : did ∈ a.subjects) (hb : did ∈ b.subjects) (h : a.conflicts b = false) :
    a.guarded = true ∧ b.guarded = true := by
  have hany : (a.subjects.any fun did => decide (did ∈ b.subjects)) = true :=
    List.any_eq_true.mpr ⟨did, ha, decide_eq_true hb⟩
  simpa [Call.conflicts, hany] using h

theorem conflicts_of_rotates {a b : Call} (ha : a.rotates = some did) (hb : b.rotates = some did) :
    a.conflicts b = true := by
  obtain ⟨auth, presented, rfl, rfl⟩ := swap_of_rotates ha
  obtain ⟨auth', presented', rfl, hsame⟩ := swap_of_rotates hb
  simp [Call.conflicts, Call.subjects, Call.guarded, hsame]

theorem wrote_of_reads {reply : RowOp.Reply o} (h : o.writes = false) : RowOp.wrote o reply = [] := by
  cases o <;> cases h <;> rfl

theorem mem_subjects_of_wrote {call : Call} {diary : Diary} {reply : RowOp.Reply o} (hpermits : Permits call diary o)
    (h : AclKey.entry did ∈ RowOp.wrote o reply) : did ∈ call.subjects := by
  have hbatch {checks : List (Check AclRow)} {w : Write AclRow} {done : Bool}
      (h : AclKey.entry did ∈ RowOp.wrote (.batch checks [w]) done) : w.key = .entry did := by
    cases done
    · cases h
    · exact (List.mem_singleton.mp h).symm
  cases hpermits with
  | read _ hreads =>
    rw [wrote_of_reads hreads] at h
    cases h
  | create _ _ _ _ hsubject =>
    cases hbatch h
    exact List.mem_singleton.mpr hsubject
  | @update _ _ _ _ _ row =>
    cases hbatch h
    exact List.mem_singleton.mpr row.property
  | @changeRole _ _ _ _ _ _ _ row =>
    cases hbatch h
    exact List.mem_singleton.mpr row.property
  | delete =>
    cases hbatch h
    exact List.mem_singleton_self _
  | swapStore =>
    cases hbatch h
    exact List.mem_cons_of_mem _ (List.mem_singleton_self _)
  | swapRemove =>
    cases hbatch h
    exact List.mem_cons_self
  | exercise =>
    rw [RowOp.wrote] at h
    split at h
    · simpa [Call.subjects] using h
    · cases h
  | wait => cases h

/-! ### One operation -/

theorem separate_perform (h : Separate task c) (hthread : c.threads i = .op o k) (hapart : Apart task c i) :
    Separate task (c.perform conduct i o k) := by
  have hrunning : (c.threads i).running = true := by rw [hthread, Program.running]
  have hbegun {j : ι} (hj : j ≠ i) (hsome : ∃ e ∈ (c.perform conduct i o k).history, e.thread = j) :
      ∃ e ∈ c.history, e.thread = j := by
    obtain ⟨e, he, rfl⟩ := hsome
    rcases List.mem_cons.mp he with rfl | he
    · exact absurd rfl hj
    · exact ⟨e, he, rfl⟩
  have hcons {j j' : ι} (hj : j ≠ i) (h : Precedes j j' c.history) : Precedes j j' (c.perform conduct i o k).history :=
    List.pairwise_cons.mpr ⟨fun _ _ heq => absurd heq (Ne.symm hj), h⟩
  have hother {j : ι} (hj : j ≠ i) : (c.perform conduct i o k).threads j = c.threads j := Function.update_of_ne hj ..
  -- a call that conflicts with the one that performs had ended when that one began
  have hended {j : ι} (hj : j ≠ i) (hconflicts : (task i).conflicts (task j) = true)
      (hsome : ∃ e ∈ (c.perform conduct i o k).history, e.thread = j) :
      Precedes j i (c.perform conduct i o k).history ∧ ((c.perform conduct i o k).threads j).running = false := by
    rw [hother hj]
    have hjbegun := hbegun hj hsome
    by_cases hibegun : ∃ e ∈ c.history, e.thread = i
    · rcases h i j (Ne.symm hj) hconflicts hibegun hjbegun with ⟨hprecedes, hj'⟩ | ⟨-, hi⟩
      · exact ⟨hcons hj hprecedes, hj'⟩
      · exact absurd hrunning (Bool.eq_false_iff.mp hi)
    · have hnone : ∀ e ∈ c.history, e.thread ≠ i := fun e he heq => hibegun ⟨e, he, heq⟩
      refine ⟨hcons hj (List.pairwise_of_forall_mem_list fun _ _ older holder _ => hnone older holder), ?_⟩
      by_contra hjrunning
      rw [Bool.not_eq_false] at hjrunning
      have hclear := hapart hnone j (by simpa [underWay, hjrunning] using hjbegun)
      exact absurd hconflicts (Bool.eq_false_iff.mp hclear)
  intro a b hne hconflicts ha hb
  by_cases hai : a = i
  · subst hai
    exact .inl (hended (Ne.symm hne) hconflicts hb)
  · by_cases hbi : b = i
    · subst hbi
      rw [Call.conflicts_comm] at hconflicts
      exact .inr (hended hne hconflicts ha)
    · rw [hother hai, hother hbi]
      exact (h a b hne hconflicts (hbegun hai ha) (hbegun hbi hb)).imp (And.imp_left (hcons hbi))
        (And.imp_left (hcons hai))

omit [DecidableEq ι] in
/-- Since a call began, what has run beside it does not conflict with it. -/
theorem since_begun (h : Separate task c) (hrunning : (c.threads i).running = true) {recent earlier : List (AclEvent ι)}
    {r e : AclEvent ι} (hsplit : c.history = recent ++ r :: earlier) (hr : r.thread = i) (he : e ∈ recent)
    (hne : e.thread ≠ i) : (task i).conflicts (task e.thread) = false := by
  by_contra hconflicts
  rw [Bool.not_eq_false] at hconflicts
  have hmem : e ∈ c.history := hsplit ▸ List.mem_append_left _ he
  have hrmem : r ∈ c.history := hsplit ▸ List.mem_append_right _ List.mem_cons_self
  rcases h i e.thread (Ne.symm hne) hconflicts ⟨r, hrmem, hr⟩ ⟨e, hmem, rfl⟩ with ⟨hprecedes, -⟩ | ⟨-, hended⟩
  · rw [Precedes, hsplit] at hprecedes
    exact (List.pairwise_append.mp hprecedes).2.2 e he r List.mem_cons_self rfl hr
  · rw [hrunning] at hended
    cases hended

omit [DecidableEq ι] in
/-- Whatever has touched a subject of a call since it began is the call's own, or both calls compare the version. -/
theorem touched_since (h : Separate task c) (howned : Owned task c.history) (hrunning : (c.threads i).running = true)
    {recent earlier : List (AclEvent ι)} {r e : AclEvent ι} (hsplit : c.history = recent ++ r :: earlier)
    (hr : r.thread = i) (hdid : did ∈ (task i).subjects) (he : e ∈ recent) (htouches : touches did e = true) :
    e.thread = i ∨ (task i).guarded = true ∧ (task e.thread).guarded = true := by
  by_cases hne : e.thread = i
  · exact .inl hne
  · have hmem : e ∈ c.history := hsplit ▸ List.mem_append_left _ he
    exact .inr (guarded_of_shared hdid (howned e hmem did htouches) (since_begun h hrunning hsplit hr he hne))

theorem untouched_of_unwritten {history : List (AclEvent ι)} {e : AclEvent ι} (h : Unwritten (Crew.diary i history))
    (he : e ∈ history) (hi : e.thread = i) : touches did e = false := by
  obtain ⟨_, o, reply⟩ := e
  cases hi
  have hreads : o.writes = false := h _ (Crew.mem_diary.mpr he)
  simp [touches, wrote_of_reads hreads]

/-! ### Versions -/

/-- A change of role under way finds the row it read with a version that has moved if anything was stored since. -/
def Versioned (task : ι → Call) (c : AclCrew ι) : Prop :=
  ∀ i did, (task i).guarded = true → did ∈ (task i).subjects → (c.threads i).running = true →
    ∀ recent earlier, ∀ row : Stored did, c.history = recent ++ ⟨i, .get (.entry did), some row⟩ :: earlier →
      ∃ now : Stored did, c.store.row (.entry did) = some now ∧ row.val.version ≤ now.val.version ∧
        (row.val.version = now.val.version → ∀ e ∈ recent, touches did e = false)

theorem eq_changeRole_of_guarded {call : Call} (hguarded : call.guarded = true) (hdid : did ∈ call.subjects) :
    ∃ auth fromRole toRole, call = .changeRole auth did fromRole toRole := by
  cases call with
  | changeRole auth subject fromRole toRole => exact ⟨auth, fromRole, toRole, by rw [List.mem_singleton.mp hdid]⟩
  | _ => cases hguarded

theorem unwritten_of_changeRole {auth : AuthClaims} {subject fromRole toRole : String} {diary : Diary}
    (hpermits : Permits (.changeRole auth subject fromRole toRole) diary o) : Unwritten diary := by
  cases hpermits with
  | read hunwritten => exact hunwritten
  | changeRole hunwritten => exact hunwritten

omit [DecidableEq ι] in
/-- A change of role that is stored finds a row of the version it read. -/
theorem version_of_stored {auth : AuthClaims} {subject fromRole toRole : String} {diary : Diary} {s : AclState}
    (hpermits : Permits (.changeRole auth subject fromRole toRole) diary o)
    (hwrote : AclKey.entry subject ∈ RowOp.wrote o (RowOp.exec o s).1)
    (hsome : (s.row (.entry subject)).isSome = true) :
    ∃ (row now : Stored subject) (role : Role) (checks : List (Check AclRow)), Unwritten diary ∧
      Saw diary subject (some row) ∧ s.row (.entry subject) = some now ∧ now.val.version = row.val.version ∧
      o = .batch checks [putEntry (roleChanged row.val role)] ∧
      (RowOp.exec o s).2.row (.entry subject) = some ⟨roleChanged row.val role, row.property⟩ := by
  cases hpermits with
  | read _ hreads =>
    rw [wrote_of_reads hreads] at hwrote
    cases hwrote
  | @changeRole _ _ _ _ _ _ role row again hunwritten _ hseen _ _ _ hversion =>
    obtain ⟨entry, rfl⟩ := row
    rcases RowOp.exec_batch_cases [stillThat entry.did again] [putEntry (roleChanged entry role)] s with
      ⟨hholds, hexec⟩ | hexec
    · cases again with
      | none =>
        have hnone : (s.row (.entry entry.did)).isNone = true := by simpa [stillThat, Rows.holds] using hholds
        rw [Option.isNone_iff_eq_none.mp hnone] at hsome
        cases hsome
      | some now =>
        have hnow : s.row (.entry entry.did) = some now := by simpa [stillThat, Rows.holds] using hholds
        refine ⟨⟨entry, rfl⟩, now, role, _, hunwritten, hseen, hnow, hversion, rfl, ?_⟩
        rw [hexec]
        exact Rows.row_set_self s _ _
    · rw [hexec] at hwrote
      cases hwrote

theorem versioned_perform (h : Versioned task c) (hseparate : Separate task (c.perform conduct i o k))
    (howned : Owned task (c.perform conduct i o k).history) (hpermits : Permits (task i) (Crew.diary i c.history) o)
    (hnext : (c.perform conduct i o k).Permitted Permits task) (hthread : c.threads i = .op o k) :
    Versioned task (c.perform conduct i o k) := by
  intro j did hguarded hdid hrunning recent earlier row hsplit
  have hheld : ∀ recent', recent = ⟨i, o, (RowOp.exec o c.store).1⟩ :: recent' →
      c.history = recent' ++ ⟨j, .get (.entry did), some row⟩ :: earlier → (c.threads j).running = true →
      (RowOp.exec o c.store).2.row (.entry did) = c.store.row (.entry did) →
      touches did (⟨i, o, (RowOp.exec o c.store).1⟩ : AclEvent ι) = false →
      ∃ now : Stored did, (RowOp.exec o c.store).2.row (.entry did) = some now ∧ row.val.version ≤ now.val.version ∧
        (row.val.version = now.val.version → ∀ e ∈ recent, touches did e = false) := by
    rintro recent' rfl hhistory hj hrow huntouched
    obtain ⟨now, hnow, hle, huntouched'⟩ := h j did hguarded hdid hj recent' earlier row hhistory
    refine ⟨now, hrow.trans hnow, hle, fun heq e he => ?_⟩
    rcases List.mem_cons.mp he with rfl | he
    · exact huntouched
    · exact huntouched' heq e he
  change _ :: c.history = _ at hsplit
  by_cases hj : j = i
  · subst hj
    cases hwrites : o.writes with
    | false =>
      have hsame : (RowOp.exec o c.store).2 = c.store := aclStore.exec_read o c.store hwrites
      cases recent with
      | nil =>
        obtain ⟨heq, -⟩ := List.cons.inj hsplit
        obtain ⟨-, rfl, hreply⟩ := Event.mk.inj heq
        exact ⟨row, eq_of_heq hreply, le_refl _, fun _ _ he => nomatch he⟩
      | cons e recent' =>
        obtain ⟨rfl, hhistory⟩ := List.cons.inj hsplit
        refine hheld recent' rfl hhistory (by rw [hthread, Program.running]) (by rw [hsame]) ?_
        simp [touches, wrote_of_reads hwrites]
    | true =>
      -- a change of role ends with its write
      obtain ⟨auth, fromRole, toRole, htask⟩ := eq_changeRole_of_guarded hguarded hdid
      cases hlast : (c.perform conduct j o k).threads j with
      | ret =>
        rw [hlast] at hrunning
        cases hrunning
      | op o' k' =>
        have hpermits' := hnext j o' k' hlast
        rw [htask, Crew.perform, Crew.diary_cons_self] at hpermits'
        have hreads : o.writes = false := unwritten_of_changeRole hpermits' _ List.mem_cons_self
        rw [hwrites] at hreads
        cases hreads
  · have hjrunning : (c.threads j).running = true := by
      simpa [Crew.perform, Function.update_of_ne hj] using hrunning
    cases recent with
    | nil => exact absurd (Event.mk.inj (List.cons.inj hsplit).1).1.symm hj
    | cons e recent' =>
      obtain ⟨rfl, hhistory⟩ := List.cons.inj hsplit
      by_cases htouches : touches did (⟨i, o, (RowOp.exec o c.store).1⟩ : AclEvent ι) = true
      · obtain ⟨now, hnow, hle, -⟩ := h j did hguarded hdid hjrunning recent' earlier row hhistory
        have hwrote := of_decide_eq_true htouches
        have hboth := (touched_since hseparate howned hrunning hsplit rfl hdid List.mem_cons_self htouches).resolve_left
          (Ne.symm hj)
        obtain ⟨auth, fromRole, toRole, htask⟩ :=
          eq_changeRole_of_guarded hboth.2 (mem_subjects_of_wrote hpermits hwrote)
        rw [htask] at hpermits
        obtain ⟨row', now', role, -, -, -, hnow', hversion, -, hrow⟩ :=
          version_of_stored hpermits hwrote (by rw [hnow, Option.isSome_some])
        cases hnow.symm.trans hnow'
        have hmoved : (roleChanged row'.val role).version = now.val.version + 1 := by rw [hversion, roleChanged]
        exact ⟨_, hrow, by rw [hmoved]; omega, fun heq => absurd heq (by rw [hmoved]; omega)⟩
      · refine hheld recent' rfl hhistory hjrunning ?_ (Bool.eq_false_iff.mpr htouches)
        exact RowOp.row_exec_of_notMem_wrote o c.store fun hwrote => htouches (decide_eq_true hwrote)

end

/-! ### What the operations are meant to keep -/

def Computes (call : Call) (entry : AclEntry) (o : RowOp AclRow) : Prop :=
  match call with
  | .update _ _ params => o = .batch [] [putEntry (params.patched entry)]
  | .changeRole _ _ _ _ => ∃ checks role, o = .batch checks [putEntry (roleChanged entry role)]
  | _ => False

/-- No write is lost and no revocation undone in a history, newest event first. -/
structure Kept (task : ι → Call) (history : List (AclEvent ι)) : Prop where
  /-- What an update or a role change has written was computed from the row it replaced. -/
  computed : ∀ after before w did, history = after ++ w :: before → (task w.thread).edits = some did →
    touches did w = true →
    ∃ recent earlier, ∃ row : Stored did, before = recent ++ ⟨w.thread, .get (.entry did), some row⟩ :: earlier ∧
      (∀ e ∈ recent, touches did e = false) ∧ Computes (task w.thread) row.val w.op
  /-- A call that read an entry before it was deleted stores neither that entry again nor, by rotation, a successor. -/
  revoked : ∀ after before d auth did, history = after ++ d :: before → task d.thread = .delete auth did →
    touches did d = true → ∀ w ∈ after, (∃ r ∈ before, r.thread = w.thread ∧ finds did r = true) →
    did ∉ stored w ∧ ((task w.thread).rotates = some did → stored w = [])

/-- The rotation `i` of the subject has read an entry that was there after the rotation `j` had removed its own. -/
def ReadAfter (i j : ι) (did : String) (history : List (AclEvent ι)) : Prop :=
  ∃ recent earlier, ∃ row : Stored did, history = recent ++ ⟨i, .get (.entry did), some row⟩ :: earlier ∧
    ∃ r, (⟨j, .batch [] [.delete (.entry did)], r⟩ : AclEvent ι) ∈ earlier

/-- What holds along the runs of calls that are apart. -/
structure Orderly (task : ι → Call) (c : AclCrew ι) : Prop where
  separate : Separate task c
  owned : Owned task c.history
  versioned : Versioned task c
  kept : Kept task c.history

section
variable {task : ι → Call} {c : AclCrew ι} {i : ι} {o : RowOp AclRow}
  {k : aclStore.Reply o → AclProgram (Option AclEntry)} {did : String}

/-- An update or a role change that touches its subject's row. -/
theorem computed_perform (h : Orderly task c) (hthread : c.threads i = .op o k)
    (hpermits : Permits (task i) (Crew.diary i c.history) o) (hedits : (task i).edits = some did)
    (htouches : touches did (⟨i, o, (RowOp.exec o c.store).1⟩ : AclEvent ι) = true) :
    ∃ recent earlier, ∃ row : Stored did, c.history = recent ++ ⟨i, .get (.entry did), some row⟩ :: earlier ∧
      (∀ e ∈ recent, touches did e = false) ∧ Computes (task i) row.val o := by
  have hrunning : (c.threads i).running = true := by rw [hthread, Program.running]
  have hwrote := of_decide_eq_true htouches
  cases hcall : task i with
  | update auth subject params =>
    rw [hcall] at hpermits hedits
    cases hedits
    cases hpermits with
    | read _ hreads =>
      rw [wrote_of_reads hreads] at hwrote
      cases hwrote
    | @update _ _ _ _ _ row hunwritten _ hseen =>
      obtain ⟨recent, earlier, hsplit⟩ := List.append_of_mem (Crew.mem_diary.mp hseen)
      refine ⟨recent, earlier, row, hsplit, fun e he => ?_, rfl⟩
      by_contra htouched
      rw [Bool.not_eq_false] at htouched
      rcases touched_since h.separate h.owned hrunning hsplit rfl (by rw [hcall]; exact List.mem_singleton_self _) he
        htouched with hown | ⟨hguarded, -⟩
      · rw [untouched_of_unwritten hunwritten (hsplit ▸ List.mem_append_left _ he) hown] at htouched
        cases htouched
      · rw [hcall] at hguarded
        cases hguarded
  | changeRole auth subject fromRole toRole =>
    have hversioned := h.versioned i subject (by rw [hcall]; rfl)
      (by rw [hcall]; exact List.mem_singleton_self _) hrunning
    rw [hcall] at hpermits hedits
    cases hedits
    have hread {row : Stored did} (hseen : Saw (Crew.diary i c.history) did (some row)) :
        ∃ recent earlier, c.history = recent ++ ⟨i, .get (.entry did), some row⟩ :: earlier ∧
          ∃ now : Stored did, c.store.row (.entry did) = some now ∧ row.val.version ≤ now.val.version ∧
            (row.val.version = now.val.version → ∀ e ∈ recent, touches did e = false) := by
      obtain ⟨recent, earlier, hsplit⟩ := List.append_of_mem (Crew.mem_diary.mp hseen)
      exact ⟨recent, earlier, hsplit, hversioned recent earlier row hsplit⟩
    obtain ⟨row, hseen⟩ : ∃ row, Saw (Crew.diary i c.history) did (some row) := by
      cases hpermits with
      | read _ hreads =>
        rw [wrote_of_reads hreads] at hwrote
        cases hwrote
      | changeRole _ _ hseen => exact ⟨_, hseen⟩
    obtain ⟨-, -, -, now, hnow, -⟩ := hread hseen
    obtain ⟨row, now', role, checks, -, hseen, hnow', hversion, ho, -⟩ :=
      version_of_stored hpermits hwrote (by rw [hnow, Option.isSome_some])
    cases hnow.symm.trans hnow'
    obtain ⟨recent, earlier, hsplit, now', hnow', -, huntouched⟩ := hread hseen
    cases hnow.symm.trans hnow'
    exact ⟨recent, earlier, row, hsplit, huntouched hversion.symm, checks, role, ho⟩
  | create | delete | swap | exercise | wait =>
    rw [hcall] at hedits
    cases hedits

omit [DecidableEq ι] in
theorem wrote_of_stored {e : AclEvent ι} (h : did ∈ stored e) : AclKey.entry did ∈ RowOp.wrote e.op e.reply := by
  unfold stored at h
  split at h
  · rename_i writes done
    split at h
    · rename_i hdone
      obtain ⟨w, hw, hstored⟩ := List.mem_filterMap.mp h
      rw [RowOp.wrote, if_pos hdone]
      refine List.mem_map.mpr ⟨w, hw, ?_⟩
      unfold storedBy at hstored
      split at hstored
      · cases hstored
        rfl
      · cases hstored
    · cases h
  · split at h
    · rename_i hmoved
      rw [List.mem_singleton.mp h, RowOp.wrote, if_pos hmoved]
      exact List.mem_cons_of_mem _ (List.mem_singleton_self _)
    · cases h
  · cases h

omit [DecidableEq ι] in
theorem stored_of_delete {auth : AuthClaims} {diary : Diary} {reply : RowOp.Reply o}
    (hpermits : Permits (.delete auth did) diary o) : stored (⟨i, o, reply⟩ : AclEvent ι) = [] := by
  cases hpermits with
  | read _ hreads => cases o <;> cases hreads <;> rfl
  | delete => cases reply <;> rfl

omit [DecidableEq ι] in
/-- A call that goes on after a deletion of its subject that it had begun before is that deletion. -/
theorem delete_of_read_before (h : Orderly task c) (hthread : c.threads i = .op o k) {after before : List (AclEvent ι)}
    {d r : AclEvent ι}
    {auth : AuthClaims} (hsplit : c.history = after ++ d :: before) (hdelete : task d.thread = .delete auth did)
    (htouches : touches did d = true) (hr : r ∈ before) (hi : r.thread = i) (hdid : did ∈ (task i).subjects) :
    task i = .delete auth did := by
  have hrunning : (c.threads i).running = true := by rw [hthread, Program.running]
  obtain ⟨between, earlier, rfl⟩ := List.append_of_mem hr
  have hsplit' : c.history = (after ++ d :: between) ++ r :: earlier := by simp [hsplit]
  rcases touched_since h.separate h.owned hrunning hsplit' hi hdid (List.mem_append_right _ List.mem_cons_self) htouches
    with hown | ⟨-, hguarded⟩
  · rw [← hown, hdelete]
  · rw [hdelete] at hguarded
    cases hguarded

theorem kept_perform (h : Orderly task c) (hthread : c.threads i = .op o k)
    (hpermits : Permits (task i) (Crew.diary i c.history) o) : Kept task (c.perform conduct i o k).history where
  computed after before w did hsplit hedits htouches := by
    cases after with
    | nil =>
      obtain ⟨rfl, rfl⟩ := List.cons.inj hsplit
      exact computed_perform h hthread hpermits hedits htouches
    | cons _ after => exact h.kept.computed after before w did (List.cons.inj hsplit).2 hedits htouches
  revoked after before d auth did hsplit hdelete htouches w hw hread := by
    cases after with
    | nil => cases hw
    | cons e after =>
      obtain ⟨rfl, hhistory⟩ := List.cons.inj hsplit
      rcases List.mem_cons.mp hw with rfl | hw
      · obtain ⟨r, hr, hi, -⟩ := hread
        have hdeletion := delete_of_read_before h hthread hhistory hdelete htouches hr hi
        refine ⟨fun hstored => ?_, fun hrotates => ?_⟩
        · rw [hdeletion (mem_subjects_of_wrote hpermits (wrote_of_stored hstored))] at hpermits
          rw [stored_of_delete hpermits] at hstored
          cases hstored
        · cases hcall : task i with
          | swap =>
            have hrotated := hrotates
            rw [hcall] at hrotated
            cases hrotated
            cases hcall.symm.trans (hdeletion (by rw [hcall]; exact List.mem_cons_self))
          | create | update | changeRole | delete | exercise | wait =>
            rw [hcall] at hrotates
            cases hrotates
      · exact h.kept.revoked after before d auth did hhistory hdelete htouches w hw hread

theorem Orderly.perform (h : Orderly task c) (hpermitted : c.Permitted Permits task)
    (hnext : (c.perform conduct i o k).Permitted Permits task) (hthread : c.threads i = .op o k)
    (hapart : Apart task c i) : Orderly task (c.perform conduct i o k) := by
  have hpermits := hpermitted i o k hthread
  have hseparate := separate_perform h.separate hthread hapart
  have howned : Owned task (c.perform conduct i o k).history := by
    intro e he did htouches
    rcases List.mem_cons.mp he with rfl | he
    · exact mem_subjects_of_wrote hpermits (of_decide_eq_true htouches)
    · exact h.owned e he did htouches
  exact ⟨hseparate, howned, versioned_perform h.versioned hseparate howned hpermits hnext hthread,
    kept_perform h hthread hpermits⟩

omit [DecidableEq ι] in
theorem orderly_start (s : AclState) (task : ι → Call) : Orderly task (calls s task) := by
  have hnone : (calls s task).history = [] := rfl
  have hsplit {newer older : List (AclEvent ι)} {e : AclEvent ι} : [] ≠ newer ++ e :: older := by simp
  refine ⟨fun i j _ _ hbegun _ => ?_, fun e he => ?_, fun i did _ _ _ recent => ?_, ⟨fun newer => ?_, fun newer => ?_⟩⟩
  · rw [hnone] at hbegun
    obtain ⟨e, he, -⟩ := hbegun
    cases he
  · rw [hnone] at he
    cases he
  all_goals
    rw [hnone]
    intros
    exact absurd ‹_› hsplit

omit [DecidableEq ι] in
theorem readAfter_of_precedes {history : List (AclEvent ι)} {i j : ι} {row : Stored did} {r : Bool} (hij : i ≠ j)
    (hprecedes : Precedes j i history) (hread : (⟨i, .get (.entry did), some row⟩ : AclEvent ι) ∈ history)
    (hremoved : (⟨j, .batch [] [.delete (.entry did)], r⟩ : AclEvent ι) ∈ history) : ReadAfter i j did history := by
  obtain ⟨recent, earlier, rfl⟩ := List.append_of_mem hread
  refine ⟨recent, earlier, row, rfl, r, ?_⟩
  rcases List.mem_append.mp hremoved with hrecent | hrest
  · exact absurd rfl ((List.pairwise_append.mp hprecedes).2.2 _ hrecent _ List.mem_cons_self rfl)
  · rcases List.mem_cons.mp hrest with heq | hearlier
    · exact absurd (Event.mk.inj heq).1.symm hij
    · exact hearlier

end

/-- An initiator of `acme` beside the root. -/
def bobAcl : AclState :=
  put rootedAcl { AclEntry.new "did:bob" .initiator "did:root" 0 with allowedContexts := ["acme"] }

def bobClaims : AuthClaims := ⟨"did:bob", .initiator, ["acme"], "session", ["did"]⟩

/-- The root demotes, labels and deletes an initiator, who rotates to two other subjects, and changes the role twice. -/
def bobCalls : Fin 7 → Call
  | 0 => .update rootClaims "did:bob" { UpdateAclParams.unchanged with role := some .reader }
  | 1 => .update rootClaims "did:bob" { UpdateAclParams.unchanged with label := some "bob" }
  | 2 => .delete rootClaims "did:bob"
  | 3 => .swap bobClaims (.ok "did:bob:1")
  | 4 => .swap bobClaims (.ok "did:bob:2")
  | 5 => .changeRole rootClaims "did:bob" "initiator" "reader"
  | _ => .changeRole rootClaims "did:bob" "initiator" "application"

/-- Reads, then another call's writes, then its own. -/
def demotionLost : List (Fin 7) := [1, 1, 1, 0, 0, 0, 0, 1]

def deletionUndone : List (Fin 7) := [1, 1, 1, 2, 2, 1]

def rotatedTwice : List (Fin 7) := [3, 3, 3, 4, 4, 4, 3, 3, 4, 4]

/-- Two changes of role that overlap, of which the later is refused, then a labelling and two rotations in turn. -/
def inTurn : List (Fin 7) :=
  [5, 6, 5, 6, 5, 6, 5, 5, 6, 1, 1, 1, 1, 3, 3, 3, 3, 3, 4, 4]

end TrustInfrastructure.Access
