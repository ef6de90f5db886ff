import TrustInfrastructure.Access.Races

/-!
# A hand-off is exercised once

The holder of a marked entry exercises it while others update and delete the entry. The commit is a compare-and-move of
the row that was read, so an exercise alone is exactly once; but a stale `updateAcl` stores the entry again, marker
included, after it was moved away or deleted, and then it is exercised again (`exercised_twice`). And role and act scope
of the successor are judged by the holder's token, which may be older than the entry.

When no update stores the entry after it is gone, and the token at the commit says what the entry says, a hand-off is
what it should be (`handoff_once`). The invariant (`Marked`): while the entry is there it carries its marker and
nothing has been exercised or deleted; once it is gone, it was exercised at most once.
-/

namespace TrustInfrastructure.Access

open Lib (Program Conduct Record Event Crew Rows RowOp Check Write MoveOutcome run Along bind_eq_ok)
open AclProgram

/-! ### What an exercise that commits has passed -/

section
variable {auth : AuthClaims} {me entry : AclEntry} {marker : HandOff} {now : Nat}

theorem withinMarked_ok (h : withinMarked auth me entry = .ok ()) :
    validateAclModification auth entry.role entry.allowedContexts = .ok () ∧
      Within auth { me with expiresAt := none } entry ∧
      ∀ cap ∈ entry.capabilities, isAdditive cap = true → cap ∈ me.capabilities := by
  obtain ⟨_, _, h⟩ := bind_eq_ok.mp h
  obtain ⟨_, hscope, h⟩ := bind_eq_ok.mp h
  obtain ⟨_, hwithin, h⟩ := bind_eq_ok.mp h
  refine ⟨hscope, validateWithinCaller_ok hwithin, fun cap hcap hadditive => ?_⟩
  split at h
  · cases h
  · rename_i hnone
    have hnot := List.find?_eq_none.mp hnone cap (List.mem_filter.mpr ⟨hcap, hadditive⟩)
    simpa using hnot

theorem withinGranter_ok (h : withinGranter auth marker entry now = .ok ()) :
    validateAclModification (granterClaims auth marker) entry.role entry.allowedContexts = .ok () ∧
      Within (granterClaims auth marker) (granterEntry marker now) entry := by
  unfold withinGranter at h
  dsimp only at h
  split at h
  · rename_i hjudged
    obtain ⟨_, _, hjudged⟩ := bind_eq_ok.mp hjudged
    obtain ⟨_, hscope, hjudged⟩ := bind_eq_ok.mp hjudged
    obtain ⟨_, _, hwithin⟩ := bind_eq_ok.mp hjudged
    exact ⟨hscope, validateWithinCaller_ok hwithin⟩
  · cases h

end

structure Succeeds (marked : AclEntry) (marker : HandOff) (entry : AclEntry) : Prop where
  acts : ∀ ctx, entry.actScope.covers ctx = true →
    marked.actScope.covers ctx = true ∧ (actScopeFor marker.bound.role marker.bound.allowedContexts).covers ctx = true
  capabilities : ∀ cap ∈ entry.effective, isAdditive cap = false →
    cap ∈ marked.effective ∧ cap ∈ effectiveCapabilities marker.bound.role marker.bound.capabilities
  keys : (∀ mine, marked.allowedKeys = some mine → ∃ theirs, entry.allowedKeys = some theirs ∧ theirs ⊆ mine) ∧
    ∀ mine, marker.bound.allowedKeys = some mine → ∃ theirs, entry.allowedKeys = some theirs ∧ theirs ⊆ mine
  additive : ∀ cap ∈ entry.effective, isAdditive cap = true → cap ∈ marked.effective
  approves : entry.approveScope = .none
  expiry : entry.expiresAt = marker.bound.expiresAt
  unmarked : entry.handoff = none

theorem succeeds_of_within {auth : AuthClaims} {me : AclEntry} {marker : HandOff} {successor : HandOffSuccessor}
    {createdAt now : Nat} (hrole : me.role = auth.role) (hcontexts : me.allowedContexts = auth.allowedContexts)
    (hmarked : withinMarked auth me (successorEntry auth me marker successor createdAt) = .ok ())
    (hgranter : withinGranter auth marker (successorEntry auth me marker successor createdAt) now = .ok ()) :
    Succeeds me marker (successorEntry auth me marker successor createdAt) := by
  obtain ⟨hscope, hwithin, hadditive⟩ := withinMarked_ok hmarked
  obtain ⟨hscope', hwithin'⟩ := withinGranter_ok hgranter
  have hacts : me.actScope = auth.actScope := by rw [AclEntry.actScope, hrole, hcontexts, AuthClaims.actScope]
  refine ⟨fun ctx hctx => ⟨?_, validateAclModification_ok hscope' ctx hctx⟩, fun cap hcap hno => ⟨?_, ?_⟩,
    ⟨hwithin.keys, hwithin'.keys⟩, fun cap hcap hadd => ?_, rfl, rfl, rfl⟩
  · rw [hacts]
    exact validateAclModification_ok hscope ctx hctx
  · rw [AclEntry.effective, hrole]
    exact hwithin.capabilities cap hcap hno
  · exact hwithin'.capabilities cap hcap hno
  · exact (mem_effectiveCapabilities_of_additive hadd).mpr
      (hadditive cap ((mem_effectiveCapabilities_of_additive hadd).mp hcap) hadd)

/-! ### The machine -/

section
variable {ι : Type} [DecidableEq ι]

def Call.onHandOff (did : String) : Call → Bool
  | .exercise auth _ _ => decide (auth.did = did)
  | .update _ subject _ => decide (subject = did)
  | .delete _ subject => decide (subject = did)
  | .wait _ => true
  | _ => false

/-- A commit that has moved the row away. -/
def exercised (e : AclEvent ι) : Bool :=
  match e with
  | ⟨_, .move _ _ _ _, outcome⟩ => decide ((show MoveOutcome from outcome) = .moved)
  | _ => false

def deletes (did : String) (e : AclEvent ι) : Bool :=
  match e with
  | ⟨_, .batch _ [.delete (.entry d)], done⟩ => decide (d = did) && (show Bool from done)
  | _ => false

def current (task : ι → Call) (did : String) (s : AclState) (i : ι) (o : RowOp AclRow) : Bool :=
  match task i with
  | .update _ _ _ => !o.writes || (entryOf s did).isSome
  | .exercise auth _ _ => !o.writes ||
      (entryOf s did).all fun me => decide (me.role = auth.role) && decide (me.allowedContexts = auth.allowedContexts)
  | _ => true

def movedEntries : RowOp AclRow → Option (AclEntry × AclEntry)
  | .move (.entry _) row (.entry _) successor => some (row.val, successor.val)
  | _ => none

/-- While the entry is there it carries its marker and nothing has ended it; what has ended it has been followed by no
exercise; and an exercise has left a successor within the entry and the marker's bound. -/
structure Marked (did : String) (marker : HandOff) (s : AclState) (history : List (AclEvent ι)) : Prop where
  seen : ∀ i, ∀ row : Stored did, (⟨i, .get (.entry did), some row⟩ : AclEvent ι) ∈ history →
    row.val.handoff = some marker
  there : ∀ row : Stored did, s.row (.entry did) = some row → row.val.handoff = some marker ∧
    ∀ e ∈ history, exercised e = false ∧ deletes did e = false
  ended : ∀ after e before, history = after ++ e :: before → exercised e = true ∨ deletes did e = true →
    ∀ e' ∈ after, exercised e' = false
  committed : ∀ i, ∀ row : Stored did, ∀ entry : AclEntry,
    (⟨i, .move (.entry did) row (.entry entry.did) (⟨entry, rfl⟩ : Stored entry.did), .moved⟩ : AclEvent ι) ∈ history →
    row.val.handoff = some marker ∧ Succeeds row.val marker entry

variable {task : ι → Call} {did : String} {marker : HandOff} {s s' : AclState} {history : List (AclEvent ι)}
  {e : AclEvent ι}

omit [DecidableEq ι] in
theorem Marked.cons (h : Marked did marker s history) (hexercised : exercised e = false)
    (hseen : ∀ i, ∀ row : Stored did, (⟨i, .get (.entry did), some row⟩ : AclEvent ι) = e →
      row.val.handoff = some marker)
    (hthere : ∀ row : Stored did, s'.row (.entry did) = some row → deletes did e = false ∧
      row.val.handoff = some marker ∧ ∃ old : Stored did, s.row (.entry did) = some old) :
    Marked did marker s' (e :: history) where
  seen i row hrow := by
    rcases List.mem_cons.mp hrow with heq | hrow
    · exact hseen i row heq
    · exact h.seen i row hrow
  there row hrow := by
    obtain ⟨hdeletes, hmarker, old, hold⟩ := hthere row hrow
    refine ⟨hmarker, fun e' he' => ?_⟩
    rcases List.mem_cons.mp he' with rfl | he'
    · exact ⟨hexercised, hdeletes⟩
    · exact (h.there old hold).2 e' he'
  ended after e' before hsplit hends := by
    rcases List.cons_eq_append_iff.mp hsplit with ⟨rfl, -⟩ | ⟨after, rfl, rfl⟩
    · exact fun _ hnil => nomatch hnil
    · intro e'' he''
      rcases List.mem_cons.mp he'' with rfl | he''
      · exact hexercised
      · exact h.ended after e' before rfl hends e'' he''
  committed i row entry hmem := by
    rcases List.mem_cons.mp hmem with rfl | hmem
    · cases hexercised
    · exact h.committed i row entry hmem

omit [DecidableEq ι] in
theorem Marked.exercise {i : ι} {row : Stored did} {entry : AclEntry} (h : Marked did marker s history)
    (hrow : s.row (.entry did) = some row) (hsucceeds : Succeeds row.val marker entry)
    (hgone : s'.row (.entry did) = none) :
    Marked did marker s'
      (⟨i, .move (.entry did) row (.entry entry.did) (⟨entry, rfl⟩ : Stored entry.did), .moved⟩ :: history) where
  seen j row' hrow' := by
    rcases List.mem_cons.mp hrow' with heq | hrow'
    · cases heq
    · exact h.seen j row' hrow'
  there row' hrow' := by
    rw [hgone] at hrow'
    cases hrow'
  ended after e' before hsplit hends := by
    rcases List.cons_eq_append_iff.mp hsplit with ⟨rfl, -⟩ | ⟨after, rfl, rfl⟩
    · exact fun _ hnil => nomatch hnil
    · obtain ⟨hnot, hnot'⟩ := (h.there row hrow).2 e' (List.mem_append_right _ List.mem_cons_self)
      rcases hends with hends | hends
      · rw [hnot] at hends
        cases hends
      · rw [hnot'] at hends
        cases hends
  committed j row' entry' hmem := by
    rcases List.mem_cons.mp hmem with heq | hmem
    · obtain ⟨hrow', hentry⟩ := Prod.mk.inj (Option.some.inj (congrArg (fun e : AclEvent ι => movedEntries e.op) heq))
      have hsame : entry' = entry := hentry
      rw [hrow', hsame]
      exact ⟨(h.there row hrow).1, hsucceeds⟩
    · exact h.committed j row' entry' hmem

/-- **One operation** of calls on the hand-off keeps the invariant. -/
theorem marked_step {i : ι} {o : RowOp AclRow} (hcalls : (task i).onHandOff did = true)
    (h : Marked did marker s history) (hpermits : Permits (task i) (Crew.diary i history) o)
    (hcurrent : current task did s i o = true) :
    Marked did marker (aclStore.exec o s).2 (⟨i, o, (aclStore.exec o s).1⟩ :: history) := by
  unfold current at hcurrent
  generalize task i = call at hcalls hpermits hcurrent
  generalize hdiary : Crew.diary i history = diary at hpermits
  cases hpermits with
  | read _ hreads =>
    rw [aclStore.exec_read o s hreads]
    refine h.cons ?_ (fun j row heq => ?_) fun row hrow => ⟨?_, (h.there row hrow).1, row, hrow⟩
    · cases o <;> cases hreads <;> rfl
    · obtain ⟨rfl, hop, hreply⟩ := Event.mk.inj heq
      subst hop
      exact (h.there row (eq_of_heq hreply).symm).1
    · cases o <;> cases hreads <;> rfl
  | create | changeRole | swapStore | swapRemove => cases hcalls
  | @update _ _ params _ _ row _ _ hseen =>
    obtain rfl : _ = did := of_decide_eq_true hcalls
    obtain ⟨entry, hdid⟩ := row
    subst hdid
    have hmarker : entry.handoff = some marker := h.seen i ⟨entry, rfl⟩ (Crew.mem_diary.mp (hdiary ▸ hseen))
    have hthere : ∃ old : Stored entry.did, s.row (.entry entry.did) = some old := by
      have hsome : (entryOf s entry.did).isSome = true := by simpa [RowOp.writes] using hcurrent
      unfold entryOf at hsome
      split at hsome
      · rename_i old hold
        exact ⟨old, hold⟩
      · cases hsome
    refine h.cons rfl (fun _ _ heq => by cases heq) fun row hrow => ⟨rfl, ?_, hthere⟩
    have hput : (put s (params.patched entry)).row (.entry entry.did) = some row := hrow
    rw [show (put s (params.patched entry)).row (.entry entry.did) =
      some (⟨params.patched entry, rfl⟩ : Stored entry.did) from s.row_set_self _ _] at hput
    cases hput
    exact hmarker
  | delete =>
    obtain rfl : _ = did := of_decide_eq_true hcalls
    refine h.cons rfl (fun _ _ heq => by cases heq) fun _ hrow => ?_
    cases (s.row_set_self _ _).symm.trans hrow
  | @exercise auth successor _ _ _ createdAt marker' row _ hother _ hmarked hmine hgranter =>
    obtain rfl : auth.did = did := of_decide_eq_true hcalls
    rcases RowOp.exec_move_cases s (.entry auth.did) row (.entry successor.did)
      (⟨successorEntry auth row.val marker' successor createdAt, rfl⟩ : Stored successor.did) with
      ⟨hexec, hrow, -⟩ | ⟨outcome, hnot, hexec⟩
    · have hmarker : marker' = marker := by
        have hboth := hmarked.symm.trans (h.there row hrow).1
        exact Option.some.inj hboth
      subst hmarker
      have hagrees : row.val.role = auth.role ∧ row.val.allowedContexts = auth.allowedContexts := by
        simpa [RowOp.writes, entryOf_of_row hrow] using hcurrent
      have hne : AclKey.entry auth.did ≠ AclKey.entry successor.did := fun heq =>
        hother (AclKey.entry.inj heq).symm
      rw [show aclStore.exec _ s = _ from hexec]
      exact h.exercise hrow (succeeds_of_within hagrees.1 hagrees.2 hmine hgranter)
        (by rw [Rows.row_set_of_ne _ hne, Rows.row_set_self])
    · rw [show aclStore.exec _ s = _ from hexec]
      refine h.cons ?_ (fun _ _ heq => by cases heq) fun row hrow => ⟨rfl, (h.there row hrow).1, row, hrow⟩
      exact decide_eq_false hnot
  | wait => exact h.cons rfl (fun _ _ heq => by cases heq) fun row hrow => ⟨rfl, (h.there row hrow).1, row, hrow⟩

omit [DecidableEq ι] in
theorem Marked.exercised_unique {e e' : AclEvent ι} (h : Marked did marker s history) (he : e ∈ history)
    (he' : e' ∈ history) (hexercised : exercised e = true) (hexercised' : exercised e' = true) : e = e' := by
  obtain ⟨after, before, rfl⟩ := List.append_of_mem he
  rcases List.mem_append.mp he' with hafter | hrest
  · rw [h.ended after e before rfl (.inl hexercised) e' hafter] at hexercised'
    cases hexercised'
  · rcases List.mem_cons.mp hrest with rfl | hbefore
    · rfl
    · obtain ⟨between, earlier, rfl⟩ := List.append_of_mem hbefore
      have hsplit : after ++ e :: (between ++ e' :: earlier) = (after ++ e :: between) ++ e' :: earlier := by simp
      rw [h.ended _ e' earlier hsplit (.inl hexercised') e (List.mem_append_right _ List.mem_cons_self)] at hexercised
      cases hexercised

/-- A run in which updates store the entry only while it is there, and tokens say what the entry says. -/
def RunsCurrent (did : String) (s : AclState) (task : ι → Call) (schedule : List ι) : Prop :=
  Along (Crew.step conduct) (Crew.Meets fun s _ _ i o => current task did s i o = true) (calls s task) schedule

instance instDecidableRunsCurrent (did : String) (s : AclState) (task : ι → Call) (schedule : List ι) :
    Decidable (RunsCurrent did s task schedule) :=
  inferInstanceAs (Decidable (Along _ _ _ _))

/-- **A hand-off is one-time and never widens.** In every run of exercises of a marked entry by its holder, and updates
and deletes of it by others, in which updates store it only while it is there and each commit's token says what it
says: at most one exercise succeeds; then the entry is gone, and the successor is within the entry as it stood at the
commit and within the granter's bound; and no exercise commits after a delete. -/
theorem handoff_once (s : AclState) (did : String) (marked : AclEntry) (marker : HandOff) (task : ι → Call)
    (schedule : List ι) (hthere : entryOf s did = some marked) (hmarker : marked.handoff = some marker)
    (hcalls : ∀ i, (task i).onHandOff did = true) (hcurrent : RunsCurrent did s task schedule) :
    (∀ i j auth auth' successor successor' audited audited' answer answer',
      task i = .exercise auth successor audited → task j = .exercise auth' successor' audited' →
      (after s task schedule).threads i = .ret (.ok answer) → (after s task schedule).threads j = .ret (.ok answer') →
      i = j) ∧
    (∀ i auth successor audited answer, task i = .exercise auth successor audited →
      (after s task schedule).threads i = .ret (.ok answer) → entryOf (after s task schedule).store did = none ∧
      ∃ row : Stored did, ∃ entry, answer = some entry ∧
        (⟨i, .move (.entry did) row (.entry entry.did) (⟨entry, rfl⟩ : Stored entry.did), .moved⟩ : AclEvent ι) ∈
          (after s task schedule).history ∧ row.val.handoff = some marker ∧ Succeeds row.val marker entry) ∧
    (∀ recent e earlier, (after s task schedule).history = recent ++ e :: earlier → deletes did e = true →
      ∀ e' ∈ recent, exercised e' = false) ∧
    (∀ i auth answer, task i = .delete auth did → (after s task schedule).threads i = .ret (.ok answer) →
      ∃ e ∈ (after s task schedule).history, e.thread = i ∧ deletes did e = true) := by
  obtain ⟨row, hrow, rfl⟩ : ∃ row : Stored did, s.row (.entry did) = some row ∧ row.val = marked := by
    unfold entryOf at hthere
    split at hthere
    · rename_i row hrow
      exact ⟨row, hrow, Option.some.inj hthere⟩
    · cases hthere
  have hstart : Marked did marker s ([] : List (AclEvent ι)) := by
    refine ⟨fun _ _ hmem => (nomatch hmem), fun row' hrow' => ⟨?_, fun _ hmem => nomatch hmem⟩,
      fun after e before hsplit => ?_, fun _ _ _ hmem => nomatch hmem⟩
    · rw [hrow] at hrow'
      cases hrow'
      exact hmarker
    · exact absurd hsplit.symm (by simp)
  -- A batch without conditions is always applied.
  let Applied (history : List (AclEvent ι)) : Prop :=
    ∀ i writes, ∀ r : Bool, (⟨i, .batch [] writes, r⟩ : AclEvent ι) ∈ history → r = true
  obtain ⟨⟨hmarked, happlied⟩, hends⟩ := Crew.tasks_invariant
    (J := fun s history => Marked did marker s history ∧ Applied history) follows_program
    ⟨hstart, fun _ _ _ hmem => nomatch hmem⟩ (fun s history i o hinv hpermits hcurrent => by
      refine ⟨marked_step (hcalls i) hinv.1 hpermits hcurrent, fun j writes r hmem => ?_⟩
      rcases List.mem_cons.mp hmem with heq | hmem
      · obtain ⟨-, rfl, hreply⟩ := Event.mk.inj heq
        exact eq_of_heq hreply
      · exact hinv.2 j writes r hmem) hcurrent
  have hcommit : ∀ i auth successor audited answer, task i = .exercise auth successor audited →
      (after s task schedule).threads i = .ret (.ok answer) → ∃ row : Stored did, ∃ entry, answer = some entry ∧
        (⟨i, .move (.entry did) row (.entry entry.did) (⟨entry, rfl⟩ : Stored entry.did), .moved⟩ : AclEvent ι) ∈
          (after s task schedule).history := by
    intro i auth successor audited answer htask hret
    have hdone := hends i _ hret
    have hon := hcalls i
    rw [htask] at hdone hon
    obtain rfl : auth.did = did := of_decide_eq_true hon
    obtain ⟨row, entry, hentry, hmem⟩ := hdone
    exact ⟨row, entry, hentry, Crew.mem_diary.mp hmem⟩
  refine ⟨?_, ?_, ?_, ?_⟩
  · intro i j auth auth' successor successor' audited audited' answer answer' hi hj hreti hretj
    obtain ⟨row, entry, -, hmem⟩ := hcommit i auth successor audited answer hi hreti
    obtain ⟨row', entry', -, hmem'⟩ := hcommit j auth' successor' audited' answer' hj hretj
    exact congrArg Event.thread (hmarked.exercised_unique hmem hmem' rfl rfl)
  · intro i auth successor audited answer hi hret
    obtain ⟨row, entry, hentry, hmem⟩ := hcommit i auth successor audited answer hi hret
    obtain ⟨hmarker', hsucceeds⟩ := hmarked.committed i row entry hmem
    refine ⟨?_, row, entry, hentry, hmem, hmarker', hsucceeds⟩
    cases hleft : (after s task schedule).store.row (.entry did) with
    | none => exact entryOf_of_none hleft
    | some left => exact absurd ((hmarked.there left hleft).2 _ hmem).1 (by simp [exercised])
  · exact fun recent e earlier hsplit hdeletes => hmarked.ended recent e earlier hsplit (.inr hdeletes)
  · intro i auth answer hi hret
    have hdone := hends i _ hret
    rw [hi] at hdone
    obtain ⟨r, hmem⟩ := hdone
    have hevent := Crew.mem_diary.mp hmem
    refine ⟨_, hevent, rfl, ?_⟩
    have hreply : r = true := happlied i _ r hevent
    simp [deletes, hreply]

end

/-! ### A hand-off exercised twice, and one that widens -/

/-- The root marks an admin of `acme` as a hand-off. -/
def markedEntry : AclEntry :=
  { AclEntry.new "did:eph" .admin "did:root" 100 with
    allowedContexts := ["acme"]
    expiresAt := some 1000
    handoff := some ⟨"did:root", 100, handOffBound rootClaims (AclEntry.new "did:root" .admin "setup" 0)⟩ }

def markedAcl : AclState := put rootedAcl markedEntry

def holderClaims : AuthClaims := ⟨"did:eph", .admin, ["acme"], "session", ["did"]⟩

def successorTo (did : String) : HandOffSuccessor := ⟨did, .admin, none, ["acme"], []⟩

def handOffCalls : Nat → Call
  | 0 => .update rootClaims "did:eph" { UpdateAclParams.unchanged with label := some "ephemeral" }
  | 1 => .exercise holderClaims (successorTo "did:first") (.ok ())
  | 2 => .exercise holderClaims (successorTo "did:second") (.ok ())
  | _ => .update rootClaims "did:eph" { UpdateAclParams.unchanged with role := some .reader }

def storedAfterExercise : List Nat := [0, 0, 0, 1, 1, 1, 1, 1, 0, 2, 2, 2, 2, 2]

def exercisedAfterDemotion : List Nat := [3, 3, 3, 3, 1, 1, 1, 1]

theorem exercised_twice :
    ((((after markedAcl handOffCalls storedAfterExercise).threads 1).succeeded = true ∧
        ((after markedAcl handOffCalls storedAfterExercise).threads 2).succeeded = true) ∧
      (entryOf (after markedAcl handOffCalls storedAfterExercise).store "did:first").isSome = true ∧
      (entryOf (after markedAcl handOffCalls storedAfterExercise).store "did:second").isSome = true) ∧
    ((entryOf (after markedAcl handOffCalls exercisedAfterDemotion).store "did:eph").map AclEntry.role = some .reader ∧
      (entryOf (after markedAcl handOffCalls (exercisedAfterDemotion ++ [1])).store "did:first").map AclEntry.role =
        some .admin) := by
  decide +kernel

/-- The entry labelled, and then exercised. -/
theorem handoff_once_labelled :
    ∃ row : Stored "did:eph", ∃ entry, Succeeds row.val
      ⟨"did:root", 100, handOffBound rootClaims (AclEntry.new "did:root" .admin "setup" 0)⟩ entry := by
  have hends : ((after markedAcl handOffCalls [0, 0, 0, 0, 1, 1, 1, 1, 1]).threads 1).succeeded = true := by
    decide +kernel
  obtain ⟨answer, hret⟩ := Program.exists_of_succeeded hends
  have hcalls : ∀ i, (handOffCalls i).onHandOff "did:eph" = true := by
    intro i
    match i with
    | 0 | 1 | 2 | _ + 3 => rfl
  obtain ⟨-, row, entry, -, -, -, hsucceeds⟩ := (handoff_once markedAcl "did:eph" markedEntry _ handOffCalls
    [0, 0, 0, 0, 1, 1, 1, 1, 1] rfl rfl hcalls (by decide +kernel)).2.1 1 _ _ _ answer rfl hret
  exact ⟨row, entry, hsucceeds⟩

end TrustInfrastructure.Access
