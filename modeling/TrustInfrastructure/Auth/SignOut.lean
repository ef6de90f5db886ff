import TrustInfrastructure.Auth.Handlers
import TrustInfrastructure.Lib.Conduct
import TrustInfrastructure.Lib.Except

/-!
# Sign-out and the calls under way

A sign-out removes the session's row, its current-token record and the index entry of its token, in one batch. A refresh
that has passed its checks by then writes the row and the record back, unconditionally and in two steps: the session
that was signed out is there again, with a token that works (`signed_out_renewed`). If only its second write comes after
the sign-out, the token works as soon as the next message creates a row for the same subject.

What a call does to one session is said in terms of the token in its row and its current-token record (`Moves`). The
condition is on the writes of a token: a refresh replaces the token that it claimed, and a token is entered into the
index while the row carries it (`renewsOwn`). Then, from a deletion of the session on, the row and the record only ever
name tokens that were drawn afresh: by a login that had not issued its token before the deletion, or by a refresh that
had not begun (`Young`). A refresh that began before the deletion has claimed an older token, which the row never
carries again.
-/

namespace TrustInfrastructure.Auth

open Lib (Program Conduct Record Event Crew Rows RowOp Check Write run Along)
open SessionProgram

/-! ### Calls -/

inductive SessionTask (R : Type) where
  | refresh (call : RefreshCall R)
  | login (call : AuthenticateCall R)
  | signOut (id : String)
  | resolve (did : String) (now : Nat)

inductive Outcome where
  | refreshed (response : AuthenticateResponse)
  | signedIn (response : AuthenticateResponse)
  | signedOut
  | resolved (session : Session)
  deriving DecidableEq

abbrev Diary := List (Record sessionStore)

/-- An operation on neither a session's row, nor its current-token record, nor a tombstone. -/
def quiet : RowOp SessionRow → Bool
  | .now => true
  | .tick _ => true
  | .get _ => true
  | .take (.refresh _) => true
  | .remove (.pendingChallenge _ _) => true
  | _ => false

/-- A token is entered into the index, as the current one of a session. -/
def issues : RowOp SessionRow → Bool
  | .batch [] [.put (.current _) _, .put (.refresh _) _] => true
  | _ => false

section
variable {R : Type}

/-- The refresh token a call draws. -/
def SessionTask.drawn : SessionTask R → Option String
  | .refresh call => some call.newRefreshToken
  | .login call => some call.draw.refreshToken
  | _ => none

def SessionTask.refreshes : SessionTask R → Bool
  | .refresh _ => true
  | _ => false

variable (hash : String → String)

def SessionTask.program : SessionTask R → SessionProgram Outcome
  | .refresh call => (handleRefresh hash call).bind fun response => pure (.refreshed response)
  | .login call => (handleAuthenticateWithAal hash call).bind fun response => pure (.signedIn response)
  | .signOut id => (deleteSession hash id).bind fun _ => pure .signedOut
  | .resolve did now => (resolveDidSession did now).bind fun session => pure (.resolved session)

def Found (diary : Diary) {id : String} (row : SessionOf id) : Prop :=
  (⟨(.get (.session id) : RowOp SessionRow), some row⟩ : Record sessionStore) ∈ diary

/-- The record shows the token as the one the session issues. -/
def Shows (id token : String) (r : Record sessionStore) : Prop :=
  (∃ row : SessionOf id, row.val.refreshToken.map hash = some (hash token) ∧
      r = ⟨(.get (.session id) : RowOp SessionRow), some row⟩) ∨
    r = ⟨(.get (.current id) : RowOp SessionRow), some (hash token)⟩

inductive Permits : SessionTask R → Diary → RowOp SessionRow → Prop
  | quiet {task diary o} (h : quiet o = true) : Permits task diary o
  | redeem {call diary} {challenge : SessionOf call.input.sessionId} (found : Found diary challenge)
      (state : challenge.val.state = .challengeSent) :
      Permits (.login call) diary (.take (.session call.input.sessionId))
  | renew {call diary s now} {claimed : String}
      (first : diary.getLast? = some ⟨(.take (.refresh (hash call.input.refreshToken)) : RowOp SessionRow),
        some claimed⟩) :
      Permits (.refresh call) diary (writeSession (rotatedSession call s now))
  | signIn {call diary challenge now minted} (token : minted.refreshToken = call.draw.refreshToken)
      (first : ∀ r ∈ diary, issues r.op = false) :
      Permits (.login call) diary (writeSession (signedInSession call challenge now minted))
  | issue {task diary token id} (drawn : task.drawn = some token) : Permits task diary (issueToken hash token id)
  | bury {call diary s now} (shown : ∃ r ∈ diary, Shows hash s.sessionId call.input.refreshToken r) :
      Permits (.refresh call) diary
        (.insert (.rotated (hash call.input.refreshToken)) (rotatedTombstone hash call s now))
  | retire {task diary k} {tombstone : RefreshTombstone} (cause : tombstone.cause = .superseded) :
      Permits task diary (.insert (.rotated k) tombstone)
  | remove {task diary s} : Permits task diary (removeSession hash s)
  | touch {task diary id now} {read : SessionOf id} (found : Found diary read) :
      Permits task diary (replaceSession read (touchedSession now read.val))
  | create {task diary did now} : Permits task diary (createIntrinsic did now)

/-- A deletion is complete: there was no row, or it was removed. -/
def Removes (id : String) (r : Record sessionStore) : Prop :=
  r = ⟨(.get (.session id) : RowOp SessionRow), (none : Option (SessionOf id))⟩ ∨
    ∃ s : Session, s.sessionId = id ∧ r.op = removeSession hash s

/-- Why a refresh was answered: the token it presented is current, or was exchanged for the current one. -/
def Accepted (call : RefreshCall R) (id : String) (diary : Diary) : Prop :=
  (∃ r ∈ diary, Shows hash id call.input.refreshToken r) ∨
    ∃ tombstone : RefreshTombstone, ∃ row : SessionOf tombstone.sessionId, tombstone.sessionId = id ∧
      tombstone.cause = .rotated ∧
      (⟨(.get (.rotated (hash call.input.refreshToken)) : RowOp SessionRow), some tombstone⟩ : Record sessionStore) ∈
        diary ∧
      Found diary row ∧ row.val.refreshToken.map hash = some tombstone.successorHash

/-- What a call that ended has found or done. -/
def Done : SessionTask R × Diary → Except SessionError Outcome → Prop
  | (.signOut id, diary), _ => ∃ r ∈ diary, Removes hash id r
  | (.refresh call, diary), .ok (.refreshed response) => Accepted hash call response.session.id diary
  | _, _ => True

abbrev conduct : Conduct sessionStore (SessionTask R × Diary) := Conduct.ofDiary (Permits hash)

end

/-! ### The walk through a call -/

section
open Lib.Program (Follows follows_bind follows_perform follows_lift)

variable {R : Type} {hash : String → String} {task : SessionTask R} {diary : Diary} {β : Type}
  {ends : SessionTask R × Diary → Except SessionError β → Prop}

theorem follows_quiet {o : RowOp SessionRow} (ho : quiet o = true) {f : RowOp.Reply o → SessionProgram β}
    (h : ∀ r, (f r).Follows (conduct hash) ends (task, (⟨o, r⟩ : Record sessionStore) :: diary)) :
    (Program.bind (Program.perform (I := sessionStore) o) f).Follows (conduct hash) ends (task, diary) :=
  follows_perform (C := conduct hash) (Permits.quiet ho) h

theorem follows_getSession (id : String) {f : Option Session → SessionProgram β}
    (h : ∀ row : Option (SessionOf id), (f (row.map Subtype.val)).Follows (conduct hash) ends
      (task, (⟨(.get (.session id) : RowOp SessionRow), row⟩ : Record sessionStore) :: diary)) :
    (Program.bind (getSession id) f).Follows (conduct hash) ends (task, diary) :=
  follows_quiet rfl h

theorem follows_nowEpoch (elapsed : Nat) {f : Nat → SessionProgram β}
    (h : ∀ now : Nat, (f now).Follows (conduct hash) ends (task, ⟨(.now : RowOp SessionRow), now⟩ ::
      ⟨(.tick elapsed : RowOp SessionRow), ()⟩ :: diary)) :
    (Program.bind (nowEpoch elapsed) f).Follows (conduct hash) ends (task, diary) :=
  ⟨Permits.quiet rfl, fun _ => ⟨Permits.quiet rfl, fun now => h now⟩⟩

theorem follows_deleteSession (id : String) {f : Unit → SessionProgram β}
    (h : ∀ more, (∃ r ∈ more, Removes hash id r) → (f ()).Follows (conduct hash) ends (task, more)) :
    (Program.bind (deleteSession hash id) f).Follows (conduct hash) ends (task, diary) := by
  rw [deleteSession, Program.bind_assoc]
  refine follows_getSession id fun row => ?_
  match row with
  | none => exact h _ ⟨_, List.mem_cons_self, .inl rfl⟩
  | some s =>
    exact follows_perform (C := conduct hash) Permits.remove fun _ =>
      h _ ⟨_, List.mem_cons_self, .inr ⟨s.val, s.property, rfl⟩⟩

theorem follows_updateSessionWith (did : String) (now : Nat) {f : Option Session → SessionProgram β}
    (herror : ∀ e more, ends (task, more) (.error e))
    (h : ∀ updated more, (f updated).Follows (conduct hash) ends (task, more)) :
    (Program.bind (updateSessionWith did (touchedSession now)) f).Follows (conduct hash) ends (task, diary) := by
  unfold updateSessionWith
  generalize sessionWriteAttempts = attempts
  induction attempts generalizing diary with
  | zero => exact herror _ _
  | succ _ ih =>
    rw [updateSessionWithin, Program.bind_assoc]
    refine follows_quiet rfl fun row => ?_
    match row with
    | none => exact h none _
    | some read =>
      refine follows_perform (C := conduct hash) (Permits.touch List.mem_cons_self) fun applied => ?_
      cases show Bool from applied with
      | true => exact h _ _
      | false => exact ih

theorem follows_resolveDidSession (did : String) (now : Nat) {f : Session → SessionProgram β}
    (herror : ∀ e more, ends (task, more) (.error e))
    (h : ∀ s more, (f s).Follows (conduct hash) ends (task, more)) :
    (Program.bind (resolveDidSession did now) f).Follows (conduct hash) ends (task, diary) := by
  unfold resolveDidSession
  generalize sessionWriteAttempts = attempts
  induction attempts generalizing diary with
  | zero => exact herror _ _
  | succ _ ih =>
    rw [resolveDidSessionWithin, Program.bind_assoc]
    refine follows_updateSessionWith did now herror fun updated more => ?_
    match updated with
    | some s => exact h s more
    | none =>
      refine follows_perform (C := conduct hash) Permits.create fun applied => ?_
      cases show Bool from applied with
      | true => exact h _ _
      | false => exact ih

theorem follows_checked {α : Type} {r : Except AuthError α} {f : α → SessionProgram β}
    (herror : ∀ e, ends (task, diary) (.error e))
    (h : ∀ a, r = .ok a → (f a).Follows (conduct hash) ends (task, diary)) :
    (Program.bind (checked r) f).Follows (conduct hash) ends (task, diary) := by
  refine follows_lift (fun e _ => herror e) fun a ha => h a ?_
  cases r with
  | ok =>
    cases ha
    rfl
  | error => cases ha

/-- What a refresh that ended has found. -/
abbrev RefreshDone (hash : String → String) (l : SessionTask R × Diary) (r : Except SessionError AuthenticateResponse) :
    Prop :=
  Done hash l (r.map .refreshed)

theorem session_id_of_replayRotation {backend : AuthBackend R} {s : Session} {now : Nat}
    {response : AuthenticateResponse} (h : replayRotation backend s now = .ok response) :
    response.session.id = s.sessionId := by
  unfold replayRotation at h
  split at h
  · cases h
  · obtain ⟨resolution, -, h⟩ := Lib.bind_eq_ok.mp h
    split at h
    · obtain ⟨accessToken, -, h⟩ := Lib.bind_eq_ok.mp h
      cases h
      rfl
    · cases h

theorem follows_handleUnclaimedRefresh (call : RefreshCall R) :
    (handleUnclaimedRefresh hash call).Follows (conduct hash) (RefreshDone hash) (.refresh call, diary) := by
  refine follows_quiet rfl fun found => ?_
  match found with
  | none => trivial
  | some (tombstone : RefreshTombstone) =>
    refine follows_getSession tombstone.sessionId fun row => ?_
    match row with
    | none => exact follows_nowEpoch call.elapsed fun _ => trivial
    | some s =>
      refine follows_nowEpoch call.elapsed fun now => ?_
      dsimp only [Option.map_some]
      split
      · rename_i hretry
        refine follows_checked (fun _ => trivial) fun _ _ => ?_
        simp only [isInnocentRetry, Bool.and_eq_true, Option.any_eq_true, decide_eq_true_eq] at hretry
        obtain ⟨⟨⟨hcause, -⟩, -⟩, live, hlive, hsuccessor⟩ := hretry
        -- The replay touches no row: it ends with its answer.
        cases hreplay : replayRotation call.backend s.val now with
        | error => trivial
        | ok =>
          refine .inr ⟨tombstone, s, ?_, hcause, ?_, ?_, by rw [hlive, ← hsuccessor]; rfl⟩
          · rw [session_id_of_replayRotation hreplay, s.property]
          · exact List.mem_cons_of_mem _ (List.mem_cons_of_mem _ (List.mem_cons_of_mem _ List.mem_cons_self))
          · exact List.mem_cons_of_mem _ (List.mem_cons_of_mem _ List.mem_cons_self)
      · split
        · trivial
        · exact follows_deleteSession tombstone.sessionId fun _ _ => trivial

theorem shows_of_currentHash {id token : String} (row : SessionOf id) (recorded : Option String) (more : Diary)
    (h : currentHash hash recorded row.val = some (hash token)) :
    ∃ r ∈ (⟨(.get (.current id) : RowOp SessionRow), recorded⟩ : Record sessionStore) ::
      ⟨(.get (.session id) : RowOp SessionRow), some row⟩ :: more, Shows hash id token r := by
  cases recorded with
  | some tokenHash =>
    cases h
    exact ⟨_, List.mem_cons_self, .inr rfl⟩
  | none => exact ⟨_, List.mem_cons_of_mem _ List.mem_cons_self, .inl ⟨row, h, rfl⟩⟩

theorem follows_handleRefresh (call : RefreshCall R) :
    (handleRefresh hash call).Follows (conduct hash) (RefreshDone hash) (.refresh call, []) := by
  refine follows_quiet rfl fun claimed => ?_
  match claimed with
  | none => exact follows_handleUnclaimedRefresh call
  | some (id : String) =>
    refine follows_getSession id fun row => ?_
    match row with
    | none => trivial
    | some row =>
      refine follows_quiet rfl fun recorded => ?_
      split
      · exact follows_nowEpoch call.elapsed fun _ =>
          follows_perform (C := conduct hash) (Permits.retire rfl) fun _ => trivial
      · rename_i hcurrent
        obtain ⟨r, hr, hshows⟩ := shows_of_currentHash row recorded
          [⟨(.take (.refresh (hash call.input.refreshToken)) : RowOp SessionRow), some id⟩] (not_not.mp hcurrent)
        rw [← row.property] at hshows
        refine follows_checked (fun _ => trivial) fun _ _ => ?_
        split
        · trivial
        · refine follows_nowEpoch call.elapsed fun now => ?_
          refine follows_checked (fun _ => trivial) fun _ _ => ?_
          refine follows_checked (fun _ => trivial) fun resolution _ => ?_
          refine follows_checked (fun _ => trivial) fun accessToken _ => ?_
          refine follows_perform (C := conduct hash) (Permits.renew rfl) fun _ => ?_
          refine follows_perform (C := conduct hash) (Permits.issue rfl) fun _ => ?_
          refine follows_perform (C := conduct hash) (Permits.bury ⟨r, ?_, hshows⟩) fun _ => .inl ⟨r, ?_, hshows⟩
          · exact List.mem_append_right [_, _, _, _] hr
          · exact List.mem_append_right [_, _, _, _, _] hr

theorem follows_completeLogin (call : AuthenticateCall R) (challenge : Session) (now : Nat)
    (hfirst : ∀ r ∈ diary, issues r.op = false) :
    (completeLogin hash call challenge now).Follows (conduct hash) (fun l _ => l.1 = .login call)
      (.login call, diary) := by
  refine follows_checked (fun _ => rfl) fun resolution _ => ?_
  rw [mintSessionTokensUntil, Program.bind_assoc]
  refine follows_nowEpoch call.draw.elapsed fun mintedAt => ?_
  rw [Program.bind_assoc]
  refine follows_checked (fun _ => rfl) fun accessToken _ => ?_
  refine follows_getSession challenge.did fun prior => ?_
  refine follows_perform (C := conduct hash) (Permits.signIn rfl ?_) fun _ => ?_
  · simpa [issues] using hfirst
  refine follows_perform (C := conduct hash) (Permits.issue rfl) fun _ => ?_
  cases (prior.map Subtype.val).bind Session.refreshToken with
  | none => rfl
  | some superseded =>
    rw [retireSuperseded, Program.bind_assoc]
    refine follows_quiet rfl fun claimed => ?_
    split
    · exact follows_perform (C := conduct hash) (Permits.retire rfl) fun _ => rfl
    · rfl

theorem follows_handleAuthenticate (call : AuthenticateCall R) :
    (handleAuthenticateWithAal hash call).Follows (conduct hash) (fun l _ => l.1 = .login call) (.login call, []) := by
  refine follows_checked (fun _ => rfl) fun _ _ => ?_
  refine follows_getSession call.input.sessionId fun found => ?_
  match found with
  | none => rfl
  | some challenge =>
    refine follows_checked (fun _ => rfl) fun _ hchallenge => ?_
    have hstate : challenge.val.state = .challengeSent := by
      by_contra hne
      rw [checkChallenge, if_pos hne] at hchallenge
      cases hchallenge
    refine follows_nowEpoch call.elapsed fun now => ?_
    refine follows_checked (fun _ => rfl) fun _ _ => ?_
    rw [takeSession, Program.bind_assoc]
    refine follows_perform (C := conduct hash)
      (Permits.redeem (List.mem_append_right [_, _] List.mem_cons_self) hstate) fun taken => ?_
    match taken with
    | none => rfl
    | some (_ : SessionOf call.input.sessionId) =>
      refine follows_quiet rfl fun _ => ?_
      exact follows_completeLogin call challenge.val now (by simp [issues])

theorem follows_program (task : SessionTask R) :
    (task.program hash).Follows (conduct hash) (Done hash) (task, []) := by
  cases task with
  | refresh call =>
    refine follows_bind ((follows_handleRefresh call).mono fun l r hr => ?_)
    cases r with
    | ok | error => exact hr
  | login call =>
    refine follows_bind ((follows_handleAuthenticate call).mono fun l r hl => ?_)
    obtain ⟨_, diary⟩ := l
    cases hl
    cases r with
    | ok | error => trivial
  | signOut id => exact follows_deleteSession id fun _ hremoves => hremoves
  | resolve did now => exact follows_resolveDidSession did now (fun _ _ => trivial) fun _ _ => trivial

end

/-! ### What an operation does to the token of a session -/

def tokenOf (s : SessionsState) (id : String) : Option String :=
  (s.row (.session id)).bind fun row : SessionOf id => row.val.refreshToken

def recordOf (s : SessionsState) (id : String) : Option String := s.row (.current id)

section
variable {R : Type} (hash : String → String)

/-- A refresh that stores its session finds there the token it claimed, and a token that is entered into the index is in
the row of its session. -/
def renewsOwn (task : SessionTask R) (s : SessionsState) : RowOp SessionRow → Bool
  | .batch [] [.put (.session id) _] =>
    match task with
    | .refresh call => decide (tokenOf s id = some call.input.refreshToken)
    | _ => true
  | .batch [] [.put (.current id) tokenHash, .put (.refresh _) _] => decide ((tokenOf s id).map hash = some tokenHash)
  | _ => true

/-- What a permitted operation does to a session. -/
inductive Moves (task : SessionTask R) (diary : Diary) (id : String) (s s' : SessionsState) (o : RowOp SessionRow) :
    Prop
  | keeps (token : tokenOf s' id = tokenOf s id) (record : recordOf s' id = recordOf s id)
  | renews {call claimed} (htask : task = .refresh call)
      (first : diary.getLast? = some ⟨(.take (.refresh (hash call.input.refreshToken)) : RowOp SessionRow),
        some claimed⟩)
      (live : tokenOf s id = some call.input.refreshToken) (token : tokenOf s' id = some call.newRefreshToken)
      (record : recordOf s' id = recordOf s id)
  | signsIn {call t} (htask : task = .login call) (first : ∀ r ∈ diary, issues r.op = false)
      (op : o = writeSession t) (session : t.sessionId = id) (token : tokenOf s' id = some call.draw.refreshToken)
      (record : recordOf s' id = recordOf s id)
  | issues {t} (live : tokenOf s id = some t) (token : tokenOf s' id = some t) (record : recordOf s' id = some (hash t))
  | clears (gone : tokenOf s' id = none) (forgotten : recordOf s' id = none)

end

section
variable {R : Type} {hash : String → String} {task : SessionTask R} {diary : Diary} {s s' : SessionsState} {id : String}
  {o : RowOp SessionRow}

theorem moves_of_rows (hsession : s'.row (.session id) = s.row (.session id))
    (hcurrent : s'.row (.current id) = s.row (.current id)) : Moves hash task diary id s s' o := by
  refine .keeps ?_ hcurrent
  rw [tokenOf, tokenOf, hsession]

theorem moves_of_notMem_wrote (hsession : SessionKey.session id ∉ RowOp.wrote o (RowOp.exec o s).1)
    (hcurrent : SessionKey.current id ∉ RowOp.wrote o (RowOp.exec o s).1) :
    Moves hash task diary id s (RowOp.exec o s).2 o :=
  moves_of_rows (RowOp.row_exec_of_notMem_wrote o s hsession) (RowOp.row_exec_of_notMem_wrote o s hcurrent)

theorem wrote_of_quiet {reply : RowOp.Reply o} (h : quiet o = true) :
    SessionKey.session id ∉ RowOp.wrote o reply ∧ SessionKey.current id ∉ RowOp.wrote o reply := by
  cases o with
  | now | tick | get => exact ⟨List.not_mem_nil, List.not_mem_nil⟩
  | take k | remove k =>
    cases k with
    | refresh | pendingChallenge => simp [RowOp.wrote]
    | _ => cases h
  | _ => cases h

section
variable (s : SessionsState) (t : Session)

theorem tokenOf_putSession (id : String) :
    tokenOf (s.apply (putSession t)) id = if id = t.sessionId then t.refreshToken else tokenOf s id := by
  by_cases hid : id = t.sessionId
  · subst hid
    rw [if_pos rfl, tokenOf, putSession, Rows.apply, Rows.row_set_self]
    rfl
  · rw [if_neg hid, tokenOf, putSession, Rows.apply, Rows.row_set_of_ne _ (by simpa using hid)]
    rfl

theorem recordOf_putSession (id : String) : recordOf (s.apply (putSession t)) id = recordOf s id :=
  s.row_set_of_ne (by simp) _

theorem row_stagePendingChallengeIndex {k : SessionKey} (hk : ∀ did id, k ≠ .pendingChallenge did id) :
    ((stagePendingChallengeIndex t).foldl Rows.apply s).row k = s.row k := by
  refine s.row_foldl_apply_of_notMem _ fun w hw => ?_
  unfold stagePendingChallengeIndex at hw
  split at hw
  · rw [List.mem_singleton.mp hw]
    exact hk _ _
  · cases hw

theorem exec_writeSession (hstate : t.state = .authenticated) :
    (RowOp.exec (writeSession t) s).2 = s.apply (putSession t) := by
  rw [writeSession, stagePendingChallengeIndex, hstate]
  rfl

end

/-- A session is stored, with the token `token`. -/
theorem moves_writeSession {t : Session} {token : String} (hstate : t.state = .authenticated)
    (htoken : t.refreshToken = some token)
    (h : t.sessionId = id → tokenOf (RowOp.exec (writeSession t) s).2 id = some token →
      recordOf (RowOp.exec (writeSession t) s).2 id = recordOf s id →
      Moves hash task diary id s (RowOp.exec (writeSession t) s).2 (writeSession t)) :
    Moves hash task diary id s (RowOp.exec (writeSession t) s).2 (writeSession t) := by
  rw [exec_writeSession s t hstate] at h ⊢
  by_cases hid : id = t.sessionId
  · exact h hid.symm (by rw [tokenOf_putSession, if_pos hid, htoken]) (recordOf_putSession s t id)
  · exact .keeps (by rw [tokenOf_putSession, if_neg hid]) (recordOf_putSession s t id)

theorem moves_issueToken {token id' : String} (hinj : Function.Injective hash)
    (hrenews : renewsOwn hash task s (issueToken hash token id') = true) :
    Moves hash task diary id s (RowOp.exec (issueToken hash token id') s).2 (issueToken hash token id') := by
  have hexec : (RowOp.exec (issueToken hash token id') s).2 =
      (s.set (.current id') (some (hash token))).set (.refresh (hash token)) (some id') := rfl
  have htoken : tokenOf (RowOp.exec (issueToken hash token id') s).2 id = tokenOf s id := by
    rw [hexec, tokenOf, Rows.row_set_of_ne _ (by simp), Rows.row_set_of_ne _ (by simp)]
    rfl
  by_cases hid : id = id'
  · subst hid
    obtain ⟨live, hlive, hsame⟩ := Option.map_eq_some_iff.mp (of_decide_eq_true hrenews)
    rw [hinj hsame] at hlive
    refine .issues hlive (htoken.trans hlive) ?_
    rw [hexec, recordOf, Rows.row_set_of_ne _ (by simp), Rows.row_set_self]
  · refine .keeps htoken ?_
    rw [hexec, recordOf, Rows.row_set_of_ne _ (by simp), Rows.row_set_of_ne _ (by simpa using hid)]
    rfl

theorem row_stageSessionRemoval (t : Session) {k : SessionKey} (hrefresh : ∀ h, k ≠ .refresh h)
    (hpending : ∀ did id, k ≠ .pendingChallenge did id) :
    ((stageSessionRemoval hash t).foldl Rows.apply s).row k =
      if k = .current t.sessionId ∨ k = .session t.sessionId then none else s.row k := by
  rw [stageSessionRemoval, List.foldl_append]
  have hindex :
    ((t.refreshToken.map fun token => Write.delete (.refresh (hash token))).toList.foldl Rows.apply s).row k =
      s.row k := by
    refine s.row_foldl_apply_of_notMem _ fun w hw => ?_
    obtain ⟨token, -, rfl⟩ := Option.map_eq_some_iff.mp (Option.mem_toList.mp hw)
    exact hrefresh _
  generalize (t.refreshToken.map fun token => Write.delete (.refresh (hash token))).toList.foldl Rows.apply s = s₀ at *
  change (((s₀.set (.current t.sessionId) none).set (.pendingChallenge t.did t.sessionId) none).set
    (.session t.sessionId) none).row k = _
  by_cases hsession : k = .session t.sessionId
  · subst hsession
    rw [Rows.row_set_self, if_pos (.inr rfl)]
  · rw [Rows.row_set_of_ne _ hsession, Rows.row_set_of_ne _ (hpending _ _)]
    by_cases hcurrent : k = .current t.sessionId
    · subst hcurrent
      rw [Rows.row_set_self, if_pos (.inl rfl)]
    · rw [Rows.row_set_of_ne _ hcurrent, hindex, if_neg (not_or.mpr ⟨hcurrent, hsession⟩)]

theorem moves_removeSession {t : Session} :
    Moves hash task diary id s (RowOp.exec (removeSession hash t) s).2 (removeSession hash t) := by
  have hsession : (RowOp.exec (removeSession hash t) s).2.row (.session id) = _ :=
    row_stageSessionRemoval t (by simp) (by simp)
  have hcurrent : (RowOp.exec (removeSession hash t) s).2.row (.current id) = _ :=
    row_stageSessionRemoval t (by simp) (by simp)
  by_cases hid : id = t.sessionId
  · rw [if_pos (.inr (congrArg _ hid))] at hsession
    rw [if_pos (.inl (congrArg _ hid))] at hcurrent
    exact .clears (by rw [tokenOf, hsession]; rfl) hcurrent
  · rw [if_neg (by simpa using hid)] at hsession hcurrent
    exact moves_of_rows hsession hcurrent

theorem moves_touch {id' : String} {read : SessionOf id'} {now : Nat} :
    Moves hash task diary id s (RowOp.exec (replaceSession read (touchedSession now read.val)) s).2
      (replaceSession read (touchedSession now read.val)) := by
  rcases RowOp.exec_batch_cases [.unchanged (.session id') read]
    (putSession (touchedSession now read.val) :: stagePendingChallengeIndex (touchedSession now read.val)) s with
    ⟨hchecks, hexec⟩ | hexec
  · rw [show RowOp.exec (replaceSession read (touchedSession now read.val)) s = _ from hexec]
    have hread : s.row (.session id') = some read := by simpa [Rows.holds] using hchecks
    have hsame : (touchedSession now read.val).sessionId = id' := by rw [sessionId_touchedSession, read.property]
    refine .keeps ?_ ?_
    · rw [List.foldl_cons, tokenOf, row_stagePendingChallengeIndex _ _ (by simp)]
      refine (tokenOf_putSession s _ id).trans ?_
      split
      · rename_i hid
        rw [hid, hsame, tokenOf, hread, refreshToken_touchedSession]
        rfl
      · rfl
    · rw [List.foldl_cons, recordOf, row_stagePendingChallengeIndex _ _ (by simp)]
      exact recordOf_putSession s _ id
  · rw [show RowOp.exec (replaceSession read (touchedSession now read.val)) s = _ from hexec]
    exact .keeps rfl rfl

theorem moves_create {did : String} {now : Nat} :
    Moves hash task diary id s (RowOp.exec (createIntrinsic did now) s).2 (createIntrinsic did now) := by
  rcases RowOp.exec_batch_cases [.absent (.session did)] [putSession (intrinsicSession did now)] s with
    ⟨hchecks, hexec⟩ | hexec
  · rw [show RowOp.exec (createIntrinsic did now) s = _ from hexec]
    have habsent : s.row (.session did) = none := by simpa [Rows.holds] using hchecks
    refine .keeps ((tokenOf_putSession s _ id).trans ?_) (recordOf_putSession s _ id)
    split
    · rename_i hid
      rw [hid, show (intrinsicSession did now).sessionId = did from rfl, tokenOf, habsent]
      rfl
    · rfl
  · rw [show RowOp.exec (createIntrinsic did now) s = _ from hexec]
    exact .keeps rfl rfl

/-- What is put into the store: sessions that are signed in, the index entry of a token that was drawn, and the
tombstone of a token that was found current. -/
def Vouched (hash : String → String) (task : SessionTask R) (diary : Diary) (o : RowOp SessionRow) :
    Write SessionRow → Prop
  | .put (.session id) row => (row : SessionOf id).val.state = .authenticated ∨
      ∃ read : SessionOf id, Found diary read ∧ (row : SessionOf id).val.state = read.val.state
  | .put (.refresh tokenHash) _ => issues o = true ∧ ∃ t, task.drawn = some t ∧ tokenHash = hash t
  | .put (.rotated k) tombstone => (tombstone : RefreshTombstone).cause = .rotated → ∃ call, task = .refresh call ∧
      k = hash call.input.refreshToken ∧ (tombstone : RefreshTombstone).successorHash = hash call.newRefreshToken ∧
      ∃ r ∈ diary, Shows hash (tombstone : RefreshTombstone).sessionId call.input.refreshToken r
  | _ => True

theorem vouched_of_permits (hpermits : Permits hash task diary o) : ∀ w ∈ o.puts, Vouched hash task diary o w := by
  cases hpermits with
  | quiet h =>
    cases o with
    | now | tick | get | take | remove => exact fun w hw => nomatch hw
    | _ => cases h
  | redeem => exact fun w hw => nomatch hw
  | renew | signIn | create => exact List.forall_mem_singleton.mpr (.inl rfl)
  | issue drawn => exact List.forall_mem_cons.mpr ⟨trivial, List.forall_mem_singleton.mpr ⟨rfl, _, drawn, rfl⟩⟩
  | bury shown => exact List.forall_mem_singleton.mpr fun _ => ⟨_, rfl, rfl, rfl, shown⟩
  | retire cause =>
    refine List.forall_mem_singleton.mpr fun hcause => ?_
    rw [cause] at hcause
    cases hcause
  | @remove _ _ t =>
    intro w hw
    cases w with
    | delete => trivial
    | put => cases htoken : t.refreshToken <;> simp [removeSession, stageSessionRemoval, htoken, RowOp.puts] at hw
  | @touch _ _ id now read found =>
    refine List.forall_mem_cons.mpr ⟨?_, fun w hw => ?_⟩
    · obtain ⟨read, rfl⟩ := read
      have hread : ∀ id (h : id = read.sessionId), Found diary (⟨read, h.symm⟩ : SessionOf id) := by
        rintro _ rfl
        exact found
      exact .inr ⟨_, hread _ (sessionId_touchedSession now read), state_touchedSession now read⟩
    · unfold stagePendingChallengeIndex at hw
      split at hw
      · rw [List.mem_singleton.mp hw]
        trivial
      · cases hw

/-- A challenge under the session's id would be a session that is not signed in. -/
theorem moves_of_permits (hpermits : Permits hash task diary o) (hinj : Function.Injective hash)
    (hrenews : renewsOwn hash task s o = true)
    (hfound : ∀ row : SessionOf id, Found diary row → row.val.state = .authenticated) :
    Moves hash task diary id s (RowOp.exec o s).2 o := by
  cases hpermits with
  | quiet h => exact moves_of_notMem_wrote (wrote_of_quiet h).1 (wrote_of_quiet h).2
  | @redeem call _ challenge found state =>
    have hid : id ≠ call.input.sessionId := by
      rintro rfl
      rw [hfound challenge found] at state
      cases state
    exact moves_of_notMem_wrote (by simpa [RowOp.wrote] using hid) (by simp [RowOp.wrote])
  | renew first =>
    refine moves_writeSession rfl rfl fun hid htoken hrecord => .renews rfl first ?_ htoken hrecord
    have hlive : tokenOf s _ = _ := of_decide_eq_true hrenews
    rwa [hid] at hlive
  | signIn token first =>
    exact moves_writeSession rfl (congrArg some token) fun hid htoken hrecord =>
      .signsIn rfl first rfl hid htoken hrecord
  | issue => exact moves_issueToken hinj hrenews
  | bury | retire => exact moves_of_notMem_wrote (by simp [RowOp.wrote]) (by simp [RowOp.wrote])
  | remove => exact moves_removeSession
  | touch => exact moves_touch
  | create => exact moves_create

end

/-! ### Where tokens come from -/

section
variable {R ι : Type} [DecidableEq ι] (hash : String → String) (start : SessionsState) (task : ι → SessionTask R)
  (id : String)

abbrev SessionEvent (ι : Type) := Event sessionStore ι

def SessionEvent.record (e : SessionEvent ι) : Record sessionStore := ⟨e.op, e.reply⟩

/-- No two calls draw one token, and the store does not know the tokens that are drawn. -/
structure Fresh : Prop where
  distinct : ∀ i j t, (task i).drawn = some t → (task j).drawn = some t → i = j
  unknown : ∀ i t, (task i).drawn = some t → tokenOf start id ≠ some t ∧ recordOf start id ≠ some (hash t) ∧
    start.row (.refresh (hash t)) = none ∧
    ∀ k, ∀ tombstone : RefreshTombstone, start.row (.rotated k) = some tombstone → tombstone.successorHash ≠ hash t

/-- The token was issued when the events had happened, or is one that a refresh draws which had begun by then. -/
def Old (older : List (SessionEvent ι)) (t : String) : Prop :=
  (tokenOf start id = some t ∨ recordOf start id = some (hash t) ∨ start.row (.refresh (hash t)) ≠ none) ∨
    ∃ e ∈ older, (task e.thread).drawn = some t ∧ (issues e.op = true ∨ (task e.thread).refreshes = true)

/-- The token is drawn by a login that had not issued it, or by a refresh that had not begun. -/
def Young (older : List (SessionEvent ι)) (t : String) : Prop :=
  ∃ j, (task j).drawn = some t ∧
    ∀ e ∈ older, e.thread = j → issues e.op = false ∧ (task j).refreshes = false

/-- The token with this hash was in the index from the start, or a call has entered the token it drew. -/
def Indexed (history : List (SessionEvent ι)) (tokenHash : String) : Prop :=
  start.row (.refresh tokenHash) ≠ none ∨
    ∃ e ∈ history, issues e.op = true ∧ ∃ t, (task e.thread).drawn = some t ∧ tokenHash = hash t

/-- A token that was exchanged was exchanged before the start, or by a refresh that found it current. -/
def Buried (history : List (SessionEvent ι)) (k : String) (tombstone : RefreshTombstone) : Prop :=
  tombstone.cause = .rotated → start.row (.rotated k) = some tombstone ∨
    ∃ j call, task j = .refresh call ∧ k = hash call.input.refreshToken ∧
      tombstone.successorHash = hash call.newRefreshToken ∧
      ∃ r ∈ Crew.diary j history, Shows hash tombstone.sessionId call.input.refreshToken r

/-- A login stores the session. -/
def LogsIn (e : SessionEvent ι) : Prop :=
  ∃ call t, task e.thread = .login call ∧ t.sessionId = id ∧ e.op = writeSession t

/-- What is so since the session was deleted, which was when the `older` events had happened. -/
structure Since (older newer : List (SessionEvent ι)) (s : SessionsState) : Prop where
  token : ∀ t, tokenOf s id = some t → Young task older t
  record : ∀ tokenHash, recordOf s id = some tokenHash → ∃ t, tokenHash = hash t ∧ Young task older t
  login : tokenOf s id ≠ none → ∃ e ∈ newer, LogsIn task id e
  seen : ∀ e ∈ newer, ∀ t, Shows hash id t (SessionEvent.record e) → Young task older t

/-- The rows of a session that is not a challenge: a current token is in the row. -/
structure Sound (s : SessionsState) : Prop where
  coherent : recordOf s id ≠ none → tokenOf s id ≠ none
  authentic : ∀ row : SessionOf id, s.row (.session id) = some row → row.val.state = .authenticated

structure Traced (s : SessionsState) (history : List (SessionEvent ι)) : Prop where
  sound : Sound id s
  found : ∀ i, ∀ row : SessionOf id, Found (Crew.diary i history) row → row.val.state = .authenticated
  index : ∀ tokenHash v, s.row (.refresh tokenHash) = some v → Indexed hash start task history tokenHash
  claimed : ∀ newer older i tokenHash, ∀ v : String,
    history = newer ++ (⟨i, .take (.refresh tokenHash), some v⟩ : SessionEvent ι) :: older →
      Indexed hash start task older tokenHash
  tombstones : ∀ k, ∀ tombstone : RefreshTombstone, s.row (.rotated k) = some tombstone →
    Buried hash start task history k tombstone
  read : ∀ i k, ∀ tombstone : RefreshTombstone, (⟨i, .get (.rotated k), some tombstone⟩ : SessionEvent ι) ∈ history →
    Buried hash start task history k tombstone
  since : ∀ newer d older, history = newer ++ d :: older → Removes hash id (SessionEvent.record d) →
    Since hash task id (d :: older) newer s

variable {hash start task id} {s s' : SessionsState} {history newer older : List (SessionEvent ι)} {i : ι}
  {o : RowOp SessionRow} {e : SessionEvent ι} {t : String}

omit [DecidableEq ι] in
theorem Young.not_old (h : Young task older t) (hfresh : Fresh hash start task id) :
    ¬ Old hash start task id older t := by
  obtain ⟨j, hdrawn, hyoung⟩ := h
  rintro ((htoken | hrecord | hindex) | ⟨e, he, hdrawn', hold⟩)
  · exact (hfresh.unknown j t hdrawn).1 htoken
  · exact (hfresh.unknown j t hdrawn).2.1 hrecord
  · exact hindex (hfresh.unknown j t hdrawn).2.2.1
  · obtain ⟨hissues, hrefreshes⟩ := hyoung e he (hfresh.distinct _ _ t hdrawn' hdrawn)
    rw [hfresh.distinct _ _ t hdrawn' hdrawn, hissues, hrefreshes] at hold
    exact hold.elim Bool.noConfusion Bool.noConfusion

omit [DecidableEq ι] in
theorem Indexed.cons (h : Indexed hash start task history t) (e : SessionEvent ι) :
    Indexed hash start task (e :: history) t :=
  h.imp_right fun ⟨e', he', hrest⟩ => ⟨e', List.mem_cons_of_mem _ he', hrest⟩

theorem Buried.cons {k : String} {tombstone : RefreshTombstone} (h : Buried hash start task history k tombstone)
    (e : SessionEvent ι) : Buried hash start task (e :: history) k tombstone := by
  intro hcause
  refine (h hcause).imp_right fun ⟨j, call, htask, hk, hsuccessor, r, hr, hshows⟩ =>
    ⟨j, call, htask, hk, hsuccessor, r, ?_, hshows⟩
  rw [← List.singleton_append, Crew.diary_append]
  exact List.mem_append_right _ hr

/-- What an event shows of a session's token is what the store had. -/
theorem shown_of_shows (hinj : Function.Injective hash) (h : Shows hash id t ⟨o, (RowOp.exec o s).1⟩) :
    tokenOf s id = some t ∨ recordOf s id = some (hash t) := by
  rcases h with ⟨row, htoken, hget⟩ | hget
  · obtain rfl : o = .get (.session id) := congrArg Record.op hget
    have hrow : s.row (.session id) = some row := eq_of_heq (Record.mk.inj hget).2
    obtain ⟨live, hlive, hsame⟩ := Option.map_eq_some_iff.mp htoken
    refine .inl ?_
    rw [tokenOf, hrow, ← hinj hsame]
    exact hlive
  · obtain rfl : o = .get (.current id) := congrArg Record.op hget
    exact .inr (eq_of_heq (Record.mk.inj hget).2)

/-- A refresh that replaces a young token had not begun when the session was deleted. -/
theorem not_begun_of_claims (h : Traced hash start task id s (newer ++ older)) (hinj : Function.Injective hash)
    (hfresh : Fresh hash start task id) {claimed : String}
    (hfirst : (Crew.diary i (newer ++ older)).getLast? =
      some ⟨(.take (.refresh (hash t)) : RowOp SessionRow), some claimed⟩)
    (hyoung : Young task older t) : ∀ e ∈ older, e.thread ≠ i := by
  intro e he hthread
  have hnonempty : Crew.diary i older ≠ [] := by
    obtain ⟨j, o, r⟩ := e
    obtain rfl : j = i := hthread
    exact List.ne_nil_of_mem (Crew.mem_diary.mpr he)
  rw [Crew.diary_append, List.getLast?_append_of_ne_nil _ hnonempty] at hfirst
  obtain ⟨after, before, rfl⟩ := List.append_of_mem (Crew.mem_diary.mp (List.mem_of_getLast? hfirst))
  obtain ⟨j, hdrawn, hold⟩ := hyoung
  rcases h.claimed (newer ++ after) before i (hash t) claimed (by simp) with hstart | ⟨e', he', hissues, u, hu, hsame⟩
  · exact hstart (hfresh.unknown j t hdrawn).2.2.1
  · obtain rfl : t = u := hinj hsame
    have hfalse := (hold e' (List.mem_append_right _ (List.mem_cons_of_mem _ he')) (hfresh.distinct _ _ t hu hdrawn)).1
    rw [hissues] at hfalse
    cases hfalse

/-- **One operation** after the deletion. -/
theorem Since.step (h : Since hash task id older newer s) (htraced : Traced hash start task id s (newer ++ older))
    (hinj : Function.Injective hash) (hfresh : Fresh hash start task id)
    (hmoves : Moves hash (task i) (Crew.diary i (newer ++ older)) id s (RowOp.exec o s).2 o) :
    Since hash task id older ((⟨i, o, (RowOp.exec o s).1⟩ : SessionEvent ι) :: newer) (RowOp.exec o s).2 := by
  have hlogin : tokenOf s id ≠ none →
      ∃ e ∈ (⟨i, o, (RowOp.exec o s).1⟩ : SessionEvent ι) :: newer, LogsIn task id e := fun hlive =>
    List.exists_mem_cons_of_exists (h.login hlive)
  have hseen : ∀ e ∈ (⟨i, o, (RowOp.exec o s).1⟩ : SessionEvent ι) :: newer, ∀ t,
      Shows hash id t (SessionEvent.record e) → Young task older t := by
    refine List.forall_mem_cons.mpr ⟨fun t hshows => ?_, h.seen⟩
    rcases shown_of_shows hinj hshows with htoken | hrecord
    · exact h.token t htoken
    · obtain ⟨u, hsame, hyoung⟩ := h.record _ hrecord
      exact hinj hsame ▸ hyoung
  cases hmoves with
  | keeps token record =>
    refine ⟨fun t ht => h.token t (token ▸ ht), fun tokenHash ht => h.record tokenHash (record ▸ ht),
      fun hlive => ?_, hseen⟩
    exact hlogin (token ▸ hlive)
  | renews htask first live token record =>
    have hbegan := not_begun_of_claims htraced hinj hfresh first (h.token _ live)
    refine ⟨fun t ht => ⟨i, ?_, fun e he hthread => absurd hthread (hbegan e he)⟩,
      fun tokenHash ht => h.record tokenHash (record ▸ ht), fun _ => hlogin (by rw [live]; simp), hseen⟩
    rw [htask, ← ht, token]
    rfl
  | @signsIn call t htask first op session token record =>
    refine ⟨fun t ht => ⟨i, ?_, fun e he hthread => ⟨?_, by rw [htask]; rfl⟩⟩,
      fun tokenHash ht => h.record tokenHash (record ▸ ht),
        fun _ => ⟨_, List.mem_cons_self, call, t, htask, session, op⟩,
      hseen⟩
    · rw [htask, ← ht, token]
      rfl
    · obtain ⟨j, o, r⟩ := e
      obtain rfl : j = i := hthread
      exact first _ (Crew.mem_diary.mpr (List.mem_append_right _ he))
  | @issues t live token record =>
    refine ⟨fun u hu => h.token u (live.trans (token.symm.trans hu)), fun tokenHash ht => ⟨t, ?_, h.token t live⟩,
      fun _ => hlogin (by rw [live]; simp), hseen⟩
    exact Option.some.inj (ht.symm.trans record)
  | clears gone forgotten =>
    refine ⟨fun t ht => ?_, fun tokenHash ht => ?_, fun hlive => absurd gone hlive, hseen⟩
    · rw [gone] at ht
      cases ht
    · rw [forgotten] at ht
      cases ht

omit [DecidableEq ι] in
/-- The deletion itself leaves no token. -/
theorem since_of_removes (hsound : Sound id s) (h : Removes hash id ⟨o, (RowOp.exec o s).1⟩) :
    Since hash task id older [] (RowOp.exec o s).2 := by
  have hgone : tokenOf (RowOp.exec o s).2 id = none ∧ recordOf (RowOp.exec o s).2 id = none := by
    rcases h with hget | ⟨t, rfl, hop⟩
    · obtain rfl : o = .get (.session id) := congrArg Record.op hget
      have hrow : s.row (.session id) = none := eq_of_heq (Record.mk.inj hget).2
      have htoken : tokenOf s id = none := by
        rw [tokenOf, hrow]
        rfl
      exact ⟨htoken, by_contra fun hrecord => hsound.coherent hrecord htoken⟩
    · obtain rfl : o = removeSession hash t := hop
      have hsession : (RowOp.exec (removeSession hash t) s).2.row (.session t.sessionId) = _ :=
        row_stageSessionRemoval t (by simp) (by simp)
      have hcurrent : (RowOp.exec (removeSession hash t) s).2.row (.current t.sessionId) = _ :=
        row_stageSessionRemoval t (by simp) (by simp)
      rw [if_pos (.inr rfl)] at hsession
      rw [if_pos (.inl rfl)] at hcurrent
      exact ⟨by rw [tokenOf, hsession]; rfl, hcurrent⟩
  refine ⟨fun t ht => ?_, fun tokenHash ht => ?_, fun hlive => absurd hgone.1 hlive, fun e he => ?_⟩
  · rw [hgone.1] at ht
    cases ht
  · rw [hgone.2] at ht
    cases ht
  · cases he

section
variable (h : Traced hash start task id s history) (hpermits : Permits hash (task i) (Crew.diary i history) o)
include h hpermits

theorem Traced.sound_step (hmoves : Moves hash (task i) (Crew.diary i history) id s (RowOp.exec o s).2 o) :
    Sound id (RowOp.exec o s).2 := by
  refine ⟨fun hrecord => ?_, fun row hrow => ?_⟩
  · cases hmoves with
    | keeps token record =>
      rw [token]
      exact h.sound.coherent (record ▸ hrecord)
    | renews _ _ _ token | signsIn _ _ _ _ token | issues _ token =>
      rw [token]
      exact Option.some_ne_none _
    | clears _ forgotten => exact absurd forgotten hrecord
  · rcases RowOp.row_or_put_of_exec hrow with hold | hput
    · exact h.sound.authentic row hold
    · rcases vouched_of_permits hpermits _ hput with hstate | ⟨read, hfound, hstate⟩
      · exact hstate
      · exact hstate.trans (h.found i read hfound)

theorem Traced.index_step {tokenHash v : String} (hrow : (RowOp.exec o s).2.row (.refresh tokenHash) = some v) :
    Indexed hash start task ((⟨i, o, (RowOp.exec o s).1⟩ : SessionEvent ι) :: history) tokenHash := by
  rcases RowOp.row_or_put_of_exec hrow with hold | hput
  · exact (h.index tokenHash v hold).cons _
  · obtain ⟨hissues, t, hdrawn, hsame⟩ := vouched_of_permits hpermits _ hput
    exact .inr ⟨_, List.mem_cons_self, hissues, t, hdrawn, hsame⟩

theorem Traced.tombstones_step {k : String} {tombstone : RefreshTombstone}
    (hrow : (RowOp.exec o s).2.row (.rotated k) = some tombstone) :
    Buried hash start task ((⟨i, o, (RowOp.exec o s).1⟩ : SessionEvent ι) :: history) k tombstone := by
  rcases RowOp.row_or_put_of_exec hrow with hold | hput
  · exact (h.tombstones k tombstone hold).cons _
  · intro hcause
    obtain ⟨call, htask, hk, hsuccessor, r, hr, hshows⟩ := vouched_of_permits hpermits _ hput hcause
    refine .inr ⟨i, call, htask, hk, hsuccessor, r, ?_, hshows⟩
    rw [Crew.diary_cons_self]
    exact List.mem_cons_of_mem _ hr

/-- **One operation** keeps the trace. -/
theorem Traced.step (hinj : Function.Injective hash) (hfresh : Fresh hash start task id)
    (hrenews : renewsOwn hash (task i) s o = true) :
    Traced hash start task id (RowOp.exec o s).2 ((⟨i, o, (RowOp.exec o s).1⟩ : SessionEvent ι) :: history) := by
  have hmoves := moves_of_permits (s := s) hpermits hinj hrenews (h.found i)
  refine ⟨h.sound_step hpermits hmoves, fun j row hfound => ?_, fun _ _ hrow => h.index_step hpermits hrow,
    fun newer older j tokenHash v hsplit => ?_, fun _ _ hrow => h.tombstones_step hpermits hrow,
    fun j k tombstone hmem => ?_, fun newer d older hsplit hremoves => ?_⟩
  · rcases List.mem_cons.mp (Crew.mem_diary.mp hfound) with heq | hmem
    · obtain ⟨rfl, rfl, hreply⟩ := Event.mk.inj heq
      exact h.sound.authentic row (eq_of_heq hreply).symm
    · exact h.found j row (Crew.mem_diary.mpr hmem)
  · rcases List.cons_eq_append_iff.mp hsplit with ⟨-, hcons⟩ | ⟨newer, rfl, hhistory⟩
    · obtain ⟨heq, rfl⟩ := List.cons.inj hcons
      obtain ⟨rfl, rfl, hreply⟩ := Event.mk.inj heq
      exact h.index tokenHash v (eq_of_heq hreply).symm
    · exact h.claimed newer older j tokenHash v hhistory
  · rcases List.mem_cons.mp hmem with heq | hmem
    · obtain ⟨rfl, rfl, hreply⟩ := Event.mk.inj heq
      exact (h.tombstones k tombstone (eq_of_heq hreply).symm).cons _
    · exact (h.read j k tombstone hmem).cons _
  · rcases List.cons_eq_append_iff.mp hsplit with ⟨rfl, hcons⟩ | ⟨newer, rfl, rfl⟩
    · obtain ⟨rfl, rfl⟩ := List.cons.inj hcons
      exact since_of_removes h.sound hremoves
    · exact (h.since newer d older rfl hremoves).step h hinj hfresh hmoves

end

omit [DecidableEq ι] in
theorem traced_start [DecidableEq ι] (h : Sound id start) :
    Traced hash start task id start ([] : List (SessionEvent ι)) := by
  refine ⟨h, fun i row hfound => ?_, fun tokenHash v hrow => .inl ?_, fun newer older i tokenHash v hsplit => ?_,
    fun k tombstone hrow _ => .inl hrow, fun i k tombstone hmem => ?_, fun newer d older hsplit => ?_⟩
  · cases hfound
  · rw [hrow]
    exact Option.some_ne_none _
  · exact absurd hsplit (by simp)
  · cases hmem
  · exact absurd hsplit (by simp)

end

/-! ### Calls that run together -/

section
variable {R ι : Type} [DecidableEq ι] (hash : String → String)

def calls (s : SessionsState) (task : ι → SessionTask R) :
    Crew sessionStore (SessionTask R × Diary) ι SessionError Outcome :=
  Crew.tasks s (SessionTask.program hash) task

def after (s : SessionsState) (task : ι → SessionTask R) (schedule : List ι) :
    Crew sessionStore (SessionTask R × Diary) ι SessionError Outcome :=
  run (Crew.step (conduct hash)) (calls hash s task) schedule

def RenewsOwn (s : SessionsState) (task : ι → SessionTask R) (schedule : List ι) : Prop :=
  Along (Crew.step (conduct hash)) (Crew.Meets fun s _ _ i o => renewsOwn hash (task i) s o = true) (calls hash s task)
    schedule

/-- **Sign-out is final**, in every run of refreshes, logins, sign-outs and messages in which a refresh replaces the
token that it claimed, and tokens are entered into the index while the row of their session carries them. A sign-out
that has ended has completed a deletion. Once a deletion of a session has completed, the session has no row with a
refresh token until a login stores one; and a refresh that begins after it is answered for the session only if the token
it presents is neither one that was issued before the deletion, nor one minted by a refresh that had begun before. -/
theorem sign_out_final (hash : String → String) (hinj : Function.Injective hash) (s : SessionsState)
    (task : ι → SessionTask R) (schedule : List ι) (id : String) (hsound : Sound id s) (hfresh : Fresh hash s task id)
    (hrenews : RenewsOwn hash s task schedule) :
    let c := after hash s task schedule
    (∀ i r, task i = .signOut id → c.threads i = .ret r →
      ∃ d ∈ c.history, d.thread = i ∧ Removes hash id (SessionEvent.record d)) ∧
    ∀ newer d older, c.history = newer ++ d :: older → Removes hash id (SessionEvent.record d) →
      (∀ row : SessionOf id, c.store.row (.session id) = some row → row.val.refreshToken ≠ none →
        ∃ e ∈ newer, LogsIn task id e) ∧
      ∀ j call response, task j = .refresh call → (∀ e ∈ d :: older, e.thread ≠ j) →
        c.threads j = .ret (.ok (.refreshed response)) → response.session.id = id →
        ¬ Old hash s task id (d :: older) call.input.refreshToken := by
  intro c
  obtain ⟨htraced, hends⟩ := Crew.tasks_invariant (J := Traced hash s task id) (follows_program (R := R))
    (traced_start hsound) (fun _ _ _ _ h hpermits hown => h.step hpermits hinj hfresh hown) hrenews
  change Traced hash s task id c.store c.history at htraced
  refine ⟨fun i r htask hret => ?_, fun newer d older hsplit hremoves => ?_⟩
  · have hdone := hends i r hret
    rw [htask] at hdone
    obtain ⟨⟨o, reply⟩, hr, hremoves⟩ := hdone
    exact ⟨_, Crew.mem_diary.mp hr, rfl, hremoves⟩
  have hsince := htraced.since newer d older hsplit hremoves
  -- What calls have seen that begin after the deletion, they have seen since.
  have hyoung {j : ι} {t : String} {r : Record sessionStore} (hbegan : ∀ e ∈ d :: older, e.thread ≠ j)
      (hr : r ∈ Crew.diary j c.history) (hshows : Shows hash id t r) : Young task (d :: older) t := by
    obtain ⟨o, reply⟩ := r
    have hmem := Crew.mem_diary.mp hr
    rw [hsplit] at hmem
    rcases List.mem_append.mp hmem with hnewer | holder
    · exact hsince.seen _ hnewer t hshows
    · exact absurd rfl (hbegan _ holder)
  refine ⟨fun row hrow htoken => hsince.login (by rwa [tokenOf, hrow]), fun j call response htask hbegan hret hid => ?_⟩
  have hdone := hends j _ hret
  rw [htask] at hdone
  rcases hdone with ⟨r, hr, hshows⟩ | ⟨tombstone, row, hsession, hcause, hread, hfound, hlive⟩
  · exact (hyoung hbegan hr (hid ▸ hshows)).not_old hfresh
  · -- The exchange that is retried was made by a refresh that began after the deletion too.
    obtain rfl : tombstone.sessionId = id := hsession.trans hid
    obtain ⟨live, htoken, hsuccessor⟩ := Option.map_eq_some_iff.mp hlive
    obtain ⟨k, hdrawn, hnot⟩ := hyoung hbegan hfound (.inl ⟨row, by rw [htoken]; rfl, rfl⟩ : Shows hash _ live _)
    rcases htraced.read j _ tombstone (Crew.mem_diary.mp hread) hcause with
      hstart | ⟨k', call', htask', hk, hnew, r, hr, hshows⟩
    · exact absurd hsuccessor.symm ((hfresh.unknown k live hdrawn).2.2.2 _ tombstone hstart)
    · obtain rfl : live = call'.newRefreshToken := hinj (hsuccessor.trans hnew)
      obtain rfl : k' = k := hfresh.distinct _ _ _ (by rw [htask']; rfl) hdrawn
      have hbegan' : ∀ e ∈ d :: older, e.thread ≠ k' := by
        intro e he hthread
        have hrefreshes := (hnot e he hthread).2
        rw [htask'] at hrefreshes
        cases hrefreshes
      rw [hinj hk]
      exact (hyoung hbegan' hr hshows).not_old hfresh

end

/-! ### A refresh that renews the session after it was signed out -/

/-- A service that knows everyone. -/
def openBackend : AuthBackend Unit where
  accessTokenTtl := 900
  accessTokenTtlForAal2 := 300
  refreshTokenTtl := 86400
  idleTimeout := none
  refreshReuseGrace := 30
  challengeTtl := 300
  didcommFreshnessWindow := 60
  checkAcl _ := .ok ⟨(), []⟩
  mintAccessToken claims := .ok claims.tokenId

def aliceSession : Session where
  sessionId := "did:alice"
  did := "did:alice"
  challenge := ""
  state := .authenticated
  createdAt := 100
  lastSeen := 100
  refreshToken := some "token0"
  refreshExpiresAt := some 86500
  teeAttested := false
  amr := ["did"]
  acr := "aal1"
  acrExpiresAt := none
  tokenId := some "jti0"
  sessionPubkeyB58btc := none
  notAfter := none

def aliceChallenge : Session :=
  { aliceSession with
    sessionId := "challenge", challenge := "nonce", state := .challengeSent, refreshToken := none,
    refreshExpiresAt := none, tokenId := none }

def challengeRow : SessionOf "challenge" := ⟨aliceChallenge, rfl⟩

/-- Alice is signed in, and has been sent a challenge. -/
def signedIn : SessionsState :=
  ((((⟨fun _ => none, 200⟩ : SessionsState).set (.session "challenge") (some challengeRow)).set
    (.session "did:alice") (some ⟨aliceSession, rfl⟩)).set (.refresh "token0") (some "did:alice")).set
      (.current "did:alice") (some "token0")

def loginWith (token : String) : AuthenticateCall Unit where
  backend := openBackend
  input := ⟨"challenge", "nonce", "did:alice", none, none, .transport⟩
  amr := ["did"]
  acr := "aal1"
  elapsed := 1
  draw := ⟨token, "jti1", 0⟩

def refreshWith (token newToken : String) (elapsed : Nat) : RefreshCall Unit where
  backend := openBackend
  input := ⟨token, none⟩
  newRefreshToken := newToken
  newTokenId := "jti"
  elapsed := elapsed

def aliceTasks : Fin 5 → SessionTask Unit
  | 0 => .refresh (refreshWith "token0" "token1" 1)
  | 1 => .signOut "did:alice"
  | 2 => .refresh (refreshWith "token1" "token2" 1)
  | 3 => .login (loginWith "token3")
  | 4 => .refresh (refreshWith "token3" "token4" 1)

def acceptedFor : SessionProgram Outcome → Option String
  | .ret (.ok (.refreshed response)) => some response.session.id
  | _ => none

theorem sound_signedIn : Sound "did:alice" signedIn := by
  refine ⟨fun _ => Option.some_ne_none _, fun row hrow => ?_⟩
  cases hrow
  rfl

theorem fresh_aliceTasks : Fresh id signedIn aliceTasks "did:alice" := by
  have hdistinct : ∀ i j, (aliceTasks i).drawn ≠ none → (aliceTasks i).drawn = (aliceTasks j).drawn → i = j := by
    decide +kernel
  have hunknown : ∀ i, (aliceTasks i).drawn ≠ some "token0" := by decide +kernel
  refine ⟨fun i j t hi hj => hdistinct i j (by rw [hi]; exact Option.some_ne_none _) (hi.trans hj.symm),
    fun i t hi => ?_⟩
  have ht : t ≠ "token0" := fun heq => hunknown i (heq ▸ hi)
  refine ⟨fun htoken => ht (Option.some.inj htoken).symm, fun hrecord => ht (Option.some.inj hrecord).symm, ?_,
    fun k tombstone hrow => ?_⟩
  · rw [signedIn, Rows.row_set_of_ne _ (by simp), Rows.row_set_of_ne _ (by simpa using ht),
      Rows.row_set_of_ne _ (by simp), Rows.row_set_of_ne _ (by simp)]
  · rw [signedIn, Rows.row_set_of_ne _ (by simp), Rows.row_set_of_ne _ (by simp), Rows.row_set_of_ne _ (by simp),
      Rows.row_set_of_ne _ (by simp)] at hrow
    cases hrow

/-- Alice refreshes and signs out; the token she had then is presented; and she signs in again, and refreshes. -/
def signedOutAndIn : List (Fin 5) :=
  List.replicate 8 0 ++ [1, 1] ++ [2, 2] ++ List.replicate 10 3 ++ List.replicate 8 4

/-- The session has a token again, because of the login. -/
theorem sign_out_final_presented :
    let c := after id signedIn aliceTasks signedOutAndIn
    RenewsOwn id signedIn aliceTasks signedOutAndIn ∧ acceptedFor (c.threads 4) = some "did:alice" ∧
    ∃ newer d older, c.history = newer ++ d :: older ∧ d.thread = 1 ∧
      Removes id "did:alice" (SessionEvent.record d) ∧ ∃ e ∈ newer, LogsIn aliceTasks "did:alice" e := by
  intro c
  have hrenews : RenewsOwn id signedIn aliceTasks signedOutAndIn := by
    unfold RenewsOwn
    decide +kernel
  obtain ⟨hended, hfinal⟩ := sign_out_final id Function.injective_id signedIn aliceTasks signedOutAndIn "did:alice"
    sound_signedIn fresh_aliceTasks hrenews
  obtain ⟨r, hret⟩ := Program.exists_of_succeeded (show (c.threads 1).succeeded = true by decide +kernel)
  obtain ⟨d, hd, hthread, hremoves⟩ := hended 1 (.ok r) rfl hret
  obtain ⟨newer, older, hsplit⟩ := List.append_of_mem hd
  obtain ⟨row, hrow⟩ := Option.isSome_iff_exists.mp
    (show (c.store.row (.session "did:alice")).isSome = true by decide +kernel)
  have htoken : tokenOf c.store "did:alice" = some "token4" := by decide +kernel
  rw [tokenOf, hrow] at htoken
  refine ⟨hrenews, by decide +kernel, newer, d, older, hsplit, hthread, hremoves, ?_⟩
  exact (hfinal newer d older hsplit hremoves).1 row hrow (by rw [show row.val.refreshToken = _ from htoken]; simp)

/-- The refresh has passed its checks when Alice signs out, and then writes the session back. Its new token is accepted
by a refresh that begins after all this. -/
theorem signed_out_renewed :
    ((after id signedIn aliceTasks [0, 0, 0, 0, 0, 1, 1]).threads 1).succeeded = true ∧
    Crew.diary 2 (after id signedIn aliceTasks [0, 0, 0, 0, 0, 1, 1]).history = [] ∧
    acceptedFor ((after id signedIn aliceTasks
      ([0, 0, 0, 0, 0, 1, 1] ++ [0, 0, 0, 2, 2, 2, 2, 2, 2, 2, 2])).threads 2) = some "did:alice" ∧
    tokenOf (after id signedIn aliceTasks
      ([0, 0, 0, 0, 0, 1, 1] ++ [0, 0, 0, 2, 2, 2, 2, 2, 2, 2, 2])).store "did:alice" = some "token2" := by
  refine ⟨?_, ?_, ?_, ?_⟩
  · decide +kernel
  · exact List.length_eq_zero_iff.mp (by decide +kernel)
  · decide +kernel
  · decide +kernel

end TrustInfrastructure.Auth
