import TrustInfrastructure.Auth.Handlers
import TrustInfrastructure.Lib.Outcome

/-!
# What a refresh and a login leave when they run alone

One lemma for each handler lists its outcomes: what it found in the store, what it answered, and which rows it left.
What is proved about sequences of calls uses these lists and not the handlers.
-/

namespace TrustInfrastructure.Auth

open Lib (Program Rows RowOp Write)
open Lib.Program (Runs runs_bind runs_perform runs_lift)
open SessionProgram

/-- The store some seconds later. -/
def later (s : SessionsState) (elapsed : Nat) : SessionsState := { s with clock := s.clock + elapsed }

/-! ### The store functions -/

section
variable {α β : Type} {s : SessionsState} {Q : Except SessionError β → SessionsState → Prop}

section
variable {k : SessionKey} {f : Option (SessionRow k) → SessionProgram β}

theorem runs_get (h : ∀ found, s.row k = found → (f found).Runs s Q) : (Program.bind (get k) f).Runs s Q :=
  h _ rfl

theorem runs_take (h : ∀ found, s.row k = found → (f found).Runs (s.set k none) Q) :
    (Program.bind (take k) f).Runs s Q :=
  h _ rfl

end

theorem runs_insert {k : SessionKey} {v : SessionRow k} {f : Unit → SessionProgram β}
    (h : (f ()).Runs (s.set k (some v)) Q) : (Program.bind (insert k v) f).Runs s Q :=
  h

theorem runs_getSession {id : String} {f : Option Session → SessionProgram β}
    (h : ∀ row : Option (SessionOf id), s.row (.session id) = row → (f (row.map Subtype.val)).Runs s Q) :
    (Program.bind (getSession id) f).Runs s Q :=
  h _ rfl

theorem runs_nowEpoch {elapsed : Nat} {f : Nat → SessionProgram β}
    (h : (f (s.clock + elapsed)).Runs (later s elapsed) Q) : (Program.bind (nowEpoch elapsed) f).Runs s Q :=
  h

theorem runs_checked {r : Except AuthError α} {f : α → SessionProgram β}
    (herror : ∀ e, Q (.error e) s) (h : ∀ a, r = .ok a → (f a).Runs s Q) : (Program.bind (checked r) f).Runs s Q := by
  refine runs_lift (fun e _ => herror e) fun a ha => h a ?_
  cases r with
  | ok =>
    cases ha
    rfl
  | error => cases ha

theorem runs_storeSession {t : Session} (hstate : t.state = .authenticated) {f : Unit → SessionProgram β}
    (h : (f ()).Runs (s.apply (putSession t)) Q) : (Program.bind (storeSession t) f).Runs s Q := by
  rw [storeSession, writeSession, stagePendingChallengeIndex, hstate]
  exact h

theorem runs_storeRefreshIndex {hash : String → String} {token id : String} {f : Unit → SessionProgram β}
    (h : (f ()).Runs ((s.set (.current id) (some (hash token))).set (.refresh (hash token)) (some id)) Q) :
    (Program.bind (storeRefreshIndex hash token id) f).Runs s Q :=
  h

end

/-! ### Refreshing -/

section
variable {R : Type} (hash : String → String) (call : RefreshCall R)

def rotatedRows (s : SessionsState) (x : Session) (now : Nat) : SessionsState :=
  ((((s.set (.refresh (hash call.input.refreshToken)) none).apply (putSession (rotatedSession call x now))).set
    (.current x.sessionId) (some (hash call.newRefreshToken))).set
      (.refresh (hash call.newRefreshToken)) (some x.sessionId)).set
        (.rotated (hash call.input.refreshToken)) (some (rotatedTombstone hash call x now))

/-- The outcomes of a refresh from `s`. -/
inductive RefreshOutcome (s : SessionsState) : Except SessionError AuthenticateResponse → SessionsState → Prop
  /-- The token was in the index, and a check refused it. -/
  | refused {id e s'} (index : s.row (.refresh (hash call.input.refreshToken)) = some id)
      (rows : s'.row = (s.set (.refresh (hash call.input.refreshToken)) none).row) : RefreshOutcome s (.error e) s'
  /-- The token was in the index, but is not its session's current one. -/
  | superseded {id e s'} {x : SessionOf id} {tombstone : RefreshTombstone}
      (index : s.row (.refresh (hash call.input.refreshToken)) = some id) (row : s.row (.session id) = some x)
      (current : currentHash hash (s.row (.current id)) x.val ≠ some (hash call.input.refreshToken))
      (cause : tombstone.cause = .superseded) (session : tombstone.sessionId = id)
      (rows : s'.row = ((s.set (.refresh (hash call.input.refreshToken)) none).set
        (.rotated (hash call.input.refreshToken)) (some tombstone)).row) : RefreshOutcome s (.error e) s'
  /-- The current token is exchanged. -/
  | rotated {id s'} {x : SessionOf id} {resolution : RoleResolution R} {accessToken : String}
      (index : s.row (.refresh (hash call.input.refreshToken)) = some id) (row : s.row (.session id) = some x)
      (current : currentHash hash (s.row (.current id)) x.val = some (hash call.input.refreshToken))
      (renewable : checkRenewable call.backend x.val (s.clock + call.elapsed) = .ok ())
      (minted : call.backend.mintAccessToken
        (claimsOf call.backend x.val (s.clock + call.elapsed) resolution call.newTokenId) = .ok accessToken)
      (rows : s'.row = (rotatedRows hash call s x.val (s.clock + call.elapsed)).row) :
      RefreshOutcome s (.ok (refreshResponse call.backend x.val (s.clock + call.elapsed) resolution accessToken
        call.newRefreshToken (some (x.val.clampToEnd (saturatingAdd (s.clock + call.elapsed)
          call.backend.refreshTokenTtl) - (s.clock + call.elapsed))))) s'
  /-- The token is not known. -/
  | unknown {e s'} (index : s.row (.refresh (hash call.input.refreshToken)) = none)
      (tomb : s.row (.rotated (hash call.input.refreshToken)) = none) (rows : s'.row = s.row) :
      RefreshOutcome s (.error e) s'
  /-- The rotation is retried. -/
  | retried {r s'} {tombstone : RefreshTombstone} {x : SessionOf tombstone.sessionId}
      (index : s.row (.refresh (hash call.input.refreshToken)) = none)
      (tomb : s.row (.rotated (hash call.input.refreshToken)) = some tombstone)
      (row : s.row (.session tombstone.sessionId) = some x)
      (retry : isInnocentRetry hash x.val tombstone (s.clock + call.elapsed) call.backend.refreshReuseGrace = true)
      (answer : r = ((checkSigner call.input x.val).bind fun _ =>
        replayRotation call.backend x.val (s.clock + call.elapsed)).mapError .auth)
      (rows : s'.row = s.row) : RefreshOutcome s r s'
  /-- The token was retired, or its session is gone. -/
  | retired {e s'} {tombstone : RefreshTombstone} (index : s.row (.refresh (hash call.input.refreshToken)) = none)
      (tomb : s.row (.rotated (hash call.input.refreshToken)) = some tombstone)
      (cause : tombstone.cause = .superseded ∨ s.row (.session tombstone.sessionId) = none) (rows : s'.row = s.row) :
      RefreshOutcome s (.error e) s'
  /-- The token is reused, and its session is deleted. -/
  | revoked {e s'} {tombstone : RefreshTombstone} {x : SessionOf tombstone.sessionId}
      (index : s.row (.refresh (hash call.input.refreshToken)) = none)
      (tomb : s.row (.rotated (hash call.input.refreshToken)) = some tombstone)
      (row : s.row (.session tombstone.sessionId) = some x)
      (retry : isInnocentRetry hash x.val tombstone (s.clock + call.elapsed) call.backend.refreshReuseGrace = false)
      (cause : tombstone.cause = .rotated)
      (rows : s'.row = ((stageSessionRemoval hash x.val).foldl Rows.apply (later s call.elapsed)).row) :
      RefreshOutcome s (.error e) s'

variable {hash call} {s : SessionsState}

theorem runs_handleUnclaimedRefresh (index : s.row (.refresh (hash call.input.refreshToken)) = none) :
    (handleUnclaimedRefresh hash call).Runs s (RefreshOutcome hash call s) := by
  refine runs_get fun found htomb => ?_
  match found, htomb with
  | none, htomb => exact .unknown index htomb rfl
  | some (tombstone : RefreshTombstone), htomb =>
    refine runs_getSession fun row hrow => runs_nowEpoch ?_
    match row, hrow with
    | none, hrow => exact .retired index htomb (.inr hrow) rfl
    | some x, hrow =>
      cases hretry : isInnocentRetry hash x.val tombstone (s.clock + call.elapsed) call.backend.refreshReuseGrace with
      | true =>
        rw [Option.map_some]
        dsimp only
        rw [if_pos hretry]
        cases hsigner : checkSigner call.input x.val with
        | error => exact .retried index htomb hrow hretry (by rw [hsigner]; rfl) rfl
        | ok => exact .retried index htomb hrow hretry (by rw [hsigner]; rfl) rfl
      | false =>
        rw [Option.map_some]
        dsimp only
        rw [if_neg (by rw [hretry]; exact Bool.false_ne_true)]
        split
        · rename_i hcause
          exact .retired index htomb (.inl hcause) rfl
        · rename_i hcause
          have hrotated : tombstone.cause = .rotated := by
            cases hc : tombstone.cause with
            | rotated => rfl
            | superseded => exact absurd hc hcause
          refine runs_bind (runs_getSession fun row' hrow' => ?_)
          obtain rfl : some x = row' := hrow.symm.trans hrow'
          exact .revoked index htomb hrow hretry hrotated rfl

theorem runs_handleRefresh : (handleRefresh hash call).Runs s (RefreshOutcome hash call s) := by
  refine runs_take fun claimed hindex => ?_
  match claimed, hindex with
  | none, hindex =>
    rw [Rows.set_none_of_none hindex]
    exact runs_handleUnclaimedRefresh hindex
  | some (id : String), hindex =>
    have hkeep : ∀ k, (∀ h, k ≠ .refresh h) →
        (s.set (.refresh (hash call.input.refreshToken)) none).row k = s.row k := fun k hk =>
      s.row_set_of_ne (hk _) _
    refine runs_getSession fun row hrow => ?_
    rw [hkeep _ (by simp)] at hrow
    match row, hrow with
    | none, _ => exact .refused hindex rfl
    | some x, hrow =>
      refine runs_get fun recorded hrecorded => ?_
      rw [hkeep _ (by simp)] at hrecorded
      split
      · rename_i hcurrent
        rw [← hrecorded] at hcurrent
        refine runs_nowEpoch (runs_insert ?_)
        exact .superseded (x := x) hindex hrow hcurrent rfl x.property rfl
      · rename_i hcurrent
        have hcurrent' := not_not.mp hcurrent
        rw [← hrecorded] at hcurrent'
        refine runs_checked (fun _ => .refused hindex rfl) fun _ _ => ?_
        split
        · exact .refused hindex rfl
        · refine runs_nowEpoch ?_
          refine runs_checked (fun _ => .refused hindex rfl) fun _ hrenewable => ?_
          refine runs_checked (fun _ => .refused hindex rfl) fun resolution _ => ?_
          refine runs_checked (fun _ => .refused hindex rfl) fun accessToken hminted => ?_
          refine runs_storeSession rfl (runs_storeRefreshIndex (runs_insert ?_))
          exact .rotated hindex hrow hcurrent' hrenewable hminted rfl

end

/-! ### Issuing a token -/

/-- The session `t` and its token are stored; whatever else is there was there before. -/
structure Issues (hash : String → String) (t : Session) (token : String) (s s' : SessionsState) : Prop where
  session : s'.row (.session t.sessionId) = some (⟨t, rfl⟩ : SessionOf t.sessionId)
  current : s'.row (.current t.sessionId) = some (hash token)
  index : ∀ h v, s'.row (.refresh h) = some v → (h = hash token ∧ v = t.sessionId) ∨ s.row (.refresh h) = some v
  sessions : ∀ id, id ≠ t.sessionId → ∀ x : SessionOf id, s'.row (.session id) = some x → s.row (.session id) = some x

/-- Every tombstone was there before, or is of a token that was superseded in this session: one that was in the index,
or the new one. -/
structure Buries (hash : String → String) (id token : String) (s s' : SessionsState) : Prop where
  superseded : ∀ h, ∀ tombstone : RefreshTombstone, s'.row (.rotated h) = some tombstone →
    s.row (.rotated h) = some tombstone ∨ (tombstone.sessionId = id ∧ tombstone.cause = .superseded)
  unspent : ∀ h, s'.row (.rotated h) = s.row (.rotated h) ∨ s.row (.refresh h) ≠ none ∨ h = hash token

section
variable {hash : String → String} {t : Session} {token : String} {s s₁ s₂ s' : SessionsState}

theorem Issues.trans_left (h : Issues hash t token s₁ s')
    (hindex : ∀ h v, s₁.row (.refresh h) = some v → s.row (.refresh h) = some v)
    (hsessions : ∀ id, ∀ x : SessionOf id, s₁.row (.session id) = some x → s.row (.session id) = some x) :
    Issues hash t token s s' where
  session := h.session
  current := h.current
  index h' v hv := (h.index h' v hv).imp_right (hindex h' v)
  sessions id hid x hx := hsessions id x (h.sessions id hid x hx)

theorem Issues.of_row (h : Issues hash t token s s₁) (hrows : s'.row = s₁.row) : Issues hash t token s s' where
  session := by rw [hrows, h.session]
  current := by rw [hrows, h.current]
  index h' v hv := h.index h' v (hrows ▸ hv)
  sessions id hid x hx := h.sessions id hid x (hrows ▸ hx)

theorem issues_store (s : SessionsState) :
    Issues hash t token s (((s.apply (putSession t)).set (.current t.sessionId) (some (hash token))).set
      (.refresh (hash token)) (some t.sessionId)) where
  session := by
    rw [Rows.row_set_of_ne _ (by simp), Rows.row_set_of_ne _ (by simp)]
    exact Rows.row_set_self _ _ _
  current := by rw [Rows.row_set_of_ne _ (by simp), Rows.row_set_self]
  index h v hv := by
    by_cases hh : h = hash token
    · subst hh
      rw [Rows.row_set_self] at hv
      cases hv
      exact .inl ⟨rfl, rfl⟩
    · rw [Rows.row_set_of_ne _ (by simpa using hh), Rows.row_set_of_ne _ (by simp)] at hv
      exact .inr ((s.row_set_of_ne (by simp) _).symm.trans hv)
  sessions id hid x hx := by
    rw [Rows.row_set_of_ne _ (by simp), Rows.row_set_of_ne _ (by simp)] at hx
    exact (s.row_set_of_ne (by simpa using hid) _).symm.trans hx

theorem row_rotated_store (s : SessionsState) (h : String) :
    (((s.apply (putSession t)).set (.current t.sessionId) (some (hash token))).set
      (.refresh (hash token)) (some t.sessionId)).row (.rotated h) = s.row (.rotated h) := by
  rw [Rows.row_set_of_ne _ (by simp), Rows.row_set_of_ne _ (by simp)]
  exact s.row_set_of_ne (by simp) _

theorem Issues.set_refresh (h : Issues hash t token s s') (k : String) :
    Issues hash t token s (s'.set (.refresh k) none) where
  session := by rw [Rows.row_set_of_ne _ (by simp), h.session]
  current := by rw [Rows.row_set_of_ne _ (by simp), h.current]
  index h' v hv := h.index h' v (Rows.row_of_set_none hv)
  sessions id hid x hx := h.sessions id hid x (Rows.row_of_set_none hx)

theorem Issues.set_rotated (h : Issues hash t token s s') (k : String) (tombstone : RefreshTombstone) :
    Issues hash t token s (s'.set (.rotated k) (some tombstone)) where
  session := by rw [Rows.row_set_of_ne _ (by simp), h.session]
  current := by rw [Rows.row_set_of_ne _ (by simp), h.current]
  index h' v hv := h.index h' v ((s'.row_set_of_ne (by simp) _).symm.trans hv)
  sessions id hid x hx := h.sessions id hid x ((s'.row_set_of_ne (by simp) _).symm.trans hx)

theorem buries_of_rows {id : String} (h : ∀ k, s'.row (.rotated k) = s.row (.rotated k)) :
    Buries hash id token s s' where
  superseded k _ hrow := .inl ((h k).symm.trans hrow)
  unspent k := .inl (h k)

variable {R : Type} {call : AuthenticateCall R} {now : Nat}

/-- What a login that has stored its session leaves: the token it replaces is buried if it was in the index. -/
theorem runs_retireSuperseded {f : Unit → SessionProgram AuthenticateResponse}
    {Q : Except SessionError AuthenticateResponse → SessionsState → Prop} {did : String} (superseded : Option String)
    (hissues : Issues hash t token s s₂) (hrows : ∀ k, s₂.row (.rotated k) = s.row (.rotated k))
    (h : ∀ s', Issues hash t token s s' → Buries hash did token s s' → (f ()).Runs s' Q) :
    (Program.bind (retireSuperseded hash call did now superseded) f).Runs s₂ Q := by
  cases superseded with
  | none => exact h s₂ hissues (buries_of_rows hrows)
  | some old =>
    rw [retireSuperseded, Program.bind_assoc]
    refine runs_take fun claimed hclaimed => ?_
    match claimed, hclaimed with
    | none, _ =>
      refine h _ (hissues.set_refresh _) (buries_of_rows fun k => ?_)
      rw [Rows.row_set_of_ne _ (by simp), hrows]
    | some (id : String), hclaimed =>
      refine runs_insert (h _ ((hissues.set_refresh _).set_rotated _ _) ⟨fun k tombstone hrow => ?_, fun k => ?_⟩)
      · by_cases hk : k = hash old
        · subst hk
          rw [Rows.row_set_self] at hrow
          cases hrow
          exact .inr ⟨rfl, rfl⟩
        · rw [Rows.row_set_of_ne _ (by simpa using hk), Rows.row_set_of_ne _ (by simp), hrows] at hrow
          exact .inl hrow
      · by_cases hk : k = hash old
        · subst hk
          rcases hissues.index _ id hclaimed with ⟨hnew, -⟩ | hold
          · exact .inr (.inr hnew)
          · rw [hold]
            exact .inr (.inl (Option.some_ne_none _))
        · rw [Rows.row_set_of_ne _ (by simpa using hk), Rows.row_set_of_ne _ (by simp), hrows]
          exact .inl rfl

/-- The rows once a challenge was redeemed. -/
def spentChallenge {id : String} (s : SessionsState) (x : SessionOf id) : SessionsState :=
  (s.set (.session id) none).set (.pendingChallenge x.val.did id) none

/-- The outcomes of a login from `s`. -/
inductive LoginOutcome (hash : String → String) (call : AuthenticateCall R) (s : SessionsState) :
    Except SessionError AuthenticateResponse → SessionsState → Prop
  | refused {e : SessionError} {s' : SessionsState} (rows : s'.row = s.row) : LoginOutcome hash call s (.error e) s'
  /-- The challenge is spent, and the login refused. -/
  | spent {e : SessionError} {s' : SessionsState} {x : SessionOf call.input.sessionId}
      (row : s.row (.session call.input.sessionId) = some x) (state : x.val.state = .challengeSent)
      (rows : s'.row = (spentChallenge s x).row) : LoginOutcome hash call s (.error e) s'
  | signedIn {s' : SessionsState} {x : SessionOf call.input.sessionId} {resolution : RoleResolution R}
      {minted : MintedTokens} {now : Nat}
      (row : s.row (.session call.input.sessionId) = some x) (state : x.val.state = .challengeSent)
      (drawn : minted.refreshToken = call.draw.refreshToken)
      (issues : Issues hash (signedInSession call x.val now minted) call.draw.refreshToken s s')
      (buries : Buries hash x.val.did call.draw.refreshToken s s') :
      LoginOutcome hash call s (.ok (signedInResponse call x.val.did resolution minted)) s'

theorem runs_handleAuthenticateWithAal :
    (handleAuthenticateWithAal hash call).Runs s (LoginOutcome hash call s) := by
  refine runs_checked (fun _ => .refused rfl) fun _ _ => runs_getSession fun row hrow => ?_
  match row, hrow with
  | none, _ => exact .refused rfl
  | some x, hrow =>
    refine runs_checked (fun _ => .refused rfl) fun _ hchallenge => ?_
    have hstate : x.val.state = .challengeSent := by
      by_contra hne
      rw [checkChallenge, if_pos hne] at hchallenge
      cases hchallenge
    refine runs_nowEpoch (runs_checked (fun _ => .refused rfl) fun _ _ => ?_)
    rw [takeSession, Program.bind_assoc]
    refine runs_take fun taken htaken => ?_
    obtain rfl : some x = taken := hrow.symm.trans htaken
    refine runs_perform ?_
    refine runs_checked (fun _ => .spent hrow hstate rfl) fun resolution _ => ?_
    rw [mintSessionTokensUntil, Program.bind_assoc]
    refine runs_nowEpoch ?_
    rw [Program.bind_assoc]
    refine runs_checked (fun _ => .spent hrow hstate rfl) fun accessToken _ => ?_
    refine runs_getSession fun prior _ => runs_storeSession rfl (runs_storeRefreshIndex ?_)
    refine runs_retireSuperseded (s := s) _ ((issues_store _).trans_left (fun h v hv => ?_) fun id y hy => ?_)
      (fun k => (row_rotated_store _ k).trans ?_) fun s' hissues hburies => ?_
    · exact Rows.row_of_set_none (Rows.row_of_set_none (show (spentChallenge s x).row _ = _ from hv))
    · exact Rows.row_of_set_none (Rows.row_of_set_none (show (spentChallenge s x).row _ = _ from hy))
    · change (spentChallenge s x).row (.rotated k) = _
      rw [spentChallenge, Rows.row_set_of_ne _ (by simp), Rows.row_set_of_ne _ (by simp)]
    · exact .signedIn hrow hstate rfl hissues hburies

inductive SignInOutcome (hash : String → String) (call : SignInCall R) (s : SessionsState) :
    Except SessionError MintedTokens → SessionsState → Prop
  | refused {e : SessionError} {s' : SessionsState} (rows : s'.row = s.row) : SignInOutcome hash call s (.error e) s'
  | signedIn {s' : SessionsState} {minted : MintedTokens} (drawn : minted.refreshToken = call.draw.refreshToken)
      (bounded : ∀ stop, call.notAfter = some stop → minted.refreshExpiresAt ≤ stop ∧
        (minted.accessExpiresAt ≤ stop ∨ minted.accessTtl = 0 ∧ stop < minted.issuedAt))
      (issues : Issues hash (issuedSession call minted) call.draw.refreshToken s s')
      (rows : ∀ k, s'.row (.rotated k) = s.row (.rotated k)) : SignInOutcome hash call s (.ok minted) s'

theorem runs_mintSession {call : SignInCall R} : (mintSession hash call).Runs s (SignInOutcome hash call s) := by
  rw [mintSession, mintSessionTokensUntil, Program.bind_assoc]
  refine runs_nowEpoch ?_
  rw [Program.bind_assoc]
  refine runs_checked (fun _ => .refused rfl) fun accessToken _ => ?_
  refine runs_storeSession rfl (runs_storeRefreshIndex ?_)
  refine .signedIn rfl (fun stop hstop => ?_)
    ((issues_store (later s call.draw.elapsed)).trans_left (fun _ _ h => h) fun _ _ h => h) (row_rotated_store _)
  rw [hstop]
  refine ⟨min_le_right _ _, ?_⟩
  dsimp only [Option.elim]
  unfold saturatingAdd
  omega

end

end TrustInfrastructure.Auth
