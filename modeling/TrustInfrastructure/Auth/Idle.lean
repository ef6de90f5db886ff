import TrustInfrastructure.Auth.Chain
import TrustInfrastructure.Lib.Run

/-!
# Renewal and the idle timeout

A rotation carries `lastSeen` over and sets `createdAt` to the clock, and the idle check reads `lastSeen`, or
`createdAt` where `lastSeen` is zero. So a session whose row has a `lastSeen` is measured against the same moment
however often it is renewed, and one without is measured against its last renewal.
-/

namespace TrustInfrastructure.Auth

open Lib

/-- When the session was last active, as the idle check reads it. -/
def Session.lastActivity (s : Session) : Nat := if s.lastSeen = 0 then s.createdAt else s.lastSeen

section
variable {R : Type} (hash : String → String)

/-- The store after refreshes one after another. -/
def afterRefreshes (s : SessionsState) (calls : List (RefreshCall R)) : SessionsState :=
  run (fun s call => (handleRefresh hash call).final s) s calls

/-- The token was exchanged before, and its successor is still the current one. -/
def Retries (s : SessionsState) (call : RefreshCall R) : Prop :=
  s.row (.refresh (hash call.input.refreshToken)) = none ∧
  ∃ tombstone : RefreshTombstone, s.row (.rotated (hash call.input.refreshToken)) = some tombstone ∧
    ∃ x : SessionOf tombstone.sessionId, s.row (.session tombstone.sessionId) = some x ∧
      isInnocentRetry hash x.val tombstone (s.clock + call.elapsed) call.backend.refreshReuseGrace = true

variable {hash} {s s' : SessionsState} {call : RefreshCall R} {sid : String} {seen : Nat}

/-- The session, where there is one, was last seen then. -/
def SeenAt (sid : String) (seen : Nat) (s : SessionsState) : Prop :=
  ∀ x : SessionOf sid, s.row (.session sid) = some x → x.val.lastSeen = seen

theorem SeenAt.of_row (hseen : SeenAt sid seen s) (hrow : s'.row (.session sid) = s.row (.session sid)) :
    SeenAt sid seen s' :=
  fun x hx => hseen x (hrow.symm.trans hx)

/-- A refresh records no activity. -/
theorem SeenAt.refresh (hseen : SeenAt sid seen s) {r : Except SessionError AuthenticateResponse}
    (houtcome : RefreshOutcome hash call s r s') : SeenAt sid seen s' := by
  cases houtcome with
  | refused _ rows =>
    refine hseen.of_row ?_
    rw [rows, Rows.row_set_of_ne _ (by simp)]
  | superseded _ _ _ _ _ rows =>
    refine hseen.of_row ?_
    rw [rows, Rows.row_set_of_ne _ (by simp), Rows.row_set_of_ne _ (by simp)]
  | unknown _ _ rows | retried _ _ _ _ _ rows | retired _ _ _ rows => exact hseen.of_row (by rw [rows])
  | revoked _ _ _ _ _ rows =>
    intro x hx
    rw [rows] at hx
    exact hseen x (row_of_stageSessionRemoval (s := later s call.elapsed) hx)
  | @rotated _ _ y _ _ _ row _ _ _ rows =>
    intro x hx
    rw [rows] at hx
    have hissues : Issues hash _ call.newRefreshToken s _ := issues_rotatedRows y.val (s.clock + call.elapsed)
    by_cases hid : sid = y.val.sessionId
    · obtain ⟨y, rfl⟩ := y
      subst hid
      cases hissues.session.symm.trans hx
      exact hseen ⟨y, rfl⟩ row
    · exact hseen x (hissues.sessions sid hid x hx)

/-- Renewal on a timer does not defeat the idle timeout of a session that has been seen: along every run of refreshes,
one that exchanges a token of the session succeeds only until the timeout has passed since its last activity at the
start. -/
theorem refreshed_within_idle (hash : String → String) (sid : String) (s : SessionsState) (x : SessionOf sid)
    (hrow : s.row (.session sid) = some x) (hseen : x.val.lastSeen ≠ 0) (calls : List (RefreshCall R))
    (call : RefreshCall R) (hretry : ¬ Retries hash (afterRefreshes hash s calls) call)
    (response : AuthenticateResponse)
    (hok : (handleRefresh hash call).result (afterRefreshes hash s calls) = .ok response)
    (hsession : response.session.id = sid) (idle : Nat) (hidle : call.backend.idleTimeout = some idle) :
    (afterRefreshes hash s calls).clock + call.elapsed ≤ x.val.lastActivity + idle := by
  have hstart : SeenAt sid x.val.lastSeen s := fun y hy => by cases hrow.symm.trans hy; rfl
  have hkept : SeenAt sid x.val.lastSeen (afterRefreshes hash s calls) :=
    run_induction (P := fun _ _ => True) hstart (along_of_forall fun _ _ _ => trivial) fun _ _ hs _ =>
      hs.refresh (Program.runs_iff.mp runs_handleRefresh)
  generalize afterRefreshes hash s calls = s' at *
  have houtcome : RefreshOutcome hash call s' _ _ := Program.runs_iff.mp runs_handleRefresh
  rw [hok] at houtcome
  cases houtcome with
  | retried index tomb row retry => exact absurd ⟨index, _, tomb, _, row, retry⟩ hretry
  | @rotated _ _ y _ _ _ row _ renewable =>
    obtain ⟨y, rfl⟩ := y
    cases hsession
    have hsame : y.lastSeen = x.val.lastSeen := hkept _ row
    rw [Session.lastActivity, if_neg hseen]
    unfold checkRenewable at renewable
    rw [hidle, Option.any_some, hsame, if_neg hseen] at renewable
    split at renewable
    · cases renewable
    · split at renewable
      · cases renewable
      · split at renewable
        · cases renewable
        · rename_i htime
          rw [decide_eq_true_eq] at htime
          omega

end

/-- The session of a row written before `lastSeen` was recorded. -/
def unseenSession : Session := { aliceSession with lastSeen := 0 }

/-- The session with its first token current. -/
def storedAs (x : SessionOf "did:alice") : SessionsState := signedIn.set (.session "did:alice") (some x)

/-- A refresh by a service that ends a session after an hour. -/
def renew (token newToken : String) (elapsed : Nat) : RefreshCall Unit :=
  { refreshWith token newToken elapsed with backend := { openBackend with idleTimeout := some 3600 } }

theorem refreshed_within_idle_alice :
    ∃ response, (handleRefresh id (renew "token1" "token2" 1000)).result
        (afterRefreshes id signedIn [renew "token0" "token1" 1000]) = .ok response ∧
      (afterRefreshes id signedIn [renew "token0" "token1" 1000]).clock + 1000 ≤ 100 + 3600 := by
  have hid : ((handleRefresh id (renew "token1" "token2" 1000)).result
      (afterRefreshes id signedIn [renew "token0" "token1" 1000])).toOption.map (·.session.id) = some "did:alice" := by
    decide +kernel
  cases hok : (handleRefresh id (renew "token1" "token2" 1000)).result
      (afterRefreshes id signedIn [renew "token0" "token1" 1000]) with
  | error e =>
    rw [hok] at hid
    cases hid
  | ok response =>
    rw [hok] at hid
    refine ⟨response, rfl, refreshed_within_idle id "did:alice" signedIn ⟨aliceSession, rfl⟩ rfl (by decide)
      [renew "token0" "token1" 1000] (renew "token1" "token2" 1000) ?_ response hok (Option.some.inj hid) 3600 rfl⟩
    rintro ⟨hindex, -⟩
    exact absurd hindex (by decide +kernel)

/-- Renewed each hour, a session that was last active at 100 is still renewed at 6200. -/
theorem unseen_renewed :
    unseenSession.lastActivity = 100 ∧
    (storedAs ⟨unseenSession, rfl⟩).row (.session "did:alice") = some ⟨unseenSession, rfl⟩ ∧
    ((handleRefresh id (renew "token1" "token2" 3000)).result
        (afterRefreshes id (storedAs ⟨unseenSession, rfl⟩) [renew "token0" "token1" 3000])).isOk = true ∧
      (afterRefreshes id (storedAs ⟨unseenSession, rfl⟩) [renew "token0" "token1" 3000]).clock + 3000 = 6200 := by
  decide +kernel

end TrustInfrastructure.Auth
