import TrustInfrastructure.Auth.Outcomes
import TrustInfrastructure.Auth.SignOut

/-!
# The chain of a session's refresh tokens

Logins and refreshes of one session, one after another, in any order and with any tokens presented. The log of the calls
says which tokens were issued and which were exchanged; the store says, in three places and with tombstones, which token
is current. `Chained` relates the two: the row and the current-token record name the token issued last, the index has
only tokens that were never exchanged, and every exchanged token has the tombstone of its exchange. One call keeps it
(`chained_step`), and the answer to whatever is presented next can be read off it.
-/

namespace TrustInfrastructure.Auth

open Lib (Program Rows RowOp Write run Along)
open Lib.Program (Runs runs_iff runs_map)

/-! ### Sequences of calls -/

section
variable {R : Type} (hash : String → String)

inductive ChainCall (R : Type) where
  | login (call : AuthenticateCall R)
  | signIn (call : SignInCall R)
  | refresh (call : RefreshCall R)

inductive Answer where
  | response (r : AuthenticateResponse)
  | minted (tokens : MintedTokens)
  deriving DecidableEq

def Answer.refreshToken : Answer → Option String
  | .response r => r.tokens.refreshToken
  | .minted tokens => some tokens.refreshToken

def Answer.accessExpiresAt : Answer → Nat
  | .response r => r.session.expiresAt
  | .minted tokens => tokens.accessExpiresAt

def Answer.refreshExpiresAt : Answer → Option Nat
  | .response r => r.tokens.refreshExpiresIn.map fun left => r.session.issuedAt + left
  | .minted tokens => some tokens.refreshExpiresAt

/-- A sign-in to a session that has ended already is answered with an access token that expires at once. -/
def Answer.Late (stop : Nat) : Answer → Prop
  | .response _ => False
  | .minted tokens => tokens.accessTtl = 0 ∧ stop < tokens.issuedAt

def ChainCall.program : ChainCall R → SessionProgram Answer
  | .login call => (handleAuthenticateWithAal hash call).bind fun r => pure (.response r)
  | .signIn call => (mintSession hash call).bind fun tokens => pure (.minted tokens)
  | .refresh call => (handleRefresh hash call).bind fun r => pure (.response r)

def ChainCall.drawn : ChainCall R → String
  | .login call => call.draw.refreshToken
  | .signIn call => call.draw.refreshToken
  | .refresh call => call.newRefreshToken

/-- The call is on this session. A login is, since the challenges are for its subject. -/
def ChainCall.On (sid : String) : ChainCall R → Prop
  | .signIn call => call.sessionId = sid
  | _ => True

structure Entry (R : Type) where
  call : ChainCall R
  answer : Except SessionError Answer

/-- The store, and the calls made so far, newest first. -/
structure ChainState (R : Type) where
  store : SessionsState
  log : List (Entry R)

def ChainState.step (c : ChainState R) (call : ChainCall R) : ChainState R where
  store := (call.program hash).final c.store
  log := ⟨call, (call.program hash).result c.store⟩ :: c.log

/-- The store and the log after some calls. -/
def afterCalls (s : SessionsState) (calls : List (ChainCall R)) : ChainState R :=
  run (ChainState.step hash) ⟨s, []⟩ calls

structure Rotation where
  token : String
  successor : String
  rotatedAt : Nat
  tokenId : String
  deriving DecidableEq

/-- The exchange a refresh made: its answer has the token it drew. -/
def Entry.rotation : Entry R → Option Rotation
  | ⟨.refresh call, .ok (.response r)⟩ =>
    if r.tokens.refreshToken = some call.newRefreshToken then
      some ⟨call.input.refreshToken, call.newRefreshToken, r.session.issuedAt, call.newTokenId⟩
    else none
  | _ => none

def Entry.signsIn : Entry R → Bool
  | ⟨.login _, .ok _⟩ => true
  | ⟨.signIn _, .ok _⟩ => true
  | _ => false

def Entry.issued (e : Entry R) : Option String :=
  if e.signsIn then e.answer.toOption.bind Answer.refreshToken else e.rotation.map Rotation.successor

/-- The tokens that were issued, the last one first. -/
def issuedIn (log : List (Entry R)) : List String := log.filterMap Entry.issued

def rotationsIn (log : List (Entry R)) : List Rotation := log.filterMap Entry.rotation

end

/-! ### The invariant -/

section
variable {R : Type} (hash : String → String) (sid : String)

/-- The tombstone under `k` is that of the exchange. -/
structure Records (ρ : Rotation) (k : String) (tombstone : RefreshTombstone) : Prop where
  key : hash ρ.token = k
  cause : tombstone.cause = .rotated
  time : tombstone.rotatedAt = ρ.rotatedAt
  successor : tombstone.successorHash = hash ρ.successor

structure Bounded (t : Session) : Prop where
  state : t.state = .authenticated
  expires : ∀ stop expires, t.notAfter = some stop → t.refreshExpiresAt = some expires → expires ≤ stop

/-- What the log says by itself: no token is issued twice or exchanged twice, and only issued ones are exchanged. -/
structure Logged (log : List (Entry R)) : Prop where
  distinct : (issuedIn log).Nodup
  drawn : ∀ token ∈ issuedIn log, token ∈ log.map fun e => e.call.drawn
  answered : ∀ e ∈ log, e.signsIn = true → e.issued ≠ none
  once : ((rotationsIn log).map Rotation.token).Nodup
  origin : ∀ ρ ∈ rotationsIn log, ρ.token ∈ issuedIn log ∧ ρ.successor ∈ issuedIn log

structure Chained (s : SessionsState) (log : List (Entry R)) : Prop extends Logged log where
  live : ∀ token, tokenOf s sid = some token → (issuedIn log).head? = some token
  record : recordOf s sid = (tokenOf s sid).map hash
  index : ∀ k v, s.row (.refresh k) = some v →
    v = sid ∧ ∃ token ∈ issuedIn log, hash token = k ∧ ∀ ρ ∈ rotationsIn log, ρ.token ≠ token
  tombstones : ∀ k, ∀ tombstone : RefreshTombstone, s.row (.rotated k) = some tombstone →
    tombstone.sessionId = sid ∧ (tombstone.cause = .superseded ∨ ∃ ρ ∈ rotationsIn log, Records hash ρ k tombstone)
  kept : ∀ ρ ∈ rotationsIn log, ∃ tombstone : RefreshTombstone,
    s.row (.rotated (hash ρ.token)) = some tombstone ∧ Records hash ρ (hash ρ.token) tombstone
  bounded : ∀ x : SessionOf sid, s.row (.session sid) = some x → x.val.refreshToken ≠ none → Bounded x.val
  tokened : issuedIn log ≠ [] → ∀ x : SessionOf sid, s.row (.session sid) = some x → x.val.refreshToken ≠ none
  pinned : ∀ ρ ∈ rotationsIn log, ∀ x : SessionOf sid, s.row (.session sid) = some x →
    x.val.refreshToken = some ρ.successor → x.val.tokenId = some ρ.tokenId
  challenges : ∀ id, ∀ x : SessionOf id, s.row (.session id) = some x → x.val.state = .challengeSent → x.val.did = sid

variable {hash sid} {s s' : SessionsState} {log : List (Entry R)} {e : Entry R}

theorem issuedIn_cons_of_none (h : e.issued = none) : issuedIn (e :: log) = issuedIn log :=
  List.filterMap_cons_none h

theorem issuedIn_cons_of_some {token : String} (h : e.issued = some token) :
    issuedIn (e :: log) = token :: issuedIn log :=
  List.filterMap_cons_some h

theorem rotation_eq_none (h : e.issued = none) : e.rotation = none := by
  cases hrotation : e.rotation with
  | none => rfl
  | some =>
    exfalso
    have hsigns : e.signsIn = false := by
      obtain ⟨call, answer⟩ := e
      cases call with
      | refresh => rfl
      | _ => cases hrotation
    rw [Entry.issued, hsigns, hrotation] at h
    cases h

theorem rotationsIn_cons_of_none (h : e.issued = none) : rotationsIn (e :: log) = rotationsIn log :=
  List.filterMap_cons_none (rotation_eq_none h)

theorem mem_rotationsIn_cons {ρ : Rotation} :
    ρ ∈ rotationsIn (e :: log) ↔ e.rotation = some ρ ∨ ρ ∈ rotationsIn log := by
  simp [rotationsIn, List.mem_filterMap]

theorem Logged.quiet (h : Logged log) (hsigns : e.signsIn = false) (hissued : e.issued = none) : Logged (e :: log) where
  distinct := by
    rw [issuedIn_cons_of_none hissued]
    exact h.distinct
  drawn token hmem := by
    rw [issuedIn_cons_of_none hissued] at hmem
    exact List.mem_cons_of_mem _ (h.drawn token hmem)
  answered e' he' hsigns' := by
    rcases List.mem_cons.mp he' with rfl | he'
    · rw [hsigns] at hsigns'
      cases hsigns'
    · exact h.answered e' he' hsigns'
  once := by
    rw [rotationsIn_cons_of_none hissued]
    exact h.once
  origin := by
    rw [rotationsIn_cons_of_none hissued, issuedIn_cons_of_none hissued]
    exact h.origin

theorem Logged.issues (h : Logged log) {token : String} (hissued : e.issued = some token) (hdraw : e.call.drawn = token)
    (hnew : token ∉ issuedIn log)
    (hexchanges : ∀ ρ, e.rotation = some ρ → ρ.successor = token ∧ ρ.token ∈ issuedIn log ∧
      ∀ ρ' ∈ rotationsIn log, ρ'.token ≠ ρ.token) : Logged (e :: log) where
  distinct := by
    rw [issuedIn_cons_of_some hissued]
    exact List.nodup_cons.mpr ⟨hnew, h.distinct⟩
  drawn other hother := by
    rw [issuedIn_cons_of_some hissued] at hother
    rcases List.mem_cons.mp hother with rfl | hother
    · exact List.mem_cons.mpr (.inl hdraw.symm)
    · exact List.mem_cons_of_mem _ (h.drawn other hother)
  answered e' he' hsigns' := by
    rcases List.mem_cons.mp he' with rfl | he'
    · rw [hissued]
      exact Option.some_ne_none _
    · exact h.answered e' he' hsigns'
  once := by
    cases hrotation : e.rotation with
    | none =>
      rw [rotationsIn, List.filterMap_cons_none hrotation]
      exact h.once
    | some ρ =>
      rw [rotationsIn, List.filterMap_cons_some hrotation, List.map_cons, List.nodup_cons]
      refine ⟨fun hmem => ?_, h.once⟩
      obtain ⟨ρ', hρ', heq⟩ := List.mem_map.mp hmem
      exact (hexchanges ρ hrotation).2.2 ρ' hρ' heq
  origin ρ hρ := by
    rw [issuedIn_cons_of_some hissued]
    rcases mem_rotationsIn_cons.mp hρ with hρ | hρ
    · exact ⟨List.mem_cons_of_mem _ (hexchanges ρ hρ).2.1, List.mem_cons.mpr (.inl (hexchanges ρ hρ).1)⟩
    · exact (h.origin ρ hρ).imp (List.mem_cons_of_mem _) (List.mem_cons_of_mem _)

theorem Chained.quiet (h : Chained hash sid s log) (hsigns : e.signsIn = false) (hissued : e.issued = none)
    (htoken : (tokenOf s' sid = tokenOf s sid ∧ recordOf s' sid = recordOf s sid) ∨
      (tokenOf s' sid = none ∧ recordOf s' sid = none))
    (hsessions : ∀ id, ∀ x : SessionOf id, s'.row (.session id) = some x → s.row (.session id) = some x)
    (hindex : ∀ k v, s'.row (.refresh k) = some v → s.row (.refresh k) = some v)
    (htombs : ∀ k, ∀ tombstone : RefreshTombstone, s'.row (.rotated k) = some tombstone →
      s.row (.rotated k) = some tombstone ∨ (tombstone.sessionId = sid ∧ tombstone.cause = .superseded))
    (hkept : ∀ ρ ∈ rotationsIn log, s'.row (.rotated (hash ρ.token)) = s.row (.rotated (hash ρ.token))) :
    Chained hash sid s' (e :: log) := by
  have hI : issuedIn (e :: log) = issuedIn log := issuedIn_cons_of_none hissued
  have hR : rotationsIn (e :: log) = rotationsIn log := rotationsIn_cons_of_none hissued
  constructor
  case toLogged => exact h.toLogged.quiet hsigns hissued
  case live =>
    rw [hI]
    intro token ht
    rcases htoken with ⟨hsame, -⟩ | ⟨hnone, -⟩
    · exact h.live token (hsame ▸ ht)
    · rw [hnone] at ht
      cases ht
  case record =>
    rcases htoken with ⟨hsame, hrecord⟩ | ⟨hnone, hrecord⟩
    · rw [hrecord, hsame, h.record]
    · rw [hrecord, hnone]
      rfl
  case index =>
    rw [hI, hR]
    exact fun k v hv => h.index k v (hindex k v hv)
  case tombstones =>
    rw [hR]
    intro k tombstone hrow
    rcases htombs k tombstone hrow with hold | ⟨hid, hcause⟩
    · exact h.tombstones k tombstone hold
    · exact ⟨hid, .inl hcause⟩
  case kept =>
    rw [hR]
    intro ρ hρ
    rw [hkept ρ hρ]
    exact h.kept ρ hρ
  case bounded => exact fun x hx => h.bounded x (hsessions sid x hx)
  case tokened =>
    rw [hI]
    exact fun hne x hx => h.tokened hne x (hsessions sid x hx)
  case pinned =>
    rw [hR]
    exact fun ρ hρ x hx => h.pinned ρ hρ x (hsessions sid x hx)
  case challenges => exact fun id x hx => h.challenges id x (hsessions id x hx)

/-- What is asked of the exchange a call made. -/
structure Exchanges (hash : String → String) (log : List (Entry R)) (t : Session) (token : String) (s' : SessionsState)
    (ρ : Rotation) : Prop where
  successor : ρ.successor = token
  tokenId : t.tokenId = some ρ.tokenId
  issued : ρ.token ∈ issuedIn log
  first : ∀ ρ' ∈ rotationsIn log, ρ'.token ≠ ρ.token
  index : s'.row (.refresh (hash ρ.token)) = none
  tombstone : ∃ tombstone : RefreshTombstone,
    s'.row (.rotated (hash ρ.token)) = some tombstone ∧ Records hash ρ (hash ρ.token) tombstone

/-- The token issued is in the index, and the one it was exchanged for is not. -/
theorem Chained.index_issues (h : Chained hash sid s log) {t : Session} {token : String}
    (hissued : e.issued = some token) (hnew : token ∉ issuedIn log) (hid : t.sessionId = sid)
    (hissues : Issues hash t token s s') (hexchanges : ∀ ρ, e.rotation = some ρ → Exchanges hash log t token s' ρ)
    {k v : String} (hv : s'.row (.refresh k) = some v) :
    v = sid ∧ ∃ token ∈ issuedIn (e :: log), hash token = k ∧ ∀ ρ ∈ rotationsIn (e :: log), ρ.token ≠ token := by
  rw [issuedIn_cons_of_some hissued]
  rcases hissues.index k v hv with ⟨rfl, rfl⟩ | hold
  · refine ⟨hid, token, List.mem_cons_self, rfl, fun ρ hρ heq => hnew ?_⟩
    rcases mem_rotationsIn_cons.mp hρ with hρ | hρ
    · exact heq ▸ (hexchanges ρ hρ).issued
    · exact heq ▸ (h.origin ρ hρ).1
  · obtain ⟨hsid, old, hmem, rfl, hunrotated⟩ := h.index k v hold
    refine ⟨hsid, old, List.mem_cons_of_mem _ hmem, rfl, fun ρ hρ heq => ?_⟩
    rcases mem_rotationsIn_cons.mp hρ with hρ | hρ
    · rw [← heq, (hexchanges ρ hρ).index] at hv
      cases hv
    · exact hunrotated ρ hρ heq

theorem Chained.tombstones_issues (h : Chained hash sid s log) {k : String} {tombstone : RefreshTombstone}
    (htomb : s.row (.rotated k) = some tombstone ∨ (tombstone.sessionId = sid ∧
      (tombstone.cause = .superseded ∨ ∃ ρ, e.rotation = some ρ ∧ Records hash ρ k tombstone))) :
    tombstone.sessionId = sid ∧
      (tombstone.cause = .superseded ∨ ∃ ρ ∈ rotationsIn (e :: log), Records hash ρ k tombstone) := by
  rcases htomb with hold | ⟨hsid, hcause | ⟨ρ, hρ, hrecords⟩⟩
  · obtain ⟨hsid, hcause | ⟨ρ, hρ, hrecords⟩⟩ := h.tombstones k tombstone hold
    · exact ⟨hsid, .inl hcause⟩
    · exact ⟨hsid, .inr ⟨ρ, mem_rotationsIn_cons.mpr (.inr hρ), hrecords⟩⟩
  · exact ⟨hsid, .inl hcause⟩
  · exact ⟨hsid, .inr ⟨ρ, mem_rotationsIn_cons.mpr (.inl hρ), hrecords⟩⟩

/-- A call that stores a session with a new token keeps the chain. -/
theorem Chained.issues (h : Chained hash sid s log) {t : Session} {token : String}
    (hid : t.sessionId = sid) (hissued : e.issued = some token) (hdraw : e.call.drawn = token)
    (hfresh : token ∉ log.map fun e => e.call.drawn) (htoken : t.refreshToken = some token) (hbounded : Bounded t)
    (hissues : Issues hash t token s s') (hexchanges : ∀ ρ, e.rotation = some ρ → Exchanges hash log t token s' ρ)
    (htombs : ∀ k, ∀ tombstone : RefreshTombstone, s'.row (.rotated k) = some tombstone →
      s.row (.rotated k) = some tombstone ∨ (tombstone.sessionId = sid ∧
        (tombstone.cause = .superseded ∨ ∃ ρ, e.rotation = some ρ ∧ Records hash ρ k tombstone)))
    (hkept : ∀ ρ ∈ rotationsIn log, s'.row (.rotated (hash ρ.token)) = s.row (.rotated (hash ρ.token))) :
    Chained hash sid s' (e :: log) := by
  subst hid
  have hnew : token ∉ issuedIn log := fun hmem => hfresh (h.drawn token hmem)
  have hrow : ∀ x : SessionOf t.sessionId, s'.row (.session t.sessionId) = some x → x.val = t := by
    intro x hx
    rw [hissues.session] at hx
    cases hx
    rfl
  have htokenOf : tokenOf s' t.sessionId = some token := by
    rw [tokenOf, hissues.session, Option.bind_some, htoken]
  have hlogged : Logged (e :: log) := h.toLogged.issues hissued hdraw hnew fun ρ hρ =>
    ⟨(hexchanges ρ hρ).successor, (hexchanges ρ hρ).issued, (hexchanges ρ hρ).first⟩
  constructor
  case toLogged => exact hlogged
  case index => exact fun k v hv => h.index_issues hissued hnew rfl hissues hexchanges hv
  case tombstones => exact fun k tombstone hk => h.tombstones_issues (htombs k tombstone hk)
  case live =>
    rw [issuedIn_cons_of_some hissued, htokenOf]
    exact fun _ ht => ht
  case record => rw [recordOf, hissues.current, htokenOf, Option.map_some]
  case kept =>
    intro ρ hρ
    rcases mem_rotationsIn_cons.mp hρ with hρ | hρ
    · exact (hexchanges ρ hρ).tombstone
    · rw [hkept ρ hρ]
      exact h.kept ρ hρ
  case bounded =>
    intro x hx _
    rw [hrow x hx]
    exact hbounded
  case tokened =>
    intro _ x hx
    rw [hrow x hx, htoken]
    exact Option.some_ne_none _
  case pinned =>
    intro ρ hρ x hx hsuccessor
    rw [hrow x hx] at hsuccessor ⊢
    rcases mem_rotationsIn_cons.mp hρ with hρ | hρ
    · exact (hexchanges ρ hρ).tokenId
    · rw [htoken] at hsuccessor
      exact absurd (Option.some.inj hsuccessor ▸ (h.origin ρ hρ).2) hnew
  case challenges =>
    intro id x hx hstate
    by_cases hid : id = t.sessionId
    · subst hid
      rw [hrow x hx, hbounded.state] at hstate
      cases hstate
    · exact h.challenges id x (hissues.sessions id hid x hx) hstate

/-! ### One call -/

theorem tokenOf_of_row {id : String} (h : s'.row (.session id) = s.row (.session id)) :
    tokenOf s' id = tokenOf s id := by
  rw [tokenOf, tokenOf, h]

section
variable (h : Chained hash sid s log) (hsigns : e.signsIn = false) (hissued : e.issued = none)
include h hsigns hissued

/-- A call that issues nothing, and changes the index at most, by removing from it. -/
theorem Chained.unchanged (hrows : ∀ k, (∀ x, k ≠ .refresh x) → s'.row k = s.row k)
    (hindex : ∀ k v, s'.row (.refresh k) = some v → s.row (.refresh k) = some v) :
    Chained hash sid s' (e :: log) := by
  refine h.quiet hsigns hissued (.inl ⟨tokenOf_of_row (hrows _ (by simp)), hrows _ (by simp)⟩)
    (fun id x hx => ?_) hindex
    (fun k tombstone hk => ?_) fun ρ _ => hrows _ (by simp)
  · rwa [hrows _ (by simp)] at hx
  · rw [hrows _ (by simp)] at hk
    exact .inl hk

theorem Chained.same (hrows : s'.row = s.row) : Chained hash sid s' (e :: log) :=
  h.unchanged hsigns hissued (fun k _ => by rw [hrows]) fun k v hv => by rwa [hrows] at hv

end

variable {call : RefreshCall R}

theorem Chained.unspent (h : Chained hash sid s log) (hinj : Function.Injective hash) {k : String}
    (hk : s.row (.refresh k) ≠ none) : ∀ ρ ∈ rotationsIn log, hash ρ.token ≠ k := by
  obtain ⟨v, hv⟩ := Option.ne_none_iff_exists'.mp hk
  obtain ⟨-, token, -, rfl, hunrotated⟩ := h.index k v hv
  exact fun ρ hρ heq => hunrotated ρ hρ (hinj heq)

theorem Chained.replayed_ne_drawn (h : Chained hash sid s log)
    (hfresh : call.newRefreshToken ∉ log.map fun e => e.call.drawn) {x : SessionOf sid}
    (hx : s.row (.session sid) = some x) {token : String} (htoken : x.val.refreshToken = some token) :
    token ≠ call.newRefreshToken := by
  have hlive : (issuedIn log).head? = some token := by
    refine h.live token ?_
    rw [tokenOf, hx]
    exact htoken
  rintro rfl
  exact hfresh (h.drawn _ (List.mem_of_mem_head? hlive))

theorem refreshToken_of_replayRotation {backend : AuthBackend R} {x : Session} {now : Nat}
    {response : AuthenticateResponse} (h : replayRotation backend x now = .ok response) :
    x.pastEnd now = false ∧ ∃ token tokenId resolution,
      x.refreshToken = some token ∧ x.tokenId = some tokenId ∧
      backend.mintAccessToken (claimsOf backend x now resolution tokenId) = .ok response.tokens.accessToken ∧
      response = refreshResponse backend x now resolution response.tokens.accessToken token
        (x.refreshExpiresAt.map fun expires => expires - now) := by
  unfold replayRotation at h
  split at h
  · cases h
  · rename_i hend
    obtain ⟨resolution, -, h⟩ := Lib.bind_eq_ok.mp h
    split at h
    · rename_i token tokenId htoken htokenId
      obtain ⟨accessToken, hminted, h⟩ := Lib.bind_eq_ok.mp h
      cases h
      exact ⟨by simpa using hend, token, tokenId, resolution, htoken, htokenId, hminted, rfl⟩
    · cases h

theorem replayed_of_answer {x : Session} {now : Nat} {r : Except SessionError AuthenticateResponse}
    {response : AuthenticateResponse}
    (h : r = ((checkSigner call.input x).bind fun _ => replayRotation call.backend x now).mapError .auth)
    (hr : r = .ok response) : replayRotation call.backend x now = .ok response := by
  rw [h] at hr
  cases hsigner : checkSigner call.input x with
  | error =>
    rw [hsigner] at hr
    cases hr
  | ok =>
    cases hreplay : replayRotation call.backend x now with
    | error =>
      rw [hsigner, hreplay] at hr
      cases hr
    | ok =>
      rw [hsigner, hreplay] at hr
      cases hr
      rfl

/-! Removing a session. -/

theorem row_session_stageSessionRemoval (x : SessionOf sid) :
    ((stageSessionRemoval hash x.val).foldl Rows.apply s).row (.session sid) = none := by
  rw [row_stageSessionRemoval x.val (by simp) (by simp), x.property, if_pos (.inr rfl)]

theorem row_of_stageSessionRemoval {x : Session} {k : SessionKey} {v : SessionRow k}
    (h : ((stageSessionRemoval hash x).foldl Rows.apply s).row k = some v) : s.row k = some v := by
  refine (s.row_or_put_of_foldl_apply _ h).resolve_right fun hput => ?_
  unfold stageSessionRemoval at hput
  cases htoken : x.refreshToken <;> simp [htoken] at hput

theorem Entry.issued_refresh_ok (response : AuthenticateResponse) :
    (⟨.refresh call, .ok (.response response)⟩ : Entry R).issued =
      if response.tokens.refreshToken = some call.newRefreshToken then some call.newRefreshToken else none := by
  change (Entry.rotation _).map Rotation.successor = _
  rw [Entry.rotation]
  split <;> rfl

theorem issues_rotatedRows (x : Session) (now : Nat) :
    Issues hash (rotatedSession call x now) call.newRefreshToken s (rotatedRows hash call s x now) :=
  ((issues_store (t := rotatedSession call x now) _).set_rotated _ _).trans_left (fun _ _ hv => Rows.row_of_set_none hv)
    fun _ _ hy => Rows.row_of_set_none hy

theorem row_rotated_rotatedRows_of_ne {x : Session} {now : Nat} {k : String}
    (hk : k ≠ hash call.input.refreshToken) :
    (rotatedRows hash call s x now).row (.rotated k) = s.row (.rotated k) := by
  rw [rotatedRows, Rows.row_set_of_ne _ (by simpa using hk)]
  refine (row_rotated_store (t := rotatedSession call x now) _ k).trans ?_
  rw [Rows.row_set_of_ne _ (by simp)]

theorem row_refresh_rotatedRows {x : Session} {now : Nat}
    (hne : hash call.input.refreshToken ≠ hash call.newRefreshToken) :
    (rotatedRows hash call s x now).row (.refresh (hash call.input.refreshToken)) = none := by
  rw [rotatedRows, Rows.row_set_of_ne _ (by simp), Rows.row_set_of_ne _ (by simpa using hne),
    Rows.row_set_of_ne _ (by simp)]
  exact (Rows.row_set_of_ne _ (by simp) _).trans (Rows.row_set_self _ _ _)

theorem bounded_rotatedSession (x : Session) (now : Nat) : Bounded (rotatedSession call x now) where
  state := rfl
  expires stop expires hstop hexpires := by
    cases hexpires
    rw [Session.clampToEnd, show x.notAfter = some stop from hstop]
    exact min_le_right _ _

section
variable (h : Chained hash sid s log) (hinj : Function.Injective hash)
  (hfresh : call.newRefreshToken ∉ log.map fun e => e.call.drawn)
include h hinj hfresh

/-- An exchange keeps the chain. -/
theorem Chained.rotated {x : SessionOf sid} {now : Nat}
    {response : AuthenticateResponse} (hindex : s.row (.refresh (hash call.input.refreshToken)) = some sid)
    (htoken : response.tokens.refreshToken = some call.newRefreshToken) (htime : response.session.issuedAt = now)
    (hrows : s'.row = (rotatedRows hash call s x.val now).row) :
    Chained hash sid s' (⟨.refresh call, .ok (.response response)⟩ :: log) := by
  obtain ⟨-, old, hold, hkey, hunrotated⟩ := h.index _ _ hindex
  obtain rfl : old = call.input.refreshToken := hinj hkey
  have hne : hash call.input.refreshToken ≠ hash call.newRefreshToken := fun heq =>
    hfresh (hinj heq ▸ h.drawn _ hold)
  have hissues : Issues hash (rotatedSession call x.val now) call.newRefreshToken s s' :=
    (issues_rotatedRows x.val now).of_row hrows
  have hrotation : (⟨.refresh call, .ok (.response response)⟩ : Entry R).rotation =
      some ⟨call.input.refreshToken, call.newRefreshToken, now, call.newTokenId⟩ := by
    rw [Entry.rotation, if_pos htoken, htime]
  have htombstone : s'.row (.rotated (hash call.input.refreshToken)) = some (rotatedTombstone hash call x.val now) := by
    rw [hrows]
    exact Rows.row_set_self _ _ _
  have hrecords : Records hash ⟨call.input.refreshToken, call.newRefreshToken, now, call.newTokenId⟩
      (hash call.input.refreshToken) (rotatedTombstone hash call x.val now) := ⟨rfl, rfl, rfl, rfl⟩
  have hissued : (⟨.refresh call, .ok (.response response)⟩ : Entry R).issued = some call.newRefreshToken :=
    (Entry.issued_refresh_ok response).trans (if_pos htoken)
  refine h.issues (t := rotatedSession call x.val now) x.property hissued rfl hfresh rfl
    (bounded_rotatedSession x.val now) hissues (fun ρ hρ => ?_) (fun k tombstone hk => ?_) fun ρ hρ => ?_
  · obtain rfl := Option.some.inj (hrotation.symm.trans hρ)
    refine ⟨rfl, rfl, hold, hunrotated, ?_, _, htombstone, hrecords⟩
    rw [hrows]
    exact row_refresh_rotatedRows hne
  · by_cases hkey : k = hash call.input.refreshToken
    · subst hkey
      obtain rfl := Option.some.inj (htombstone.symm.trans hk)
      exact .inr ⟨x.property, .inr ⟨_, hrotation, hrecords⟩⟩
    · rw [hrows, row_rotated_rotatedRows_of_ne hkey] at hk
      exact .inl hk
  · rw [hrows]
    exact row_rotated_rotatedRows_of_ne fun heq => hunrotated ρ hρ (hinj heq)

theorem chained_refresh {r : Except SessionError AuthenticateResponse} (houtcome : RefreshOutcome hash call s r s') :
    Chained hash sid s' (⟨.refresh call, r.map .response⟩ :: log) := by
  cases houtcome with
  | refused _ hrows =>
    refine h.unchanged rfl rfl (fun k hk => ?_) fun k v hv => ?_
    · rw [hrows, Rows.row_set_of_ne _ (hk _)]
    · rw [hrows] at hv
      exact Rows.row_of_set_none hv
  | @superseded id _ _ x _ hindex _ _ hcause hsession hrows =>
    have hkeep : ∀ k, (∀ x, k ≠ .refresh x) → (∀ x, k ≠ .rotated x) → s'.row k = s.row k := by
      intro k hrefresh hrotated
      rw [hrows, Rows.row_set_of_ne _ (hrotated _), Rows.row_set_of_ne _ (hrefresh _)]
    refine h.quiet rfl rfl (.inl ⟨tokenOf_of_row (hkeep _ (by simp) (by simp)), hkeep _ (by simp) (by simp)⟩)
      (fun id y hy => ?_) (fun k v hv => ?_) (fun k other hk => ?_) fun ρ hρ => ?_
    · rwa [hkeep _ (by simp) (by simp)] at hy
    · rw [hrows, Rows.row_set_of_ne _ (by simp)] at hv
      exact Rows.row_of_set_none hv
    · rw [hrows] at hk
      rcases Rows.row_or_of_set_some hk with hold | hput
      · exact .inl (Rows.row_of_set_none hold)
      · cases hput
        exact .inr ⟨hsession.trans (h.index _ _ hindex).1, hcause⟩
    · have hne : hash ρ.token ≠ hash call.input.refreshToken :=
        h.unspent hinj (by rw [hindex]; exact Option.some_ne_none _) ρ hρ
      rw [hrows, Rows.row_set_of_ne _ (by simpa using hne), Rows.row_set_of_ne _ (by simp)]
  | rotated hindex _ _ _ _ hrows =>
    obtain ⟨rfl, -⟩ := h.index _ _ hindex
    exact h.rotated hinj hfresh hindex rfl rfl hrows
  | unknown _ _ hrows => exact h.same rfl rfl hrows
  | @retried _ _ _ _ _ htomb hrow _ hanswer hrows =>
    refine h.same (by cases r <;> rfl) ?_ hrows
    cases r with
    | error => rfl
    | ok response =>
      obtain ⟨rfl, -⟩ := h.tombstones _ _ htomb
      obtain ⟨-, token, tokenId, resolution, htoken, -, -, hresponse⟩ :=
        refreshToken_of_replayRotation (replayed_of_answer hanswer rfl)
      have hne : response.tokens.refreshToken ≠ some call.newRefreshToken := by
        rw [hresponse]
        exact fun heq => h.replayed_ne_drawn hfresh hrow htoken (Option.some.inj heq)
      exact (Entry.issued_refresh_ok response).trans (if_neg hne)
  | retired _ _ _ hrows =>
    exact h.same rfl rfl hrows
  | @revoked _ _ _ x _ htomb _ _ _ hrows =>
    obtain ⟨rfl, -⟩ := h.tombstones _ _ htomb
    refine h.quiet rfl rfl (.inr ⟨?_, ?_⟩) (fun id y hy => ?_) (fun k v hv => ?_) (fun k other hk => ?_) fun ρ hρ => ?_
    · rw [tokenOf, hrows, row_session_stageSessionRemoval]
      rfl
    · rw [recordOf, hrows, row_stageSessionRemoval x.val (by simp) (by simp), x.property, if_pos (.inl rfl)]
    · rw [hrows] at hy
      exact (row_of_stageSessionRemoval hy :)
    · rw [hrows] at hv
      exact (row_of_stageSessionRemoval hv :)
    · rw [hrows] at hk
      exact .inl (row_of_stageSessionRemoval hk :)
    · rw [hrows, row_stageSessionRemoval x.val (by simp) (by simp), if_neg (by simp)]
      rfl

end

theorem chained_login {call : AuthenticateCall R} (h : Chained hash sid s log) (hinj : Function.Injective hash)
    (hfresh : call.draw.refreshToken ∉ log.map fun e => e.call.drawn) {r : Except SessionError AuthenticateResponse}
    (houtcome : LoginOutcome hash call s r s') :
    Chained hash sid s' (⟨.login call, r.map .response⟩ :: log) := by
  cases houtcome with
  | refused hrows => exact h.same rfl rfl hrows
  | @spent _ _ x hrow hstate hrows =>
    have hkeep : ∀ k, (∀ id, k ≠ .session id) → (∀ did id, k ≠ .pendingChallenge did id) → s'.row k = s.row k := by
      intro k hsession hpending
      rw [hrows, spentChallenge, Rows.row_set_of_ne _ (hpending _ _), Rows.row_set_of_ne _ (hsession _)]
    have hsessions : ∀ id, ∀ y : SessionOf id, s'.row (.session id) = some y → s.row (.session id) = some y := by
      intro id y hy
      rw [hrows] at hy
      exact Rows.row_of_set_none (Rows.row_of_set_none hy)
    refine h.quiet rfl rfl (.inl ⟨?_, hkeep _ (by simp) (by simp)⟩) hsessions (fun k v hv => ?_)
      (fun k tombstone hk => ?_)
      fun ρ _ => hkeep _ (by simp) (by simp)
    · by_cases hid : call.input.sessionId = sid
      · subst hid
        -- A challenge has no token, so it makes no difference that it is gone.
        have hnone : x.val.refreshToken = none := by
          by_contra hne
          rw [(h.bounded x hrow hne).state] at hstate
          cases hstate
        rw [tokenOf, tokenOf, hrow, hrows, spentChallenge, Rows.row_set_of_ne _ (by simp), Rows.row_set_self]
        exact hnone.symm
      · refine tokenOf_of_row ?_
        rw [hrows, spentChallenge, Rows.row_set_of_ne _ (by simp), Rows.row_set_of_ne _ (by simpa using Ne.symm hid)]
    · rwa [hkeep _ (by simp) (by simp)] at hv
    · rw [hkeep _ (by simp) (by simp)] at hk
      exact .inl hk
  | @signedIn _ x resolution minted now hrow hstate hdrawn hissues hburies =>
    have hdid : x.val.did = sid := h.challenges _ x hrow hstate
    have hissued : (⟨.login call, .ok (.response (signedInResponse call x.val.did resolution minted))⟩ :
        Entry R).issued = some call.draw.refreshToken := congrArg some hdrawn
    refine h.issues (t := signedInSession call x.val now minted) hdid hissued rfl hfresh (congrArg some hdrawn)
      ⟨rfl, fun stop expires hstop _ => ?_⟩ hissues (fun ρ hρ => ?_) (fun k tombstone hk => ?_) fun ρ hρ => ?_
    · cases hstop
    · cases hρ
    · rcases hburies.superseded k tombstone hk with hold | ⟨hid, hcause⟩
      · exact .inl hold
      · exact .inr ⟨hid.trans hdid, .inl hcause⟩
    · rcases hburies.unspent (hash ρ.token) with hsame | hindex | hnew
      · exact hsame
      · exact absurd rfl (h.unspent hinj hindex ρ hρ)
      · exact absurd (hinj hnew ▸ h.drawn _ (h.origin ρ hρ).1) hfresh

theorem chained_signIn {call : SignInCall R} (h : Chained hash sid s log) (hid : call.sessionId = sid)
    (hfresh : call.draw.refreshToken ∉ log.map fun e => e.call.drawn) {r : Except SessionError MintedTokens}
    (houtcome : SignInOutcome hash call s r s') :
    Chained hash sid s' (⟨.signIn call, r.map .minted⟩ :: log) := by
  cases houtcome with
  | refused hrows => exact h.same rfl rfl hrows
  | @signedIn _ minted hdrawn hbounded hissues hrows =>
    have hissued : (⟨.signIn call, .ok (.minted minted)⟩ : Entry R).issued = some call.draw.refreshToken :=
      congrArg some hdrawn
    refine h.issues (t := issuedSession call minted) hid hissued rfl hfresh (congrArg some hdrawn)
      ⟨rfl, fun stop expires hstop hexpires => ?_⟩ hissues (fun ρ hρ => ?_) (fun k tombstone hk => ?_)
      fun ρ _ => hrows _
    · cases hexpires
      exact (hbounded stop hstop).1
    · cases hρ
    · exact .inl ((hrows k).symm.trans hk)

/-- **One call keeps the chain.** -/
theorem chained_step {c : ChainState R} {call : ChainCall R} (h : Chained hash sid c.store c.log)
    (hinj : Function.Injective hash) (hon : call.On sid) (hfresh : call.drawn ∉ c.log.map fun e => e.call.drawn) :
    Chained hash sid (c.step hash call).store (c.step hash call).log := by
  cases call with
  | login call =>
    have hruns : ((ChainCall.login call).program hash).Runs c.store fun r s' =>
        Chained hash sid s' (⟨.login call, r⟩ :: c.log) :=
      runs_map (runs_handleAuthenticateWithAal.mono fun _ _ houtcome => chained_login h hinj hfresh houtcome)
    exact runs_iff.mp hruns
  | signIn call =>
    have hruns : ((ChainCall.signIn call).program hash).Runs c.store fun r s' =>
        Chained hash sid s' (⟨.signIn call, r⟩ :: c.log) :=
      runs_map (runs_mintSession.mono fun _ _ houtcome => chained_signIn h hon hfresh houtcome)
    exact runs_iff.mp hruns
  | refresh call =>
    have hruns : ((ChainCall.refresh call).program hash).Runs c.store fun r s' =>
        Chained hash sid s' (⟨.refresh call, r⟩ :: c.log) :=
      runs_map (runs_handleRefresh.mono fun _ _ houtcome => chained_refresh h hinj hfresh houtcome)
    exact runs_iff.mp hruns

structure Unissued (sid : String) (s : SessionsState) : Prop where
  index : ∀ k, s.row (.refresh k) = none
  tombstones : ∀ k, s.row (.rotated k) = none
  record : recordOf s sid = none
  token : tokenOf s sid = none
  challenges : ∀ id, ∀ x : SessionOf id, s.row (.session id) = some x → x.val.state = .challengeSent → x.val.did = sid

theorem Unissued.chained (h : Unissued sid s) : Chained hash sid s ([] : List (Entry R)) where
  distinct := List.nodup_nil
  drawn _ hmem := nomatch hmem
  answered _ hmem := nomatch hmem
  once := List.nodup_nil
  origin _ hmem := nomatch hmem
  live token htoken := by
    rw [h.token] at htoken
    cases htoken
  record := by rw [h.record, h.token, Option.map_none]
  index k v hv := by
    rw [h.index] at hv
    cases hv
  tombstones k tombstone hk := by
    rw [h.tombstones] at hk
    cases hk
  kept _ hmem := nomatch hmem
  bounded x hx htoken := by
    have hnone := h.token
    rw [tokenOf, hx] at hnone
    exact absurd hnone htoken
  tokened hne := absurd rfl hne
  pinned _ hmem := nomatch hmem
  challenges := h.challenges

theorem chained_afterCalls (hinj : Function.Injective hash) (hstart : Unissued sid s) (calls : List (ChainCall R))
    (hon : ∀ call ∈ calls, call.On sid) (hdrawn : (calls.map ChainCall.drawn).Nodup) :
    Chained hash sid (afterCalls hash s calls).store (afterCalls hash s calls).log ∧
      (afterCalls hash s calls).log.map (fun e => e.call.drawn) = (calls.map ChainCall.drawn).reverse := by
  induction calls using List.reverseRecOn with
  | nil => exact ⟨hstart.chained, rfl⟩
  | append_singleton calls call ih =>
    rw [List.map_append, List.nodup_append] at hdrawn
    obtain ⟨hnodup, -, hdisjoint⟩ := hdrawn
    obtain ⟨hchained, hlog⟩ := ih (fun c hc => hon c (List.mem_append_left _ hc)) hnodup
    have hfresh : call.drawn ∉ (afterCalls hash s calls).log.map fun e => e.call.drawn := by
      rw [hlog, List.mem_reverse]
      exact fun hmem => hdisjoint _ hmem _ List.mem_cons_self rfl
    rw [afterCalls, Lib.run_concat]
    refine ⟨chained_step hchained hinj (hon call (List.mem_append_right _ List.mem_cons_self)) hfresh, ?_⟩
    rw [List.map_append, List.reverse_append, ← hlog]
    rfl

/-! ### What is presented next -/

variable {r : Except SessionError AuthenticateResponse}

/-- Nothing was issued after the successor: it was neither exchanged nor replaced by a login. -/
def Unused (log : List (Entry R)) (ρ : Rotation) : Prop := (issuedIn log).head? = some ρ.successor

def InGrace (call : RefreshCall R) (s : SessionsState) (ρ : Rotation) : Prop :=
  s.clock + call.elapsed - ρ.rotatedAt < call.backend.refreshReuseGrace

def PairOf (call : RefreshCall R) (ρ : Rotation) (response : AuthenticateResponse) : Prop :=
  response.tokens.refreshToken = some ρ.successor ∧
    ∃ claims : AccessClaims R, claims.tokenId = ρ.tokenId ∧
      call.backend.mintAccessToken claims = .ok response.tokens.accessToken

/-- A retry passes the checks on its signer, the session's end and the access list, and the access token is minted. -/
def Passes (call : RefreshCall R) (x : Session) (now : Nat) (tokenId accessToken : String) : Prop :=
  checkSigner call.input x = .ok () ∧ x.pastEnd now = false ∧
    ∃ resolution, call.backend.checkAcl x.did = .ok resolution ∧
    call.backend.mintAccessToken (claimsOf call.backend x now resolution tokenId) = .ok accessToken

theorem replayed_of_passes {x : Session} {now : Nat} {token tokenId accessToken : String}
    (htoken : x.refreshToken = some token) (htokenId : x.tokenId = some tokenId)
    (h : Passes call x now tokenId accessToken) :
    ∃ response : AuthenticateResponse,
      ((checkSigner call.input x).bind fun _ => replayRotation call.backend x now) = .ok response ∧
      response.tokens.refreshToken = some token ∧ response.tokens.accessToken = accessToken := by
  obtain ⟨hsigner, hend, resolution, hacl, hminted⟩ := h
  refine ⟨refreshResponse call.backend x now resolution accessToken token
    (x.refreshExpiresAt.map fun expires => expires - now), ?_, rfl, rfl⟩
  rw [hsigner]
  change replayRotation call.backend x now = _
  rw [replayRotation, if_neg (by rw [hend]; exact Bool.false_ne_true), hacl, htoken, htokenId]
  change (call.backend.mintAccessToken (claimsOf call.backend x now resolution tokenId)).bind _ = _
  rw [hminted]
  rfl

section
variable (h : Chained hash sid s log) (hinj : Function.Injective hash)
include h hinj

theorem Chained.head_of_currentHash {x : SessionOf sid}
    {token : String} (hrow : s.row (.session sid) = some x)
    (hcurrent : currentHash hash (s.row (.current sid)) x.val = some (hash token)) :
    (issuedIn log).head? = some token := by
  have htokenOf : tokenOf s sid = x.val.refreshToken := by
    rw [tokenOf, hrow]
    rfl
  have hrecord : s.row (.current sid) = x.val.refreshToken.map hash := htokenOf ▸ h.record
  cases htoken : x.val.refreshToken with
  | none =>
    rw [currentHash, hrecord, htoken] at hcurrent
    cases hcurrent
  | some live =>
    rw [currentHash, hrecord, htoken] at hcurrent
    rw [← hinj (Option.some.inj hcurrent)]
    exact h.live live (htokenOf.trans htoken)

theorem head_of_rotates (hfresh : call.newRefreshToken ∉ log.map fun e => e.call.drawn)
    (houtcome : RefreshOutcome hash call s r s') {response : AuthenticateResponse} (hr : r = .ok response)
    (htoken : response.tokens.refreshToken = some call.newRefreshToken) :
    (issuedIn log).head? = some call.input.refreshToken := by
  cases houtcome with
  | rotated hindex hrow hcurrent =>
    obtain ⟨rfl, -⟩ := h.index _ _ hindex
    exact h.head_of_currentHash hinj hrow hcurrent
  | @retried _ _ _ _ _ htomb hrow _ hanswer =>
    obtain ⟨rfl, -⟩ := h.tombstones _ _ htomb
    obtain ⟨-, token, tokenId, resolution, hlive, -, -, hresponse⟩ :=
      refreshToken_of_replayRotation (replayed_of_answer hanswer hr)
    rw [hresponse] at htoken
    exact absurd (Option.some.inj htoken) (h.replayed_ne_drawn hfresh hrow hlive)
  | _ => cases hr

/-- A token that is refused, or answered, without any change to the session. -/
theorem Chained.retired (hunrotated : ∀ ρ ∈ rotationsIn log, ρ.token ≠ call.input.refreshToken)
    (hold : (issuedIn log).head? ≠ some call.input.refreshToken) (houtcome : RefreshOutcome hash call s r s') :
    (∃ error, r = .error error) ∧ s'.row (.session sid) = s.row (.session sid) := by
  have hcause : ∀ tombstone : RefreshTombstone,
      s.row (.rotated (hash call.input.refreshToken)) = some tombstone → tombstone.cause = .superseded := by
    intro tombstone htomb
    rcases (h.tombstones _ _ htomb).2 with hcause | ⟨ρ, hρ, hrecords⟩
    · exact hcause
    · exact absurd (hinj hrecords.key) (hunrotated ρ hρ)
  cases houtcome with
  | refused _ hrows =>
    rw [hrows, Rows.row_set_of_ne _ (by simp)]
    exact ⟨⟨_, rfl⟩, rfl⟩
  | superseded _ _ _ _ _ hrows =>
    rw [hrows, Rows.row_set_of_ne _ (by simp), Rows.row_set_of_ne _ (by simp)]
    exact ⟨⟨_, rfl⟩, rfl⟩
  | rotated hindex hrow hcurrent =>
    obtain ⟨rfl, -⟩ := h.index _ _ hindex
    exact absurd (h.head_of_currentHash hinj hrow hcurrent) hold
  | unknown _ _ hrows => exact ⟨⟨_, rfl⟩, by rw [hrows]⟩
  | retried _ htomb _ hretry =>
    rw [isInnocentRetry, hcause _ htomb] at hretry
    simp at hretry
  | retired _ _ _ hrows => exact ⟨⟨_, rfl⟩, by rw [hrows]⟩
  | revoked _ htomb _ _ hrotated =>
    rw [hcause _ htomb] at hrotated
    cases hrotated

theorem Chained.retry_iff {ρ : Rotation}
    (hρ : ρ ∈ rotationsIn log) {x : SessionOf sid} (hrow : s.row (.session sid) = some x)
    {tombstone : RefreshTombstone} (hrecords : Records hash ρ (hash ρ.token) tombstone) :
    isInnocentRetry hash x.val tombstone (s.clock + call.elapsed) call.backend.refreshReuseGrace = true ↔
      Unused log ρ ∧ InGrace call s ρ := by
  have hissued : issuedIn log ≠ [] := List.ne_nil_of_mem (h.origin ρ hρ).1
  obtain ⟨live, hlive⟩ := Option.ne_none_iff_exists'.mp (h.tokened hissued x hrow)
  have hstate := (h.bounded x hrow (h.tokened hissued x hrow)).state
  have hhead : (issuedIn log).head? = some live := by
    refine h.live live ?_
    rw [tokenOf, hrow]
    exact hlive
  simp only [isInnocentRetry, hrecords.cause, hrecords.time, hrecords.successor, hstate, hlive, decide_true,
    Bool.true_and, Option.any_some, Bool.and_eq_true, decide_eq_true_eq, Unused, InGrace, hhead, Option.some.injEq]
  rw [hinj.eq_iff, and_comm]

/-- A token that was exchanged is presented again. -/
theorem Chained.reused {ρ : Rotation}
    (hρ : ρ ∈ rotationsIn log) (htoken : ρ.token = call.input.refreshToken)
    (houtcome : RefreshOutcome hash call s r s') :
    (∀ response, r = .ok response → Unused log ρ ∧ InGrace call s ρ ∧ PairOf call ρ response) ∧
    (¬ (Unused log ρ ∧ InGrace call s ρ) → (∃ error, r = .error error) ∧ s'.row (.session sid) = none) ∧
    (Unused log ρ ∧ InGrace call s ρ → s'.row (.session sid) = s.row (.session sid) ∧
      ∀ (x : SessionOf sid) (accessToken : String), s.row (.session sid) = some x →
        Passes call x.val (s.clock + call.elapsed) ρ.tokenId accessToken →
        ∃ response, r = .ok response ∧ response.tokens.accessToken = accessToken ∧ PairOf call ρ response) := by
  obtain ⟨tombstone, htomb, hrecords⟩ := h.kept ρ hρ
  have hsid : tombstone.sessionId = sid := (h.tombstones _ _ htomb).1
  have hspent : ∀ id : String, s.row (.refresh (hash call.input.refreshToken)) ≠ some id := by
    intro id hindex
    refine h.unspent hinj ?_ ρ hρ (congrArg hash htoken)
    rw [hindex]
    exact Option.some_ne_none _
  have hsame : ∀ other : RefreshTombstone, s.row (.rotated (hash call.input.refreshToken)) = some other →
      other = tombstone := fun other hother =>
    Option.some.inj (hother.symm.trans (htoken ▸ htomb))
  cases houtcome with
  | refused hindex => exact absurd hindex (hspent _)
  | superseded hindex => exact absurd hindex (hspent _)
  | rotated hindex => exact absurd hindex (hspent _)
  | unknown _ hnone =>
    rw [← htoken, htomb] at hnone
    cases hnone
  | @retried _ _ other x _ hother hrow hretry hanswer hrows =>
    obtain rfl := hsame other hother
    subst hsid
    have hallowed := (h.retry_iff hinj hρ hrow hrecords).mp hretry
    have hlive : x.val.refreshToken = some ρ.successor := by
      obtain ⟨live, hlive⟩ := Option.ne_none_iff_exists'.mp
        (h.tokened (List.ne_nil_of_mem (h.origin ρ hρ).1) x hrow)
      have hhead := h.live live (by rw [tokenOf, hrow]; exact hlive)
      rw [hlive, ← hhead, hallowed.1]
    have htokenId := h.pinned ρ hρ x hrow hlive
    refine ⟨fun response hr => ⟨hallowed.1, hallowed.2, ?_⟩, fun hnot => absurd hallowed hnot, fun _ =>
      ⟨by rw [hrows], fun y accessToken hy hpasses => ?_⟩⟩
    · obtain ⟨-, token, tokenId, resolution, htoken', htokenId', hminted, hresponse⟩ :=
        refreshToken_of_replayRotation (replayed_of_answer hanswer hr)
      obtain rfl : token = ρ.successor := Option.some.inj (htoken'.symm.trans hlive)
      refine ⟨by rw [hresponse]; rfl, _, ?_, hminted⟩
      exact Option.some.inj (htokenId'.symm.trans htokenId)
    · obtain rfl : x = y := Option.some.inj (hrow.symm.trans hy)
      obtain ⟨response, hreplayed, htoken', haccess⟩ := replayed_of_passes hlive htokenId hpasses
      obtain ⟨-, -, resolution, -, hminted⟩ := hpasses
      refine ⟨response, by rw [hanswer, hreplayed]; rfl, haccess, htoken', _, ?_, haccess ▸ hminted⟩
      rfl
  | @retired _ _ other _ hother hcause hrows =>
    obtain rfl := hsame other hother
    subst hsid
    have hgone : s.row (.session other.sessionId) = none := by
      refine hcause.resolve_left fun hsuperseded => ?_
      rw [hrecords.cause] at hsuperseded
      cases hsuperseded
    refine ⟨fun _ hr => (by cases hr), fun _ => ⟨⟨_, rfl⟩, by rw [hrows, hgone]⟩,
      fun _ => ⟨by rw [hrows], fun x _ hx => ?_⟩⟩
    rw [hgone] at hx
    cases hx
  | @revoked _ _ other _ _ hother hrow hretry _ hrows =>
    obtain rfl := hsame other hother
    subst hsid
    refine ⟨fun _ hr => (by cases hr), fun _ => ⟨⟨_, rfl⟩, ?_⟩, fun hallowed => ?_⟩
    · rw [hrows, row_session_stageSessionRemoval]
    · rw [(h.retry_iff hinj hρ hrow hrecords).mpr hallowed] at hretry
      cases hretry

end

theorem Chained.refused_of_gone (h : Chained hash sid s log) (hgone : s.row (.session sid) = none)
    (houtcome : RefreshOutcome hash call s r s') : ∃ error, r = .error error := by
  cases houtcome with
  | rotated hindex hrow =>
    obtain ⟨rfl, -⟩ := h.index _ _ hindex
    rw [hgone] at hrow
    cases hrow
  | retried _ htomb hrow =>
    obtain ⟨rfl, -⟩ := h.tombstones _ _ htomb
    rw [hgone] at hrow
    cases hrow
  | _ => exact ⟨_, rfl⟩

theorem not_pastEnd_of_checkRenewable {backend : AuthBackend R} {x : Session} {now : Nat}
    (h : checkRenewable backend x now = .ok ()) : x.pastEnd now = false := by
  unfold checkRenewable at h
  split at h
  · cases h
  split at h
  · cases h
  · rename_i hend
    simpa using hend

theorem le_of_refreshResponse {backend : AuthBackend R} {x : Session} {now stop : Nat}
    {resolution : RoleResolution R} {accessToken refreshToken : String} {expiresIn : Option Nat}
    (hstop : x.notAfter = some stop) (hend : x.pastEnd now = false)
    (hexpires : ∀ left, expiresIn = some left → now + left ≤ stop) :
    (refreshResponse backend x now resolution accessToken refreshToken expiresIn).session.expiresAt ≤ stop ∧
    ∀ left, (refreshResponse backend x now resolution accessToken refreshToken expiresIn).tokens.refreshExpiresIn =
        some left →
      (refreshResponse backend x now resolution accessToken refreshToken expiresIn).session.issuedAt + left ≤ stop := by
  have hnow : now < stop := by simpa [Session.pastEnd, hstop] using hend
  refine ⟨?_, hexpires⟩
  change saturatingAdd now (clampedAccessTtl backend _ x now) ≤ stop
  rw [clampedAccessTtl, hstop, Option.elim_some]
  unfold saturatingAdd
  omega

/-- No expiry in the answer is beyond the end of the session as it is then stored. -/
def WithinEnd (sid : String) (r : Except SessionError Answer) (s' : SessionsState) : Prop :=
  ∀ answer, r = .ok answer → ∀ x : SessionOf sid, s'.row (.session sid) = some x → ∀ stop, x.val.notAfter = some stop →
    (∀ expires, answer.refreshExpiresAt = some expires → expires ≤ stop) ∧
      (answer.accessExpiresAt ≤ stop ∨ answer.Late stop)

theorem withinEnd_of_response {response : AuthenticateResponse}
    (h : ∀ x : SessionOf sid, s'.row (.session sid) = some x → ∀ stop, x.val.notAfter = some stop →
      response.session.expiresAt ≤ stop ∧
        ∀ left, response.tokens.refreshExpiresIn = some left → response.session.issuedAt + left ≤ stop) :
    WithinEnd sid (.ok (.response response)) s' := by
  intro answer hanswer x hx stop hstop
  cases hanswer
  obtain ⟨haccess, hrefresh⟩ := h x hx stop hstop
  refine ⟨fun expires hexpires => ?_, .inl haccess⟩
  obtain ⟨left, hleft, rfl⟩ := Option.map_eq_some_iff.mp hexpires
  exact hrefresh left hleft

theorem Chained.withinEnd_refresh (h : Chained hash sid s log) (houtcome : RefreshOutcome hash call s r s') :
    WithinEnd sid (r.map .response) s' := by
  cases houtcome with
  | @rotated _ _ y _ _ hindex _ _ hrenewable _ hrows =>
    obtain ⟨rfl, -⟩ := h.index _ _ hindex
    obtain ⟨y, rfl⟩ := y
    have hend : y.pastEnd (s.clock + call.elapsed) = false := not_pastEnd_of_checkRenewable hrenewable
    refine withinEnd_of_response fun x hrow stop hstop => ?_
    have hstop' : y.notAfter = some stop := by
      have hx := ((issues_rotatedRows y (s.clock + call.elapsed)).of_row hrows).session
      obtain rfl := Option.some.inj (hx.symm.trans hrow)
      exact hstop
    refine le_of_refreshResponse hstop' hend fun left hleft => ?_
    cases hleft
    have hnow : s.clock + call.elapsed < stop := by simpa [Session.pastEnd, hstop'] using hend
    rw [Session.clampToEnd, hstop', Option.elim_some]
    omega
  | @retried _ _ _ y _ htomb hy _ hanswer hrows =>
    obtain ⟨rfl, -⟩ := h.tombstones _ _ htomb
    cases r with
    | error => exact fun _ hr => (by cases hr)
    | ok response =>
      obtain ⟨hend, token, tokenId, resolution, hlive, -, -, hresponse⟩ :=
        refreshToken_of_replayRotation (replayed_of_answer hanswer rfl)
      refine withinEnd_of_response fun x hrow stop hstop => ?_
      rw [hrows, hy] at hrow
      obtain rfl := Option.some.inj hrow
      rw [hresponse]
      refine le_of_refreshResponse hstop hend fun left hleft => ?_
      obtain ⟨expires, hexpires, rfl⟩ := Option.map_eq_some_iff.mp hleft
      have hbound := (h.bounded y hy (by rw [hlive]; exact Option.some_ne_none _)).expires stop expires hstop hexpires
      have hnow : s.clock + call.elapsed < stop := by simpa [Session.pastEnd, hstop] using hend
      omega
  | _ => exact fun _ hr => (by cases hr)

theorem Chained.withinEnd_login {call : AuthenticateCall R} (h : Chained hash sid s log)
    (houtcome : LoginOutcome hash call s r s') : WithinEnd sid (r.map .response) s' := by
  cases houtcome with
  | refused | spent => exact fun _ hr => (by cases hr)
  | @signedIn _ challenge _ _ _ hrow hstate _ hissues =>
    -- The session of a subject that logs in has no end.
    obtain rfl : challenge.val.did = sid := h.challenges _ challenge hrow hstate
    intro answer _ x hx stop hstop
    obtain rfl := Option.some.inj (hissues.session.symm.trans hx)
    cases hstop

theorem withinEnd_signIn {call : SignInCall R} (hid : call.sessionId = sid) {r : Except SessionError MintedTokens}
    (houtcome : SignInOutcome hash call s r s') : WithinEnd sid (r.map .minted) s' := by
  cases houtcome with
  | refused => exact fun _ hr => (by cases hr)
  | signedIn _ hbounded hissues =>
    subst hid
    intro answer hanswer x hx stop hstop
    cases hanswer
    obtain rfl := Option.some.inj (hissues.session.symm.trans hx)
    obtain ⟨hrefresh, haccess⟩ := hbounded stop hstop
    refine ⟨fun expires hexpires => ?_, haccess⟩
    cases hexpires
    exact hrefresh

theorem Chained.withinEnd (h : Chained hash sid s log) {call : ChainCall R} (hon : call.On sid) :
    WithinEnd sid ((call.program hash).result s) ((call.program hash).final s) := by
  cases call with
  | login call =>
    have hruns : ((ChainCall.login call).program hash).Runs s (WithinEnd sid) :=
      runs_map (runs_handleAuthenticateWithAal.mono fun _ _ houtcome => h.withinEnd_login houtcome)
    exact runs_iff.mp hruns
  | signIn call =>
    have hruns : ((ChainCall.signIn call).program hash).Runs s (WithinEnd sid) :=
      runs_map (runs_mintSession.mono fun _ _ houtcome => withinEnd_signIn hon houtcome)
    exact runs_iff.mp hruns
  | refresh call =>
    have hruns : ((ChainCall.refresh call).program hash).Runs s (WithinEnd sid) :=
      runs_map (runs_handleRefresh.mono fun _ _ houtcome => h.withinEnd_refresh houtcome)
    exact runs_iff.mp hruns

theorem Chained.head_ne_of_login (h : Chained hash sid s log) {newer older : List (Entry R)}
    (hlog : log = newer ++ e :: older) (hsigns : e.signsIn = true) {token : String} (htoken : token ∈ issuedIn older) :
    (issuedIn log).head? ≠ some token := by
  obtain ⟨login, hlogin⟩ :=
    Option.ne_none_iff_exists'.mp (h.answered e (hlog ▸ List.mem_append_right _ List.mem_cons_self) hsigns)
  have hissued : issuedIn log = issuedIn newer ++ login :: issuedIn older := by
    rw [hlog, issuedIn, List.filterMap_append]
    exact congrArg _ (issuedIn_cons_of_some hlogin)
  have hdistinct := h.distinct
  rw [hissued, List.nodup_append] at hdistinct
  rw [hissued]
  intro hhead
  cases hnewer : issuedIn newer with
  | nil =>
    rw [hnewer] at hhead
    obtain rfl : login = token := Option.some.inj hhead
    exact (List.nodup_cons.mp hdistinct.2.1).1 htoken
  | cons first =>
    rw [hnewer] at hhead hdistinct
    obtain rfl : first = token := Option.some.inj hhead
    exact hdistinct.2.2 first List.mem_cons_self first (List.mem_cons_of_mem _ htoken) rfl

/-- **Refresh tokens form one chain, and theft is detected.** After any sequence of logins and refreshes of a session
whose drawn tokens are distinct:
no token has been exchanged twice;
of all tokens only the one issued last can be exchanged next;
a token that was exchanged is answered again only with the pair it was exchanged for, while that is unused and inside
the grace, and is answered so then if the checks on a retry pass; otherwise the session is deleted, after which no token
is accepted;
a token that a login replaced is refused and leaves the session;
and no answer to any call has an expiry beyond the session's end, except that a sign-in to a session that has ended
already is given an access token that expires at once. -/
theorem refresh_tokens_form_one_chain (hash : String → String) (hinj : Function.Injective hash) (sid : String)
    (s : SessionsState) (hstart : Unissued sid s) (calls : List (ChainCall R)) (hon : ∀ call ∈ calls, call.On sid)
    (hdrawn : (calls.map ChainCall.drawn).Nodup) :
    ((rotationsIn (afterCalls hash s calls).log).map Rotation.token).Nodup ∧
    (∀ call : RefreshCall R, call.newRefreshToken ∉ calls.map ChainCall.drawn →
      let log := (afterCalls hash s calls).log
      let store := (afterCalls hash s calls).store
      let answer := (handleRefresh hash call).result store
      let store' := (handleRefresh hash call).final store
      (∀ response, answer = .ok response → response.tokens.refreshToken = some call.newRefreshToken →
        (issuedIn log).head? = some call.input.refreshToken) ∧
      (∀ ρ ∈ rotationsIn log, ρ.token = call.input.refreshToken →
        (∀ response, answer = .ok response → Unused log ρ ∧ InGrace call store ρ ∧ PairOf call ρ response) ∧
        (¬ (Unused log ρ ∧ InGrace call store ρ) → (∃ error, answer = .error error) ∧
          store'.row (.session sid) = none ∧
          ∀ other : RefreshCall R, ∃ error, (handleRefresh hash other).result store' = .error error) ∧
        (Unused log ρ ∧ InGrace call store ρ → store'.row (.session sid) = store.row (.session sid) ∧
          ∀ (x : SessionOf sid) (accessToken : String), store.row (.session sid) = some x →
            Passes call x.val (store.clock + call.elapsed) ρ.tokenId accessToken →
            ∃ response, answer = .ok response ∧ response.tokens.accessToken = accessToken ∧ PairOf call ρ response)) ∧
      (∀ newer e older, log = newer ++ e :: older → e.signsIn = true → call.input.refreshToken ∈ issuedIn older →
        (∀ ρ ∈ rotationsIn log, ρ.token ≠ call.input.refreshToken) →
        (∃ error, answer = .error error) ∧ store'.row (.session sid) = store.row (.session sid))) ∧
    ∀ call : ChainCall R, call.On sid →
      WithinEnd sid ((call.program hash).result (afterCalls hash s calls).store)
        ((call.program hash).final (afterCalls hash s calls).store) := by
  obtain ⟨h, hlog⟩ := chained_afterCalls hinj hstart calls hon hdrawn
  refine ⟨h.once, fun call hcall => ?_, fun call hcall => h.withinEnd hcall⟩
  have hfresh : call.newRefreshToken ∉ (afterCalls hash s calls).log.map fun e => e.call.drawn := by
    rwa [hlog, List.mem_reverse]
  have houtcome : RefreshOutcome hash call (afterCalls hash s calls).store
      ((handleRefresh hash call).result (afterCalls hash s calls).store)
      ((handleRefresh hash call).final (afterCalls hash s calls).store) := runs_iff.mp runs_handleRefresh
  have hafter := chained_refresh h hinj hfresh houtcome
  refine ⟨fun response hok htoken => head_of_rotates h hinj hfresh houtcome hok htoken, fun ρ hρ htoken => ?_,
    fun newer e older hsplit hsigns hissued hunrotated => ?_⟩
  · obtain ⟨hanswered, hrevoked, hkept⟩ := h.reused hinj hρ htoken houtcome
    refine ⟨hanswered, fun hnot => ⟨(hrevoked hnot).1, (hrevoked hnot).2, fun other => ?_⟩, hkept⟩
    exact hafter.refused_of_gone (hrevoked hnot).2 (runs_iff.mp runs_handleRefresh)
  · exact h.retired hinj hunrotated (h.head_ne_of_login hsplit hsigns hissued) houtcome

end

/-! ### A stolen token -/

def challenged : SessionsState :=
  (⟨fun _ => none, 100⟩ : SessionsState).set (.session "challenge") (some challengeRow)

def aliceLogin : ChainCall Unit := .login (loginWith "token1")

theorem unissued_challenged : Unissued "did:alice" challenged where
  index k := Rows.row_set_of_ne _ (by simp) _
  tombstones k := Rows.row_set_of_ne _ (by simp) _
  record := Rows.row_set_of_ne _ (by simp) _
  token := by
    rw [tokenOf, challenged, Rows.row_set_of_ne _ (by simp)]
    rfl
  challenges id x hx _ := by
    rcases Rows.row_or_of_set_some hx with hnone | hput
    · cases hnone
    · cases hput
      rfl

/-- Alice has exchanged her token. Presented again inside the grace it is answered with the pair, and afterwards it
costs the session. -/
theorem stolen_token_revokes :
    let c := afterCalls id challenged [aliceLogin, .refresh (refreshWith "token1" "token2" 10)]
    rotationsIn c.log = [⟨"token1", "token2", 111, "jti"⟩] ∧
    (∃ response, (handleRefresh id (refreshWith "token1" "token3" 20)).result c.store = .ok response ∧
      PairOf (refreshWith "token1" "token3" 20) ⟨"token1", "token2", 111, "jti"⟩ response) ∧
    ((handleRefresh id (refreshWith "token1" "token3" 40)).final c.store).row (.session "did:alice") = none := by
  intro c
  have hrotations : rotationsIn c.log = [⟨"token1", "token2", 111, "jti"⟩] := by decide +kernel
  have hmem : ⟨"token1", "token2", 111, "jti"⟩ ∈ rotationsIn c.log := by
    rw [hrotations]
    exact List.mem_cons_self
  obtain ⟨-, hchain, -⟩ := refresh_tokens_form_one_chain id Function.injective_id "did:alice" challenged
    unissued_challenged [aliceLogin, .refresh (refreshWith "token1" "token2" 10)] (by simp [aliceLogin, ChainCall.On])
    (by decide +kernel)
  refine ⟨hrotations, ?_, ?_⟩
  · obtain ⟨-, hreused, -⟩ := hchain (refreshWith "token1" "token3" 20) (by decide +kernel)
    obtain ⟨-, -, hretried⟩ := hreused _ hmem rfl
    have hgrace : Unused c.log ⟨"token1", "token2", 111, "jti"⟩ ∧
        InGrace (refreshWith "token1" "token3" 20) c.store ⟨"token1", "token2", 111, "jti"⟩ := by
      constructor
      · unfold Unused
        decide +kernel
      · unfold InGrace
        decide +kernel
    obtain ⟨x, hx⟩ := Option.isSome_iff_exists.mp
      (show (c.store.row (.session "did:alice")).isSome = true by decide +kernel)
    have hend : x.val.pastEnd (c.store.clock + 20) = false := by
      have hnone : (c.store.row (.session "did:alice")).all (fun x : SessionOf "did:alice" => x.val.notAfter.isNone) =
          true := by decide +kernel
      rw [hx] at hnone
      simp [Session.pastEnd, Option.isNone_iff_eq_none.mp hnone]
    obtain ⟨response, hok, -, hpair⟩ := (hretried hgrace).2 x "jti" hx ⟨rfl, hend, ⟨(), []⟩, rfl, rfl⟩
    exact ⟨response, hok, hpair⟩
  · obtain ⟨-, hreused, -⟩ := hchain (refreshWith "token1" "token3" 40) (by decide +kernel)
    obtain ⟨-, hrevoked, -⟩ := hreused _ hmem rfl
    refine (hrevoked fun hallowed => ?_).2.1
    have hlate : ¬ c.store.clock + 40 - 111 < 30 := by decide +kernel
    exact hlate hallowed.2

/-- A wallet signs in at 100, under a grant that has ended at 50. -/
def lateSignIn : SignInCall Unit where
  backend := openBackend
  sessionId := "session"
  did := "did:alice"
  resolution := ⟨(), []⟩
  amr := ["did"]
  acr := "aal1"
  sessionPubkeyB58btc := none
  notAfter := some 50
  draw := ⟨"token1", "jti1", 0⟩

/-- The access token of a session that has ended expires when it is issued, which is after the end. -/
theorem late_sign_in_expires_at_once :
    (∃ x : SessionOf "session", ((mintSession id lateSignIn).final challenged).row (.session "session") = some x ∧
      x.val.notAfter = some 50) ∧
    ((mintSession id lateSignIn).result challenged).toOption.map
      (fun minted => (minted.accessTtl, minted.accessExpiresAt, minted.refreshExpiresAt)) = some (0, 100, 50) :=
  ⟨⟨_, rfl, rfl⟩, by decide +kernel⟩

end TrustInfrastructure.Auth
