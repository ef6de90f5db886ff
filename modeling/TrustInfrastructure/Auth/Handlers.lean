import TrustInfrastructure.Auth.Sessions

/-!
# Signing in and refreshing

`handleAuthenticate` redeems a challenge and starts a chain of refresh tokens; `handleRefresh` exchanges the current
token for its successor. A token that is not in the index is judged by its tombstone (`handleUnclaimedRefresh`): a retry
of a rotation whose answer was lost is answered with the same pair, a token retired by a login is refused, and any other
token is taken for stolen, and its session is deleted.

What the handlers ask of their service is an `AuthBackend`. The answer of the access list and the minter may change from
call to call, so every call brings its own; the random values it draws and the time that passes until it reads the clock
are part of the call.
-/

namespace TrustInfrastructure.Auth

open Lib (Program RowOp)
open SessionProgram

/-- The sum of two `u64`, at most the largest. -/
def saturatingAdd (a b : Nat) : Nat := min (a + b) (2 ^ 64 - 1)

/-! ### The service -/

structure RoleResolution (R : Type) where
  role : R
  contexts : List String

structure AccessClaims (R : Type) where
  did : String
  sessionId : String
  role : R
  contexts : List String
  amr : List String
  acr : String
  teeAttested : Bool
  ttl : Nat
  tokenId : String

structure AuthBackend (R : Type) where
  accessTokenTtl : Nat
  accessTokenTtlForAal2 : Nat
  refreshTokenTtl : Nat
  idleTimeout : Option Nat
  refreshReuseGrace : Nat
  challengeTtl : Nat
  didcommFreshnessWindow : Nat
  checkAcl : String → Except AuthError (RoleResolution R)
  mintAccessToken : AccessClaims R → Except AuthError String

def AuthBackend.accessTtlFor {R : Type} (backend : AuthBackend R) (acr : String) : Nat :=
  if acr = "aal2" then backend.accessTokenTtlForAal2 else backend.accessTokenTtl

structure WireSession where
  id : String
  subject : String
  issuedAt : Nat
  expiresAt : Nat
  amr : List String
  acr : String
  deriving DecidableEq

structure TokenBundle where
  accessToken : String
  refreshToken : Option String
  tokenType : String
  expiresIn : Nat
  refreshExpiresIn : Option Nat
  scope : List String
  deriving DecidableEq

structure AuthenticateResponse where
  session : WireSession
  tokens : TokenBundle
  deriving DecidableEq

def scopeOf (contexts : List String) : List String := contexts.map fun c => s!"ctx:{c}"

/-- A handler's own check, as part of its program. -/
def checked {α : Type} (r : Except AuthError α) : SessionProgram α := Program.lift (r.mapError .auth)

def refuse {α : Type} (e : AuthError) : SessionProgram α := Program.fail (.auth e)

/-! ### Refreshing -/

structure RefreshInput where
  refreshToken : String
  signerDid : Option String
  deriving DecidableEq

structure RefreshCall (R : Type) where
  backend : AuthBackend R
  input : RefreshInput
  newRefreshToken : String
  newTokenId : String
  elapsed : Nat

def refreshAmrAcr (s : Session) : List String × String :=
  if s.amr.isEmpty then (["did"], "aal1") else (s.amr, s.acr)

def clampedAccessTtl {R : Type} (backend : AuthBackend R) (acr : String) (s : Session) (now : Nat) : Nat :=
  s.notAfter.elim (backend.accessTtlFor acr) fun stop => min (backend.accessTtlFor acr) (stop - now)

def checkSigner (input : RefreshInput) (s : Session) : Except AuthError Unit :=
  match input.signerDid with
  | some signer => if signer ≠ s.did then .error .signerMismatch else .ok ()
  | none => .ok ()

section
variable {R : Type}

def checkRenewable (backend : AuthBackend R) (s : Session) (now : Nat) : Except AuthError Unit :=
  if s.refreshExpiresAt.any fun expires => decide (expires < now) then .error .refreshTokenExpired
  else if s.pastEnd now then .error .refreshTokenExpired
  else if backend.idleTimeout.any fun idle =>
      decide (idle < now - if s.lastSeen = 0 then s.createdAt else s.lastSeen) then .error .sessionIdleTimeout
  else .ok ()

def claimsOf (backend : AuthBackend R) (s : Session) (now : Nat) (resolution : RoleResolution R) (tokenId : String) :
    AccessClaims R where
  did := s.did
  sessionId := s.sessionId
  role := resolution.role
  contexts := resolution.contexts
  amr := (refreshAmrAcr s).1
  acr := (refreshAmrAcr s).2
  teeAttested := s.teeAttested
  ttl := clampedAccessTtl backend (refreshAmrAcr s).2 s now
  tokenId := tokenId

def rotatedSession (call : RefreshCall R) (s : Session) (now : Nat) : Session where
  sessionId := s.sessionId
  did := s.did
  challenge := ""
  state := .authenticated
  createdAt := now
  lastSeen := s.lastSeen
  refreshToken := some call.newRefreshToken
  refreshExpiresAt := some (s.clampToEnd (saturatingAdd now call.backend.refreshTokenTtl))
  teeAttested := s.teeAttested
  amr := (refreshAmrAcr s).1
  acr := (refreshAmrAcr s).2
  acrExpiresAt := s.acrExpiresAt
  tokenId := some call.newTokenId
  sessionPubkeyB58btc := s.sessionPubkeyB58btc
  notAfter := s.notAfter

def refreshResponse (backend : AuthBackend R) (s : Session) (now : Nat) (resolution : RoleResolution R)
    (accessToken refreshToken : String) (refreshExpiresIn : Option Nat) : AuthenticateResponse where
  session :=
    { id := s.sessionId
      subject := s.did
      issuedAt := now
      expiresAt := saturatingAdd now (clampedAccessTtl backend (refreshAmrAcr s).2 s now)
      amr := (refreshAmrAcr s).1
      acr := (refreshAmrAcr s).2 }
  tokens :=
    { accessToken := accessToken
      refreshToken := some refreshToken
      tokenType := "Bearer"
      expiresIn := clampedAccessTtl backend (refreshAmrAcr s).2 s now
      refreshExpiresIn := refreshExpiresIn
      scope := scopeOf resolution.contexts }

def isInnocentRetry (hash : String → String) (s : Session) (tombstone : RefreshTombstone) (now grace : Nat) : Bool :=
  decide (tombstone.cause = .rotated) && decide (s.state = .authenticated) &&
    decide (now - tombstone.rotatedAt < grace) &&
    s.refreshToken.any fun live => decide (hash live = tombstone.successorHash)

/-- The answer of the rotation that is retried. -/
def replayRotation (backend : AuthBackend R) (s : Session) (now : Nat) : Except AuthError AuthenticateResponse :=
  if s.pastEnd now then .error .refreshTokenExpired
  else do
    let resolution ← backend.checkAcl s.did
    match s.refreshToken, s.tokenId with
    | some refreshToken, some tokenId =>
      let accessToken ← backend.mintAccessToken (claimsOf backend s now resolution tokenId)
      pure (refreshResponse backend s now resolution accessToken refreshToken
        (s.refreshExpiresAt.map fun expires => expires - now))
    | _, _ => .error .refreshTokenInvalid

variable (hash : String → String)

def rotatedTombstone (call : RefreshCall R) (s : Session) (now : Nat) : RefreshTombstone where
  sessionId := s.sessionId
  did := s.did
  rotatedAt := now
  expiresAt := saturatingAdd now call.backend.refreshTokenTtl
  successorHash := hash call.newRefreshToken
  cause := .rotated

def supersededTombstone (call : RefreshCall R) (s : Session) (now : Nat) (currentHash : Option String) :
    RefreshTombstone where
  sessionId := s.sessionId
  did := s.did
  rotatedAt := now
  expiresAt := saturatingAdd now call.backend.refreshTokenTtl
  successorHash := currentHash.getD ""
  cause := .superseded

def handleUnclaimedRefresh (call : RefreshCall R) : SessionProgram AuthenticateResponse :=
  (getRefreshTombstone hash call.input.refreshToken).bind fun found =>
    match found with
    | none => refuse .refreshTokenInvalid
    | some tombstone =>
      (getSession tombstone.sessionId).bind fun session =>
        (nowEpoch call.elapsed).bind fun now =>
          match session with
          | some s =>
            if isInnocentRetry hash s tombstone now call.backend.refreshReuseGrace then
              (checked (checkSigner call.input s)).bind fun _ => checked (replayRotation call.backend s now)
            else if tombstone.cause = .superseded then refuse .refreshTokenInvalid
            else (deleteSession hash tombstone.sessionId).bind fun _ => refuse .refreshTokenInvalid
          | none => refuse .refreshTokenInvalid

/-- The rotation of a session whose current token was presented, once every check has passed. -/
def rotate (call : RefreshCall R) (s : Session) (now : Nat) (resolution : RoleResolution R) (accessToken : String) :
    SessionProgram AuthenticateResponse :=
  (storeSession (rotatedSession call s now)).bind fun _ =>
    (storeRefreshIndex hash call.newRefreshToken s.sessionId).bind fun _ =>
      (storeRefreshTombstone hash call.input.refreshToken (rotatedTombstone hash call s now)).bind fun _ =>
        pure (refreshResponse call.backend s now resolution accessToken call.newRefreshToken
          (some (s.clampToEnd (saturatingAdd now call.backend.refreshTokenTtl) - now)))

def currentHash (recorded : Option String) (s : Session) : Option String := recorded <|> s.refreshToken.map hash

def handleRefresh (call : RefreshCall R) : SessionProgram AuthenticateResponse :=
  (takeSessionIdByRefresh hash call.input.refreshToken).bind fun claimed =>
    match claimed with
    | none => handleUnclaimedRefresh hash call
    | some sessionId =>
      (getSession sessionId).bind fun found =>
        match found with
        | none => refuse .sessionNotFound
        | some s =>
          (currentRefreshHash sessionId).bind fun recorded =>
            if currentHash hash recorded s ≠ some (hash call.input.refreshToken) then
              (nowEpoch call.elapsed).bind fun now =>
                (storeRefreshTombstone hash call.input.refreshToken
                  (supersededTombstone call s now (currentHash hash recorded s))).bind fun _ =>
                    refuse .refreshTokenInvalid
            else
              (checked (checkSigner call.input s)).bind fun _ =>
                if s.state ≠ .authenticated then refuse .sessionStateMismatch
                else
                  (nowEpoch call.elapsed).bind fun now =>
                    (checked (checkRenewable call.backend s now)).bind fun _ =>
                      (checked (call.backend.checkAcl s.did)).bind fun resolution =>
                        (checked (call.backend.mintAccessToken
                          (claimsOf call.backend s now resolution call.newTokenId))).bind fun accessToken =>
                            rotate hash call s now resolution accessToken

end

/-! ### Signing in -/

structure MintedTokens where
  accessToken : String
  refreshToken : String
  accessTtl : Nat
  accessExpiresAt : Nat
  refreshExpiresAt : Nat
  issuedAt : Nat
  tokenId : String
  deriving DecidableEq

/-- The random values a sign-in draws, and the time that passes until its tokens are minted. -/
structure Draw where
  refreshToken : String
  tokenId : String
  elapsed : Nat
  deriving DecidableEq

section
variable {R : Type}

/-- The tokens of a session that ends at `notAfter`, if it does. -/
def mintSessionTokensUntil (backend : AuthBackend R) (did sessionId : String) (resolution : RoleResolution R)
    (amr : List String) (acr : String) (teeAttested : Bool) (notAfter : Option Nat) (draw : Draw) :
    SessionProgram MintedTokens :=
  (nowEpoch draw.elapsed).bind fun now =>
    let accessTtl := notAfter.elim (backend.accessTtlFor acr) fun stop => min (backend.accessTtlFor acr) (stop - now)
    let refreshExpiresAt := saturatingAdd now backend.refreshTokenTtl
    (checked (backend.mintAccessToken ⟨did, sessionId, resolution.role, resolution.contexts, amr, acr, teeAttested,
      accessTtl, draw.tokenId⟩)).bind fun accessToken =>
        pure
          { accessToken := accessToken
            refreshToken := draw.refreshToken
            accessTtl := accessTtl
            accessExpiresAt := saturatingAdd now accessTtl
            refreshExpiresAt := notAfter.elim refreshExpiresAt fun stop => min refreshExpiresAt stop
            issuedAt := now
            tokenId := draw.tokenId }

/-- How a sign-in is bound to this service. -/
inductive AudienceBinding where
  | transport
  | recipient (recipient ownDid : Option String)
  deriving DecidableEq

def AudienceBinding.check : AudienceBinding → Except AuthError Unit
  | .transport => .ok ()
  | .recipient named ownDid =>
    match ownDid with
    | none =>
      .error (.internal "this service has no DID configured, so a signed sign-in cannot be addressed to it")
    | some own =>
      match named with
      | none => .error .missingRecipient
      | some r => if r = own then .ok () else .error (.wrongRecipient r own)

structure AuthenticateInput where
  sessionId : String
  challenge : String
  signerDid : String
  createdTime : Option Nat
  sessionPubkeyB58btc : Option String
  audience : AudienceBinding
  deriving DecidableEq

/-- One request to sign in, at the assurance its transport established. -/
structure AuthenticateCall (R : Type) where
  backend : AuthBackend R
  input : AuthenticateInput
  amr : List String
  acr : String
  elapsed : Nat
  draw : Draw

def checkFreshness (createdTime : Option Nat) (sessionCreatedAt now window : Nat) : Except AuthError Unit :=
  match createdTime with
  | none => .ok ()
  | some created =>
    if created < sessionCreatedAt then .error .staleMessage
    else if window < now - created then .error .staleMessage
    else .ok ()

def checkChallenge (input : AuthenticateInput) (s : Session) : Except AuthError Unit :=
  if s.state ≠ .challengeSent then .error .sessionStateMismatch
  else if s.challenge ≠ input.challenge then .error .challengeMismatch
  else if s.did ≠ input.signerDid then .error .signerMismatch
  else .ok ()

def checkTimes (call : AuthenticateCall R) (s : Session) (now : Nat) : Except AuthError Unit :=
  if call.backend.challengeTtl < now - s.createdAt then .error .challengeExpired
  else checkFreshness call.input.createdTime s.createdAt now call.backend.didcommFreshnessWindow

def signedInSession (call : AuthenticateCall R) (challenge : Session) (now : Nat) (minted : MintedTokens) :
    Session where
  sessionId := challenge.did
  did := challenge.did
  challenge := ""
  state := .authenticated
  createdAt := now
  lastSeen := now
  refreshToken := some minted.refreshToken
  refreshExpiresAt := some minted.refreshExpiresAt
  teeAttested := challenge.teeAttested
  amr := call.amr
  acr := call.acr
  acrExpiresAt := none
  tokenId := some minted.tokenId
  sessionPubkeyB58btc := call.input.sessionPubkeyB58btc <|> challenge.sessionPubkeyB58btc
  notAfter := none

def signedInResponse (call : AuthenticateCall R) (did : String) (resolution : RoleResolution R)
    (minted : MintedTokens) : AuthenticateResponse where
  session :=
    { id := did
      subject := did
      issuedAt := minted.issuedAt
      expiresAt := minted.accessExpiresAt
      amr := call.amr
      acr := call.acr }
  tokens :=
    { accessToken := minted.accessToken
      refreshToken := some minted.refreshToken
      tokenType := "Bearer"
      expiresIn := minted.accessTtl
      refreshExpiresIn := some call.backend.refreshTokenTtl
      scope := scopeOf resolution.contexts }

variable (hash : String → String)

/-- Retire the token a login replaces, unless someone else has disposed of it. -/
def retireSuperseded (call : AuthenticateCall R) (did : String) (now : Nat) :
    Option String → SessionProgram Unit
  | none => pure ()
  | some superseded =>
    (takeSessionIdByRefresh hash superseded).bind fun claimed =>
      if claimed.isSome then
        storeRefreshTombstone hash superseded
          { sessionId := did
            did := did
            rotatedAt := now
            expiresAt := saturatingAdd now call.backend.refreshTokenTtl
            successorHash := hash call.draw.refreshToken
            cause := .superseded }
      else pure ()

def completeLogin (call : AuthenticateCall R) (challenge : Session) (now : Nat) : SessionProgram AuthenticateResponse :=
  (checked (call.backend.checkAcl challenge.did)).bind fun resolution =>
    (mintSessionTokensUntil call.backend challenge.did challenge.did resolution call.amr call.acr
      challenge.teeAttested none call.draw).bind fun minted =>
        (getSession challenge.did).bind fun prior =>
          (storeSession (signedInSession call challenge now minted)).bind fun _ =>
            (storeRefreshIndex hash minted.refreshToken challenge.did).bind fun _ =>
              (retireSuperseded hash call challenge.did now (prior.bind Session.refreshToken)).bind fun _ =>
                pure (signedInResponse call challenge.did resolution minted)

def handleAuthenticateWithAal (call : AuthenticateCall R) : SessionProgram AuthenticateResponse :=
  (checked call.input.audience.check).bind fun _ =>
    (getSession call.input.sessionId).bind fun found =>
      match found with
      | none => refuse .sessionNotFound
      | some challenge =>
        (checked (checkChallenge call.input challenge)).bind fun _ =>
          (nowEpoch call.elapsed).bind fun now =>
            (checked (checkTimes call challenge now)).bind fun _ =>
              (takeSession call.input.sessionId).bind fun taken =>
                match taken with
                | none => refuse .sessionStateMismatch
                | some _ => completeLogin hash call challenge now

/-- A sign-in that gets a session of its own, such as a wallet's, which ends when its grant does. -/
structure SignInCall (R : Type) where
  backend : AuthBackend R
  sessionId : String
  did : String
  resolution : RoleResolution R
  amr : List String
  acr : String
  sessionPubkeyB58btc : Option String
  notAfter : Option Nat
  draw : Draw

def issuedSession (call : SignInCall R) (minted : MintedTokens) : Session where
  sessionId := call.sessionId
  did := call.did
  challenge := ""
  state := .authenticated
  createdAt := minted.issuedAt
  lastSeen := minted.issuedAt
  refreshToken := some minted.refreshToken
  refreshExpiresAt := some minted.refreshExpiresAt
  teeAttested := false
  amr := call.amr
  acr := call.acr
  acrExpiresAt := none
  tokenId := some minted.tokenId
  sessionPubkeyB58btc := call.sessionPubkeyB58btc
  notAfter := call.notAfter

def mintSession (call : SignInCall R) : SessionProgram MintedTokens :=
  (mintSessionTokensUntil call.backend call.did call.sessionId call.resolution call.amr call.acr false call.notAfter
    call.draw).bind fun minted =>
      (storeSession (issuedSession call minted)).bind fun _ =>
        (storeRefreshIndex hash minted.refreshToken call.sessionId).bind fun _ => pure minted

end

end TrustInfrastructure.Auth
