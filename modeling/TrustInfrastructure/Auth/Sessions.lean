import TrustInfrastructure.Rooms.Types
import TrustInfrastructure.Lib.Rows

/-!
# Sessions and their refresh tokens in the store

A session is a row under its id. Which refresh token it issues is recorded three times: in the row, in the reverse index
(`refresh`, from the token's hash to the session) and in the record of the current token (`current`). A token that was
retired leaves a tombstone under `rotated`. The programs below are the store functions; each performs one atomic
operation at a time, so that any number of them can be interleaved.

Two of them write a row conditionally: `updateSessionWith` on the row it read, and the creation in `resolveDidSession`
on there being none. `storeSession` and `storeRefreshIndex` write whatever is there.
-/

namespace TrustInfrastructure.Auth

open Lib (Program Rows RowOp Check Write rowStore)
open Rooms (AppError)

/-! ### Records -/

inductive SessionState where
  | challengeSent
  | authenticated
  deriving DecidableEq

structure Session where
  sessionId : String
  did : String
  challenge : String
  state : SessionState
  createdAt : Nat
  lastSeen : Nat
  refreshToken : Option String
  refreshExpiresAt : Option Nat
  teeAttested : Bool
  amr : List String
  acr : String
  acrExpiresAt : Option Nat
  tokenId : Option String
  sessionPubkeyB58btc : Option String
  notAfter : Option Nat
  deriving DecidableEq

namespace Session

def clampToEnd (s : Session) (at_ : Nat) : Nat := s.notAfter.elim at_ fun stop => min at_ stop

def pastEnd (s : Session) (now : Nat) : Bool := s.notAfter.any fun stop => decide (stop ≤ now)

def downgradeLapsedElevation (s : Session) (now : Nat) : Session :=
  match s.acrExpiresAt with
  | some deadline =>
    if deadline ≤ now then { s with acr := "aal1", acrExpiresAt := none, amr := ["did"] } else s
  | none => s

end Session

inductive TombstoneCause where
  | rotated
  | superseded
  deriving DecidableEq

structure RefreshTombstone where
  sessionId : String
  did : String
  rotatedAt : Nat
  expiresAt : Nat
  successorHash : String
  cause : TombstoneCause
  deriving DecidableEq

structure PendingChallengeEntry where
  createdAt : Nat
  deriving DecidableEq

/-! ### The store -/

inductive SessionKey where
  | session (id : String)
  | refresh (tokenHash : String)
  | current (id : String)
  | rotated (tokenHash : String)
  | pendingChallenge (did id : String)
  deriving DecidableEq

abbrev SessionOf (id : String) : Type := { s : Session // s.sessionId = id }

@[reducible] def SessionRow : SessionKey → Type
  | .session id => SessionOf id
  | .refresh _ => String
  | .current _ => String
  | .rotated _ => RefreshTombstone
  | .pendingChallenge _ _ => PendingChallengeEntry

instance instDecidableEqSessionRow : ∀ k, DecidableEq (SessionRow k)
  | .session id => inferInstanceAs (DecidableEq (SessionOf id))
  | .refresh _ => inferInstanceAs (DecidableEq String)
  | .current _ => inferInstanceAs (DecidableEq String)
  | .rotated _ => inferInstanceAs (DecidableEq RefreshTombstone)
  | .pendingChallenge _ _ => inferInstanceAs (DecidableEq PendingChallengeEntry)

abbrev sessionStore : Lib.Interface := rowStore SessionRow

abbrev SessionsState := Rows SessionRow

inductive AuthError where
  | forbidden
  | sessionNotFound
  | sessionStateMismatch
  | challengeMismatch
  | challengeExpired
  | signerMismatch
  | missingRecipient
  | wrongRecipient (recipient own : String)
  | staleMessage
  | refreshTokenInvalid
  | refreshTokenExpired
  | sessionIdleTimeout
  | internal (message : String)
  deriving DecidableEq

/-- How a call is refused: by a handler, or by the store functions. -/
inductive SessionError where
  | auth (e : AuthError)
  | app (e : AppError)
  deriving DecidableEq

abbrev SessionProgram (α : Type) := Program sessionStore SessionError α

namespace SessionProgram

def get (k : SessionKey) : SessionProgram (Option (SessionRow k)) :=
  Program.perform (I := sessionStore) (.get k : RowOp SessionRow)

def take (k : SessionKey) : SessionProgram (Option (SessionRow k)) :=
  Program.perform (I := sessionStore) (.take k : RowOp SessionRow)

def insert (k : SessionKey) (v : SessionRow k) : SessionProgram Unit :=
  Program.perform (I := sessionStore) (.insert k v : RowOp SessionRow)

def remove (k : SessionKey) : SessionProgram Unit :=
  Program.perform (I := sessionStore) (.remove k : RowOp SessionRow)

/-- The clock, read `elapsed` seconds after it was last read. -/
def nowEpoch (elapsed : Nat) : SessionProgram Nat :=
  (Program.perform (I := sessionStore) (.tick elapsed : RowOp SessionRow)).bind fun _ =>
    Program.perform (I := sessionStore) (.now : RowOp SessionRow)

end SessionProgram

open SessionProgram

/-! ### The store functions -/

def putSession (s : Session) : Write SessionRow := .put (.session s.sessionId) (⟨s, rfl⟩ : SessionOf s.sessionId)

def stagePendingChallengeIndex (s : Session) : List (Write SessionRow) :=
  match s.state with
  | .challengeSent => [.put (.pendingChallenge s.did s.sessionId) (⟨s.createdAt⟩ : PendingChallengeEntry)]
  | .authenticated => []

def writeSession (s : Session) : RowOp SessionRow := .batch [] (stagePendingChallengeIndex s ++ [putSession s])

def storeSession (s : Session) : SessionProgram Unit :=
  (Program.perform (I := sessionStore) (writeSession s)).bind fun _ => pure ()

def getSession (id : String) : SessionProgram (Option Session) :=
  (get (.session id)).bind fun row => pure (row.map Subtype.val)

def takeSession (id : String) : SessionProgram (Option Session) :=
  (take (.session id)).bind fun row =>
    match row with
    | none => pure none
    | some s => (remove (.pendingChallenge s.val.did id)).bind fun _ => pure (some s.val)

def sessionWriteAttempts : Nat := 64

def replaceSession {id : String} (read : SessionOf id) (s : Session) : RowOp SessionRow :=
  .batch [.unchanged (.session id) read] (putSession s :: stagePendingChallengeIndex s)

def updateSessionWithin (id : String) (modify : Session → Session) : Nat → SessionProgram (Option Session)
  | 0 => Program.fail (.app (.conflict s!"session {id} kept changing while it was being updated"))
  | attempts + 1 =>
    (get (.session id)).bind fun row =>
      match row with
      | none => pure none
      | some read =>
        (Program.perform (I := sessionStore) (replaceSession read (modify read.val))).bind fun applied =>
          if (show Bool from applied) then pure (some (modify read.val)) else updateSessionWithin id modify attempts

/-- Change a session as it is stored, by a `modify` that always has something to write. -/
def updateSessionWith (id : String) (modify : Session → Session) : SessionProgram (Option Session) :=
  updateSessionWithin id modify sessionWriteAttempts

/-- The session of a sender that never signed in. -/
def intrinsicSession (did : String) (now : Nat) : Session where
  sessionId := did
  did := did
  challenge := ""
  state := .authenticated
  createdAt := now
  lastSeen := now
  refreshToken := none
  refreshExpiresAt := none
  teeAttested := false
  amr := ["did"]
  acr := "aal1"
  acrExpiresAt := none
  tokenId := none
  sessionPubkeyB58btc := none
  notAfter := none

def createIntrinsic (did : String) (now : Nat) : RowOp SessionRow :=
  .batch [.absent (.session did)] [putSession (intrinsicSession did now)]

def touchedSession (now : Nat) (s : Session) : Session :=
  { s with lastSeen := now }.downgradeLapsedElevation now

def resolveDidSessionWithin (did : String) (now : Nat) : Nat → SessionProgram Session
  | 0 => Program.fail (.app (.conflict s!"session {did} kept changing while it was being resolved"))
  | attempts + 1 =>
    (updateSessionWith did (touchedSession now)).bind fun updated =>
      match updated with
      | some s => pure s
      | none =>
        (Program.perform (I := sessionStore) (createIntrinsic did now)).bind fun applied =>
          if (show Bool from applied) then pure (intrinsicSession did now)
          else resolveDidSessionWithin did now attempts

def resolveDidSession (did : String) (now : Nat) : SessionProgram Session :=
  resolveDidSessionWithin did now sessionWriteAttempts

def stageSessionRemoval (hash : String → String) (s : Session) : List (Write SessionRow) :=
  (s.refreshToken.map fun token => Write.delete (.refresh (hash token))).toList ++
    [.delete (.current s.sessionId), .delete (.pendingChallenge s.did s.sessionId), .delete (.session s.sessionId)]

def removeSession (hash : String → String) (s : Session) : RowOp SessionRow := .batch [] (stageSessionRemoval hash s)

section
variable (hash : String → String)

def issueToken (token sessionId : String) : RowOp SessionRow :=
  .batch [] [.put (.current sessionId) (hash token), .put (.refresh (hash token)) sessionId]

def storeRefreshIndex (token sessionId : String) : SessionProgram Unit :=
  (Program.perform (I := sessionStore) (issueToken hash token sessionId)).bind fun _ => pure ()

def currentRefreshHash (sessionId : String) : SessionProgram (Option String) := get (.current sessionId)

def takeSessionIdByRefresh (token : String) : SessionProgram (Option String) := take (.refresh (hash token))

def storeRefreshTombstone (token : String) (tombstone : RefreshTombstone) : SessionProgram Unit :=
  insert (.rotated (hash token)) tombstone

def getRefreshTombstone (token : String) : SessionProgram (Option RefreshTombstone) := get (.rotated (hash token))

def deleteSession (id : String) : SessionProgram Unit :=
  (getSession id).bind fun found =>
    match found with
    | none => pure ()
    | some s => (Program.perform (I := sessionStore) (removeSession hash s)).bind fun _ => pure ()

end

@[simp] theorem refreshToken_touchedSession (now : Nat) (s : Session) :
    (touchedSession now s).refreshToken = s.refreshToken := by
  unfold touchedSession Session.downgradeLapsedElevation
  split
  · split <;> rfl
  · rfl

theorem state_touchedSession (now : Nat) (s : Session) : (touchedSession now s).state = s.state := by
  unfold touchedSession Session.downgradeLapsedElevation
  split
  · split <;> rfl
  · rfl

@[simp] theorem sessionId_touchedSession (now : Nat) (s : Session) :
    (touchedSession now s).sessionId = s.sessionId := by
  unfold touchedSession Session.downgradeLapsedElevation
  split
  · split <;> rfl
  · rfl

end TrustInfrastructure.Auth
