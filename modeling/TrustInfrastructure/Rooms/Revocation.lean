import TrustInfrastructure.Lib.DateTime
import TrustInfrastructure.Lib.Except
import TrustInfrastructure.Rooms.Types

/-!
# A room's revocation list

The list of withdrawals a room signs: its wire form, how a host reads it (`RevocationList.parse`), when it
accepts it over the one it holds (`RevocationList.accept`), and what a held list withdraws
(`RevocationList.revokes`, `RevocationList.withdraws`).
-/

namespace TrustInfrastructure.Rooms

open Lib

/-- The most entries a list may carry. -/
def maxEntries : Nat := 4096

inductive Entry where
  | credential (credentialId : String) (revokedAt : DateTime) (untilAt : Option DateTime)
  | subject (party : String) (revokedAt : DateTime) (untilAt : Option DateTime)
  | room (revokedAt : DateTime) (untilAt : Option DateTime)
  deriving DecidableEq

inductive ListRefusal where
  | listInvalid (why : String)
  | entryNotPermitted
  | stale (heldSequence : Nat)
  | sequenceConflict
  | notAppendOnly
  deriving DecidableEq

inductive Acceptance where
  | new
  | repeated
  deriving DecidableEq

/-- What a host knows about one presented credential. -/
structure CredentialFacts where
  id : Option String
  subject : String
  issuer : String
  validFrom : Option DateTime
  deriving DecidableEq

/-- The credentials a presentation carried. A private room's membership is presented in zero knowledge, and is
`none` here. -/
structure Presented where
  membership : Option CredentialFacts
  authority : List CredentialFacts

def Presented.all (presented : Presented) : List CredentialFacts :=
  presented.membership.toList ++ presented.authority

inductive EntryKind where
  | credential
  | subject
  | room
  deriving DecidableEq

namespace EntryKind

def name : EntryKind → String
  | .credential => "credential"
  | .subject => "subject"
  | .room => "room"

def members : EntryKind → List String
  | .credential => ["kind", "credentialId", "revokedAt", "until"]
  | .subject => ["kind", "subject", "revokedAt", "until"]
  | .room => ["kind", "revokedAt", "until"]

end EntryKind

/-! ### Entries -/

namespace Entry

/-- When the entry stops mattering, every credential it matches having expired. -/
def untilAt : Entry → Option DateTime
  | .credential _ _ untilAt => untilAt
  | .subject _ _ untilAt => untilAt
  | .room _ untilAt => untilAt

/-- When the room made the withdrawal. -/
def revokedAt : Entry → DateTime
  | .credential _ revokedAt _ => revokedAt
  | .subject _ revokedAt _ => revokedAt
  | .room revokedAt _ => revokedAt

/-- The entry still counts at `now`: it has no end, or one not yet passed. -/
def liveAt (entry : Entry) (now : DateTime) : Prop := ∀ u ∈ entry.untilAt, now ≤ u

instance (entry : Entry) (now : DateTime) : Decidable (entry.liveAt now) :=
  inferInstanceAs (Decidable (∀ u ∈ entry.untilAt, now ≤ u))

theorem liveAt_of_le {entry : Entry} {now t : DateTime} (hle : now ≤ t) (hlive : entry.liveAt t) : entry.liveAt now :=
  fun u hu => DateTime.le_trans hle (hlive u hu)

/-- The credential was issued before `t`, as one that does not say when is taken to be. -/
def issuedBefore (facts : CredentialFacts) (t : DateTime) : Bool := facts.validFrom.all fun start => start < t

def matchesCredential (facts : CredentialFacts) : Entry → Bool
  | .credential credentialId _ _ => facts.id = some credentialId
  | .subject party revokedAt _ => (facts.subject = party || facts.issuer = party) && issuedBefore facts revokedAt
  | .room revokedAt _ => issuedBefore facts revokedAt

def kind : Entry → EntryKind
  | .credential _ _ _ => .credential
  | .subject _ _ _ => .subject
  | .room _ _ => .room

def namedMember : Entry → List (String × Value)
  | .credential credentialId _ _ => [("credentialId", .string credentialId)]
  | .subject party _ _ => [("subject", .string party)]
  | .room _ _ => []

variable (times : Calendar)

def untilMember (entry : Entry) : List (String × Value) :=
  match entry.untilAt with
  | some untilAt => [("until", .string (times.secs untilAt))]
  | none => []

/-- The members of the wire form. `revokedAt` keeps its fraction, `until` does not. -/
def wireMembers (entry : Entry) : List (String × Value) :=
  [("kind", .string entry.kind.name), ("revokedAt", .string (times.auto entry.revokedAt))] ++
    entry.namedMember ++ entry.untilMember times

def toWire (entry : Entry) : Value := .object (entry.wireMembers times)

end Entry

section
variable (index : Nat)

def invalidEntry (why : String) : ListRefusal := .listInvalid ("entry " ++ toString index ++ ": " ++ why)

def memberTime (times : Calendar) (obj : List (String × Value)) (name : String) :
    Except ListRefusal (Option DateTime) :=
  match member obj name with
  | none => .ok none
  | some (.string text) =>
    match times.parse text with
    | some time => .ok (some time)
    | none => .error (invalidEntry index s!"`{name}` is not an RFC 3339 date-time")
  | some _ => .error (invalidEntry index s!"`{name}` is not a string")

def requiredTime (times : Calendar) (obj : List (String × Value)) (name : String) : Except ListRefusal DateTime :=
  match memberTime index times obj name with
  | .error e => .error e
  | .ok (some time) => .ok time
  | .ok none => .error (invalidEntry index s!"carries no `{name}`")

def memberString (obj : List (String × Value)) (name : String) : Except ListRefusal String :=
  match member obj name with
  | some (.string text) => if text ≠ "" then .ok text else .error (invalidEntry index s!"carries no `{name}`")
  | _ => .error (invalidEntry index s!"carries no `{name}`")

def kindOf (obj : List (String × Value)) : Option EntryKind :=
  match (member obj "kind").bind Value.asStr with
  | some "credential" => some .credential
  | some "subject" => some .subject
  | some "room" => some .room
  | _ => none

def entryKind (obj : List (String × Value)) : Except ListRefusal EntryKind :=
  match kindOf obj with
  | none => .error (invalidEntry index "has no `kind` of credential, subject or room")
  | some kind =>
    match (obj.map Prod.fst).find? fun name => !kind.members.contains name with
    | some extra => .error (invalidEntry index s!"carries `{extra}`, which its kind does not")
    | none => .ok kind

def isDid (text : String) : Bool := "did:".toList.isPrefixOf text.toList

def namedEntry (obj : List (String × Value)) (revokedAt : DateTime) (untilAt : Option DateTime) :
    EntryKind → Except ListRefusal Entry
  | .credential => do
    let credentialId ← memberString index obj "credentialId"
    return .credential credentialId revokedAt untilAt
  | .subject => do
    let subject ← memberString index obj "subject"
    if isDid subject then return .subject subject revokedAt untilAt
    else throw (invalidEntry index "`subject` is not a DID")
  | .room => return .room revokedAt untilAt

def Entry.parse (times : Calendar) (raw : Value) : Except ListRefusal Entry :=
  match raw.asObject with
  | none => .error (invalidEntry index "is not an object")
  | some obj => do
    let revokedAt ← requiredTime index times obj "revokedAt"
    let untilAt ← memberTime index times obj "until"
    let kind ← entryKind index obj
    namedEntry index obj revokedAt untilAt kind

end

/-- Read the entries of a list, the first at `index`. -/
def parseEntries (times : Calendar) : Nat → List Value → Except ListRefusal (List Entry)
  | _, [] => .ok []
  | index, raw :: rest => do
    let entry ← Entry.parse index times raw
    let entries ← parseEntries times (index + 1) rest
    return entry :: entries

/-! ### Lists -/

structure RevocationList where
  raw : Value
  roomId : String
  sequence : Nat
  entries : List Entry
  deriving DecidableEq

namespace RevocationList

def listMembers : List String := ["roomId", "sequence", "issuedAt", "entries", "proof"]

section
variable (times : Calendar)

def checkRoom (obj : List (String × Value)) (roomId : String) : Except ListRefusal Unit :=
  match (member obj "roomId").bind Value.asStr with
  | none => .error (.listInvalid "the list names no `roomId`")
  | some listRoom =>
    if listRoom ≠ roomId then
      .error (.listInvalid "the list's `roomId` is not the room it was delivered for")
    else .ok ()

def readSequence (obj : List (String × Value)) : Except ListRefusal Nat :=
  match ((member obj "sequence").bind Value.asU64).filter fun sequence => 1 ≤ sequence with
  | some sequence => .ok sequence
  | none => .error (.listInvalid "`sequence` is not an integer of at least 1")

def checkIssued (obj : List (String × Value)) : Except ListRefusal Unit :=
  match ((member obj "issuedAt").bind Value.asStr).bind times.parse with
  | some _ => .ok ()
  | none => .error (.listInvalid "`issuedAt` is not an RFC 3339 date-time")

def checkProof (obj : List (String × Value)) : Except ListRefusal Unit :=
  if ((member obj "proof").map Value.isObject).getD false then .ok ()
  else .error (.listInvalid "the list carries no proof")

def readEntries (obj : List (String × Value)) : Except ListRefusal (List Entry) :=
  match (member obj "entries").bind Value.asArray with
  | none => .error (.listInvalid "`entries` is not an array")
  | some rawEntries =>
    if rawEntries.length > maxEntries then
      .error (.listInvalid ("the list carries " ++ toString rawEntries.length ++ " entries; it is bounded at "
        ++ toString maxEntries))
    else parseEntries times 0 rawEntries

/-- Whether the entry names `roomId` itself as the party withdrawn. -/
def namesRoom (roomId : String) : Entry → Bool
  | .subject party _ _ => party = roomId
  | _ => false

/-- Read `raw` as a list delivered for `roomId`. -/
def parse (raw : Value) (roomId : String) : Except ListRefusal RevocationList :=
  match raw.asObject with
  | none => .error (.listInvalid "the list is not an object")
  | some obj =>
    match (obj.map Prod.fst).find? fun name => !listMembers.contains name with
    | some extra => .error (.listInvalid s!"the list carries `{extra}`")
    | none => do
      checkRoom obj roomId
      let sequence ← readSequence obj
      checkIssued times obj
      checkProof obj
      let entries ← readEntries times obj
      if entries.any (namesRoom roomId) then
        throw (.listInvalid "a `subject` entry names the room itself")
      return { raw, roomId, sequence, entries }

end

def namesAnyone (list : RevocationList) : Bool := list.entries.any fun entry => entry.kind ≠ .room

/-- Whether a host holding `held` accepts the list; `digest` is the head digest of a list's raw form. -/
def accept (digest : Value → String) (list : RevocationList) (visibility : Visibility)
    (held : Option RevocationList) (now : DateTime) : Except ListRefusal Acceptance :=
  if visibility = .privateRoom ∧ list.namesAnyone then .error .entryNotPermitted
  else
    match held with
    | none => .ok .new
    | some held =>
      if list.sequence < held.sequence then .error (.stale held.sequence)
      else if list.sequence = held.sequence then
        if digest list.raw = digest held.raw then .ok .repeated else .error .sequenceConflict
      else if (held.entries.filter fun entry => entry.liveAt now).any fun entry => !list.entries.contains entry then
        .error .notAppendOnly
      else .ok .new

def revokes (list : RevocationList) (facts : CredentialFacts) : Bool :=
  list.entries.any fun entry => entry.matchesCredential facts

/-- Whether a private room's host refuses every presentation while it holds the list: it cannot see that none
predates a live `room` entry. -/
def barsPrivate (list : RevocationList) (now : DateTime) : Bool :=
  list.entries.any fun entry => entry.kind = .room ∧ entry.liveAt now

/-- Whether the list withdraws anything presented. A presentation without the membership its room discloses is
withdrawn by any entry. -/
def withdraws (list : RevocationList) (visibility : Visibility) (presented : Presented) (now : DateTime) : Bool :=
  if visibility = .privateRoom then list.barsPrivate now || presented.all.any list.revokes
  else if presented.membership.isNone then !list.entries.isEmpty
  else presented.all.any list.revokes

/-! ### What acceptance and withdrawal come to -/

/-- A list is new when its entries are ones the room may carry and it follows the held one: at a later sequence,
with every entry of it that is still live. -/
theorem accept_new_iff {digest : Value → String} {list : RevocationList} {visibility : Visibility}
    {held : Option RevocationList} {t : DateTime} :
    list.accept digest visibility held t = .ok .new ↔
      ¬ (visibility = .privateRoom ∧ list.namesAnyone = true) ∧
        ∀ h ∈ held, h.sequence < list.sequence ∧ ∀ entry ∈ h.entries, entry.liveAt t → entry ∈ list.entries := by
  unfold accept
  split
  · rename_i hbarred
    simp [hbarred]
  rename_i hpermitted
  rw [and_iff_right hpermitted]
  cases held with
  | none => simp
  | some =>
    simp only [Option.mem_some_iff, forall_eq']
    constructor
    · intro h
      split at h
      · cases h
      split at h
      · split at h <;> cases h
      split at h
      · cases h
      rename_i hstale hsame hdropped
      refine ⟨by omega, fun entry hentry hlive => ?_⟩
      by_contra hmissing
      refine hdropped (List.any_eq_true.mpr ⟨entry, List.mem_filter.mpr ⟨hentry, decide_eq_true hlive⟩, ?_⟩)
      simpa using hmissing
    · rintro ⟨hlater, hkept⟩
      rw [if_neg (by omega), if_neg (by omega), if_neg]
      intro hdropped
      obtain ⟨entry, hentry, hmissing⟩ := List.any_eq_true.mp hdropped
      obtain ⟨hheld, hlive⟩ := List.mem_filter.mp hentry
      have hin := hkept entry hheld (of_decide_eq_true hlive)
      simp [hin] at hmissing

theorem revokes_of_mem {list : RevocationList} {entry : Entry} {facts : CredentialFacts}
    (hentry : entry ∈ list.entries) (hmatches : entry.matchesCredential facts = true) : list.revokes facts = true :=
  List.any_eq_true.mpr ⟨entry, hentry, hmatches⟩

theorem withdraws_of_revokes {list : RevocationList} {facts : CredentialFacts} (hrevokes : list.revokes facts = true)
    {presented : Presented} (hcarried : facts ∈ presented.all) (visibility : Visibility) (now : DateTime) :
    list.withdraws visibility presented now = true := by
  have hany : presented.all.any list.revokes = true := List.any_eq_true.mpr ⟨facts, hcarried, hrevokes⟩
  unfold withdraws
  split
  · rw [hany, Bool.or_true]
  split
  · obtain ⟨entry, hentry, -⟩ := List.any_eq_true.mp hrevokes
    simp only [Bool.not_eq_true', List.isEmpty_eq_false_iff]
    exact List.ne_nil_of_mem hentry
  · exact hany

end RevocationList

/-- A whole second, `seconds` after the epoch. -/
def instant (seconds : Int) : DateTime := ⟨seconds, 0, .inl (by decide)⟩

end TrustInfrastructure.Rooms
