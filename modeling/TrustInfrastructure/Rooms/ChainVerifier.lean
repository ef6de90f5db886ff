import TrustInfrastructure.Rooms.Revocation
import TrustInfrastructure.Access.Checks

/-!
# A presentation to a room

Whoever acts on a room presents a membership credential and a chain of authority credentials, leaf first
(`AuthorityPresentation`). A host opens each one, which checks its proof against a key of its own issuer
(`openCredential`), asks the credential library whether the chain confers the action, and on a room that discloses
its members compares the membership's subject with the root's (`verify`).

What the library and the resolver do is assumed, as their documentation has it: `SignaturesSound` and
`VerifyChainSound`. The chain's own rule is about neighbours: a link lies within the terms of the one above it. That
every link carries the action and is valid now follows from the leaf upwards (`Within.carries`, `Within.validAt`), and
that every link descends from the one member the room granted to follows from the root downwards (`descends_of_links`).
-/

namespace TrustInfrastructure.Rooms

open Lib Access

inductive Action where
  | read
  | write
  | curate
  | admin
  deriving DecidableEq

def Action.asStr : Action → String
  | .read => "read"
  | .write => "write"
  | .curate => "curate"
  | .admin => "admin"

/-- The credential types a room's host tells apart. -/
inductive CredentialType where
  | membership
  | authority
  | other (name : String)
  deriving DecidableEq

structure DataIntegrityProof where
  proofPurpose : String
  verificationMethod : String
  proofValue : String
  deriving DecidableEq

/-- A credential, as it is read: `scope` and `actions` are an authority credential's claims. -/
structure Credential where
  id : Option String
  type : CredentialType
  issuer : String
  subject : String
  validFrom : DateTime
  validUntil : Option DateTime
  scope : String
  actions : List String
  proof : Option DataIntegrityProof
  deriving DecidableEq

structure AuthorityPresentation where
  membership : String
  authority : List String
  subjectBinding : Option String

/-- What `verify_chain` answers with. -/
structure VerifiedAuthority where
  subject : String
  actions : List String

structure VerifiedChain where
  subject : String
  actions : List String
  member : Option String
  presented : Presented
  validUntil : Option DateTime

/-- A refusal of the verifier; it has no other kind than `Forbidden`. -/
structure Forbidden where
  message : String
  deriving DecidableEq

/-- What a verifier is given: the readers and the checks of the credential library, a resolver of verification
methods and, for private rooms, a zero-knowledge profile. -/
structure Verifier (Key : Type) where
  base64url : String → Option (List UInt8)
  parse : List UInt8 → Except String Credential
  publicKey : String → Except AppError Key
  verifyProof : Credential → Key → Except String Unit
  verifyChain : List Credential → String → String → String → String → DateTime → Except String VerifiedAuthority
  verifySameSubject : Room → String → String → String → Except Forbidden Unit
  typeName : CredentialType → String

/-! ### Opening a credential -/

/-- Rust's `split_once`. -/
def splitOnce (c : Char) (text : List Char) : Option (List Char × List Char) :=
  match text.span (· ≠ c) with
  | (_, []) => none
  | (before, _ :: rest) => some (before, rest)

def checkIssuerBinding (method issuer : String) : Except AppError Unit :=
  match splitOnce '#' method.toList with
  | some (base, fragment) =>
    if fragment.isEmpty then
      .error (.validation "proof verificationMethod is not a DID URL naming a verification method")
    else if base = issuer.toList then .ok ()
    else .error (.validation "proof verificationMethod is not under the credential's issuer")
  | none => .error (.validation "proof verificationMethod is not a DID URL naming a verification method")

/-- `AppError`'s `to_string`. -/
def AppError.toText : AppError → String
  | .internal message => s!"internal error: {message}"
  | .notFound message => s!"not found: {message}"
  | .conflict message => s!"conflict: {message}"
  | .validation message => s!"validation error: {message}"

def credentialFacts (c : Credential) : CredentialFacts where
  id := c.id
  subject := c.subject
  issuer := c.issuer
  validFrom := some c.validFrom

/-- The first instant of a list, as `Iterator::min` finds it. -/
def earliest : List DateTime → Option DateTime
  | [] => none
  | t :: rest =>
    match earliest rest with
    | none => some t
    | some s => if s < t then some s else some t

def chainRefusal (roomId why : String) : Forbidden :=
  ⟨s!"the authority chain does not confer this on room `{roomId}`: {why}"⟩

namespace Verifier

variable {Key : Type} (v : Verifier Key)

def bytes (encoded : String) : Option (List UInt8) :=
  if (encoded.toList.dropWhile isWhiteSpace).head? = some '\x7b' then some encoded.toUTF8.toList
  else v.base64url (trim encoded)

def openCredential (encoded what : String) : Except AppError Credential := do
  let refused : AppError := .validation s!"{what} could not be verified"
  let bytes ← (v.bytes encoded).elim
    (.error (.validation
      s!"{what} is neither base64url nor JSON; a credential that cannot be read cannot be verified")) .ok
  let credential ← (v.parse bytes).mapError fun why => .validation s!"{what} is not a DTG credential: {why}"
  match credential.proof with
  | none => .error (.validation s!"{what} carries no proof")
  | some proof =>
    ensure (proof.proofPurpose = "assertionMethod") refused
    (checkIssuerBinding proof.verificationMethod credential.issuer).mapError fun _ => refused
    let key ← (v.publicKey proof.verificationMethod).mapError fun _ => refused
    (v.verifyProof credential key).mapError fun _ => refused
    return credential

/-- The verifier's own opener: whatever it refuses is `Forbidden`. -/
def openPresented (encoded what : String) : Except Forbidden Credential :=
  (v.openCredential encoded what).mapError fun e => ⟨e.toText⟩

def openAuthority (authority : List String) : Except Forbidden (List Credential) :=
  authority.zipIdx.mapM fun (encoded, index) => v.openPresented encoded s!"authority credential {index}"

def openMembership (room : Room) (encoded : String) (root : Credential) (now : DateTime) :
    Except Forbidden Credential := do
  let membership ← v.openPresented encoded "membership credential"
  ensure (membership.type = .membership)
    ⟨s!"the presented membership credential is a {v.typeName membership.type}, not a VMC"⟩
  ensure (membership.issuer = room.roomId)
    ⟨s!"the membership credential was issued by `{membership.issuer}`, not by room `{room.roomId}`"⟩
  ensure (¬(now < membership.validFrom ∨ ∃ u ∈ membership.validUntil, u < now))
    ⟨"the membership credential is not valid now"⟩
  ensure (membership.subject = root.subject)
    ⟨s!"the membership credential describes `{membership.subject}` but the authority chain descends from " ++
      s!"`{root.subject}`; two parties cannot pool credentials into one"⟩
  return membership

/-- The pooling defence: the membership of a room that discloses its members is compared with the chain, that of a
private room proved and not read. With it, the member. -/
def checkMembership (room : Room) (presentation : AuthorityPresentation) (chain : List Credential) (subject : String)
    (now : DateTime) : Except Forbidden (Option (String × Credential)) :=
  match room.visibility with
  | .privateRoom =>
    match presentation.subjectBinding with
    | none => .error ⟨"a private room requires a subject binding"⟩
    | some binding => (v.verifySameSubject room presentation.membership binding subject).map fun _ => none
  | .openRoom | .attributed =>
    match chain.getLast? with
    -- the source's `expect`: the library refuses an empty chain
    | none => .error ⟨"verify_chain rejects an empty chain"⟩
    | some root => (v.openMembership room presentation.membership root now).map fun membership =>
        some (root.subject, membership)

/-- `DtgChainVerifier::verify`, at one reading of the clock. -/
def verify (room : Room) (presentation : AuthorityPresentation) (action : Action) (presenter : String)
    (now : DateTime) : Except Forbidden VerifiedChain := do
  let chain ← v.openAuthority presentation.authority
  let verified ← (v.verifyChain chain room.roomId room.roomId action.asStr presenter now).mapError
    (chainRefusal room.roomId)
  let membership ← v.checkMembership room presentation chain verified.subject now
  return {
    subject := verified.subject
    actions := verified.actions
    member := membership.map (·.1)
    presented := ⟨membership.map fun m => credentialFacts m.2, chain.map credentialFacts⟩
    validUntil := earliest (chain.filterMap (·.validUntil) ++ (membership.bind (·.2.validUntil)).toList) }

end Verifier

/-! ### What is assumed of the library -/

def Credential.ValidAt (c : Credential) (now : DateTime) : Prop := c.validFrom ≤ now ∧ ∀ u ∈ c.validUntil, now ≤ u

/-- The terms of a link lie within those of the one above it. -/
structure Credential.Within (child parent : Credential) : Prop where
  scope : child.scope = parent.scope
  actions : child.actions ⊆ parent.actions
  start : parent.validFrom ≤ child.validFrom
  expiry : ∀ u ∈ parent.validUntil, ∃ u' ∈ child.validUntil, u' ≤ u

/-- A link and the one above it: it was issued by whom that one names, within its terms. -/
structure Credential.Attenuates (child parent : Credential) : Prop where
  issuer : child.issuer = parent.subject
  within : child.Within parent

structure Confers (chain : List Credential) (governing scope action presenter : String) (now : DateTime)
    (verified : VerifiedAuthority) : Prop where
  root : ∃ root ∈ chain.getLast?, root.issuer = governing
  leaf : ∃ leaf ∈ chain.head?, leaf.subject = presenter ∧ leaf.scope = scope ∧ action ∈ leaf.actions ∧
    leaf.ValidAt now ∧ verified.subject = leaf.subject ∧ verified.actions ⊆ leaf.actions
  links : chain.IsChain Credential.Attenuates
  authority : ∀ link ∈ chain, link.type = .authority

section
variable {Key : Type} (v : Verifier Key)

/-- `verify_chain` accepts only such chains. -/
def VerifyChainSound : Prop :=
  ∀ ⦃chain governing scope action presenter now verified⦄,
    v.verifyChain chain governing scope action presenter now = .ok verified →
      Confers chain governing scope action presenter now verified

def SignaturesSound (SignedBy : String → Credential → Prop) : Prop :=
  ∀ ⦃c did fragment method key⦄, method.toList = did.toList ++ '#' :: fragment → v.publicKey method = .ok key →
    v.verifyProof c key = .ok () → SignedBy did c

end

/-- The credential's authority comes from the room's grant to the member: it is that grant, or was issued, within its
terms, by whom a credential that does names. -/
inductive Descends (roomId member : String) : Credential → Prop where
  | root {c : Credential} (hissuer : c.issuer = roomId) (hsubject : c.subject = member) : Descends roomId member c
  | link {c parent : Credential} (hparent : Descends roomId member parent) (hlink : c.Attenuates parent) :
    Descends roomId member c

/-- An expiry is no later than an instant. -/
def NoLater (validUntil : Option DateTime) (t : DateTime) : Prop := ∃ u ∈ validUntil, u ≤ t

structure RestsOn (SignedBy : String → Credential → Prop) (room : Room) (action : Action) (presenter member : String)
    (now : DateTime) (membership : Credential) (chain : List Credential) : Prop where
  membership : membership.type = .membership ∧ membership.issuer = room.roomId ∧ membership.subject = member ∧
    SignedBy room.roomId membership ∧ membership.ValidAt now
  root : ∃ root ∈ chain.getLast?, root.issuer = room.roomId ∧ root.subject = member
  leaf : ∃ leaf ∈ chain.head?, leaf.subject = presenter
  links : chain.IsChain Credential.Attenuates
  each : ∀ link ∈ chain, SignedBy link.issuer link ∧ action.asStr ∈ link.actions ∧ link.ValidAt now ∧
    Descends room.roomId member link

/-- What was answered stays within the terms of every credential. -/
structure VerifiedChain.Bounded (verified : VerifiedChain) (chain credentials : List Credential) : Prop where
  actions : ∀ link ∈ chain, verified.actions ⊆ link.actions
  expiry : ∀ c ∈ credentials, ∀ u ∈ c.validUntil, NoLater verified.validUntil u

/-! ### Opened credentials -/

theorem splitOnce_eq_some {c : Char} {text before rest : List Char} (h : splitOnce c text = some (before, rest)) :
    text = before ++ c :: rest := by
  unfold splitOnce at h
  split at h
  · cases h
  · rename_i before' c' rest' hspan
    cases h
    rw [List.span_eq_takeWhile_dropWhile, Prod.mk.injEq] at hspan
    have hc : c' = c := by
      have hhead := List.head?_dropWhile_not (fun x => decide (x ≠ c)) text
      rw [hspan.2] at hhead
      simpa using hhead
    rw [← hc, ← hspan.1, ← hspan.2, List.takeWhile_append_dropWhile]

theorem checkIssuerBinding_eq_ok {method issuer : String} (h : checkIssuerBinding method issuer = .ok ()) :
    ∃ fragment, method.toList = issuer.toList ++ '#' :: fragment := by
  unfold checkIssuerBinding at h
  split at h
  · rename_i base fragment hsplit
    split at h
    · cases h
    split at h
    · rename_i hbase
      exact ⟨fragment, hbase ▸ splitOnce_eq_some hsplit⟩
    · cases h
  · cases h

theorem earliest_noLater {ts : List DateTime} {t : DateTime} (ht : t ∈ ts) : NoLater (earliest ts) t := by
  induction ts with
  | nil => cases ht
  | cons s _ ih =>
    unfold earliest
    rcases List.mem_cons.mp ht with rfl | ht
    · split
      · exact ⟨t, rfl, DateTime.le_def.mpr (by omega)⟩
      split
      · rename_i s' _ hlt
        exact ⟨s', rfl, DateTime.le_of_lt hlt⟩
      · exact ⟨t, rfl, DateTime.le_def.mpr (by omega)⟩
    · obtain ⟨u, hu, hle⟩ := ih ht
      rw [Option.mem_def.mp hu]
      dsimp only
      split
      · exact ⟨u, rfl, hle⟩
      · rename_i hlt
        exact ⟨s, rfl, DateTime.le_trans (DateTime.le_of_not_lt hlt) hle⟩

namespace Verifier

variable {Key : Type} {v : Verifier Key} {SignedBy : String → Credential → Prop} {room : Room} {now : DateTime}
  {presentation : AuthorityPresentation} {action : Action} {presenter : String} {answer : VerifiedChain}

structure Opens (v : Verifier Key) (encoded : String) (c : Credential) : Prop where
  read : ∃ bytes, v.bytes encoded = some bytes ∧ v.parse bytes = .ok c
  proof : ∃ proof key, c.proof = some proof ∧ checkIssuerBinding proof.verificationMethod c.issuer = .ok () ∧
    v.publicKey proof.verificationMethod = .ok key ∧ v.verifyProof c key = .ok ()

theorem opens_of_openPresented {encoded what : String} {c : Credential} (h : v.openPresented encoded what = .ok c) :
    v.Opens encoded c := by
  rw [openPresented, mapError_eq_ok, openCredential] at h
  obtain ⟨bytes, hbytes, h⟩ := bind_eq_ok.mp h
  obtain ⟨c', hparse, h⟩ := bind_eq_ok.mp h
  split at h
  · cases h
  rename_i proof hproof
  obtain ⟨_, _, h⟩ := bind_eq_ok.mp h
  obtain ⟨_, hbound, h⟩ := bind_eq_ok.mp h
  obtain ⟨key, hkey, h⟩ := bind_eq_ok.mp h
  obtain ⟨_, hverified, h⟩ := bind_eq_ok.mp h
  cases h
  refine ⟨⟨bytes, ?_, mapError_eq_ok.mp hparse⟩, proof, key, hproof, mapError_eq_ok.mp hbound, mapError_eq_ok.mp hkey,
    mapError_eq_ok.mp hverified⟩
  cases hread : v.bytes encoded with
  | none =>
    rw [hread] at hbytes
    cases hbytes
  | some =>
    rw [hread] at hbytes
    cases hbytes
    rfl

theorem Opens.unique {encoded : String} {c c' : Credential} (h : v.Opens encoded c) (h' : v.Opens encoded c') :
    c = c' := by
  obtain ⟨bytes, hbytes, hparse⟩ := h.read
  obtain ⟨bytes', hbytes', hparse'⟩ := h'.read
  cases hbytes.symm.trans hbytes'
  exact Except.ok.inj (hparse.symm.trans hparse')

theorem Opens.signedBy {encoded : String} {c : Credential} (h : v.Opens encoded c)
    (hsigned : SignaturesSound v SignedBy) : SignedBy c.issuer c := by
  obtain ⟨proof, key, _, hbound, hkey, hverified⟩ := h.proof
  obtain ⟨fragment, hmethod⟩ := checkIssuerBinding_eq_ok hbound
  exact hsigned hmethod hkey hverified

theorem opens_of_openAuthority {authority : List String} {chain : List Credential}
    (h : v.openAuthority authority = .ok chain) : List.Forall₂ v.Opens authority chain := by
  have hopened := forall₂_of_mapM h
  have hopens : List.Forall₂ (fun (encoded : String × Nat) c => v.Opens encoded.1 c) authority.zipIdx chain :=
    hopened.imp fun _ _ => opens_of_openPresented
  rw [← List.forall₂_map_left_iff (f := Prod.fst), List.zipIdx_map_fst] at hopens
  exact hopens

theorem membership_of_openMembership {encoded : String} {root membership : Credential}
    (h : v.openMembership room encoded root now = .ok membership) :
    v.Opens encoded membership ∧ membership.type = .membership ∧ membership.issuer = room.roomId ∧
      membership.ValidAt now ∧ membership.subject = root.subject := by
  rw [openMembership] at h
  obtain ⟨c, hopen, h⟩ := bind_eq_ok.mp h
  obtain ⟨_, htype, h⟩ := bind_eq_ok.mp h
  obtain ⟨_, hissuer, h⟩ := bind_eq_ok.mp h
  obtain ⟨_, hwindow, h⟩ := bind_eq_ok.mp h
  obtain ⟨_, hsubject, h⟩ := bind_eq_ok.mp h
  cases h
  rw [ensure_eq_ok] at htype hissuer hwindow hsubject
  rw [not_or] at hwindow
  refine ⟨opens_of_openPresented hopen, htype, hissuer, ⟨DateTime.le_of_not_lt hwindow.1, fun u hu => ?_⟩, hsubject⟩
  exact DateTime.le_of_not_lt fun hlt => hwindow.2 ⟨u, hu, hlt⟩

/-- An access to a room that discloses its members, taken apart. -/
theorem verify_eq_ok (hroom : room.visibility ≠ .privateRoom)
    (h : v.verify room presentation action presenter now = .ok answer) :
    ∃ chain root membership verified, v.openAuthority presentation.authority = .ok chain ∧
      v.verifyChain chain room.roomId room.roomId action.asStr presenter now = .ok verified ∧
      chain.getLast? = some root ∧ v.openMembership room presentation.membership root now = .ok membership ∧
      answer = ⟨verified.subject, verified.actions, some root.subject,
        ⟨some (credentialFacts membership), chain.map credentialFacts⟩,
        earliest (chain.filterMap (·.validUntil) ++ membership.validUntil.toList)⟩ := by
  rw [verify] at h
  obtain ⟨chain, hchain, h⟩ := bind_eq_ok.mp h
  obtain ⟨verified, hverified, h⟩ := bind_eq_ok.mp h
  obtain ⟨membership?, hmembership, h⟩ := bind_eq_ok.mp h
  have hdisclosed : ∃ root membership, chain.getLast? = some root ∧
      v.openMembership room presentation.membership root now = .ok membership ∧
        membership? = some (root.subject, membership) := by
    unfold checkMembership at hmembership
    split at hmembership
    · exact absurd ‹_› hroom
    all_goals
      split at hmembership
      · cases hmembership
      · rename_i root hroot
        obtain ⟨membership, hopen, heq⟩ := map_eq_ok.mp hmembership
        exact ⟨root, membership, hroot, hopen, heq.symm⟩
  obtain ⟨root, membership, hroot, hopen, rfl⟩ := hdisclosed
  cases h
  exact ⟨chain, root, membership, verified, hchain, mapError_eq_ok.mp hverified, hroot, hopen, rfl⟩

theorem verify_subjectBinding (hroom : room.visibility ≠ .privateRoom) (binding : Option String) :
    v.verify room { presentation with subjectBinding := binding } action presenter now =
      v.verify room presentation action presenter now := by
  unfold verify checkMembership
  cases hvisibility : room.visibility with
  | privateRoom => exact absurd hvisibility hroom
  | openRoom => rfl
  | attributed => rfl

end Verifier

/-! ### Along the chain -/

namespace Credential.Within

variable {c parent grand : Credential} {now : DateTime}

theorem refl (c : Credential) : c.Within c :=
  ⟨rfl, fun _ h => h, DateTime.le_def.mpr (by omega), fun u hu => ⟨u, hu, DateTime.le_def.mpr (by omega)⟩⟩

theorem trans (h : c.Within parent) (h' : parent.Within grand) : c.Within grand where
  scope := h.scope.trans h'.scope
  actions := fun _ ha => h'.actions (h.actions ha)
  start := DateTime.le_trans h'.start h.start
  expiry u hu := by
    obtain ⟨u', hu', hle⟩ := h'.expiry u hu
    obtain ⟨u'', hu'', hle'⟩ := h.expiry u' hu'
    exact ⟨u'', hu'', DateTime.le_trans hle' hle⟩

/-- What lies within a credential is in its window only when the credential is. -/
theorem validAt (h : c.Within parent) (hvalid : c.ValidAt now) : parent.ValidAt now := by
  refine ⟨DateTime.le_trans h.start hvalid.1, fun u hu => ?_⟩
  obtain ⟨u', hu', hle⟩ := h.expiry u hu
  exact DateTime.le_trans (hvalid.2 u' hu') hle

end Credential.Within

/-- From the leaf up, the terms only get wider. -/
theorem within_of_links {leaf link : Credential} {rest : List Credential}
    (hlinks : (leaf :: rest).IsChain Credential.Attenuates) (hlink : link ∈ leaf :: rest) : leaf.Within link := by
  induction rest generalizing leaf with
  | nil =>
    cases List.mem_singleton.mp hlink
    exact .refl _
  | cons _ _ ih =>
    rw [List.isChain_cons_cons] at hlinks
    rcases List.mem_cons.mp hlink with rfl | hlink
    · exact .refl link
    · exact hlinks.1.within.trans (ih hlinks.2 hlink)

theorem descends_of_links {roomId : String} {chain : List Credential} {root : Credential}
    (hlinks : chain.IsChain Credential.Attenuates) (hroot : chain.getLast? = some root)
    (hissuer : root.issuer = roomId) {link : Credential} (hlink : link ∈ chain) :
    Descends roomId root.subject link := by
  induction chain generalizing link with
  | nil => cases hlink
  | cons _ rest ih =>
    cases rest with
    | nil =>
      cases List.mem_singleton.mp hlink
      cases hroot
      exact .root hissuer rfl
    | cons =>
      rw [List.isChain_cons_cons] at hlinks
      rw [List.getLast?_cons_cons] at hroot
      rcases List.mem_cons.mp hlink with rfl | hlink
      · exact .link (ih hlinks.2 hroot List.mem_cons_self) hlinks.1
      · exact ih hlinks.2 hroot hlink

section
variable {Key : Type} {v : Verifier Key} {SignedBy : String → Credential → Prop} {room : Room} {now : DateTime}
  {presentation : AuthorityPresentation} {action : Action} {presenter : String} {answer : VerifiedChain}

theorem exists_restsOn (hchain : VerifyChainSound v) (hsigned : SignaturesSound v SignedBy)
    (hroom : room.visibility ≠ .privateRoom) (h : v.verify room presentation action presenter now = .ok answer) :
    ∃ member membership chain, v.Opens presentation.membership membership ∧
      List.Forall₂ v.Opens presentation.authority chain ∧
      RestsOn SignedBy room action presenter member now membership chain ∧
      answer.member = some member ∧ answer.subject = presenter ∧ answer.Bounded chain (membership :: chain) := by
  obtain ⟨chain, root, membership, verified, hopened, hverified, hroot, hmembership, rfl⟩ :=
    Verifier.verify_eq_ok hroom h
  obtain ⟨⟨root', hroot', hissuer⟩, ⟨leaf, hleaf, hpresenter, _, haction, hvalid, hsubject, hactions⟩, hlinks, _⟩ :=
    hchain hverified
  cases hroot.symm.trans (Option.mem_def.mp hroot')
  obtain ⟨hopens, htype, hmissuer, hmvalid, hmsubject⟩ := Verifier.membership_of_openMembership hmembership
  have hchainOpens := Verifier.opens_of_openAuthority hopened
  have hwithin : ∀ link ∈ chain, leaf.Within link := by
    intro link hlink
    obtain ⟨rest, rfl⟩ : ∃ rest, chain = leaf :: rest := List.head?_eq_some_iff.mp hleaf
    exact within_of_links hlinks hlink
  refine ⟨root.subject, membership, chain, hopens, hchainOpens, ?_, rfl, hsubject.trans hpresenter,
    fun link hlink a ha => (hwithin link hlink).actions (hactions ha), fun c hc u hu => earliest_noLater ?_⟩
  · refine ⟨⟨htype, hmissuer, hmsubject, hmissuer ▸ hopens.signedBy hsigned, hmvalid⟩, ⟨root, hroot', hissuer, rfl⟩,
      ⟨leaf, hleaf, hpresenter⟩, hlinks, fun link hlink => ?_⟩
    obtain ⟨encoded, _, hlinkOpens⟩ := exists_of_mem_forall₂ hchainOpens hlink
    exact ⟨hlinkOpens.signedBy hsigned, (hwithin link hlink).actions haction, (hwithin link hlink).validAt hvalid,
      descends_of_links hlinks hroot hissuer hlink⟩
  · rcases List.mem_cons.mp hc with rfl | hc
    · exact List.mem_append_right _ (Option.mem_toList.mpr hu)
    · exact List.mem_append_left _ (List.mem_filterMap.mpr ⟨c, hc, hu⟩)

/-- Whoever a room that discloses its members lets in stands on one member's unbroken chain, within the terms of every
credential of it; nothing else presented plays a part, and a presentation of more credentials is bounded by these. -/
theorem access_rests_on_one_member (hchain : VerifyChainSound v) (hsigned : SignaturesSound v SignedBy)
    (hroom : room.visibility ≠ .privateRoom) (h : v.verify room presentation action presenter now = .ok answer) :
    ∃ member membership chain, v.Opens presentation.membership membership ∧
      List.Forall₂ v.Opens presentation.authority chain ∧
      RestsOn SignedBy room action presenter member now membership chain ∧
      answer.member = some member ∧ answer.subject = presenter ∧ answer.Bounded chain (membership :: chain) ∧
      (∀ binding, v.verify room { presentation with subjectBinding := binding } action presenter now = .ok answer) ∧
      ∀ more action' presenter' now' answer', presentation.authority ⊆ more.authority →
        v.verify room more action' presenter' now' = .ok answer' → answer'.Bounded chain chain := by
  obtain ⟨member, membership, chain, hopens, hchainOpens, hrests, hmember, hsubject, hbounded⟩ :=
    exists_restsOn hchain hsigned hroom h
  refine ⟨member, membership, chain, hopens, hchainOpens, hrests, hmember, hsubject, hbounded,
    fun binding => (Verifier.verify_subjectBinding hroom binding).trans h, fun more _ _ _ _ hmore h' => ?_⟩
  obtain ⟨_, membership', chain', _, hchainOpens', _, _, _, hbounded'⟩ := exists_restsOn hchain hsigned hroom h'
  -- a credential presented twice opens as the same one
  have hsub : ∀ link ∈ chain, link ∈ chain' := by
    intro link hlink
    obtain ⟨encoded, hencoded, hlinkOpens⟩ := exists_of_mem_forall₂ hchainOpens hlink
    obtain ⟨link', hlink', hlinkOpens'⟩ := exists_of_mem_forall₂ hchainOpens'.flip (hmore hencoded)
    exact hlinkOpens.unique hlinkOpens' ▸ hlink'
  exact ⟨fun link hlink => hbounded'.actions link (hsub link hlink),
    fun c hc => hbounded'.expiry c (List.mem_cons_of_mem _ (hsub c hc))⟩

end

/-! ### A member's agent -/

section

private def agentCredential (type : CredentialType) (issuer subject : String) (untilAt : Int) (actions : List String) :
    Credential where
  id := none
  type := type
  issuer := issuer
  subject := subject
  validFrom := instant 0
  validUntil := some (instant untilAt)
  scope := "did:room"
  actions := actions
  proof := some ⟨"assertionMethod", issuer ++ "#key-0", ""⟩

private def aliceMembership : Credential := agentCredential .membership "did:room" "did:alice" 100 []

private def aliceGrant : Credential := agentCredential .authority "did:room" "did:alice" 90 ["read", "write"]

private def agentGrant : Credential := agentCredential .authority "did:alice" "did:agent" 80 ["read"]

private def agentVerifier : Verifier String where
  base64url text := if text = "membership" then some [0] else if text = "grant" then some [1] else some [2]
  parse bytes := if bytes = [0] then .ok aliceMembership else if bytes = [1] then .ok aliceGrant else .ok agentGrant
  publicKey method := .ok method
  verifyProof c key := ensure (c.proof.map (·.verificationMethod) = some key) "signature does not verify"
  verifyChain chain governing scope action presenter now :=
    if chain = [agentGrant, aliceGrant] ∧ governing = "did:room" ∧ scope = "did:room" ∧ action = "read" ∧
      presenter = "did:agent" ∧ now = instant 50 then .ok ⟨"did:agent", ["read"]⟩ else .error "not conferred"
  verifySameSubject _ _ _ _ := .error ⟨"no profile"⟩
  typeName _ := ""

private def SignedUnder (did : String) (c : Credential) : Prop :=
  ∃ fragment method, c.proof.map (·.verificationMethod) = some method ∧ method.toList = did.toList ++ '#' :: fragment

private theorem signaturesSound_agentVerifier : SignaturesSound agentVerifier SignedUnder := by
  intro c did fragment method key hmethod hkey hverified
  cases hkey
  exact ⟨fragment, method, ensure_eq_ok.mp hverified, hmethod⟩

private theorem verifyChainSound_agentVerifier : VerifyChainSound agentVerifier := by
  intro chain governing scope action presenter now verified h
  simp only [agentVerifier] at h
  split at h
  · rename_i hargs
    obtain ⟨rfl, rfl, rfl, rfl, rfl, rfl⟩ := hargs
    cases h
    refine ⟨⟨aliceGrant, rfl, rfl⟩, ⟨agentGrant, rfl, rfl, rfl, by decide, ⟨by decide, ?_⟩, rfl, by decide⟩, ?_, ?_⟩
    · intro u hu
      cases hu
      decide
    · refine List.isChain_pair.mpr ⟨rfl, rfl, by decide, by decide, fun u hu => ⟨instant 80, rfl, ?_⟩⟩
      cases hu
      decide
    · intro link hlink
      rcases List.mem_pair.mp hlink with rfl | rfl <;> rfl
  · cases h

private def agentRoom : Room where
  roomId := "did:room"
  ownerDid := "did:owner"
  visibility := .attributed
  anchorCadence := .never
  retentionPolicy := .chained
  epoch := 1
  nextVersion := 1
  retentionDays := 90
  epochExpiresAt := none
  mirrorOf := none
  recordRetention := none
  lastPrune := none
  epochFloor := none
  frozenAt := none
  createdAt := 0
  updatedAt := 0

/-- A member's agent is let in on the member's chain, no longer than its own grant lasts. -/
theorem access_rests_on_one_member_agent :
    ∃ answer, agentVerifier.verify agentRoom ⟨"membership", ["agent", "grant"], none⟩ .read "did:agent" (instant 50) =
        .ok answer ∧ answer.validUntil = some (instant 80) ∧ ∃ member membership chain,
      RestsOn SignedUnder agentRoom .read "did:agent" member (instant 50) membership chain ∧
        answer.member = some member := by
  have hverify : agentVerifier.verify agentRoom ⟨"membership", ["agent", "grant"], none⟩ .read "did:agent"
      (instant 50) = .ok ⟨"did:agent", ["read"], some "did:alice", ⟨some (credentialFacts aliceMembership),
        [credentialFacts agentGrant, credentialFacts aliceGrant]⟩, some (instant 80)⟩ := by
    rfl
  obtain ⟨member, membership, chain, _, _, hrests, hmember, _⟩ :=
    access_rests_on_one_member verifyChainSound_agentVerifier signaturesSound_agentVerifier (by decide) hverify
  exact ⟨_, hverify, rfl, member, membership, chain, hrests, hmember⟩

end

end TrustInfrastructure.Rooms
