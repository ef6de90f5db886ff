import TrustInfrastructure.Lib.Json
import TrustInfrastructure.Lib.Run

/-!
# A member departs

`depart` writes to a dozen stores one after another and may end before any of them, because a write fails or the
process does. An `Attempt` brings what its reads answer and how many of its writes are made, so every moment of a
departure is the end of some attempt, and a history is a list of attempts.

The revocation slot is read from the member's row first and used last. A row that is kept still names it; a purge
deletes the row long before the bit is set.
-/

namespace TrustInfrastructure.Community

open Lib

inductive Disposition where
  | purge | tombstone | historical
  deriving DecidableEq

def parseDisposition (disposition : Option String) : Disposition :=
  if disposition = some "purge" then .purge
  else if disposition = some "historical" then .historical
  else .tombstone

structure Member where
  did : String
  joinedAt : Nat
  statusListIndex : Option Nat := none
  publishConsent : Bool := false
  /-- `none` leaves it to the policy. -/
  departurePreference : Option Disposition := none
  currentVmcId : Option String := none
  currentVmc : Option Value := none
  currentRoleVacId : Option String := none
  currentRoleVac : Option Value := none
  extensions : Value := .null
  removedAt : Option Nat := none
  personhood : Bool := false
  personhoodAssertedAt : Option Nat := none
  reciprocalVcId : Option String := none
  acceptedAt : Option Nat := none
  joinedViaInvitation : Bool := false
  memberVmc : Option Value := none
  memberVmcId : Option String := none
  memberVmcReceivedAt : Option Nat := none
  memberVmcBound : Bool := false

def Member.tombstone (now : Nat) (member : Member) : Member :=
  { member with
    publishConsent := false, departurePreference := none, currentVmcId := none, currentVmc := none
    currentRoleVacId := none, currentRoleVac := none, extensions := .null, removedAt := some now
    personhood := false, personhoodAssertedAt := none, reciprocalVcId := none, acceptedAt := none
    memberVmc := none, memberVmcId := none, memberVmcReceivedAt := none, memberVmcBound := false }

def Member.markHistorical (now : Nat) (member : Member) : Member := { member with removedAt := some now }

/-- The writes of a departure, each to a store of its own. -/
inductive Write where
  | withdrawExternal (entry : String) | deleteAclEntry | roomsDeparture (left : Bool)
  | clearDelegation | granterChanged
  | deleteMember | releasePseudonym | tombstone | markHistorical
  | groups (entry : String) | boards (entry : String) (erase : Bool) | badges (entry : String)
  | revokeBadges (entry : String) | eraseNotesBy (entry : String) | notes (entry : String) (erase : Bool)
  | cards (keep : Bool) | flipRevocation (slot : Nat) | revokeVetter

/-- What the community holds about one DID, the slots revoked, and the writes made to the stores not looked into. -/
structure Standing where
  aclEntry : Bool
  member : Option Member
  revoked : List Nat := []
  others : List Write := []

def Write.apply (now : Nat) (s : Standing) : Write → Standing
  | .deleteAclEntry => { s with aclEntry := false }
  | .deleteMember => { s with member := none }
  | .tombstone => { s with member := s.member.map (Member.tombstone now) }
  | .markHistorical => { s with member := s.member.map (Member.markHistorical now) }
  | .flipRevocation slot => { s with revoked := slot :: s.revoked }
  | write => { s with others := s.others ++ [write] }

structure Attempt where
  disposition : Option String
  /-- The member leaves, rather than being removed. -/
  left : Bool
  /-- The entry is a role assigner's whom the community cannot spare. -/
  attrition : Bool := false
  /-- The member's directory entry, as it is read before the first write and after the member's row changed. -/
  external : Option String
  entry : Option String
  now : Nat
  /-- How many writes are made. -/
  made : Nat
  /-- The status list takes the flip; the departure goes on if it does not. -/
  flips : Bool := true

/-- All that comes before the revocation. -/
def Attempt.settling (attempt : Attempt) (member : Option Member) : List Write :=
  let disposition := parseDisposition attempt.disposition
  let erase := decide (disposition = .purge)
  (attempt.external.map Write.withdrawExternal).toList ++
    [.deleteAclEntry, .roomsDeparture attempt.left, .clearDelegation, .granterChanged] ++
    (match disposition, member with
      | .purge, _ => [.deleteMember, .releasePseudonym]
      | .tombstone, some _ => [.tombstone]
      | .historical, some _ => [.markHistorical]
      | _, none => []) ++
    (match attempt.entry with
      | none => []
      | some entry => [.groups entry, .boards entry erase, .badges entry, .revokeBadges entry] ++
        (if erase then [.eraseNotesBy entry] else []) ++ [.notes entry erase]) ++
    [.cards (decide (disposition = .historical))]

def Attempt.writes (attempt : Attempt) (member : Option Member) : List Write :=
  let slot := member.bind (·.statusListIndex)
  attempt.settling member ++ ((if attempt.flips then slot else none).map Write.flipRevocation).toList ++ [.revokeVetter]

def depart (s : Standing) (attempt : Attempt) : Standing :=
  if s.aclEntry && attempt.attrition then s
  else run (Write.apply attempt.now) s ((attempt.writes s.member).take attempt.made)

/-! ### The slot -/

/-- The bit is set, or the member's row names the slot. -/
def Standing.Traced (slot : Nat) (s : Standing) : Prop :=
  slot ∈ s.revoked ∨ ∃ member, s.member = some member ∧ member.statusListIndex = some slot

/-- The attempt does not purge a row before the bit is set. -/
def Careful (slot : Nat) (s : Standing) (attempt : Attempt) : Prop :=
  parseDisposition attempt.disposition ≠ .purge ∨ slot ∈ s.revoked

/-- The attempt is not refused, and makes all its writes and the flip with them. -/
def Attempt.Completes (attempt : Attempt) (s : Standing) : Prop :=
  (s.aclEntry && attempt.attrition) = false ∧ (attempt.writes s.member).length ≤ attempt.made ∧ attempt.flips = true

section
variable {slot now : Nat} {s : Standing} {attempt : Attempt}

theorem revoked_apply (write : Write) (h : slot ∈ s.revoked) : slot ∈ (write.apply now s).revoked := by
  cases write with
  | flipRevocation other => exact List.mem_cons_of_mem other h
  | _ => exact h

theorem revoked_run (writes : List Write) (h : slot ∈ s.revoked) : slot ∈ (run (Write.apply now) s writes).revoked := by
  induction writes generalizing s with
  | nil => exact h
  | cons write _ ih => exact ih (revoked_apply write h)

theorem traced_apply {write : Write} (hwrite : write ≠ .deleteMember) (h : s.Traced slot) :
    (write.apply now s).Traced slot := by
  rcases h with hset | ⟨member, hmember, hslot⟩
  · exact .inl (revoked_apply write hset)
  right
  cases write with
  | deleteMember => exact absurd rfl hwrite
  | tombstone => exact ⟨member.tombstone now, by rw [Write.apply, hmember]; rfl, hslot⟩
  | markHistorical => exact ⟨member.markHistorical now, by rw [Write.apply, hmember]; rfl, hslot⟩
  | _ => exact ⟨member, hmember, hslot⟩

theorem deleteMember_notMem (h : parseDisposition attempt.disposition ≠ .purge) (member : Option Member) :
    Write.deleteMember ∉ attempt.writes member := by
  cases hdisposition : parseDisposition attempt.disposition with
  | purge => exact absurd hdisposition h
  | tombstone | historical =>
    cases member <;> cases hentry : attempt.entry <;>
      simp [Attempt.writes, Attempt.settling, hdisposition, hentry]

/-- One attempt, wherever it ends. -/
theorem depart_traced (h : s.Traced slot) (hcareful : Careful slot s attempt) : (depart s attempt).Traced slot := by
  rw [depart]
  split
  · exact h
  rcases hcareful with hkept | hset
  · refine run_induction (P := fun _ write => write ≠ .deleteMember) h ?_ fun _ _ h hwrite => traced_apply hwrite h
    refine along_of_forall fun write hmem _ heq => ?_
    exact deleteMember_notMem hkept s.member (heq ▸ List.mem_of_mem_take hmem)
  · exact .inl (revoked_run _ hset)

theorem depart_completes (h : s.Traced slot) (hcompletes : attempt.Completes s) :
    slot ∈ (depart s attempt).revoked := by
  obtain ⟨hallowed, hmade, hflips⟩ := hcompletes
  rw [depart, hallowed, if_neg Bool.false_ne_true, List.take_of_length_le hmade]
  rcases h with hset | ⟨member, hmember, hslot⟩
  · exact revoked_run _ hset
  · rw [Attempt.writes, hflips, hmember, Option.bind_some, hslot, run_append, run_append]
    exact List.mem_cons_self

end

/-- **The slot is not lost.** In every history of attempts of which none purges a row whose slot is not yet revoked,
wherever each of them ends: the bit is set, or the member's row names the slot; and the next attempt that completes
sets it. -/
theorem departures_keep_slot (s : Standing) (slot : Nat) (attempts : List Attempt) (member : Member)
    (hmember : s.member = some member) (hslot : member.statusListIndex = some slot)
    (hcareful : Along depart (Careful slot) s attempts) :
    let later := run depart s attempts
    (slot ∈ later.revoked ∨ ∃ member, later.member = some member ∧ member.statusListIndex = some slot) ∧
      ∀ attempt : Attempt, attempt.Completes later → slot ∈ (depart later attempt).revoked := by
  have htraced : (run depart s attempts).Traced slot :=
    run_induction (.inr ⟨member, hmember, hslot⟩) hcareful fun _ _ h hcareful => depart_traced h hcareful
  exact ⟨htraced, fun attempt hcompletes => depart_completes htraced hcompletes⟩

def ada : Standing where
  aclEntry := true
  member := some { did := "did:key:ada", joinedAt := 0, statusListIndex := some 7 }

/-- A departure with a directory entry, of which `made` writes are made. -/
def interrupted (disposition : String) (made : Nat) : Attempt where
  disposition := some disposition
  left := true
  external := none
  entry := some "entry-1"
  now := 10
  made := made

theorem departures_keep_slot_ada :
    7 ∈ (depart (run depart ada [interrupted "historical" 2, interrupted "tombstone" 6])
      (interrupted "tombstone" 20)).revoked :=
  (departures_keep_slot ada 7 [interrupted "historical" 2, interrupted "tombstone" 6] _ rfl rfl
    ⟨.inl (by decide), .inl (by decide), trivial⟩).2 _ ⟨rfl, by decide, rfl⟩

/-- The groups' store fails in a purge: the row is gone, the bit is not set, and another departure does not set it. -/
theorem purged_unrevoked :
    let later := depart ada (interrupted "purge" 6)
    later.aclEntry = false ∧ later.member.isNone ∧ later.revoked = [] ∧
      (depart later (interrupted "purge" 20)).revoked = [] :=
  ⟨rfl, rfl, rfl, rfl⟩

end TrustInfrastructure.Community
