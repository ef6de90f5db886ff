import TrustInfrastructure.Lib.Frame
import TrustInfrastructure.Rooms.Paging

/-!
# One room's keys and another's

Room identifiers are DIDs and contain `:`, and one may extend another. A row's key therefore names its room with
the length of the name in front, and `roomScope_inj` is why that is enough: the digits end at the first `:`, the
name is then read off by count, so a scope at the front of a key is the scope of that key's room.

So no two rooms share a key of any kind, and every scan of a room stays inside it. The operations that scan are
then confined to their room (`Program.Confined`): the listings and the prune of `Rooms.Operations` and
`Rooms.Paging`, over the decoded rows, and here `commits_since` and `purge_room_rows`, over the rows as the store
has them. Links and commits share a keyspace and differ in the scope they are under.
-/

namespace TrustInfrastructure.Rooms

open Lib
open Std (ExtTreeMap)

variable {scope roomId roomId' key : String}

/-! ### Keys -/

def epochLinkKey (roomId : String) (epoch : Nat) : String := epochLinkScope roomId ++ padded epoch

def commitScope (roomId : String) : String := roomScope "room-commit/v2:" roomId

def commitKey (roomId : String) (epoch : Nat) : String := commitScope roomId ++ padded epoch

def revocationKey (roomId : String) : String := "room_revocations:" ++ roomId

theorem append_injective (h : scope ++ roomId = scope ++ roomId') : roomId = roomId' := by
  have hlist := congrArg String.toList h
  rw [String.toList_append, String.toList_append] at hlist
  exact String.toList_inj.mp (List.append_cancel_left hlist)

theorem roomKey_injective (h : roomKey roomId = roomKey roomId') : roomId = roomId' :=
  append_injective h

theorem revocationKey_injective (h : revocationKey roomId = revocationKey roomId') : roomId = roomId' :=
  append_injective h

section
variable {scope roomId roomId' rest rest' : String}

theorem toList_roomScope : (roomScope scope roomId ++ rest).toList =
    scope.toList ++ ((toString roomId.utf8ByteSize).toList ++ ':' :: (roomId.toList ++ ':' :: rest.toList)) := by
  simp only [roomScope, String.toList_append, List.append_assoc]
  rfl

/-- **A room's scope is at the front of no other room's key.** -/
theorem roomScope_inj (h : inScope (roomScope scope roomId) (roomScope scope roomId' ++ rest) = true) :
    roomId = roomId' := by
  have hfront := List.isPrefixOf_iff_prefix.mp h
  rw [← @String.append_empty (roomScope scope roomId), toList_roomScope, toList_roomScope,
    List.prefix_append_right_inj] at hfront
  exact (eq_of_sized hfront).1

theorem roomScope_append_inj (h : roomScope scope roomId ++ rest = roomScope scope roomId' ++ rest') :
    roomId = roomId' ∧ rest = rest' := by
  have hscope : inScope (roomScope scope roomId) (roomScope scope roomId' ++ rest') = true := by
    rw [← h]
    exact inScope_append _ _
  have hroom : roomId = roomId' := roomScope_inj hscope
  subst hroom
  exact ⟨rfl, append_injective h⟩

theorem eq_of_inScope (h : inScope (roomScope scope roomId) key = true)
    (h' : inScope (roomScope scope roomId') key = true) : roomId = roomId' := by
  obtain ⟨rest, rfl⟩ := inScope_iff.mp h'
  exact roomScope_inj h

end

/-- A link's scope and a commit's part at the fifth character. -/
theorem not_inScope_link_commit (h : inScope (epochLinkScope roomId) key = true)
    (h' : inScope (commitScope roomId') key = true) : False := by
  have hlink : "room_".toList <+: (epochLinkScope roomId).toList := by
    unfold epochLinkScope roomScope
    simp only [String.toList_append, List.append_assoc]
    exact (by decide : "room_".toList <+: "room_epoch_links/v2:".toList).trans (List.prefix_append _ _)
  have hcommit : "room-".toList <+: (commitScope roomId').toList := by
    unfold commitScope roomScope
    simp only [String.toList_append, List.append_assoc]
    exact (by decide : "room-".toList <+: "room-commit/v2:".toList).trans (List.prefix_append _ _)
  have h₁ := hlink.trans (List.isPrefixOf_iff_prefix.mp h)
  have h₂ := hcommit.trans (List.isPrefixOf_iff_prefix.mp h')
  rcases List.prefix_or_prefix_of_prefix h₁ h₂ with hle | hle
  · exact absurd hle (by decide)
  · exact absurd hle (by decide)

/-! ### The rows as the store has them -/

inductive Keyspace where
  | rooms
  | records
  | epochLinks
  | revocations
  deriving DecidableEq

variable {ks : Keyspace}

structure RelayedCommit where
  epoch : Nat
  commit : String
  deriving DecidableEq

/-- What a purge removed, by kind. -/
structure PurgedRows where
  records : Nat
  epochLinks : Nat
  commits : Nat
  revocations : Bool
  room : Bool
  deriving DecidableEq

section
variable (Raw : Type)

/-- Every keyspace, its rows undecoded. -/
abbrev RawStore := Keyspace → ExtTreeMap String Raw

inductive RawOp where
  | get (ks : Keyspace) (key : String)
  | scan (ks : Keyspace) (scope : String)
  | remove (ks : Keyspace) (key : String)

def RawOp.Reply : RawOp → Type
  | .get _ _ => Option Raw
  | .scan _ _ => List (String × Raw)
  | .remove _ _ => Unit

def RawOp.exec : (o : RawOp) → RawStore Raw → o.Reply Raw × RawStore Raw
  | .get ks key, s => ((s ks)[key]?, s)
  | .scan ks scope, s => ((s ks).toList.filter fun row => inScope scope row.1, s)
  | .remove ks key, s => ((), Function.update s ks ((s ks).erase key))

def RawOp.writes : RawOp → Bool
  | .remove _ _ => true
  | _ => false

@[reducible] def rawInterface : Interface where
  State := RawStore Raw
  Op := RawOp
  Reply := RawOp.Reply Raw
  exec := RawOp.exec Raw
  writes := RawOp.writes
  exec_read o s h := by
    rcases o with ⟨ks, key⟩ | ⟨ks, scope⟩ | ⟨ks, key⟩
    · rfl
    · rfl
    · exact absurd h (by simp [RawOp.writes])

abbrev RawProgram (α : Type) := Program (rawInterface Raw) AppError α

end

variable {Raw : Type}

def getRaw (ks : Keyspace) (key : String) : RawProgram Raw (Option Raw) :=
  Program.perform (I := rawInterface Raw) (.get ks key)

def scanRaw (ks : Keyspace) (scope : String) : RawProgram Raw (List (String × Raw)) :=
  Program.perform (I := rawInterface Raw) (.scan ks scope)

def removeRaw (ks : Keyspace) (key : String) : RawProgram Raw Unit :=
  Program.perform (I := rawInterface Raw) (.remove ks key)

/-! ### `commits_since` -/

def lastField (separator : Char) (text : List Char) : List Char :=
  (text.reverse.takeWhile (· ≠ separator)).reverse

def commitEpoch (key : String) : Option Nat := parseU32 (lastField ':' key.toList)

/-- The commits of a scan with their epochs; `decode` reads a row as a string. A key that ends in no epoch is
passed over. -/
def heldCommits (decode : Raw → Except String String) (roomId : String) :
    List (String × Raw) → Except AppError (List RelayedCommit)
  | [] => .ok []
  | (key, raw) :: rows =>
    match commitEpoch key with
    | none => heldCommits decode roomId rows
    | some epoch =>
      match decode raw with
      | .error e => .error (.internal s!"decode a commit in `{roomId}`: {e}")
      | .ok commit => (heldCommits decode roomId rows).map fun held => ⟨epoch, commit⟩ :: held

/-- The run of commits from `expected` on, up to the first gap, and to `limit` of them once one is taken. Epochs
are counted in a `u32`. -/
def commitRun (limit : Nat) : (taken expected : Nat) → List RelayedCommit → List RelayedCommit
  | _, _, [] => []
  | taken, expected, held :: rest =>
    if held.epoch < expected then commitRun limit taken expected rest
    else if held.epoch ≠ expected then []
    else if limit ≤ taken + 1 then [held]
    else held :: commitRun limit (taken + 1) ((expected + 1) % 2 ^ 32) rest

/-- The commits above `sinceEpoch`, in order and stopping at the first gap. -/
def commitsSince (decode : Raw → Except String String) (roomId : String) (sinceEpoch limit : Nat) :
    RawProgram Raw (List RelayedCommit) := do
  let rows ← scanRaw .epochLinks (commitScope roomId)
  let held ← Program.lift (heldCommits decode roomId rows)
  return commitRun limit 0 ((sinceEpoch + 1) % 2 ^ 32) (held.insertionSort fun a b => a.epoch ≤ b.epoch)

/-! ### `purge_room_rows` -/

def purgeScope (ks : Keyspace) (scope : String) : RawProgram Raw Nat := do
  let rows ← scanRaw ks scope
  Program.forEach rows fun row => removeRaw ks row.1
  return rows.length

def purgeRow (ks : Keyspace) (key : String) : RawProgram Raw Bool := do
  let row ← getRaw ks key
  if row.isSome then
    removeRaw ks key
    return true
  else return false

def purgeRoomRows (roomId : String) : RawProgram Raw PurgedRows := do
  let records ← purgeScope .records (recordScope roomId)
  let epochLinks ← purgeScope .epochLinks (epochLinkScope roomId)
  let commits ← purgeScope .epochLinks (commitScope roomId)
  let revocations ← purgeRow .revocations (revocationKey roomId)
  let room ← purgeRow .rooms (roomKey roomId)
  return { records, epochLinks, commits, revocations, room }

/-! ### The rows of a room -/

/-- `key` is a key of the room in the keyspace. -/
def ownKey (roomId : String) (ks : Keyspace) (key : String) : Bool :=
  match ks with
  | .rooms => key = roomKey roomId
  | .records => inScope (recordScope roomId) key
  | .epochLinks => inScope (epochLinkScope roomId) key || inScope (commitScope roomId) key
  | .revocations => key = revocationKey roomId

theorem ownKey_unique (h : ownKey roomId ks key = true) (h' : ownKey roomId' ks key = true) : roomId = roomId' := by
  cases ks with
  | rooms =>
    simp only [ownKey, decide_eq_true_eq] at h h'
    exact roomKey_injective (h ▸ h')
  | records => exact eq_of_inScope h h'
  | epochLinks =>
    simp only [ownKey, Bool.or_eq_true] at h h'
    rcases h with h | h
    · rcases h' with h' | h'
      · exact eq_of_inScope h h'
      · exact (not_inScope_link_commit h h').elim
    · rcases h' with h' | h'
      · exact (not_inScope_link_commit h' h).elim
      · exact eq_of_inScope h h'
  | revocations =>
    simp only [ownKey, decide_eq_true_eq] at h h'
    exact revocationKey_injective (h ▸ h')

theorem ownKey_of_ne {other : String} (h : ownKey roomId ks key = true)
    (hne : other ≠ roomId) : ownKey other ks key = false := by
  by_contra hother
  exact hne (ownKey_unique (by simpa using hother) h)

/-- A scope within the room's covers keys of the room only. -/
theorem inScope_trans {wider : String} (h : inScope wider scope = true) (hkey : inScope scope key = true) :
    inScope wider key = true :=
  List.isPrefixOf_iff_prefix.mpr ((List.isPrefixOf_iff_prefix.mp h).trans (List.isPrefixOf_iff_prefix.mp hkey))

def rawRows (roomId : String) (s : RawStore Raw) : RawStore Raw := fun ks => only (ownKey roomId ks) (s ks)

def hostRows (roomId : String) (s : HostStore) : HostStore where
  rooms := only (ownKey roomId .rooms) s.rooms
  records := only (ownKey roomId .records) s.records
  links := only (ownKey roomId .epochLinks) s.links

/-! ### What an operation on a room's keys owns -/

section
variable {roomId : String} {ks : Keyspace}

theorem owns_get (hkey : ownKey roomId ks key = true) :
    Program.Owns (I := rawInterface Raw) rawRows roomId (.get ks key) where
  reply _ _ h := getElem?_of_only hkey (congrFun h ks)
  own _ _ h := h
  others _ _ _ := rfl

theorem owns_scan (hscope : ∀ key, inScope scope key = true → ownKey roomId ks key = true) :
    Program.Owns (I := rawInterface Raw) rawRows roomId (.scan ks scope) where
  reply _ _ h := filter_toList_of_only hscope (congrFun h ks)
  own _ _ h := h
  others _ _ _ := rfl

theorem owns_remove (hkey : ownKey roomId ks key = true) :
    Program.Owns (I := rawInterface Raw) rawRows roomId (.remove ks key) where
  reply s s' h := rfl
  own s s' h := by
    funext ks'
    have hks := congrFun h ks'
    by_cases heq : ks' = ks
    · subst heq
      simp only [RawOp.exec, rawRows, Function.update_self] at hks ⊢
      exact only_erase_of_only hks
    · simp only [RawOp.exec, rawRows, Function.update_of_ne heq] at hks ⊢
      exact hks
  others s j hj := by
    funext ks'
    by_cases heq : ks' = ks
    · subst heq
      simp only [RawOp.exec, rawRows, Function.update_self]
      exact only_erase (ownKey_of_ne hkey hj)
    · simp only [RawOp.exec, rawRows, Function.update_of_ne heq]

theorem owns_scanRecords (hscope : inScope (recordScope roomId) scope = true) :
    Program.Owns (I := hostInterface) hostRows roomId (.scanRecords scope) where
  reply _ _ h := filter_toList_of_only (fun _ hkey => inScope_trans hscope hkey) (congrArg HostStore.records h)
  own _ _ h := h
  others _ _ _ := rfl

theorem ownKey_record (hkey : inScope (recordScope roomId) key = true) :
    ownKey roomId .records key = true := hkey

theorem ownKey_link (hkey : inScope (epochLinkScope roomId) key = true) : ownKey roomId .epochLinks key = true := by
  simp only [ownKey, hkey, Bool.true_or]

theorem ownKey_commit (hkey : inScope (commitScope roomId) key = true) : ownKey roomId .epochLinks key = true := by
  simp only [ownKey, hkey, Bool.or_true]

theorem owns_scanLinks : Program.Owns (I := hostInterface) hostRows roomId (.scanLinks (epochLinkScope roomId)) where
  reply _ _ h := filter_toList_of_only (fun _ hkey => ownKey_link hkey) (congrArg HostStore.links h)
  own _ _ h := h
  others _ _ _ := rfl

theorem owns_removeLink (hkey : inScope (epochLinkScope roomId) key = true) :
    Program.Owns (I := hostInterface) hostRows roomId (.removeLink key) where
  reply s s' h := rfl
  own s s' h := by
    have hlinks : only (ownKey roomId .epochLinks) s.links = only (ownKey roomId .epochLinks) s'.links :=
      congrArg HostStore.links h
    have hrooms : only (ownKey roomId .rooms) s.rooms = only (ownKey roomId .rooms) s'.rooms :=
      congrArg HostStore.rooms h
    have hrecords : only (ownKey roomId .records) s.records = only (ownKey roomId .records) s'.records :=
      congrArg HostStore.records h
    simp only [StoreOp.exec, hostRows, hrooms, hrecords, only_erase_of_only hlinks]
  others s j hj := by
    simp only [StoreOp.exec, hostRows, only_erase (ownKey_of_ne (ownKey_link hkey) hj)]

end

/-! ### The operations are confined -/

section
variable (roomId : String)

theorem listRecords_confined (keyPrefix : Option String) (sinceVersion : Option Nat) :
    (listRecords roomId keyPrefix sinceVersion).Confined hostRows roomId := by
  apply Program.confined_of_performs
  intro s
  rcases keyPrefix with _ | p
  · exact ⟨owns_scanRecords (by simpa using inScope_append (recordScope roomId) ""), trivial⟩
  · exact ⟨owns_scanRecords (inScope_append _ _), trivial⟩

theorem listEpochLinks_confined : (listEpochLinks roomId).Confined hostRows roomId := by
  apply Program.confined_of_performs
  intro s
  exact ⟨owns_scanLinks, trivial⟩

theorem pruneEpochLinksBefore_confined (epoch : Nat) :
    (pruneEpochLinksBefore roomId epoch).Confined hostRows roomId := by
  apply Program.confined_of_performs
  intro s
  unfold pruneEpochLinksBefore scanLinks
  apply Program.performs_perform owns_scanLinks
  apply Program.performs_bind
  · apply Program.performs_forEach
    intro row hrow s'
    -- what is removed was found by the scan
    have hscanned := (List.mem_filter.mp hrow).1
    exact ⟨owns_removeLink (List.mem_filter.mp hscanned).2, trivial⟩
  · intro a ha
    trivial

theorem commitsSince_confined (decode : Raw → Except String String) (sinceEpoch limit : Nat) :
    (commitsSince decode roomId sinceEpoch limit).Confined rawRows roomId := by
  apply Program.confined_of_performs
  intro s
  unfold commitsSince scanRaw
  apply Program.performs_perform (owns_scan fun key hkey => ownKey_commit hkey)
  apply Program.performs_bind
  · trivial
  · intro held hheld
    trivial

variable {roomId}

theorem performs_purgeScope
    (hscope : ∀ key, inScope scope key = true → ownKey roomId ks key = true) (s : RawStore Raw) :
    (purgeScope ks scope).Performs (Program.Owns rawRows roomId) s := by
  unfold purgeScope scanRaw
  apply Program.performs_perform (owns_scan hscope)
  apply Program.performs_bind
  · apply Program.performs_forEach
    intro row hrow s'
    exact ⟨owns_remove (hscope row.1 (List.mem_filter.mp hrow).2), trivial⟩
  · intro a ha
    trivial

theorem performs_purgeRow (hkey : ownKey roomId ks key = true) (s : RawStore Raw) :
    (purgeRow ks key).Performs (Program.Owns rawRows roomId) s := by
  unfold purgeRow getRaw
  apply Program.performs_perform (owns_get hkey)
  split
  · exact ⟨owns_remove hkey, trivial⟩
  · trivial

variable (roomId)

theorem purgeRoomRows_confined : (purgeRoomRows roomId : RawProgram Raw PurgedRows).Confined rawRows roomId := by
  apply Program.confined_of_performs
  intro s
  unfold purgeRoomRows
  apply Program.performs_bind (performs_purgeScope (fun key hkey => ownKey_record hkey) s)
  intro records hrecords
  apply Program.performs_bind (performs_purgeScope (fun key hkey => ownKey_link hkey) _)
  intro epochLinks hlinks
  apply Program.performs_bind (performs_purgeScope (fun key hkey => ownKey_commit hkey) _)
  intro commits hcommits
  apply Program.performs_bind (performs_purgeRow (by simp [ownKey]) _)
  intro revocations hrevocations
  apply Program.performs_bind (performs_purgeRow (by simp [ownKey]) _)
  intro room hroom
  trivial

end

/-- **One room's storage keys never reach another room.** For any two room identifiers, whatever they contain:
records, links and commits of both at one key are of one room, and the same; the scan of one is at the front of a
key of the other only if they are one. And the operations that scan answer from the rows of their room alone, and
remove no row of another. -/
theorem rooms_apart (roomId roomId' : String) (decode : Raw → Except String String) :
    ((∀ key key', recordKey roomId key = recordKey roomId' key' → roomId = roomId' ∧ key = key') ∧
      (∀ epoch epoch', epochLinkKey roomId epoch = epochLinkKey roomId' epoch' → roomId = roomId' ∧ epoch = epoch') ∧
      ∀ epoch epoch', commitKey roomId epoch = commitKey roomId' epoch' → roomId = roomId' ∧ epoch = epoch') ∧
    ((∀ key, inScope (recordScope roomId) (recordKey roomId' key) = true → roomId = roomId') ∧
      (∀ epoch, inScope (epochLinkScope roomId) (epochLinkKey roomId' epoch) = true → roomId = roomId') ∧
      ∀ epoch, inScope (commitScope roomId) (commitKey roomId' epoch) = true → roomId = roomId') ∧
    (∀ keyPrefix sinceVersion, (listRecords roomId keyPrefix sinceVersion).Confined hostRows roomId) ∧
    (listEpochLinks roomId).Confined hostRows roomId ∧
    (∀ epoch, (pruneEpochLinksBefore roomId epoch).Confined hostRows roomId) ∧
    (∀ sinceEpoch limit, (commitsSince decode roomId sinceEpoch limit).Confined rawRows roomId) ∧
    (purgeRoomRows roomId : RawProgram Raw PurgedRows).Confined rawRows roomId := by
  refine ⟨⟨?_, ?_, ?_⟩, ⟨fun key => roomScope_inj, fun epoch => roomScope_inj, fun epoch => roomScope_inj⟩,
    listRecords_confined roomId, listEpochLinks_confined roomId, pruneEpochLinksBefore_confined roomId,
    commitsSince_confined roomId decode, purgeRoomRows_confined roomId⟩
  · intro key key' h
    exact roomScope_append_inj h
  · intro epoch epoch' h
    obtain ⟨hroom, hepoch⟩ := roomScope_append_inj h
    exact ⟨hroom, padded_injective hepoch⟩
  · intro epoch epoch' h
    obtain ⟨hroom, hepoch⟩ := roomScope_append_inj h
    exact ⟨hroom, padded_injective hepoch⟩

end TrustInfrastructure.Rooms
