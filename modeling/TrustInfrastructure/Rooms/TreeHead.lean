import TrustInfrastructure.Rooms.Merkle
import TrustInfrastructure.Rooms.Paging

/-!
# The head of a room's tree

`room_tree_head`: the commitment over a room's records, labelled with the higher of the highest version among
them and the version of the latest prune.

A label names one tree. Between calls it is the version before the room's counter (`Labelled`): a put or a
curation leaves a record there, a prune leaves its mark there, even one that stopped before it had removed
all it set out to. Every call that changes the store moves the counter on, so two states with one label are
one state.
-/

namespace TrustInfrastructure.Rooms

open Lib Lib.Merkle

variable {s : HostStore} {roomId key : String} {record : Record} {head : TreeHead}
  {records : List Record} {digests : Digests} {chrono : Chrono} {next : Nat}

section
variable (digests : Digests) (chrono : Chrono)

def commitError (roomId : String) : MerkleError → AppError
  | .canonicalise key source => .internal
      s!"commit the records of `{roomId}`: record `{key}` could not be canonicalised for commitment: {source}"

def recordTreeHead (roomId : String) : HostProgram TreeHead := do
  let all ← listRecords roomId none none
  Program.lift ((treeHead digests chrono all).mapError (commitError roomId))

/-- The version of the latest prune, `0` if there was none. -/
def lastPruned (room : Room) : Nat := (room.lastPrune.map RecordPrune.version).getD 0

/-- The version of the room's latest prune, `0` if it has none. -/
def prunedAt (roomId : String) : HostProgram Nat := do
  let room ← getRoom roomId
  return lastPruned room

def roomTreeHead (roomId : String) : HostProgram TreeHead := do
  let head ← recordTreeHead digests chrono roomId
  let pruned ← prunedAt roomId
  return { head with headVersion := max head.headVersion pruned }

/-! ### What is answered -/

def committedRecords (s : HostStore) (roomId : String) : List Record := byKey (listing s roomId none none)

theorem mem_committedRecords : record ∈ committedRecords s roomId ↔ ∃ key, s.record roomId key = some record := by
  rw [committedRecords, byKey, (List.perm_insertionSort _ _).mem_iff, mem_listing]
  constructor
  · rintro ⟨key, hrecord, -, -⟩
    exact ⟨key, hrecord⟩
  · rintro ⟨key, hrecord⟩
    exact ⟨key, hrecord, inScope_append "" key, fun since hsince => nomatch hsince⟩

def labelledHead (s : HostStore) (roomId : String) (room : Room) (leaves : List Hash) : TreeHead where
  root := rootOf digests leaves
  recordCount := leaves.length
  headVersion := max (highestVersion (committedRecords s roomId)) (lastPruned room)

theorem exec_listRecords_bind {α : Type} (s : HostStore) (roomId : String) (f : List Record → HostProgram α) :
    ((listRecords roomId none none).bind f).exec s = (f (listing s roomId none none)).exec s := by
  have htrace : (listRecords roomId none none).trace s = [] := by
    rw [Program.trace, exec_listRecords]
  have hresult : (listRecords roomId none none).result s = .ok (listing s roomId none none) := by
    rw [Program.result, exec_listRecords]
  rw [Program.exec_bind, hresult, Program.final, htrace]
  rfl

theorem roomTreeHead_eq_ok (h : (roomTreeHead digests chrono roomId).result s = .ok head) :
    ∃ room leaves, s.room roomId = some room ∧
      leavesOf digests chrono (committedRecords s roomId) = .ok leaves ∧
      head = labelledHead digests s roomId room leaves := by
  rw [roomTreeHead, recordTreeHead, Program.bind_eq, Program.bind_eq, Program.bind_assoc, Program.result,
    exec_listRecords_bind, treeHead, ← committedRecords] at h
  cases hleaves : leavesOf digests chrono (committedRecords s roomId) with
  | error => rw [hleaves] at h; cases h
  | ok leaves =>
    rw [hleaves] at h
    change ((prunedAt roomId).bind _).result s = _ at h
    rw [prunedAt, Program.bind_eq, Program.bind_assoc, Program.result, exec_getRoom_bind] at h
    cases hroom : s.room roomId with
    | none => rw [hroom] at h; cases h
    | some room =>
      rw [hroom] at h
      cases h
      exact ⟨room, leaves, rfl, rfl, rfl⟩

end

/-! ### The label and the counter -/

theorem le_highestVersion (h : record ∈ records) : record.version ≤ highestVersion records := by
  have hmem : record.version ∈ records.map Record.version := List.mem_map_of_mem h
  cases hmax : (records.map Record.version).max? with
  | none => rw [List.max?_eq_none_iff.mp hmax] at hmem; cases hmem
  | some =>
    rw [highestVersion, hmax]
    exact (List.max?_eq_some_iff.mp hmax).2 _ hmem

theorem highestVersion_lt {bound : Nat} (hpos : 0 < bound)
    (h : ∀ record ∈ records, record.version < bound) : highestVersion records < bound := by
  rw [highestVersion]
  cases hmax : (records.map Record.version).max? with
  | none => exact hpos
  | some =>
    obtain ⟨record, hrecord, rfl⟩ := List.mem_map.mp (List.max?_eq_some_iff.mp hmax).1
    exact h record hrecord

/-- Between calls, with the counter at `next`: records and mark are below it, and one of them is right below
it unless nothing has happened yet. -/
structure Labelled (roomId : String) (next : Nat) (s : HostStore) : Prop where
  counter : ∃ room, s.room roomId = some room ∧ room.nextVersion = next ∧ lastPruned room < next
  below : ∀ key record, s.record roomId key = some record → record.version < next
  reached : next = 1 ∨ (∃ key record, s.record roomId key = some record ∧ record.version + 1 = next) ∨
    ∃ room, s.room roomId = some room ∧ lastPruned room + 1 = next

theorem Labelled.headVersion (h : Labelled roomId next s)
    (hhead : (roomTreeHead digests chrono roomId).result s = .ok head) : head.headVersion + 1 = next := by
  obtain ⟨room, leaves, hroom, -, rfl⟩ := roomTreeHead_eq_ok digests chrono hhead
  obtain ⟨room', hroom', -, hpruned⟩ := h.counter
  cases hroom.symm.trans hroom'
  have hbelow : highestVersion (committedRecords s roomId) < next := by
    refine highestVersion_lt (Nat.zero_lt_of_lt hpruned) fun record hrecord => ?_
    obtain ⟨key, hkey⟩ := mem_committedRecords.mp hrecord
    exact h.below key record hkey
  change max (highestVersion (committedRecords s roomId)) (lastPruned room) + 1 = next
  rcases h.reached with hone | ⟨key, record, hrecord, hversion⟩ | ⟨room', hroom'', hversion⟩
  · omega
  · have hle := le_highestVersion (mem_committedRecords.mpr ⟨key, hrecord⟩)
    omega
  · cases hroom.symm.trans hroom''
    omega

/-- A put or a curation completes; a prune may stop after any of its writes. -/
def RecordStep.whole (step : RecordStep) : Bool := !step.call.writesRecord || step.writes.isNone

/-- The step is whole, and begins with a counter that can move on. -/
def Whole (roomId : String) (s : HostStore) (step : RecordStep) : Prop := step.whole = true ∧ CounterFits roomId s

instance decidableWhole (roomId : String) (s : HostStore) (step : RecordStep) : Decidable (Whole roomId s step) :=
  inferInstanceAs (Decidable (_ ∧ _))

theorem step_labelled (step : RecordStep) (h : Labelled roomId next s) (hwhole : Whole roomId s step) :
    step.leaves roomId s = s ∨ Labelled roomId (next + 1) (step.leaves roomId s) := by
  obtain ⟨room, hroom, hnext, hpruned⟩ := h.counter
  have hmoved : (room.nextVersion + 1) % 2 ^ 64 = next + 1 := by
    rw [Nat.mod_eq_of_lt (hwhole.2 room hroom), hnext]
  rcases step.leaves_cases roomId s with ⟨-, hsame⟩ | hmem
  · exact .inl hsame
  rcases recordCall_cases roomId step.call s with htrace | ⟨room', key, record, now, hwrites, hroom', hversion,
      htrace⟩ | ⟨room', keys, now, hwrites, hroom', -, htrace⟩
  · have hnone := RecordStep.mem_trace_of_mem_visits hmem
    rw [htrace] at hnone
    cases hnone
  · -- a put or a curation: it completed, so the state is the one after both its writes
    cases hroom.symm.trans hroom'
    have hcomplete : step.writes = none := by
      simpa [RecordStep.whole, hwrites] using hwhole.1
    have hleaves : step.leaves roomId s =
        (s.withRecord roomId key record).withRoom roomId (takeVersion room now) := by
      rw [RecordStep.leaves, RecordStep.visits, hcomplete]
      rw [htrace]
      rfl
    refine .inr ?_
    rw [hleaves]
    refine ⟨⟨takeVersion room now, ?_, hmoved, ?_⟩, fun other found hfound => ?_, .inr (.inl ⟨key, record, ?_, ?_⟩)⟩
    · rw [HostStore.room_withRoom]
    · exact Nat.lt_succ_of_lt hpruned
    · rw [HostStore.record_withRoom, HostStore.record_withRecord] at hfound
      split at hfound
      · cases hfound
        omega
      · exact Nat.lt_succ_of_lt (h.below other found hfound)
    · rw [HostStore.record_withRoom, HostStore.record_withRecord, if_pos rfl]
    · omega
  · -- a prune: its row is written first, and removals only take records away
    cases hroom.symm.trans hroom'
    have hpass := RecordStep.mem_trace_of_mem_visits hmem
    rw [htrace] at hpass
    have hafter : ∀ s', (∀ id, s'.room id = (s.withRoom roomId (prunedRoom room keys now)).room id) →
        (∀ key record, s'.record roomId key = some record → s.record roomId key = some record) →
        Labelled roomId (next + 1) s' := by
      intro s' hrooms hrecords
      have hrow : s'.room roomId = some (prunedRoom room keys now) := by
        rw [hrooms, HostStore.room_withRoom]
      have hmark : lastPruned (prunedRoom room keys now) = next := hnext
      refine ⟨⟨_, hrow, hmoved, by omega⟩, fun key record hrecord => ?_,
        .inr (.inr ⟨_, hrow, by omega⟩)⟩
      exact Nat.lt_succ_of_lt (h.below key record (hrecords key record hrecord))
    refine .inr ?_
    rcases List.mem_cons.mp hpass with heq | hremoved
    · rw [heq]
      exact hafter _ (fun _ => rfl) fun _ _ hrecord => hrecord
    · obtain ⟨hrooms, hrecords⟩ := mem_removals hremoved
      exact hafter _ hrooms hrecords

/-- Over a run the counter only moves on, and where it has not moved the store has not changed. -/
theorem run_labelled (steps : List RecordStep)
    (h : Labelled roomId next s) (hwhole : Along (RecordStep.leaves roomId) (Whole roomId) s steps) :
    ∃ next', Labelled roomId next' (reach roomId s steps) ∧
      (next' = next ∧ reach roomId s steps = s ∨ next < next') := by
  induction steps generalizing s next with
  | nil => exact ⟨next, h, .inl ⟨rfl, rfl⟩⟩
  | cons step steps ih =>
    obtain ⟨hstep, hrest⟩ := hwhole
    rcases step_labelled step h hstep with hsame | hmoved
    · rw [hsame] at hrest
      rw [reach, run_cons, hsame]
      exact ih h hrest
    · obtain ⟨next', hnext', hcase⟩ := ih hmoved hrest
      exact ⟨next', hnext', .inr (by omega)⟩

structure FreshRoom (roomId : String) (s : HostStore) : Prop where
  noRecords : NoRecords roomId s
  room : ∃ room, s.room roomId = some room ∧ room.nextVersion = 1 ∧ room.lastPrune = none

theorem FreshRoom.labelled (h : FreshRoom roomId s) : Labelled roomId 1 s := by
  obtain ⟨room, hroom, hnext, hprune⟩ := h.room
  refine ⟨⟨room, hroom, hnext, ?_⟩, fun key record hrecord => ?_, .inl rfl⟩
  · rw [lastPruned, hprune]
    exact Nat.one_pos
  · rw [h.noRecords key] at hrecord
    cases hrecord

/-- One label, one store: of two states of a run, the later one is the earlier one. -/
theorem reach_take_eq
    (h : Labelled roomId next s) {steps : List RecordStep}
    (hwhole : Along (RecordStep.leaves roomId) (Whole roomId) s steps) {i j : Nat} (hij : i ≤ j)
    {head₁ head₂ : TreeHead}
    (h₁ : (roomTreeHead digests chrono roomId).result (reach roomId s (steps.take i)) = .ok head₁)
    (h₂ : (roomTreeHead digests chrono roomId).result (reach roomId s (steps.take j)) = .ok head₂)
    (hlabel : head₁.headVersion = head₂.headVersion) :
    reach roomId s (steps.take j) = reach roomId s (steps.take i) := by
  have hsplit := List.take_append_drop i (steps.take j)
  rw [List.take_take, Nat.min_eq_left hij] at hsplit
  rw [← List.take_append_drop j steps, ← hsplit, along_append, along_append] at hwhole
  obtain ⟨next₁, hfirst, -⟩ := run_labelled (steps.take i) h hwhole.1.1
  obtain ⟨next₂, hsecond, hcase⟩ := run_labelled ((steps.take j).drop i) hfirst hwhole.1.2
  rw [reach, ← run_append, hsplit] at hsecond hcase
  have hlabel₁ := hfirst.headVersion h₁
  have hlabel₂ := hsecond.headVersion h₂
  rcases hcase with ⟨-, hsame⟩ | hlt
  · exact hsame
  · omega

/-- **Two tree heads with one label are one tree.** Of a room that puts and curations change whole, and prunes
whole or in part, each moving the `u64` counter on, two states between calls whose heads carry one version
have the same records, and so the same root and the same count. -/
theorem one_label_one_tree (digests : Digests) (chrono : Chrono) (roomId : String) (s : HostStore)
    (hfresh : FreshRoom roomId s) (steps : List RecordStep)
    (hwhole : Along (RecordStep.leaves roomId) (Whole roomId) s steps) (i j : Nat) (head₁ head₂ : TreeHead)
    (h₁ : (roomTreeHead digests chrono roomId).result (reach roomId s (steps.take i)) = .ok head₁)
    (h₂ : (roomTreeHead digests chrono roomId).result (reach roomId s (steps.take j)) = .ok head₂)
    (hlabel : head₁.headVersion = head₂.headVersion) :
    (∀ key, (reach roomId s (steps.take i)).record roomId key =
      (reach roomId s (steps.take j)).record roomId key) ∧
    head₁.root = head₂.root ∧ head₁.recordCount = head₂.recordCount := by
  have hstates : reach roomId s (steps.take i) = reach roomId s (steps.take j) := by
    rcases Nat.le_total i j with hij | hji
    · exact (reach_take_eq hfresh.labelled hwhole hij h₁ h₂ hlabel).symm
    · exact reach_take_eq hfresh.labelled hwhole hji h₂ h₁ hlabel.symm
  rw [hstates] at h₁ ⊢
  cases h₁.symm.trans h₂
  exact ⟨fun _ => rfl, rfl, rfl⟩

def stoppedPrune : List RecordStep :=
  [⟨.put (sampleNote "a" "one") none 101, none⟩, ⟨.put (sampleNote "b" "two") none 102, none⟩,
    ⟨.prune ["a", "b"] 103, some 2⟩, ⟨.prune [] 104, none⟩]

theorem sampleStore_fresh : FreshRoom "did:webvh:room" sampleStore where
  noRecords := sampleStore_noRecords
  room := ⟨sampleRoom, by decide, rfl, rfl⟩

def sampleHead (steps : List RecordStep) : Except AppError TreeHead :=
  (roomTreeHead plainDigests ⟨toString, fun _ => none⟩ "did:webvh:room").result
    (reach "did:webvh:room" sampleStore steps)

/-- The prune that stopped and the refused one after it: version 3, one record left. -/
theorem one_label_one_tree_sample :
    ∃ head₁ head₂, sampleHead (stoppedPrune.take 3) = .ok head₁ ∧ sampleHead (stoppedPrune.take 4) = .ok head₂ ∧
      head₁.headVersion = 3 ∧ head₁.recordCount = 1 ∧ head₁.root = head₂.root ∧
      head₁.recordCount = head₂.recordCount := by
  obtain ⟨head₁, h₁, hfirst⟩ : ∃ head, sampleHead (stoppedPrune.take 3) = .ok head ∧
      head.headVersion = 3 ∧ head.recordCount = 1 := ⟨_, rfl, by decide +kernel⟩
  obtain ⟨head₂, h₂, hsecond⟩ : ∃ head, sampleHead (stoppedPrune.take 4) = .ok head ∧
      head.headVersion = 3 := ⟨_, rfl, by decide +kernel⟩
  have hsame := one_label_one_tree _ _ _ _ sampleStore_fresh stoppedPrune (by decide) 3 4 head₁ head₂ h₁ h₂
    (hfirst.1.trans hsecond.symm)
  exact ⟨head₁, head₂, h₁, h₂, hfirst.1, hfirst.2, hsame.2⟩

end TrustInfrastructure.Rooms
