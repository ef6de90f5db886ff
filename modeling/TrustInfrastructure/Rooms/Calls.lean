import TrustInfrastructure.Lib.Run
import TrustInfrastructure.Rooms.Operations

/-!
# Record calls, run one after another

`put_record`, `curate_record` and `remove_pruned` run under the record-write lock, so on one room they run
one after another. `RecordCall` is one such call with its arguments, `RecordCall.trace` the states it leaves
behind, one after each store write, and `RecordStep` a call that may be cut short: a write that fails and a
process that stops both end the call with only its first writes done.

`recordCall_cases` says once what a call can do to the store; every invariant over runs is derived from it.
-/

namespace TrustInfrastructure.Rooms

open Lib (Program run trail)

/-! ### Rows of one room -/

namespace HostStore

/-- The store with the row of room `roomId` replaced. -/
def withRoom (s : HostStore) (roomId : String) (room : Room) : HostStore :=
  { s with rooms := s.rooms.insert (roomKey roomId) room }

/-- The store with the row of record `key` replaced. -/
def withRecord (s : HostStore) (roomId key : String) (record : Record) : HostStore :=
  { s with records := s.records.insert (recordKey roomId key) record }

/-- The store without the row of record `key`. -/
def withoutRecord (s : HostStore) (roomId key : String) : HostStore :=
  { s with records := s.records.erase (recordKey roomId key) }

variable (s : HostStore) (roomId key key' : String) (room' : Room) (record' : Record)

@[simp] theorem room_withRoom : (s.withRoom roomId room').room roomId = some room' := by
  simp [withRoom, HostStore.room]

@[simp] theorem record_withRoom (id : String) : (s.withRoom roomId room').record id key = s.record id key := rfl

theorem record_withRecord :
    (s.withRecord roomId key record').record roomId key' =
      if key = key' then some record' else s.record roomId key' := by
  simp only [withRecord, HostStore.record, Std.ExtTreeMap.getElem?_insert,
    Std.LawfulEqCmp.compare_eq_iff_eq, recordKey_inj]

theorem record_withoutRecord :
    (s.withoutRecord roomId key).record roomId key' =
      if key = key' then none else s.record roomId key' := by
  simp only [withoutRecord, HostStore.record, Std.ExtTreeMap.getElem?_erase,
    Std.LawfulEqCmp.compare_eq_iff_eq, recordKey_inj]

end HostStore

/-! ### What each primitive does -/

section primitives
variable {α : Type} (s : HostStore) (roomId key : String)

theorem exec_getRoom_bind (f : Room → HostProgram α) :
    ((getRoom roomId).bind f).exec s = match s.room roomId with
      | some room => (f room).exec s
      | none => ([], .error (.notFound s!"room `{roomId}` not found")) := by
  change (Program.bind (match s.room roomId with | some room => _ | none => _) f).exec s = _
  cases s.room roomId <;> rfl

theorem exec_getRecord_bind (f : Record → HostProgram α) :
    ((getRecord roomId key).bind f).exec s = match s.record roomId key with
      | some record => (f record).exec s
      | none => ([], .error (.notFound s!"record `{key}` not found in `{roomId}`")) := by
  change (Program.bind (match s.record roomId key with | some record => _ | none => _) f).exec s = _
  cases s.record roomId key <;> rfl

theorem exec_getRecord_ok_bind (f : Option Record → HostProgram α) :
    ((getRecord roomId key).ok.bind f).exec s = (f (s.record roomId key)).exec s := by
  change (Program.bind (Program.ok (match s.record roomId key with | some record => _ | none => _)) f).exec s = _
  cases s.record roomId key <;> rfl

theorem exec_lift_bind (r : Except AppError Unit) (f : Unit → HostProgram α) :
    ((Program.lift r : HostProgram Unit).bind f).exec s = match r with
      | .ok _ => (f ()).exec s
      | .error e => ([], .error e) := by
  cases r <;> rfl

theorem exec_insertRoom_bind (room : Room) (f : Unit → HostProgram α) :
    ((insertRoom roomId room).bind f).exec s =
      (s.withRoom roomId room :: (f ()).trace (s.withRoom roomId room), (f ()).result (s.withRoom roomId room)) :=
  rfl

end primitives

/-! ### What each operation does -/

section operations
variable (s : HostStore) (roomId : String)

/-- A put refuses and writes nothing, or writes the stamped record and then the room row. -/
theorem putRecord_cases (record : Record) (expectedVersion : Option Nat) (now : Nat) :
    (∃ e, (putRecord roomId record expectedVersion now).exec s = ([], .error e)) ∨
    ∃ room, s.room roomId = some room ∧
      checkExpected record.key (s.record roomId record.key) expectedVersion = .ok () ∧
      checkContent roomId room record = .ok () ∧
      (putRecord roomId record expectedVersion now).exec s =
        let stored := stampPut room (s.record roomId record.key) record now
        ([s.withRecord roomId record.key stored,
          (s.withRecord roomId record.key stored).withRoom roomId (takeVersion room now)], .ok stored) := by
  simp only [putRecord, Program.bind_eq]
  rw [exec_getRoom_bind]
  cases hroom : s.room roomId with
  | none => exact Or.inl ⟨_, rfl⟩
  | some room =>
    dsimp only
    rw [exec_getRecord_ok_bind, exec_lift_bind]
    cases hexpected : checkExpected record.key (s.record roomId record.key) expectedVersion with
    | error e => exact Or.inl ⟨e, rfl⟩
    | ok =>
      rw [exec_lift_bind]
      cases hcontent : checkContent roomId room record with
      | error e => exact Or.inl ⟨e, rfl⟩
      | ok => exact Or.inr ⟨room, rfl, rfl, hcontent, rfl⟩

theorem curateRecord_cases (key : String) (curation : Curation) (now : Nat) :
    (∃ e, (curateRecord roomId key curation now).exec s = ([], .error e)) ∨
    ∃ record room, s.record roomId key = some record ∧ s.room roomId = some room ∧
      checkCuration key record curation = .ok () ∧
      (curateRecord roomId key curation now).exec s =
        let stored := stampCuration room record curation now
        ([s.withRecord roomId key stored,
          (s.withRecord roomId key stored).withRoom roomId (takeVersion room now)], .ok stored) := by
  simp only [curateRecord, Program.bind_eq]
  rw [exec_getRecord_bind]
  cases hrecord : s.record roomId key with
  | none => exact Or.inl ⟨_, rfl⟩
  | some record =>
    dsimp only
    rw [exec_lift_bind]
    cases hcuration : checkCuration key record curation with
    | error e => exact Or.inl ⟨e, rfl⟩
    | ok =>
      rw [exec_getRoom_bind]
      cases hroom : s.room roomId with
      | none => exact Or.inl ⟨_, rfl⟩
      | some room => exact Or.inr ⟨record, room, rfl, rfl, hcuration, rfl⟩

/-- The states the removal of `keys`, one after another, leaves behind. -/
def removals (roomId : String) : List String → HostStore → List HostStore
  | [], _ => []
  | key :: keys, s => s.withoutRecord roomId key :: removals roomId keys (s.withoutRecord roomId key)

theorem mem_removals {roomId : String} {keys : List String} {s s' : HostStore}
    (hs' : s' ∈ removals roomId keys s) :
    (∀ id, s'.room id = s.room id) ∧
      ∀ key record, s'.record roomId key = some record → s.record roomId key = some record := by
  induction keys generalizing s with
  | nil => cases hs'
  | cons gone _ ih =>
    have hgone : ∀ key record, (s.withoutRecord roomId gone).record roomId key = some record →
        s.record roomId key = some record := by
      intro key record h
      rw [HostStore.record_withoutRecord] at h
      split at h
      · cases h
      · exact h
    rcases List.mem_cons.mp hs' with rfl | hs'
    · exact ⟨fun id => rfl, hgone⟩
    · obtain ⟨hroom, hrecord⟩ := ih hs'
      exact ⟨hroom, fun key record h => hgone key record (hrecord key record h)⟩

theorem exec_removeRecords (keys : List String) :
    (Program.forEach keys fun key => removeRecord roomId key).exec s = (removals roomId keys s, .ok ()) := by
  induction keys generalizing s with
  | nil => rfl
  | cons key keys ih =>
    have hrest := ih (s.withoutRecord roomId key)
    change (s.withoutRecord roomId key :: ((Program.forEach keys fun key => removeRecord roomId key).exec
        (s.withoutRecord roomId key)).1, ((Program.forEach keys fun key => removeRecord roomId key).exec
        (s.withoutRecord roomId key)).2) = _
    rw [hrest]
    rfl

def prunedRoom (room : Room) (keys : List String) (now : Nat) : Room :=
  { takeVersion room now with lastPrune := some (pruneMark room keys now) }

theorem removePruned_cases (keys : List String) (now : Nat) :
    (∃ e, (removePruned roomId keys now).exec s = ([], .error e)) ∨
    ∃ room, s.room roomId = some room ∧ keys ≠ [] ∧
      (removePruned roomId keys now).exec s =
        (s.withRoom roomId (prunedRoom room keys now) ::
          removals roomId keys (s.withRoom roomId (prunedRoom room keys now)),
          .ok (pruneMark room keys now)) := by
  unfold removePruned
  by_cases hkeys : keys.isEmpty = true
  · rw [if_pos hkeys]
    exact Or.inl ⟨_, rfl⟩
  · rw [if_neg hkeys]
    simp only [Program.bind_eq]
    rw [exec_getRoom_bind]
    cases hroom : s.room roomId with
    | none => exact Or.inl ⟨_, rfl⟩
    | some room =>
      refine Or.inr ⟨room, rfl, by simpa using hkeys, ?_⟩
      dsimp only
      rw [exec_insertRoom_bind]
      simp only [Program.trace, Program.result, Program.exec_bind, exec_removeRecords]
      simp [prunedRoom]

end operations

/-! ### Calls and runs -/

inductive RecordCall where
  | put (record : Record) (expectedVersion : Option Nat) (now : Nat)
  | curate (key : String) (curation : Curation) (now : Nat)
  | prune (keys : List String) (now : Nat)

/-- The states a call leaves behind, one after each store write. -/
def RecordCall.trace (roomId : String) : RecordCall → HostStore → List HostStore
  | .put record expectedVersion now, s => (putRecord roomId record expectedVersion now).trace s
  | .curate key curation now, s => (curateRecord roomId key curation now).trace s
  | .prune keys now, s => (removePruned roomId keys now).trace s

def RecordCall.writesRecord : RecordCall → Bool
  | .prune _ _ => false
  | _ => true

/-- **What a record call does.** It refuses and writes nothing; or it writes a record at the counter's
version and then the room row with the counter moved on; or it writes the room row with the counter moved
on and a mark at the version taken, and then removes records. -/
theorem recordCall_cases (roomId : String) (call : RecordCall) (s : HostStore) :
    call.trace roomId s = [] ∨
    (∃ room key record now, call.writesRecord = true ∧ s.room roomId = some room ∧
      record.version = room.nextVersion ∧
      call.trace roomId s = [s.withRecord roomId key record,
        (s.withRecord roomId key record).withRoom roomId (takeVersion room now)]) ∨
    ∃ room keys now, call.writesRecord = false ∧ s.room roomId = some room ∧ keys ≠ [] ∧
      call.trace roomId s = s.withRoom roomId (prunedRoom room keys now) ::
        removals roomId keys (s.withRoom roomId (prunedRoom room keys now)) := by
  cases call with
  | put record expectedVersion now =>
    rcases putRecord_cases s roomId record expectedVersion now with ⟨e, h⟩ | ⟨room, hroom, _, _, h⟩
    · exact Or.inl (congrArg Prod.fst h)
    · exact Or.inr (Or.inl ⟨room, record.key, _, now, rfl, hroom, rfl, congrArg Prod.fst h⟩)
  | curate key curation now =>
    rcases curateRecord_cases s roomId key curation now with ⟨e, h⟩ | ⟨record, room, _, hroom, _, h⟩
    · exact Or.inl (congrArg Prod.fst h)
    · exact Or.inr (Or.inl ⟨room, key, _, now, rfl, hroom, rfl, congrArg Prod.fst h⟩)
  | prune keys now =>
    rcases removePruned_cases s roomId keys now with ⟨e, h⟩ | ⟨room, hroom, hkeys, h⟩
    · exact Or.inl (congrArg Prod.fst h)
    · exact Or.inr (Or.inr ⟨room, keys, now, rfl, hroom, hkeys, congrArg Prod.fst h⟩)

/-- A call that ends after its first `writes` store writes, because the next one failed or the process
stopped; `none` for one that runs to its end. -/
structure RecordStep where
  call : RecordCall
  writes : Option Nat

/-- The states a step passes through. -/
def RecordStep.visits (roomId : String) (s : HostStore) (step : RecordStep) : List HostStore :=
  match step.writes with
  | none => step.call.trace roomId s
  | some n => (step.call.trace roomId s).take n

def RecordStep.leaves (roomId : String) (s : HostStore) (step : RecordStep) : HostStore :=
  (step.visits roomId s).getLastD s

/-- The state a run leaves. -/
abbrev reach (roomId : String) : HostStore → List RecordStep → HostStore := run (RecordStep.leaves roomId)

/-- Every state a run passes through, from `s` on. -/
abbrev history (roomId : String) : HostStore → List RecordStep → List HostStore :=
  trail (RecordStep.leaves roomId) (RecordStep.visits roomId)

/-- The counter, a `u64`, can move on without wrapping. -/
def CounterFits (roomId : String) (s : HostStore) : Prop := ∀ room ∈ s.room roomId, room.nextVersion + 1 < 2 ^ 64

instance decidableCounterFits (roomId : String) (s : HostStore) : Decidable (CounterFits roomId s) :=
  inferInstanceAs (Decidable (∀ room ∈ s.room roomId, _))

theorem RecordStep.mem_trace_of_mem_visits {roomId : String} {step : RecordStep} {s s' : HostStore}
    (hs' : s' ∈ step.visits roomId s) : s' ∈ step.call.trace roomId s := by
  unfold RecordStep.visits at hs'
  split at hs'
  · exact hs'
  · exact List.mem_of_mem_take hs'

/-- A step leaves the state it began in, having written nothing, or one it passed through. -/
theorem RecordStep.leaves_cases (roomId : String) (step : RecordStep) (s : HostStore) :
    (step.visits roomId s = [] ∧ step.leaves roomId s = s) ∨ step.leaves roomId s ∈ step.visits roomId s := by
  unfold RecordStep.leaves
  cases hvisits : step.visits roomId s with
  | nil => exact Or.inl ⟨rfl, rfl⟩
  | cons _ rest =>
    rw [List.getLastD_cons, List.getLastD_eq_getLast?]
    refine Or.inr ?_
    cases hlast : rest.getLast? with
    | none => exact List.mem_cons_self
    | some => exact List.mem_cons_of_mem _ (List.mem_of_getLast? hlast)

/-! ### A sample room -/

def sampleRoom : Room :=
  newRoom "did:webvh:room" "did:key:owner" ⟨.openRoom, .chained, .never, none⟩ none 100

/-- A host with `sampleRoom` and nothing else. -/
def sampleStore : HostStore := HostStore.empty.withRoom "did:webvh:room" sampleRoom

/-- A member's note for `sampleRoom`. -/
def sampleNote (key body : String) : Record :=
  writtenRecord .openRoom "did:key:member" key none (some (.string body))

end TrustInfrastructure.Rooms
