import TrustInfrastructure.Lib.Interleave
import TrustInfrastructure.Rooms.Calls

/-!
# Concurrent writers of the room row

Seven operations rewrite a room's row whole, from a copy read earlier. `put_record`, `curate_record` and
`remove_pruned` run under the record-write lock; the hosts call `advance_epoch`, `set_owner`, `set_frozen`
and `prune_chain_to_floor` without it. A call that writes the row back after another changed it undoes the
other's change (`stale_put_undoes_advance`).

Each call is one read-modify-write of the cell `roomCell` (`roomCall_fetches`): what it writes is
`RoomCall.commit` of the row it read. So a run in which every write of the row finds the row its call read
is serial in the sense of `Lib.Pool.Serial`, and what is left to prove is about single commits: none lowers
the epoch, the counter or the floor (`commit_rowLe`), each leaves its own mark (`commit_reflected`), and no
commit of another kind removes it (`commit_frame`).
-/

namespace TrustInfrastructure.Rooms

open Lib (Program Cell Pool run run_concat Along along_iff)

/-! ### The calls -/

inductive RoomCall where
  | record (call : RecordCall)
  | advanceEpoch (newEpoch now : Nat)
  | setOwner (newOwnerDid : String) (now : Nat)
  | setFrozen (frozenAt : Option Nat) (nowSecs : Nat)
  | pruneChainToFloor (beforeEpoch now : Nat)

namespace RoomCall

def holdsLock : RoomCall → Bool
  | .record _ => true
  | _ => false

section
variable (validateDid : String → String → Except AppError Unit) (roomId : String)

def program : RoomCall → HostProgram Unit
  | .record (.put written expectedVersion now) => (putRecord roomId written expectedVersion now).bind fun _ => pure ()
  | .record (.curate key curation now) => (curateRecord roomId key curation now).bind fun _ => pure ()
  | .record (.prune keys now) => (removePruned roomId keys now).bind fun _ => pure ()
  | .advanceEpoch newEpoch now => (Rooms.advanceEpoch roomId newEpoch now).bind fun _ => pure ()
  | .setOwner newOwnerDid now => (Rooms.setOwner validateDid roomId newOwnerDid now).bind fun _ => pure ()
  | .setFrozen frozenAt nowSecs => Rooms.setFrozen roomId frozenAt nowSecs
  | .pruneChainToFloor beforeEpoch now => (Rooms.pruneChainToFloor roomId beforeEpoch now).bind fun _ => pure ()

end

/-- The row the call writes after it read `room`, if it gets so far. -/
def commit : RoomCall → Room → Option Room
  | .record (.put _ _ now), room => some (takeVersion room now)
  | .record (.curate _ _ now), room => some (takeVersion room now)
  | .record (.prune keys now), room => some (prunedRoom room keys now)
  | .advanceEpoch newEpoch now, room =>
    if newEpoch = (room.epoch + 1) % 2 ^ 32 then
      some { room with epoch := newEpoch, epochExpiresAt := some (now + epochLifetimeSeconds), updatedAt := now }
    else none
  | .setOwner newOwnerDid now, room => some { room with ownerDid := newOwnerDid, updatedAt := now }
  | .setFrozen frozenAt nowSecs, room =>
    some { room with frozenAt := frozenAt, updatedAt := max room.updatedAt (frozenAt.getD nowSecs) }
  | .pruneChainToFloor beforeEpoch now, room =>
    some { room with epochFloor := some (raisedFloor room beforeEpoch), updatedAt := now }

/-- `commit` on the cell, which is empty while the room is not there. -/
def commitRow (call : RoomCall) : Option Room → Option (Option Room)
  | some room => (call.commit room).map some
  | none => none

end RoomCall

/-! ### The room row as a cell -/

/-- The row of room `roomId` as an operation answers it. -/
def rowRead (roomId : String) : (o : StoreOp) → Option (o.Reply → Option Room)
  | .getRoom key => if key = roomKey roomId then some fun (row : Option Room) => row else none
  | _ => none

/-- The row of room `roomId` an operation leaves. -/
def rowWritten (roomId : String) : StoreOp → Option (Option Room)
  | .insertRoom key room => if key = roomKey roomId then some (some room) else none
  | _ => none

section
variable {roomId : String} {o : StoreOp}

theorem exec_rowRead {f : o.Reply → Option Room} (s : HostStore)
    (h : rowRead roomId o = some f) : f (o.exec s).1 = s.room roomId := by
  cases o with
  | getRoom key =>
    by_cases hkey : key = roomKey roomId
    · subst hkey
      obtain rfl := Option.some.inj ((if_pos rfl).symm.trans h)
      rfl
    · cases (if_neg hkey).symm.trans h
  | _ => cases h

theorem exec_rowWritten {row : Option Room} (s : HostStore)
    (h : rowWritten roomId o = some row) : (o.exec s).2.room roomId = row := by
  cases o with
  | insertRoom key =>
    by_cases hkey : key = roomKey roomId
    · subst hkey
      obtain rfl := Option.some.inj ((if_pos rfl).symm.trans h)
      exact HostStore.room_withRoom ..
    · cases (if_neg hkey).symm.trans h
  | _ => cases h

theorem exec_rowKept (s : HostStore) (h : rowWritten roomId o = none) : (o.exec s).2.room roomId = s.room roomId := by
  cases o with
  | insertRoom key =>
    by_cases hkey : key = roomKey roomId
    · cases (if_pos hkey).symm.trans h
    · simp only [HostStore.room, StoreOp.exec, Std.ExtTreeMap.getElem?_insert,
        Std.LawfulEqCmp.compare_eq_iff_eq, hkey, if_false]
  | _ => rfl

end

/-- The row of room `roomId`. -/
def roomCell (roomId : String) : Cell hostInterface (Option Room) where
  value s := HostStore.room s roomId
  reads := rowRead roomId
  writes := rowWritten roomId
  value_read _ _ s h := exec_rowRead s h
  value_write _ _ s h := exec_rowWritten s h
  value_other _ s h := exec_rowKept s h

section
variable {α : Type} {roomId : String} {commit : Option Room → Option (Option Room)}

theorem fetches_getRoom {f : Room → HostProgram α}
    (h : ∀ room, (f room).Holds (roomCell roomId) commit (some room)) :
    ((getRoom roomId).bind f).Fetches (roomCell roomId) commit := by
  refine Program.Fetches.read rfl (if_pos rfl) fun row => ?_
  cases row with
  | none => exact ⟨_, rfl⟩
  | some room => exact h room

theorem fetches_getRecord {key : String} {f : Record → HostProgram α}
    (h : ∀ record, (f record).Fetches (roomCell roomId) commit) :
    ((getRecord roomId key).bind f).Fetches (roomCell roomId) commit := by
  refine Program.Fetches.other rfl rfl fun row => ?_
  cases row with
  | none => exact ⟨_, rfl⟩
  | some record => exact h record

theorem fetches_lift {r : Except AppError Unit} {f : Unit → HostProgram α}
    (h : (f ()).Fetches (roomCell roomId) commit) :
    ((Program.lift r : HostProgram Unit).bind f).Fetches (roomCell roomId) commit := by
  cases r with
  | error e => exact ⟨e, rfl⟩
  | ok => exact h

variable {row : Option Room}

theorem holds_lift {r : Except AppError Unit} {f : Unit → HostProgram α}
    (h : (f ()).Holds (roomCell roomId) commit row) :
    ((Program.lift r : HostProgram Unit).bind f).Holds (roomCell roomId) commit row := by
  cases r with
  | error e => exact ⟨e, rfl⟩
  | ok => exact h

theorem holds_getRecord_ok {key : String} {f : Option Record → HostProgram α}
    (h : ∀ existing, (f existing).Holds (roomCell roomId) commit row) :
    ((getRecord roomId key).ok.bind f).Holds (roomCell roomId) commit row := by
  refine Program.Holds.other rfl rfl fun reply => ?_
  cases reply with
  | none => exact h none
  | some record => exact h (some record)

theorem holds_insertRecord {key : String} {record : Record} {f : Unit → HostProgram α}
    (h : (f ()).Holds (roomCell roomId) commit row) :
    ((insertRecord roomId key record).bind f).Holds (roomCell roomId) commit row :=
  Program.Holds.other rfl rfl fun _ => h

theorem holds_insertRoom {room : Room} {f : Unit → HostProgram α} (hcommit : commit row = some (some room))
    (h : (f ()).Quiet (roomCell roomId)) :
    ((insertRoom roomId room).bind f).Holds (roomCell roomId) commit row :=
  Program.Holds.write (if_pos rfl) hcommit fun _ => h

end

theorem quiet_removeRecord (roomId key : String) : (removeRecord roomId key).Quiet (roomCell roomId) :=
  ⟨rfl, fun _ => trivial⟩

theorem quiet_removeLink (roomId key : String) : (removeLink key).Quiet (roomCell roomId) :=
  ⟨rfl, fun _ => trivial⟩

theorem quiet_pruneChain (roomId : String) (beforeEpoch : Nat) :
    (pruneChain roomId beforeEpoch).Quiet (roomCell roomId) := by
  have hscan : (scanLinks roomId).Quiet (roomCell roomId) := ⟨rfl, fun _ => trivial⟩
  have hlist : (listEpochLinks roomId).Quiet (roomCell roomId) := hscan.bind fun _ => trivial
  have hbefore : (pruneEpochLinksBefore roomId (beforeEpoch - 1)).Quiet (roomCell roomId) := by
    refine hscan.bind fun rows => Program.Quiet.bind (Program.Quiet.forEach ?_) ?_
    · exact fun row => quiet_removeLink roomId row.1
    · exact fun _ => trivial
  exact hbefore.bind fun _ => hlist.bind fun _ => trivial

/-- Every call is one read-modify-write of the row: it writes `commit` of what it read, once, or fails. -/
theorem roomCall_fetches (validateDid : String → String → Except AppError Unit) (roomId : String)
    (call : RoomCall) : (call.program validateDid roomId).Fetches (roomCell roomId) call.commitRow := by
  cases call with
  | record call =>
    cases call with
    | put =>
      simp only [RoomCall.program, putRecord, Program.bind_eq, Program.bind_assoc]
      exact fetches_getRoom fun room => holds_getRecord_ok fun existing => holds_lift (holds_lift
        (holds_insertRecord (holds_insertRoom rfl trivial)))
    | curate =>
      simp only [RoomCall.program, curateRecord, Program.bind_eq, Program.bind_assoc]
      exact fetches_getRecord fun record => fetches_lift (fetches_getRoom fun room =>
        holds_insertRecord (holds_insertRoom rfl trivial))
    | prune keys =>
      simp only [RoomCall.program, removePruned]
      by_cases hkeys : keys.isEmpty = true
      · rw [if_pos hkeys]
        exact ⟨_, rfl⟩
      · rw [if_neg hkeys]
        simp only [Program.bind_eq, Program.bind_assoc]
        exact fetches_getRoom fun room => holds_insertRoom rfl
          ((Program.Quiet.forEach fun key => quiet_removeRecord roomId key).bind fun _ => trivial)
  | advanceEpoch newEpoch =>
    simp only [RoomCall.program, advanceEpoch, Program.bind_eq, Program.bind_assoc]
    refine fetches_getRoom fun room => ?_
    by_cases hepoch : newEpoch = (room.epoch + 1) % 2 ^ 32
    · rw [if_neg (not_not.mpr hepoch)]
      refine holds_insertRoom ?_ trivial
      simp only [RoomCall.commitRow, RoomCall.commit, if_pos hepoch, Option.map_some]
    · rw [if_pos hepoch]
      exact ⟨_, rfl⟩
  | setOwner =>
    simp only [RoomCall.program, setOwner, Program.bind_eq, Program.bind_assoc]
    exact fetches_lift (fetches_getRoom fun room => holds_insertRoom rfl trivial)
  | setFrozen =>
    exact fetches_getRoom fun room => Program.Holds.write (if_pos rfl) rfl fun _ => trivial
  | pruneChainToFloor beforeEpoch =>
    simp only [RoomCall.program, pruneChainToFloor, Program.bind_eq, Program.bind_assoc]
    exact fetches_getRoom fun room => holds_insertRoom rfl
      ((quiet_pruneChain roomId beforeEpoch).bind fun _ => trivial)

/-! ### What a commit keeps -/

/-- The epoch, the counter and the floor do not go back; a floor once set stays set. -/
structure RowLe (before after : Room) : Prop where
  epoch : before.epoch ≤ after.epoch
  nextVersion : before.nextVersion ≤ after.nextVersion
  epochFloor : ∀ floor, before.epochFloor = some floor → ∃ floor', after.epochFloor = some floor' ∧ floor ≤ floor'

theorem RowLe.refl (room : Room) : RowLe room room := ⟨le_rfl, le_rfl, fun floor h => ⟨floor, h, le_rfl⟩⟩

/-- What a call is about; a later call of the same kind replaces an earlier one's effect. -/
inductive RowKind where
  | counter
  | prune
  | epoch
  | owner
  | frozen
  | floor
  deriving DecidableEq

namespace RoomCall

def kind : RoomCall → RowKind
  | .record (.prune _ _) => .prune
  | .record _ => .counter
  | .advanceEpoch _ _ => .epoch
  | .setOwner _ _ => .owner
  | .setFrozen _ _ => .frozen
  | .pruneChainToFloor _ _ => .floor

/-- The call's effect is in the row. A put or a curation leaves nothing there but the counter. -/
def Reflected (room : Room) : RoomCall → Prop
  | .record (.prune keys now) =>
    ∃ mark, room.lastPrune = some mark ∧ mark.prunedAt = now ∧ mark.removed = keys.length
  | .record _ => True
  | .advanceEpoch newEpoch now =>
    room.epoch = newEpoch ∧ room.epochExpiresAt = some (now + epochLifetimeSeconds)
  | .setOwner newOwnerDid _ => room.ownerDid = newOwnerDid
  | .setFrozen frozenAt _ => room.frozenAt = frozenAt
  | .pruneChainToFloor beforeEpoch _ => ∃ floor, room.epochFloor = some floor ∧ max (beforeEpoch - 1) 1 ≤ floor

/-- The call does not wrap a counter of the row: the version is a `u64` and the epoch a `u32`. -/
def Fits (room : Room) : RoomCall → Prop
  | .record _ => room.nextVersion + 1 < 2 ^ 64
  | .advanceEpoch _ _ => room.epoch + 1 < 2 ^ 32
  | _ => True

instance decidableFits (room : Room) (call : RoomCall) : Decidable (call.Fits room) := by
  cases call <;> unfold Fits <;> infer_instance

end RoomCall

section
variable {call : RoomCall} {room room' : Room}

theorem commit_nextVersion (hlock : call.holdsLock = true) (hcommit : call.commit room = some room')
    (hfits : room.nextVersion + 1 < 2 ^ 64) : room'.nextVersion = room.nextVersion + 1 := by
  cases call with
  | record call =>
    cases call <;>
    · obtain rfl := Option.some.inj hcommit
      exact Nat.mod_eq_of_lt hfits
  | _ => cases hlock

theorem commit_rowLe (hcommit : call.commit room = some room') (hfits : call.Fits room) : RowLe room room' := by
  cases call with
  | record call =>
    have hnext := commit_nextVersion rfl hcommit hfits
    cases call <;>
    · obtain rfl := Option.some.inj hcommit
      exact ⟨le_rfl, hnext.ge.trans' (Nat.le_succ _), fun floor h => ⟨floor, h, le_rfl⟩⟩
  | advanceEpoch newEpoch =>
    simp only [RoomCall.commit] at hcommit
    split at hcommit
    · rename_i hepoch
      obtain rfl := Option.some.inj hcommit
      refine ⟨?_, le_rfl, fun floor h => ⟨floor, h, le_rfl⟩⟩
      rw [Nat.mod_eq_of_lt hfits] at hepoch
      change room.epoch ≤ newEpoch
      omega
    · cases hcommit
  | setOwner | setFrozen =>
    obtain rfl := Option.some.inj hcommit
    exact ⟨le_rfl, le_rfl, fun floor h => ⟨floor, h, le_rfl⟩⟩
  | pruneChainToFloor beforeEpoch =>
    obtain rfl := Option.some.inj hcommit
    refine ⟨le_rfl, le_rfl, fun floor h => ⟨raisedFloor room beforeEpoch, rfl, ?_⟩⟩
    simp only [raisedFloor, h, Option.getD_some]
    omega

theorem commit_reflected (hcommit : call.commit room = some room') : call.Reflected room' := by
  cases call with
  | record call =>
    cases call with
    | put | curate => trivial
    | prune keys now =>
      obtain rfl := Option.some.inj hcommit
      exact ⟨pruneMark room keys now, rfl, rfl, rfl⟩
  | advanceEpoch =>
    simp only [RoomCall.commit] at hcommit
    split at hcommit
    · obtain rfl := Option.some.inj hcommit
      exact ⟨rfl, rfl⟩
    · cases hcommit
  | setOwner | setFrozen =>
    obtain rfl := Option.some.inj hcommit
    rfl
  | pruneChainToFloor beforeEpoch =>
    obtain rfl := Option.some.inj hcommit
    refine ⟨raisedFloor room beforeEpoch, rfl, ?_⟩
    unfold raisedFloor
    omega

structure SameBut (kind : RowKind) (room room' : Room) : Prop where
  lastPrune : kind ≠ .prune → room'.lastPrune = room.lastPrune
  epoch : kind ≠ .epoch → room'.epoch = room.epoch ∧ room'.epochExpiresAt = room.epochExpiresAt
  ownerDid : kind ≠ .owner → room'.ownerDid = room.ownerDid
  frozenAt : kind ≠ .frozen → room'.frozenAt = room.frozenAt
  epochFloor : kind ≠ .floor → room'.epochFloor = room.epochFloor

theorem commit_sameBut (hcommit : call.commit room = some room') : SameBut call.kind room room' := by
  cases call with
  | record call =>
    cases call <;>
    · obtain rfl := Option.some.inj hcommit
      constructor <;> simp [RoomCall.kind, takeVersion, prunedRoom]
  | advanceEpoch =>
    simp only [RoomCall.commit] at hcommit
    split at hcommit
    · obtain rfl := Option.some.inj hcommit
      constructor <;> simp [RoomCall.kind]
    · cases hcommit
  | setOwner | setFrozen | pruneChainToFloor =>
    obtain rfl := Option.some.inj hcommit
    constructor <;> simp [RoomCall.kind]

/-- A commit of another kind leaves a call's effect in the row. -/
theorem commit_frame {other : RoomCall} (hcommit : other.commit room = some room') (hkind : other.kind ≠ call.kind)
    (h : call.Reflected room) : call.Reflected room' := by
  have hsame := commit_sameBut hcommit
  cases call with
  | record call =>
    cases call with
    | put | curate => trivial
    | prune =>
      obtain ⟨mark, hmark, hrest⟩ := h
      exact ⟨mark, (hsame.lastPrune hkind).trans hmark, hrest⟩
  | advanceEpoch =>
    exact ⟨(hsame.epoch hkind).1.trans h.1, (hsame.epoch hkind).2.trans h.2⟩
  | setOwner => exact (hsame.ownerDid hkind).trans h
  | setFrozen => exact (hsame.frozenAt hkind).trans h
  | pruneChainToFloor =>
    obtain ⟨floor, hfloor, hle⟩ := h
    exact ⟨floor, (hsame.epochFloor hkind).trans hfloor, hle⟩

end

theorem commitRow_eq_some {call : RoomCall} {row row' : Option Room} (h : call.commitRow row = some row') :
    ∃ room room', row = some room ∧ row' = some room' ∧ call.commit room = some room' := by
  cases row with
  | none => cases h
  | some room =>
    obtain ⟨room', hcommit, rfl⟩ := Option.map_eq_some_iff.mp h
    exact ⟨room, room', rfl, rfl, hcommit⟩

/-! ### Runs -/

section
variable {ι : Type} [DecidableEq ι] (validateDid : String → String → Except AppError Unit) (roomId : String)
  (calls : ι → RoomCall)

/-- The calls, none of them begun, on store `s`. -/
def openCalls (s : HostStore) : Pool hostInterface (Option Room) ι AppError Unit :=
  Pool.start s fun i => (calls i).program validateDid roomId

/-- Call `i` performs its next operation. -/
abbrev stepCalls : Pool hostInterface (Option Room) ι AppError Unit → ι →
    Pool hostInterface (Option Room) ι AppError Unit :=
  Pool.step (roomCell roomId) fun i => (calls i).holdsLock

/-- The calls after `schedule` said, operation by operation, whose turn it was. -/
def runCalls (s : HostStore) (schedule : List ι) : Pool hostInterface (Option Room) ι AppError Unit :=
  run (stepCalls roomId calls) (openCalls validateDid roomId calls s) schedule

/-- The room row as `schedule` leaves it. -/
def rowAfter (s : HostStore) (schedule : List ι) : Option Room :=
  HostStore.room (runCalls validateDid roomId calls s schedule).store roomId

/-- No update of the row is lost: from one state to the next the row does not go back, and every call that
has succeeded is in it, unless a later call of the same kind wrote the row after it. -/
structure NoLostUpdate (s : HostStore) (schedule : List ι) : Prop where
  monotone : ∀ done i rest, schedule = done ++ i :: rest → ∀ room,
    rowAfter validateDid roomId calls s done = some room →
    ∃ room', rowAfter validateDid roomId calls s (done ++ [i]) = some room' ∧ RowLe room room'
  kept : ∀ i, (runCalls validateDid roomId calls s schedule).threads i = .ret (.ok ()) →
    ∃ room, rowAfter validateDid roomId calls s schedule = some room ∧
      ((calls i).Reflected room ∨
        ∃ newer older, (runCalls validateDid roomId calls s schedule).writers = newer ++ i :: older ∧
          ∃ j ∈ newer, (calls j).kind = (calls i).kind)

/-- If call `i` is about to write the row, the row is the one it read; and the call does not wrap a counter of
the row it is scheduled on. -/
def WritesFresh (p : Pool hostInterface (Option Room) ι AppError Unit) (i : ι) : Prop :=
  p.Fresh (roomCell roomId) i ∧ ∀ room ∈ HostStore.room p.store roomId, (calls i).Fits room

instance (p : Pool hostInterface (Option Room) ι AppError Unit) (i : ι) :
    Decidable (WritesFresh roomId calls p i) :=
  inferInstanceAs (Decidable (_ ∧ _))

variable {validateDid roomId calls}

omit [DecidableEq ι] in
theorem serial_reflected {row₀ row : Option Room} {writers : List ι}
    (h : Pool.Serial (fun i => (calls i).commitRow) row₀ writers row) {i : ι} (hi : i ∈ writers) :
    ∃ room, row = some room ∧ ((calls i).Reflected room ∨
      ∃ newer older, writers = newer ++ i :: older ∧ ∃ j ∈ newer, (calls j).kind = (calls i).kind) := by
  induction writers generalizing row with
  | nil => cases hi
  | cons j _ ih =>
    obtain ⟨row', hserial, hrows⟩ := h
    obtain ⟨room', room, rfl, rfl, hcommit⟩ := commitRow_eq_some hrows
    refine ⟨room, rfl, ?_⟩
    rcases List.mem_cons.mp hi with rfl | hi
    · exact Or.inl (commit_reflected hcommit)
    · obtain ⟨_, hrow', hshown⟩ := ih hserial hi
      obtain rfl := Option.some.inj hrow'
      rcases hshown with hshown | ⟨newer, older', rfl, k, hk, hkind⟩
      · by_cases hkind : (calls j).kind = (calls i).kind
        · obtain ⟨newer, older', rfl⟩ := List.append_of_mem hi
          exact Or.inr ⟨j :: newer, older', rfl, j, List.mem_cons_self, hkind⟩
        · exact Or.inl (commit_frame hcommit hkind hshown)
      · exact Or.inr ⟨j :: newer, older', rfl, k, List.mem_cons_of_mem _ hk, hkind⟩

omit [DecidableEq ι] in
/-- Calls that take a version move the counter on once each. -/
theorem serial_nextVersion (hlocked : ∀ i, (calls i).holdsLock = true) {row₀ : Option Room} {writers : List ι}
    {room' : Room} (h : Pool.Serial (fun i => (calls i).commitRow) row₀ writers (some room')) :
    ∃ room, row₀ = some room ∧ (room.nextVersion + writers.length < 2 ^ 64 →
      room'.nextVersion = room.nextVersion + writers.length) := by
  induction writers generalizing room' with
  | nil => exact ⟨room', h.symm, fun _ => rfl⟩
  | cons j older ih =>
    obtain ⟨row, hserial, hrows⟩ := h
    obtain ⟨before, _, rfl, hroom', hcommit⟩ := commitRow_eq_some hrows
    cases hroom'
    obtain ⟨room, hroom, hcount⟩ := ih hserial
    refine ⟨room, hroom, fun hfits => ?_⟩
    rw [List.length_cons] at hfits ⊢
    have hbefore := hcount (by omega)
    rw [commit_nextVersion (hlocked j) hcommit (by omega)]
    omega

variable {s : HostStore} {schedule : List ι}

section
variable (hfresh : Along (stepCalls roomId calls) (WritesFresh roomId calls) (openCalls validateDid roomId calls s)
  schedule)
include hfresh

theorem monotone_of_fresh {done rest : List ι} {i : ι} (hsplit : schedule = done ++ i :: rest)
    {room : Room} (hroom : rowAfter validateDid roomId calls s done = some room) :
    ∃ room', rowAfter validateDid roomId calls s (done ++ [i]) = some room' ∧ RowLe room room' := by
  obtain ⟨hwrite, hfits⟩ := along_iff.mp hfresh done i rest hsplit
  have hphase := Pool.phase_run (fun i => (calls i).holdsLock)
    (Pool.phase_start s fun i => roomCall_fetches validateDid roomId (calls i)) done
  unfold rowAfter runCalls
  rw [run_concat]
  rcases Pool.step_commits (fun i => (calls i).holdsLock) hphase hwrite with ⟨-, hvalue⟩ | ⟨-, hrows⟩
  · exact ⟨room, hvalue.trans hroom, RowLe.refl room⟩
  · obtain ⟨_, room', hrow, hrow', hcommit⟩ := commitRow_eq_some hrows
    obtain rfl := Option.some.inj (hroom.symm.trans hrow)
    exact ⟨room', hrow', commit_rowLe hcommit (hfits room hroom)⟩

theorem kept_of_fresh {i : ι} (hok : (runCalls validateDid roomId calls s schedule).threads i = .ret (.ok ())) :
    ∃ room, rowAfter validateDid roomId calls s schedule = some room ∧
      ((calls i).Reflected room ∨
        ∃ newer older, (runCalls validateDid roomId calls s schedule).writers = newer ++ i :: older ∧
          ∃ j ∈ newer, (calls j).kind = (calls i).kind) := by
  have hfetches := fun i => roomCall_fetches validateDid roomId (calls i)
  have hserial := Pool.run_serial (fun i => (calls i).holdsLock) hfetches schedule
    (hfresh.imp fun _ _ h => h.1)
  have hphase := Pool.phase_run (fun i => (calls i).holdsLock) (Pool.phase_start s hfetches) schedule i
  exact serial_reflected hserial (hphase.wrote_of_ok hok)

end

variable (validateDid roomId calls s schedule)

/-- **Fresh writes lose no update.** However the calls interleave, if every write of the room row finds the
row its call read (and no call runs at the last `u32` epoch or the last `u64` version it would move on), the
epoch, the counter and the floor never go back and every successful call is in the row until a later one of
its kind replaces it. -/
theorem fresh_writes_lose_no_update
    (hfresh : Along (stepCalls roomId calls) (WritesFresh roomId calls)
      (openCalls validateDid roomId calls s) schedule) :
    NoLostUpdate validateDid roomId calls s schedule where
  monotone _ _ _ hsplit _ hroom := monotone_of_fresh hfresh hsplit hroom
  kept _ hok := kept_of_fresh hfresh hok

/-- A put (`false`) and an advance to epoch 2 (`true`), concurrent on the sample room. -/
def putAndAdvance : Bool → RoomCall
  | false => .record (.put (sampleNote "a" "first") none 101)
  | true => .advanceEpoch 2 102

/-- The advance runs to its end before the put reads the row. -/
theorem fresh_writes_lose_no_update_sample :
    NoLostUpdate (fun _ _ => .ok ()) "did:webvh:room" putAndAdvance sampleStore
      [true, true, false, false, false, false] :=
  fresh_writes_lose_no_update _ _ _ _ _ (by decide)

/-- The put reads the row at epoch 1, the advance to epoch 2 runs to its end, and the put's write of the row
puts epoch 1 back. -/
theorem stale_put_undoes_advance :
    ¬ NoLostUpdate (fun _ _ => .ok ()) "did:webvh:room" putAndAdvance sampleStore
      [false, true, true, false, false, false] := by
  intro h
  have hbefore : (rowAfter (fun _ _ => .ok ()) "did:webvh:room" putAndAdvance sampleStore
      [false, true, true, false, false]).map Room.epoch = some 2 := by decide
  have hafter : (rowAfter (fun _ _ => .ok ()) "did:webvh:room" putAndAdvance sampleStore
      [false, true, true, false, false, false]).map Room.epoch = some 1 := by decide
  obtain ⟨room, hroom, hepoch⟩ := Option.map_eq_some_iff.mp hbefore
  obtain ⟨room', hroom', hle⟩ := h.monotone [false, true, true, false, false] false [] rfl room hroom
  rw [show [false, true, true, false, false] ++ [false] = [false, true, true, false, false, false] from rfl] at hroom'
  rw [hroom', Option.map_some, Option.some.injEq] at hafter
  have := hle.epoch
  omega

/-- **The record-write lock is enough for the calls that hold it.** Puts, curations and prunes lose no update
of one another, in any interleaving: the row never goes back, each call that succeeded has moved the counter
on once, and the last prune is in the row. The counter must not pass the last `u64`. -/
theorem locked_calls_lose_no_update (hlocked : ∀ i, (calls i).holdsLock = true)
    (hfits : ∀ room ∈ s.room roomId, room.nextVersion + schedule.length < 2 ^ 64) :
    let pool := runCalls validateDid roomId calls s schedule
    NoLostUpdate validateDid roomId calls s schedule ∧
      (∀ i, pool.threads i = .ret (.ok ()) → pool.writers.count i = 1) ∧
      ∀ room room', s.room roomId = some room → HostStore.room pool.store roomId = some room' →
        room'.nextVersion = room.nextVersion + pool.writers.length := by
  have hfetches := fun i => roomCall_fetches validateDid roomId (calls i)
  have hfresh := Pool.locked_fresh (fun i => (calls i).holdsLock) s hlocked hfetches schedule
  have hserial : ∀ done rest, schedule = done ++ rest → ∀ room',
      rowAfter validateDid roomId calls s done = some room' → ∃ room, s.room roomId = some room ∧
        room'.nextVersion = room.nextVersion + (runCalls validateDid roomId calls s done).writers.length ∧
        room'.nextVersion + rest.length < 2 ^ 64 := by
    rintro done rest rfl room' hroom'
    have hrow := Pool.run_serial _ hfetches done (((Lib.along_append done rest).mp hfresh).1)
    have hrow' : Pool.Serial (fun i => (calls i).commitRow) (s.room roomId)
        (runCalls validateDid roomId calls s done).writers (some room') := hroom' ▸ hrow
    obtain ⟨room, hroom, hcount⟩ := serial_nextVersion hlocked hrow'
    have hlength : (runCalls validateDid roomId calls s done).writers.length ≤ done.length :=
      Pool.writers_length_le _ _ _ _
    have hle := hfits room hroom
    rw [List.length_append] at hle
    exact ⟨room, hroom, hcount (by omega), by rw [hcount (by omega)]; omega⟩
  have hwrites : Along (stepCalls roomId calls) (WritesFresh roomId calls) (openCalls validateDid roomId calls s)
      schedule := by
    refine along_iff.mpr fun done i rest hsplit => ⟨along_iff.mp hfresh done i rest hsplit, fun room' hroom' => ?_⟩
    obtain ⟨room, -, -, hlt⟩ := hserial done (i :: rest) hsplit room' hroom'
    rw [List.length_cons] at hlt
    cases hcall : calls i with
    | record => exact (show room'.nextVersion + 1 < 2 ^ 64 by omega)
    | _ => cases (congrArg RoomCall.holdsLock hcall).symm.trans (hlocked i)
  refine ⟨⟨fun _ _ _ hsplit _ hroom => monotone_of_fresh hwrites hsplit hroom, fun _ hok => kept_of_fresh hwrites hok⟩,
    fun i hok => ?_, fun room room' hroom hroom' => ?_⟩
  · have hphase := Pool.phase_run (fun i => (calls i).holdsLock) (Pool.phase_start s hfetches) schedule i
    exact List.count_eq_one_of_mem (Pool.writers_nodup _ hfetches schedule) (hphase.wrote_of_ok hok)
  · obtain ⟨_, hstart, hcount, -⟩ := hserial schedule [] (List.append_nil _).symm room' hroom'
    cases hroom.symm.trans hstart
    exact hcount

end

/-- Two puts of one note, the second waiting for the first. -/
theorem locked_calls_lose_no_update_puts :
    let pool := runCalls (fun _ _ => .ok ()) "did:webvh:room" (fun _ : Bool => putAndAdvance false) sampleStore
      [true, false, true, true, true, false, false, false, false]
    (∀ i, pool.threads i = .ret (.ok ())) ∧ (∀ i, pool.writers.count i = 1) ∧
      (HostStore.room pool.store "did:webvh:room").map Room.nextVersion = some 3 := by
  have hlost := locked_calls_lose_no_update (fun _ _ => .ok ()) "did:webvh:room" (fun _ : Bool => putAndAdvance false)
    sampleStore [true, false, true, true, true, false, false, false, false] (by decide) (by decide)
  have hended : ∀ i, (runCalls (fun _ _ => .ok ()) "did:webvh:room" (fun _ : Bool => putAndAdvance false) sampleStore
      [true, false, true, true, true, false, false, false, false]).threads i = .ret (.ok ()) := by
    intro i
    cases i <;> rfl
  exact ⟨hended, fun i => hlost.2.1 i (hended i), by decide⟩

end TrustInfrastructure.Rooms
