import TrustInfrastructure.StatusList.Store

/-!
# A slot belongs to one credential

A change takes the row it read, and writes it back whole. So a slot stays with its credential as long as the row a
change reads is the one the last change wrote: as long as no write that reported a failure is left to land behind it,
and no call of `ensure_initial` writes a new list over one that is there (`Calm`). Neither is what the code sees to. A
write that times out is reported as failed and lands after the lock is given up, and `ensure_initial` does not take
the lock: either one puts an old row in place of a newer one, and a slot in it is handed out again
(`slot_handed_out_twice`).

The invariant (`Sound`) says of the stored row, and of every row that may still land, that it has all that callers were
told: the slots handed out are marked, and the bits of the flips that succeeded are set.
-/

namespace TrustInfrastructure.StatusList

open Lib

/-- A change reads the row when no write is left to land, and a new list is written when there is none. -/
def Calm (s : StatusLists) : Event → Prop
  | .begin _ => s.pending = []
  | .create _ _ => s.row = none
  | _ => True

/-! ### What one change does -/

section
variable {state state' : StatusListState} {answer : Answer}

theorem mem_available {i : Nat} (h : i ∈ state.available) :
    i < state.capacity ∧ state.isAssigned i = false ∧ state.isSet i = false := by
  simpa [StatusListState.available] using h

theorem allocate_eq_some {draw index : Nat} (h : state.allocate draw = some (index, state')) :
    index < state.capacity ∧ state.isAssigned index = false ∧ state.isSet index = false ∧
      state' = { state with assigned := state.assigned.set index true } := by
  unfold StatusListState.allocate at h
  split at h
  · cases h
  · rename_i i hi
    cases h
    obtain ⟨hlt, hfree, hclear⟩ := mem_available (List.mem_of_getElem? hi)
    exact ⟨hlt, hfree, hclear, rfl⟩

theorem isAssigned_set {index : Nat} (hin : index < state.assigned.length) (i : Nat) :
    ({ state with assigned := state.assigned.set index true } : StatusListState).isAssigned i =
      if index = i then true else state.isAssigned i := by
  simp only [StatusListState.isAssigned, List.getD_eq_getElem?_getD, List.getElem?_set]
  split <;> simp_all

/-- A change takes nothing from a slot that is taken, hands out only a free one, and leaves every bit but the one it
flips. -/
structure Changes (state : StatusListState) (answer : Answer) (state' : StatusListState) : Prop where
  sized : state'.Sized
  assigned : ∀ i, state.isAssigned i = true → state'.isAssigned i = true
  issued : ∀ i ∈ answer.issues, state.isAssigned i = false ∧ state'.isAssigned i = true ∧ state'.isSet i = false
  set : ∀ revoked, (∀ i ∈ revoked, state.isSet i = true) →
    ∀ i ∈ answer.revokes ++ answer.keeps revoked, state'.isSet i = true

theorem changes_of_apply {op : Operation} (hsized : state.Sized) (h : op.apply state = some (answer, state')) :
    Changes state answer state' := by
  cases op with
  | allocate =>
    obtain ⟨⟨index, taken⟩, htaken, heq⟩ := Option.map_eq_some_iff.mp h
    cases heq
    obtain ⟨hlt, hfree, hclear, rfl⟩ := allocate_eq_some htaken
    have hmark := isAssigned_set (hsized.assigned ▸ hlt : index < state.assigned.length)
    refine ⟨⟨hsized.bits, by simp [hsized.assigned]⟩, fun i hi => ?_, fun i hi => ?_,
      fun revoked hset i hi => hset i hi⟩
    · rw [hmark, hi, ite_self]
    · cases List.mem_singleton.mp hi
      exact ⟨hfree, by rw [hmark, if_pos rfl], hclear⟩
  | flip index revoke =>
    simp only [Operation.apply, StatusListState.flip] at h
    split at h
    · cases h
    rename_i flipped hflip
    split at hflip
    · cases hflip
    rename_i hlt
    cases hflip
    cases h
    have hbyte : index / 8 < state.bits.length := by
      have hbits := hsized.bits
      omega
    have hbit : ∀ i, ({ state with bits := writeBit state.bits index revoke } : StatusListState).isSet i =
        if index = i then revoke else state.isSet i := fun i => readBit_writeBit hbyte i revoke
    refine ⟨⟨by simpa [length_writeBit] using hsized.bits, hsized.assigned⟩, fun i hi => hi, nofun, ?_⟩
    intro revoked hset i hi
    rw [hbit]
    cases revoke with
    | true =>
      rcases List.mem_cons.mp hi with rfl | hi
      · rw [if_pos rfl]
      · rw [hset i hi, ite_self]
    | false =>
      obtain ⟨hi, hne⟩ := List.mem_filter.mp hi
      rw [if_neg (Ne.symm (by simpa using hne)), hset i hi]
  | repoint =>
    cases h
    exact ⟨⟨hsized.bits, hsized.assigned⟩, fun i hi => hi, nofun, fun revoked hset i hi => hset i hi⟩

theorem sized_addDecoys {count : Nat} {draws : List Nat} (hsized : state.Sized) :
    (state.addDecoys count draws).Sized := by
  induction draws generalizing state count with
  | nil => rwa [StatusListState.addDecoys.eq_def]
  | cons _ _ ih =>
    cases count with
    | zero => exact hsized
    | succ =>
      rw [StatusListState.addDecoys]
      split
      · exact ih hsized
      · exact ih ⟨by simpa [length_writeBit] using hsized.bits, hsized.assigned⟩

theorem sized_new (listCredentialId : String) : (StatusListState.new listCredentialId).Sized := by
  refine ⟨?_, List.length_replicate⟩
  change defaultBitstringSize ≤ 8 * (List.replicate ((defaultBitstringSize + 7) / 8) 0#8).length
  rw [List.length_replicate]
  omega

end

/-! ### Runs -/

section
variable {hex : Hex}

/-- The row has what callers were told. -/
def Holds (hex : Hex) (issued revoked : List Nat) (row : StoredRow) : Prop :=
  ∃ state, row.read hex = some state ∧ state.Sized ∧ (∀ i ∈ issued, state.isAssigned i = true) ∧
    ∀ i ∈ revoked, state.isSet i = true

structure Sound (hex : Hex) (s : StatusLists) : Prop where
  row : ∀ row ∈ s.row, Holds hex s.issued s.revoked row
  pending : ∀ row ∈ s.pending, Holds hex s.issued s.revoked row
  holder : ∀ answer state', s.holder = some (answer, state') → s.pending = [] ∧
    ∃ row state op, s.row = some row ∧ row.read hex = some state ∧ Operation.apply state op = some (answer, state')
  fresh : s.row = none → s.issued = [] ∧ s.revoked = []
  creating : ∀ state ∈ s.creating, state.Sized
  issued : s.issued.Nodup

namespace Sound

variable {s : StatusLists}

section
variable (hs : Sound hex s)
include hs

theorem begin (op : Operation) (hcalm : s.pending = []) : Sound hex (s.step hex (.begin op)) := by
  rw [StatusLists.step]
  split
  · rename_i state _ hread
    obtain ⟨row, hrow, hread⟩ := Option.bind_eq_some_iff.mp hread
    exact { hs with holder := fun answer state' happly => ⟨hcalm, row, state, op, hrow, hread, happly⟩ }
  · exact hs

theorem changes {answer : Answer} {state' : StatusListState} (hholder : s.holder = some (answer, state')) :
    ∃ state, (∀ i ∈ s.issued, state.isAssigned i = true) ∧ (∀ i ∈ s.revoked, state.isSet i = true) ∧
      Changes state answer state' := by
  obtain ⟨_, row, state, op, hrow, hread, happly⟩ := hs.holder answer state' hholder
  obtain ⟨state₁, hread₁, hsized, hissued, hset⟩ := hs.row row hrow
  cases hread.symm.trans hread₁
  exact ⟨state, hissued, hset, changes_of_apply hsized happly⟩

theorem finish (outcome : Outcome) : Sound hex (s.step hex (.finish outcome)) := by
  rw [StatusLists.step]
  split
  · exact hs
  rename_i answer state' hholder
  obtain ⟨hpending, row, _, _, hrow, _⟩ := hs.holder answer state' hholder
  obtain ⟨state, hissued, hset, hchanges⟩ := hs.changes hholder
  have hassigned : ∀ i ∈ s.issued, state'.isAssigned i = true := fun i hi => hchanges.assigned i (hissued i hi)
  cases outcome with
  | failed => exact { hs with holder := nofun }
  | late =>
    have hkept : ∀ i ∈ answer.keeps s.revoked, i ∈ s.revoked := by
      intro i hi
      unfold Answer.keeps at hi
      split at hi
      · exact (List.mem_filter.mp hi).1
      · exact hi
    refine { hs with holder := nofun, row := ?_, pending := ?_, fresh := ?_ }
    · intro row hrow
      obtain ⟨state₁, hread, hsized, hissued₁, hset₁⟩ := hs.row row hrow
      exact ⟨state₁, hread, hsized, hissued₁, fun i hi => hset₁ i (hkept i hi)⟩
    · intro row hrow
      rw [hpending, List.nil_append, List.mem_singleton] at hrow
      subst hrow
      exact ⟨state', state'.read_write hex, hchanges.sized, hassigned,
        fun i hi => hchanges.set s.revoked hset i (List.mem_append_right _ hi)⟩
    · intro hnone
      rw [hrow] at hnone
      cases hnone
  | stored =>
    refine { hs with holder := nofun, row := ?_, pending := ?_, fresh := nofun, issued := ?_ }
    · intro row hrow
      cases hrow
      refine ⟨state', state'.read_write hex, hchanges.sized, fun i hi => ?_, hchanges.set s.revoked hset⟩
      rcases List.mem_append.mp hi with hi | hi
      · exact (hchanges.issued i hi).2.1
      · exact hassigned i hi
    · intro row hrow
      change row ∈ s.pending at hrow
      rw [hpending] at hrow
      cases hrow
    · -- a slot is handed out only when it was free
      have hnew : ∀ i ∈ answer.issues, i ∉ s.issued := by
        intro i hi hmem
        have hfree := (hchanges.issued i hi).1
        rw [hissued i hmem] at hfree
        cases hfree
      refine List.nodup_append.mpr ⟨?_, hs.issued, fun i hi j hj heq => hnew i hi (heq ▸ hj)⟩
      unfold Answer.issues
      split <;> simp

theorem create (place : Nat) (outcome : Outcome) (hcalm : s.row = none) :
    Sound hex (s.step hex (.create place outcome)) := by
  rw [StatusLists.step]
  split
  · exact hs
  rename_i state hstate
  obtain ⟨hissued, hrevoked⟩ := hs.fresh hcalm
  have hcreating : ∀ st ∈ s.creating.eraseIdx place, st.Sized :=
    fun st hst => hs.creating st (List.mem_of_mem_eraseIdx hst)
  have hholder : s.holder = none := by
    cases hholder : s.holder with
    | none => rfl
    | some held =>
      obtain ⟨_, row, _, _, hrow, _⟩ := hs.holder held.1 held.2 hholder
      cases hcalm.symm.trans hrow
  have hnew : Holds hex s.issued s.revoked (state.write hex) := by
    rw [hissued, hrevoked]
    exact ⟨state, state.read_write hex, hs.creating state (List.mem_of_getElem? hstate), nofun, nofun⟩
  cases outcome with
  | failed => exact { hs with creating := hcreating }
  | late =>
    refine { hs with creating := hcreating, pending := fun row hrow => ?_, holder := ?_ }
    · rcases List.mem_append.mp hrow with hrow | hrow
      · exact hs.pending row hrow
      · exact List.mem_singleton.mp hrow ▸ hnew
    · intro answer state' hsome
      cases hholder.symm.trans hsome
  | stored =>
    refine { hs with creating := hcreating, row := fun row hrow => ?_, fresh := nofun, holder := ?_ }
    · cases hrow
      exact hnew
    · intro answer state' hsome
      cases hholder.symm.trans hsome

theorem land (place : Nat) : Sound hex (s.step hex (.land place)) := by
  rw [StatusLists.step]
  split
  · exact hs
  rename_i row hrow
  have hmem := List.mem_of_getElem? hrow
  refine { hs with row := ?_, pending := ?_, fresh := nofun, holder := ?_ }
  · intro row' hrow'
    cases hrow'
    exact hs.pending row hmem
  · exact fun row' hrow' => hs.pending row' (List.mem_of_mem_eraseIdx hrow')
  · intro answer state' hholder
    obtain ⟨hpending, _⟩ := hs.holder answer state' hholder
    rw [hpending] at hmem
    cases hmem

theorem step (event : Event) (hcalm : Calm s event) : Sound hex (s.step hex event) := by
  cases event with
  | begin op => exact hs.begin op hcalm
  | finish outcome => exact hs.finish outcome
  | ensure listCredentialId =>
    rw [StatusLists.step]
    split
    · exact hs
    · refine { hs with creating := fun state hstate => ?_ }
      rcases List.mem_append.mp hstate with hstate | hstate
      · exact hs.creating state hstate
      · exact List.mem_singleton.mp hstate ▸ sized_addDecoys (sized_new listCredentialId)
  | create place outcome => exact hs.create place outcome hcalm
  | land place => exact hs.land place
  | restart => exact { hs with holder := nofun, creating := nofun }

end

end Sound

theorem sound_run {events : List Event} (hcalm : Along (StatusLists.step hex) Calm {} events) :
    Sound hex (run (StatusLists.step hex) {} events) :=
  run_induction ⟨nofun, nofun, nofun, fun _ => ⟨rfl, rfl⟩, nofun, .nil⟩ hcalm fun _ event hs => hs.step event

theorem issued_step {s : StatusLists} {event : Event} (hevent : event ≠ .finish .stored) :
    (s.step hex event).issued = s.issued := by
  cases event with
  | restart => rfl
  | finish outcome =>
    rw [StatusLists.step]
    split
    · rfl
    · cases outcome <;> first | rfl | exact absurd rfl hevent
  | create _ outcome =>
    rw [StatusLists.step]
    split
    · rfl
    · cases outcome <;> rfl
  | _ =>
    rw [StatusLists.step]
    split <;> rfl

theorem clear_of_issued {s : StatusLists} (hs : Sound hex s) {event : Event} {i : Nat}
    (hissued : (s.step hex event).issued = i :: s.issued) :
    ∃ state : StatusListState, (s.step hex event).row = some (state.write hex) ∧ state.isSet i = false := by
  by_cases hevent : event = .finish .stored
  · subst hevent
    rw [StatusLists.step] at hissued ⊢
    split at hissued
    · exact absurd hissued.symm (List.cons_ne_self i s.issued)
    rename_i answer state' hholder
    obtain ⟨state, _, _, hchanges⟩ := hs.changes hholder
    refine ⟨state', rfl, (hchanges.issued i ?_).2.2⟩
    have hsplit : answer.issues ++ s.issued = [i] ++ s.issued := hissued
    rw [List.append_cancel_right hsplit]
    exact List.mem_singleton_self i
  · exact absurd ((issued_step hevent).symm.trans hissued).symm (List.cons_ne_self i s.issued)

/-- In every run of calm steps no slot is handed out twice, a slot is handed out with its bit clear, and a bit set by a
flip that succeeded reads set in the stored row until a flip clears it. What is stored reads back as it was. -/
theorem calm_runs_keep_slots {events : List Event} (hcalm : Along (StatusLists.step hex) Calm {} events) :
    let s := run (StatusLists.step hex) {} events
    s.issued.Nodup ∧
      (∀ row ∈ s.row, ∃ state, row.read hex = some state ∧ ∀ i ∈ s.revoked, state.isSet i = true) ∧
      (∀ event i, (s.step hex event).issued = i :: s.issued →
        ∃ state : StatusListState, (s.step hex event).row = some (state.write hex) ∧ state.isSet i = false) ∧
      ∀ state : StatusListState, (state.write hex).read hex = some state := by
  have hs := sound_run hcalm
  refine ⟨hs.issued, fun row hrow => ?_, fun _ _ => clear_of_issued hs, StatusListState.read_write hex⟩
  obtain ⟨state, hread, _, _, hset⟩ := hs.row row hrow
  exact ⟨state, hread, hset⟩

/-! ### Changes one after the other -/

theorem isAssigned_new (i : Nat) : (StatusListState.new "").isAssigned i = false := by
  simp only [StatusListState.isAssigned, StatusListState.new, List.getD_eq_getElem?_getD, List.getElem?_replicate]
  split <;> rfl

theorem allocate_next {state : StatusListState} {i : Nat} (hlt : i < state.capacity)
    (htaken : ∀ j < i, state.isAssigned j = true) (hfree : state.isAssigned i = false)
    (hclear : state.isSet i = false) :
    (Operation.allocate 0).apply state = some (.slot i, { state with assigned := state.assigned.set i true }) := by
  have havailable : ∃ rest, state.available = i :: rest := by
    obtain ⟨n, hn⟩ : ∃ n, state.capacity = i + (n + 1) := ⟨state.capacity - i - 1, by omega⟩
    have hbefore : (List.range i).filter (fun j => !state.isAssigned j && !state.isSet j) = [] := by
      refine List.filter_eq_nil_iff.mpr fun j hj => ?_
      simp [htaken j (List.mem_range.mp hj)]
    rw [StatusListState.available, hn, List.range_add, List.filter_append, hbefore, List.nil_append,
      List.range_succ_eq_map, List.map_cons, Nat.add_zero, List.filter_cons_of_pos (by simp [hfree, hclear])]
    exact ⟨_, rfl⟩
  obtain ⟨rest, hrest⟩ := havailable
  simp [Operation.apply, StatusListState.allocate, hrest]

section
variable {s : StatusLists} {state state' : StatusListState} {op : Operation} {answer : Answer}
  (hholder : s.holder = none) (hrow : s.row = some (state.write hex))
include hholder hrow

theorem step_begin (op : Operation) : s.step hex (.begin op) = { s with holder := op.apply state } := by
  have hread : s.row.bind (StoredRow.read hex) = some state := by
    rw [hrow, Option.bind_some, state.read_write hex]
  simp only [StatusLists.step, hholder, hread]

variable (happly : op.apply state = some (answer, state')) (events : List Event)
include happly

theorem run_change : run (StatusLists.step hex) s (.begin op :: .finish .stored :: events) =
    run (StatusLists.step hex) (s.answered hex answer state') events := by
  rw [run_cons, run_cons, step_begin hholder hrow, happly]
  rfl

theorem along_change (hpending : s.pending = [])
    (hrest : Along (StatusLists.step hex) Calm (s.answered hex answer state') events) :
    Along (StatusLists.step hex) Calm s (.begin op :: .finish .stored :: events) := by
  refine ⟨hpending, trivial, ?_⟩
  rw [step_begin hholder hrow, happly]
  exact hrest

end

end

/-- Every byte as the character of its number. -/
def plainHex : Hex where
  encode bytes := .ofList (bytes.map fun byte => .ofNat byte.toNat)
  decode text := some (text.toList.map fun c => .ofNat 8 c.toNat)
  decode_encode bytes := by
    have hbyte : ∀ n < 256, (Char.ofNat n).toNat = n := by decide +kernel
    have hread (byte : Byte) : BitVec.ofNat 8 (Char.ofNat byte.toNat).toNat = byte := by
      rw [hbyte byte.toNat byte.isLt, BitVec.ofNat_toNat, BitVec.setWidth_eq]
    simp [Function.comp_def, hread]

/-- Two slots are handed out, and the first is revoked. -/
def twoSlots : List Event :=
  [.ensure "" 0 [], .create 0 .stored, .begin (.allocate 0), .finish .stored, .begin (.allocate 0), .finish .stored,
    .begin (.flip 0 true), .finish .stored]

theorem run_twoSlots (hex : Hex) : Along (StatusLists.step hex) Calm {} twoSlots ∧ ∃ row,
    run (StatusLists.step hex) {} twoSlots = { row := some row, issued := [1, 0], revoked := [0] } := by
  let new := StatusListState.new ""
  let one : StatusListState := { new with assigned := new.assigned.set 0 true }
  let two : StatusListState := { one with assigned := one.assigned.set 1 true }
  let flipped : StatusListState := { two with bits := writeBit two.bits 0 true }
  have hone (i : Nat) : one.isAssigned i = if 0 = i then true else new.isAssigned i := by
    refine isAssigned_set ?_ i
    rw [(sized_new "").assigned]
    decide
  have hfirst : (Operation.allocate 0).apply new = some (.slot 0, one) :=
    allocate_next (by decide) nofun (isAssigned_new 0) (readBit_zeros _ _)
  have hsecond : (Operation.allocate 0).apply one = some (.slot 1, two) := by
    refine allocate_next (by decide) (fun j hj => ?_) ?_ (readBit_zeros _ _)
    · rw [hone, if_pos (Nat.lt_one_iff.mp hj).symm]
    · rw [hone, if_neg (by decide), isAssigned_new]
  have hflip : (Operation.flip 0 true).apply two = some (.flipped 0 true, flipped) := rfl
  constructor
  · exact ⟨trivial, rfl, along_change rfl rfl hfirst _ rfl (along_change rfl rfl hsecond _ rfl
      (along_change rfl rfl hflip _ rfl trivial))⟩
  · change ∃ row, run (StatusLists.step hex) { row := some (new.write hex) } _ = _
    rw [run_change rfl rfl hfirst, run_change rfl rfl hsecond, run_change rfl rfl hflip]
    exact ⟨flipped.write hex, rfl⟩

theorem calm_runs_keep_slots_two :
    let s := run (StatusLists.step plainHex) {} twoSlots
    s.issued = [1, 0] ∧ s.issued.Nodup ∧ s.revoked = [0] ∧
      ∃ row state, s.row = some row ∧ row.read plainHex = some state ∧ state.isSet 0 = true := by
  obtain ⟨hcalm, row, hrun⟩ := run_twoSlots plainHex
  obtain ⟨hnodup, hset, _⟩ := calm_runs_keep_slots hcalm
  rw [hrun] at hnodup hset ⊢
  obtain ⟨state, hread, hstate⟩ := hset row rfl
  exact ⟨rfl, hnodup, rfl, row, state, rfl, hread, hstate 0 (List.mem_singleton_self 0)⟩

/-! ### Old rows in the place of new ones -/

/-- A revocation times out and lands after a slot was handed out. -/
def lateRun : List Event :=
  [.ensure "" 0 [], .create 0 .stored, .begin (.flip 5 true), .finish .late, .begin (.allocate 0), .finish .stored,
    .land 0, .begin (.allocate 0), .finish .stored]

/-- Two calls find no list, and the second writes its own after a slot of the first was handed out. -/
def creationRace : List Event :=
  [.ensure "" 0 [], .ensure "" 0 [], .create 0 .stored, .begin (.allocate 0), .finish .stored, .create 0 .stored,
    .begin (.allocate 0), .finish .stored]

theorem issued_again (hex : Hex) :
    ¬ (run (StatusLists.step hex) {} lateRun).issued.Nodup ∧
      ¬ (run (StatusLists.step hex) {} creationRace).issued.Nodup := by
  let new := StatusListState.new ""
  let one : StatusListState := { new with assigned := new.assigned.set 0 true }
  let flipped : StatusListState := { new with bits := writeBit new.bits 5 true }
  have hnew : (Operation.allocate 0).apply new = some (.slot 0, one) :=
    allocate_next (by decide) nofun (isAssigned_new 0) (readBit_zeros _ _)
  constructor
  · have hclear : flipped.isSet 0 = false := by
      refine (readBit_writeBit ?_ 0 true).trans (readBit_zeros _ _)
      change 5 / 8 < (List.replicate _ _).length
      rw [List.length_replicate]
      decide
    have hagain : (Operation.allocate 0).apply flipped = some (.slot 0, _) :=
      allocate_next (by decide) nofun (isAssigned_new 0) hclear
    have hflip : (Operation.flip 5 true).apply new = some (.flipped 5 true, flipped) := rfl
    have hlate (events : List Event) : run (StatusLists.step hex) {} (.ensure "" 0 [] :: .create 0 .stored ::
        .begin (.flip 5 true) :: .finish .late :: events) =
        run (StatusLists.step hex) { row := some (new.write hex), pending := [flipped.write hex] } events := by
      change run (StatusLists.step hex) { row := some (new.write hex) } _ = _
      rw [run_cons, step_begin rfl rfl, hflip]
      rfl
    have hlanded (events : List Event) : run (StatusLists.step hex)
        (StatusLists.answered hex { row := some (new.write hex), pending := [flipped.write hex] } (.slot 0) one)
        (.land 0 :: events) =
        run (StatusLists.step hex) { row := some (flipped.write hex), issued := [0] } events := rfl
    rw [lateRun, hlate, run_change rfl rfl hnew, hlanded, run_change rfl rfl hagain]
    change ¬ [0, 0].Nodup
    decide
  · have hraced (events : List Event) : run (StatusLists.step hex) {}
        (.ensure "" 0 [] :: .ensure "" 0 [] :: .create 0 .stored :: events) =
        run (StatusLists.step hex) { row := some (new.write hex), creating := [new] } events := rfl
    have hagain (state : StatusListState) (events : List Event) : run (StatusLists.step hex)
        (StatusLists.answered hex { row := some (new.write hex), creating := [new] } (.slot 0) state)
        (.create 0 .stored :: events) =
        run (StatusLists.step hex) { row := some (new.write hex), issued := [0] } events := rfl
    rw [creationRace, hraced, run_change rfl rfl hnew, hagain, run_change rfl rfl hnew]
    change ¬ [0, 0].Nodup
    decide

/-- The same slot is handed out twice, by a late write or by two calls that create the list. -/
theorem slot_handed_out_twice :
    ¬ (run (StatusLists.step plainHex) {} lateRun).issued.Nodup ∧
      ¬ (run (StatusLists.step plainHex) {} creationRace).issued.Nodup :=
  issued_again plainHex

end TrustInfrastructure.StatusList
