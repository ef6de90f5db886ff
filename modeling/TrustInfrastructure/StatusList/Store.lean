import TrustInfrastructure.Lib.Run

/-!
# A status list and its stored row

A community's status list is a string of bits, most significant first, and a mask of the slots handed out. Both are
stored packed and in hex (`Hex`). What is stored reads back as it was (`read_write`), whatever its size.

The row is rewritten whole by every change, and each change is a read, a change in memory and a write. `StatusLists` is
the row with what is under way about it: the holder of the write lock, between its read and its write; the calls of
`ensure_initial` that found no row and have not written theirs, which hold no lock; and the writes that reported a
failure and may still land.
-/

namespace TrustInfrastructure.StatusList

open Lib

abbrev Byte := BitVec 8

/-! ### Bits in bytes -/

def bitOf (byte : Byte) (i : Nat) : Bool := (byte >>> (7 - i % 8)) &&& 1#8 == 1#8

def withBit (byte : Byte) (i : Nat) (value : Bool) : Byte :=
  if value then byte ||| (1#8 <<< (7 - i % 8)) else byte &&& ~~~(1#8 <<< (7 - i % 8))

def readBit (bits : List Byte) (i : Nat) : Bool := bitOf (bits.getD (i / 8) 0#8) i

def writeBit (bits : List Byte) (i : Nat) (value : Bool) : List Byte := bits.modify (i / 8) (withBit · i value)

theorem bitOf_eq (byte : Byte) (i : Nat) : bitOf byte i = byte.getLsbD (7 - i % 8) := by
  unfold bitOf
  rw [BitVec.and_one_eq_setWidth_ofBool_getLsbD, BitVec.getLsbD_ushiftRight, Nat.add_zero]
  cases byte.getLsbD (7 - i % 8) <;> rfl

theorem bitOf_withBit (byte : Byte) (i j : Nat) (value : Bool) :
    bitOf (withBit byte i value) j = if i % 8 = j % 8 then value else bitOf byte j := by
  have hj : 7 - j % 8 < 8 := by omega
  rw [bitOf_eq, bitOf_eq]
  unfold withBit
  rw [← BitVec.twoPow_eq]
  by_cases hsame : i % 8 = j % 8
  · cases value <;> simp [hj, hsame]
  · have hne : 7 - j % 8 ≠ 7 - i % 8 := by omega
    cases value <;> simp [hj, hne, hsame]

theorem length_writeBit (bits : List Byte) (i : Nat) (value : Bool) : (writeBit bits i value).length = bits.length := by
  simp [writeBit]

theorem readBit_writeBit {bits : List Byte} {i : Nat} (hi : i / 8 < bits.length) (j : Nat) (value : Bool) :
    readBit (writeBit bits i value) j = if i = j then value else readBit bits j := by
  unfold readBit writeBit
  rw [List.getD_eq_getElem?_getD, List.getD_eq_getElem?_getD, List.getElem?_modify]
  by_cases hbyte : i / 8 = j / 8
  · have hiff : i % 8 = j % 8 ↔ i = j := by omega
    rw [← hbyte, List.getElem?_eq_getElem hi]
    simp [bitOf_withBit, hiff]
  · have hne : i ≠ j := fun h => hbyte (congrArg (· / 8) h)
    simp [hbyte, hne]

/-! ### Stored forms -/

def pack (mask : List Bool) : List Byte :=
  mask.zipIdx.foldl (fun bits slot => if slot.1 then writeBit bits slot.2 true else bits)
    (List.replicate ((mask.length + 7) / 8) 0#8)

def unpack (len : Nat) (bits : List Byte) : List Bool := (List.range len).map (readBit bits)

/-- The `hex` crate: bytes as text, and what is written reads back. -/
structure Hex where
  encode : List Byte → String
  decode : String → Option (List Byte)
  decode_encode (bytes : List Byte) : decode (encode bytes) = some bytes

theorem readBit_packLoop (mask : List Bool) (start : Nat) (bits : List Byte)
    (hfits : start + mask.length ≤ 8 * bits.length) (j : Nat) :
    readBit ((mask.zipIdx start).foldl (fun bits slot => if slot.1 then writeBit bits slot.2 true else bits) bits) j =
      (readBit bits j || (decide (start ≤ j) && mask.getD (j - start) false)) := by
  induction mask generalizing start bits with
  | nil => simp
  | cons b _ ih =>
    rw [List.length_cons] at hfits
    have hstart : start / 8 < bits.length := by omega
    have hstep : readBit (if b then writeBit bits start true else bits) j =
        (readBit bits j || (decide (start = j) && b)) := by
      cases b
      · simp
      · rw [if_pos rfl, readBit_writeBit hstart]
        by_cases h : start = j <;> simp [h]
    rw [List.zipIdx_cons, List.foldl_cons, ih]
    · rw [hstep, Bool.or_assoc]
      congr 1
      by_cases hlt : start + 1 ≤ j
      · have hle : start ≤ j := by omega
        have hne : start ≠ j := by omega
        have hsub : j - start = (j - (start + 1)) + 1 := by omega
        simp [hlt, hle, hne, hsub]
      · by_cases heq : start = j
        · subst heq
          simp
        · have hnot : ¬ start ≤ j := by omega
          simp [hlt, heq, hnot]
    · split
      · rw [length_writeBit]
        omega
      · omega

theorem readBit_zeros (n j : Nat) : readBit (List.replicate n 0#8) j = false := by
  unfold readBit
  rw [bitOf_eq, List.getD_eq_getElem?_getD, List.getElem?_replicate]
  split <;> simp

theorem readBit_pack (mask : List Bool) (j : Nat) : readBit (pack mask) j = mask.getD j false := by
  unfold pack
  rw [readBit_packLoop _ _ _ (by rw [List.length_replicate]; omega), readBit_zeros]
  simp

theorem unpack_pack (mask : List Bool) : unpack mask.length (pack mask) = mask :=
  List.ext_getElem (by simp [unpack]) fun i _ hi => by simp [unpack, readBit_pack, hi]

/-! ### The list -/

/-- The number of bits of a list, `DEFAULT_BITSTRING_SIZE`. -/
def defaultBitstringSize : Nat := 131072

structure StatusListState where
  capacity : Nat
  bits : List Byte
  assigned : List Bool
  listCredentialId : String

namespace StatusListState

def new (listCredentialId : String) : StatusListState where
  capacity := defaultBitstringSize
  bits := List.replicate ((defaultBitstringSize + 7) / 8) 0#8
  assigned := List.replicate defaultBitstringSize false
  listCredentialId := listCredentialId

def isSet (state : StatusListState) (index : Nat) : Bool := readBit state.bits index

def isAssigned (state : StatusListState) (index : Nat) : Bool := state.assigned.getD index false

def available (state : StatusListState) : List Nat :=
  (List.range state.capacity).filter fun i => !state.isAssigned i && !state.isSet i

/-- A free slot, at the place drawn, and the state in which it is taken. -/
def allocate (state : StatusListState) (draw : Nat) : Option (Nat × StatusListState) :=
  match state.available[draw % state.available.length]? with
  | none => none
  | some index => some (index, { state with assigned := state.assigned.set index true })

def flip (state : StatusListState) (index : Nat) (revoked : Bool) : Except String StatusListState :=
  if state.capacity ≤ index then .error "index out of bounds for status list"
  else .ok { state with bits := writeBit state.bits index revoked }

/-- Bits set on free slots at random, until there are `count` of them or no draw is left. -/
def addDecoys (state : StatusListState) : Nat → List Nat → StatusListState
  | _, [] => state
  | 0, _ => state
  | count + 1, draw :: draws =>
    let index := draw % state.capacity
    if state.isAssigned index || state.isSet index then state.addDecoys (count + 1) draws
    else addDecoys { state with bits := writeBit state.bits index true } count draws

/-- The draws are cut off after `count * 8`, or 1024 if that is more. -/
def addInitialDecoys (state : StatusListState) (count : Nat) (draws : List Nat) : StatusListState :=
  state.addDecoys count (draws.take (max (count * 8) 1024))

/-- The sizes the code keeps: a bit and a mark for every slot. -/
structure Sized (state : StatusListState) : Prop where
  bits : state.capacity ≤ 8 * state.bits.length
  assigned : state.assigned.length = state.capacity

end StatusListState

structure StoredRow where
  capacity : Nat
  bits : String
  assignedLen : Nat
  assignedBits : String
  listCredentialId : String

section
variable (hex : Hex)

def StatusListState.write (state : StatusListState) : StoredRow where
  capacity := state.capacity
  bits := hex.encode state.bits
  assignedLen := state.assigned.length
  assignedBits := hex.encode (pack state.assigned)
  listCredentialId := state.listCredentialId

def StoredRow.read (row : StoredRow) : Option StatusListState := do
  let bits ← hex.decode row.bits
  let assigned ← hex.decode row.assignedBits
  return ⟨row.capacity, bits, unpack row.assignedLen assigned, row.listCredentialId⟩

theorem StatusListState.read_write (state : StatusListState) : (state.write hex).read hex = some state := by
  unfold write StoredRow.read
  simp only [hex.decode_encode, Option.bind_eq_bind, Option.bind_some, unpack_pack]
  rfl

end

/-! ### Changes under way -/

/-- A change made under the lock. -/
inductive Operation where
  | allocate (draw : Nat)
  | flip (index : Nat) (revoked : Bool)
  | repoint (listCredentialId : String)

/-- What the caller of a change is told when it succeeds. -/
inductive Answer where
  | slot (index : Nat)
  | flipped (index : Nat) (revoked : Bool)
  | repointed

def Operation.apply (state : StatusListState) : Operation → Option (Answer × StatusListState)
  | .allocate draw => (state.allocate draw).map fun taken => (.slot taken.1, taken.2)
  | .flip index revoked =>
    match state.flip index revoked with
    | .error _ => none
    | .ok state' => some (.flipped index revoked, state')
  | .repoint listCredentialId => some (.repointed, { state with listCredentialId })

/-- How a change ends: stored; not stored, since the credential was not built or the write failed; or reported as
failed, with the write still to land. -/
inductive Outcome where
  | stored
  | failed
  | late

/-- The row, what is under way, and what callers were told: the slots handed out, and the bits set by a flip that
succeeded and not cleared since. -/
structure StatusLists where
  row : Option StoredRow := none
  pending : List StoredRow := []
  holder : Option (Answer × StatusListState) := none
  creating : List StatusListState := []
  issued : List Nat := []
  revoked : List Nat := []

inductive Event where
  /-- A change takes the lock, reads the row and applies itself. -/
  | begin (operation : Operation)
  /-- The holder of the lock writes, or gives up. -/
  | finish (outcome : Outcome)
  /-- `ensure_initial` reads the row, without the lock. -/
  | ensure (listCredentialId : String) (decoys : Nat) (draws : List Nat)
  /-- An `ensure_initial` that found no row writes its own. -/
  | create (place : Nat) (outcome : Outcome)
  /-- A write that reported a failure lands. -/
  | land (place : Nat)
  | restart

/-- The bits a caller may still rely on, once a change is written or may be. -/
def Answer.keeps (revoked : List Nat) : Answer → List Nat
  | .flipped index false => revoked.filter (· ≠ index)
  | _ => revoked

def Answer.issues : Answer → List Nat
  | .slot index => [index]
  | _ => []

def Answer.revokes : Answer → List Nat
  | .flipped index true => [index]
  | _ => []

namespace StatusLists

/-- The change is stored, the lock is given up and its caller has the answer. -/
def answered (hex : Hex) (s : StatusLists) (answer : Answer) (state : StatusListState) : StatusLists :=
  { s with
    row := some (state.write hex)
    holder := none
    issued := answer.issues ++ s.issued
    revoked := answer.revokes ++ answer.keeps s.revoked }

def step (hex : Hex) (s : StatusLists) : Event → StatusLists
  | .begin operation =>
    match s.holder, s.row.bind (StoredRow.read hex) with
    | none, some state => { s with holder := operation.apply state }
    -- the lock is taken, or the list is not there
    | _, _ => s
  | .finish outcome =>
    match s.holder with
    | none => s
    | some (answer, state) =>
      match outcome with
      | .stored => s.answered hex answer state
      | .failed => { s with holder := none }
      | .late => { s with
          pending := s.pending ++ [state.write hex], holder := none, revoked := answer.keeps s.revoked }
  | .ensure listCredentialId decoys draws =>
    match s.row with
    -- a row of another address is changed by a `repoint` of its own
    | some _ => s
    | none => { s with
        creating := s.creating ++ [(StatusListState.new listCredentialId).addInitialDecoys decoys draws] }
  | .create place outcome =>
    match s.creating[place]? with
    | none => s
    | some state =>
      let s := { s with creating := s.creating.eraseIdx place }
      match outcome with
      | .stored => { s with row := some (state.write hex) }
      | .failed => s
      | .late => { s with pending := s.pending ++ [state.write hex] }
  | .land place =>
    match s.pending[place]? with
    | none => s
    | some row => { s with row := some row, pending := s.pending.eraseIdx place }
  | .restart => { s with holder := none, creating := [] }

end StatusLists

end TrustInfrastructure.StatusList
