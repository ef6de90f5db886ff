import TrustInfrastructure.Lib.Run
import TrustInfrastructure.Rooms.Types

/-!
# Derivation counters

`vti-common/src/store/counter.rs`: blocks of `u32` indices handed out from counters kept in the store. A call
holds the one counter lock from its read to its answer, so calls follow one another; any of the store's steps
may fail, and from the counter's write on, the counter has moved although the caller gets an error.

An index handed out twice is a private key derived twice. As long as the counter never wraps, what was handed
out lies below it and what will be is at or above it (`le_start_of_mem`), so no block meets another
(`blocks_disjoint`). The sum that moves it is a plain `u32` addition, and a block that reaches the top takes it
back to where it was before (`block_handed_out_twice`).
-/

namespace TrustInfrastructure.Common

open Rooms (AppError)
open Std (ExtTreeMap)

/-! ### The counter in the store -/

/-- `u32::to_le_bytes`. -/
def toLeBytes (n : UInt32) : List UInt8 := [n.toUInt8, (n >>> 8).toUInt8, (n >>> 16).toUInt8, (n >>> 24).toUInt8]

/-- `u32::from_le_bytes`, of four bytes only. -/
def fromLeBytes : List UInt8 → Option UInt32
  | [a, b, c, d] => some (UInt32.ofNat (a.toNat + 256 * (b.toNat + 256 * (c.toNat + 256 * d.toNat))))
  | _ => none

theorem fromLeBytes_toLeBytes (n : UInt32) : fromLeBytes (toLeBytes n) = some n := by
  have hn := n.toNat_lt
  unfold fromLeBytes toLeBytes
  apply congrArg some
  apply UInt32.toNat_inj.mp
  simp only [UInt32.toNat_ofNat', UInt32.toNat_toUInt8, UInt32.toNat_shiftRight, UInt32.reduceToNat,
    Nat.shiftRight_eq_div_pow, Nat.reduceMod, Nat.reducePow] at hn ⊢
  omega

/-- A keyspace's counters, undecoded. -/
abbrev Counters := ExtTreeMap String (List UInt8)

def readU32 (rows : Counters) (key : String) : Except AppError UInt32 :=
  match rows[key]? with
  | none => .ok 0
  | some bytes =>
    match fromLeBytes bytes with
    | some n => .ok n
    | none => .error (.internal s!"corrupt counter at {key}")

def value (rows : Counters) (key : String) : Nat := ((readU32 rows key).toOption.map UInt32.toNat).getD 0

theorem value_of_readU32 {rows : Counters} {key : String} {current : UInt32} (h : readU32 rows key = .ok current) :
    value rows key = current.toNat := by
  simp [value, h, Except.toOption]

theorem readU32_insert (rows : Counters) (key : String) (n : UInt32) :
    readU32 (rows.insert key (toLeBytes n)) key = .ok n := by
  simp [readU32, fromLeBytes_toLeBytes]

theorem readU32_insert_of_ne {rows : Counters} {key key' : String} (hne : key ≠ key') (bytes : List UInt8) :
    readU32 (rows.insert key bytes) key' = readU32 rows key' := by
  simp [readU32, ExtTreeMap.getElem?_insert, hne]

/-! ### Allocating -/

/-- The step of a call that fails. An insertion may fail with the row stored. -/
inductive Stage where
  | read
  | insert (stored : Bool)
  | persist
  | reseal
  deriving DecidableEq

structure Fault where
  stage : Stage
  error : AppError
  deriving DecidableEq

/-- A call of `allocate_u32_block`, and where the store fails it, if it does. `allocate_u32` is a call for one
value with nothing expected. -/
structure Call where
  key : String
  count : UInt32
  expected : Option UInt32
  fault : Option Fault

namespace Call

variable (call : Call) (rows : Counters)

/-- The stored counter, read in the store. -/
def current : Except AppError UInt32 :=
  match call.fault with
  | some ⟨.read, e⟩ => .error e
  | _ => readU32 rows call.key

/-- Move the counter past the block. The sum is a `u32`'s and wraps. -/
def bump (current : UInt32) : Except AppError UInt32 × Counters :=
  if call.count = 0 then (.ok current, rows)
  else
    let bumped := rows.insert call.key (toLeBytes (current + call.count))
    match call.fault with
    | some ⟨.insert stored, e⟩ => (.error e, if stored then bumped else rows)
    | some ⟨.persist, e⟩ => (.error e, bumped)
    | some ⟨.reseal, e⟩ => (.error e, bumped)
    | _ => (.ok current, bumped)

def movedMessage (expected current : UInt32) : String :=
  "derivation counter at `" ++ call.key ++ "` moved from " ++ toString expected.toNat ++ " to "
    ++ toString current.toNat ++ " while a decision was pending — the keys this would derive are not the keys "
    ++ "that were approved"

/-- Allocate a contiguous block of `count` values: the first of them, and the counters after. -/
def allocateU32Block : Except AppError UInt32 × Counters :=
  match call.current rows with
  | .error e => (.error e, rows)
  | .ok current =>
    match call.expected with
    | none => call.bump rows current
    | some expected =>
      if current ≠ expected then (.error (.conflict (call.movedMessage expected current)), rows)
      else call.bump rows current

structure Lands : Prop where
  readable : (call.current rows).isOk = true
  expected : ∀ e ∈ call.expected, value rows call.key = e.toNat
  count : call.count ≠ 0
  stored : call.fault.map Fault.stage ≠ some (.insert false)

/-- A call whose write lands leaves the counter within a `u32`. -/
def Fits : Prop := call.Lands rows → value rows call.key + call.count.toNat < 2 ^ 32

/-- The counters after the call. -/
abbrev after (rows : Counters) (call : Call) : Counters := (call.allocateU32Block rows).2

end Call

section
variable {call : Call} {rows : Counters}

theorem readU32_of_current {current : UInt32} (h : call.current rows = .ok current) :
    readU32 rows call.key = .ok current := by
  unfold Call.current at h
  split at h
  · exact absurd h (by simp)
  · exact h

theorem bump_cases (current : UInt32) (hcurrent : call.current rows = .ok current)
    (hexpected : ∀ e ∈ call.expected, current = e) :
    (call.Lands rows ∧ (call.bump rows current).2 = rows.insert call.key (toLeBytes (current + call.count)) ∧
        ∀ start, (call.bump rows current).1 = .ok start → start = current) ∨
      ((call.bump rows current).2 = rows ∧
        ∀ start, (call.bump rows current).1 = .ok start → call.count = 0) := by
  have hvalue := value_of_readU32 (readU32_of_current hcurrent)
  by_cases hcount : call.count = 0
  · right
    unfold Call.bump
    rw [if_pos hcount]
    exact ⟨rfl, fun _ _ => hcount⟩
  have hlands : call.fault.map Fault.stage ≠ some (.insert false) → call.Lands rows := by
    intro hstored
    refine ⟨by simp [hcurrent, Except.isOk, Except.toBool], ?_, hcount, hstored⟩
    intro e he
    rw [hvalue, hexpected e he]
  unfold Call.bump
  rw [if_neg hcount]
  rcases hfault : call.fault with _ | ⟨stage, e⟩
  · exact .inl ⟨hlands (by simp [hfault]), rfl, fun start h => (Except.ok.inj h).symm⟩
  rcases stage with _ | stored | _ | _
  · exact .inl ⟨hlands (by simp [hfault]), rfl, fun start h => (Except.ok.inj h).symm⟩
  · cases stored with
    | false => exact .inr ⟨rfl, fun start h => by simp at h⟩
    | true => exact .inl ⟨hlands (by simp [hfault]), rfl, fun start h => by simp at h⟩
  · exact .inl ⟨hlands (by simp [hfault]), rfl, fun start h => by simp at h⟩
  · exact .inl ⟨hlands (by simp [hfault]), rfl, fun start h => by simp at h⟩

/-- What a call does: its write lands over the counter it read, and what it answers, if it does, is that; or the
counters stay, and what it answers, if it does, is an empty block. -/
theorem allocate_cases (call : Call) (rows : Counters) :
    (∃ current, call.current rows = .ok current ∧ call.Lands rows ∧
        (call.allocateU32Block rows).2 = rows.insert call.key (toLeBytes (current + call.count)) ∧
        ∀ start, (call.allocateU32Block rows).1 = .ok start → start = current) ∨
      ((call.allocateU32Block rows).2 = rows ∧
        ∀ start, (call.allocateU32Block rows).1 = .ok start → call.count = 0) := by
  unfold Call.allocateU32Block
  split
  · exact .inr ⟨rfl, fun start h => by simp at h⟩
  rename_i current hcurrent
  have hbump := bump_cases current hcurrent
  split
  · rename_i hnone
    rcases hbump (by simp [hnone]) with h | h
    · exact .inl ⟨current, hcurrent, h⟩
    · exact .inr h
  rename_i expected hsome
  split
  · exact .inr ⟨rfl, fun start h => by simp at h⟩
  rename_i hequal
  rcases hbump (by simpa [hsome] using hequal) with h | h
  · exact .inl ⟨current, hcurrent, h⟩
  · exact .inr h

end

/-! ### Runs -/

structure Block where
  start : UInt32
  count : UInt32
  deriving DecidableEq

namespace Block

def indices (b : Block) : Set Nat := Set.Ico b.start.toNat (b.start.toNat + b.count.toNat)

end Block

def blocks (key : String) : List Call → Counters → List Block
  | [], _ => []
  | call :: calls, rows =>
    let rest := blocks key calls (call.allocateU32Block rows).2
    match (call.allocateU32Block rows).1 with
    | .ok start => if call.key = key then ⟨start, call.count⟩ :: rest else rest
    | .error _ => rest

/-- Every call of the run on the counter leaves it within a `u32`. -/
abbrev AllFit (key : String) (calls : List Call) (rows : Counters) : Prop :=
  Lib.Along Call.after (fun rows call => call.key = key → call.Fits rows) rows calls

section
variable {key : String} {call : Call} {rows : Counters}

/-- A call on another counter leaves this one. -/
theorem value_of_ne (hne : call.key ≠ key) : value (call.allocateU32Block rows).2 key = value rows key := by
  rcases allocate_cases call rows with ⟨current, -, -, hrows, -⟩ | ⟨hrows, -⟩
  · rw [hrows, value, readU32_insert_of_ne hne]
    rfl
  · rw [hrows]

theorem value_step (hkey : call.key = key) (hfits : call.Fits rows) :
    value rows key ≤ value (call.allocateU32Block rows).2 key ∧
      ∀ start, (call.allocateU32Block rows).1 = .ok start → call.count ≠ 0 →
        start.toNat = value rows key ∧
          value (call.allocateU32Block rows).2 key = value rows key + call.count.toNat ∧
          value rows key + call.count.toNat < 2 ^ 32 := by
  subst hkey
  rcases allocate_cases call rows with ⟨current, hcurrent, hlands, hrows, hstart⟩ | ⟨hrows, hempty⟩
  · have hvalue := value_of_readU32 (readU32_of_current hcurrent)
    have hbound := hfits hlands
    have hnext : value (call.allocateU32Block rows).2 call.key = value rows call.key + call.count.toNat := by
      rw [hrows, value_of_readU32 (readU32_insert _ _ _), UInt32.toNat_add, ← hvalue]
      omega
    refine ⟨by omega, ?_⟩
    intro start hanswer _
    rw [hstart start hanswer]
    exact ⟨hvalue.symm, hnext, hbound⟩
  · rw [hrows]
    refine ⟨Nat.le_refl _, ?_⟩
    intro start hanswer hcount
    exact absurd (hempty start hanswer) hcount

/-- What is handed out later starts at the counter or above, and ends within a `u32`. -/
theorem le_start_of_mem (calls : List Call) (rows : Counters) (hfit : AllFit key calls rows) :
    ∀ b ∈ blocks key calls rows, b.count ≠ 0 →
      value rows key ≤ b.start.toNat ∧ b.start.toNat + b.count.toNat < 2 ^ 32 := by
  induction calls generalizing rows with
  | nil =>
    intro b hb
    simp [blocks] at hb
  | cons call calls ih =>
    intro b hb hcount
    have hlater := ih (call.allocateU32Block rows).2 hfit.2
    have hmono : value rows key ≤ value (call.allocateU32Block rows).2 key := by
      by_cases hkey : call.key = key
      · exact (value_step hkey (hfit.1 hkey)).1
      · exact Nat.le_of_eq (value_of_ne hkey).symm
    have hrest : b ∈ blocks key calls (call.allocateU32Block rows).2 →
        value rows key ≤ b.start.toNat ∧ b.start.toNat + b.count.toNat < 2 ^ 32 := by
      intro hb
      obtain ⟨hle, hbound⟩ := hlater b hb hcount
      exact ⟨by omega, hbound⟩
    unfold blocks at hb
    split at hb
    · rename_i start hanswer
      split at hb
      · rename_i hkey
        rcases List.mem_cons.mp hb with rfl | hb
        · obtain ⟨hstart, -, hbound⟩ := (value_step hkey (hfit.1 hkey)).2 start hanswer hcount
          simp only at hcount ⊢
          omega
        · exact hrest hb
      · exact hrest hb
    · exact hrest hb

theorem disjoint_of_le {a b : Block} (h : a.count ≠ 0 → b.count ≠ 0 → a.start.toNat + a.count.toNat ≤ b.start.toNat) :
    Disjoint a.indices b.indices := by
  rw [Set.disjoint_left]
  intro i ha hb
  simp only [Block.indices, Set.mem_Ico] at ha hb
  have hne : ∀ n : UInt32, 0 < n.toNat → n ≠ 0 := by
    intro n hn h0
    simp [h0] at hn
  have hle := h (hne _ (by omega)) (hne _ (by omega))
  omega

theorem pairwise_blocks (calls : List Call) (rows : Counters) (hfit : AllFit key calls rows) :
    (blocks key calls rows).Pairwise fun a b => Disjoint a.indices b.indices := by
  induction calls generalizing rows with
  | nil => exact List.Pairwise.nil
  | cons call calls ih =>
    have hrest := ih (call.allocateU32Block rows).2 hfit.2
    unfold blocks
    split
    · rename_i start hanswer
      split
      · rename_i hkey
        refine List.pairwise_cons.mpr ⟨?_, hrest⟩
        -- the counter has moved past the first block, and the later ones start there
        intro b hb
        apply disjoint_of_le
        intro hcount hcount'
        obtain ⟨hstart, hnext, -⟩ := (value_step hkey (hfit.1 hkey)).2 start hanswer hcount
        have hle := (le_start_of_mem calls (call.allocateU32Block rows).2 hfit.2 b hb hcount').1
        simp only at hcount ⊢
        omega
      · exact hrest
    · exact hrest

end

/-- **Derivation indices are not handed out twice, short of a wrap.** In any run of calls on any counters, with
any of the store's steps failing, if each call whose counter write lands leaves the counter within a `u32`, the
blocks handed out are pairwise disjoint and lie within a `u32`. A call refused for a wrong expectation changes
nothing, in every state. -/
theorem blocks_disjoint (key : String) (calls : List Call) (rows : Counters) (hfit : AllFit key calls rows) :
    ((blocks key calls rows).Pairwise fun a b => Disjoint a.indices b.indices) ∧
    (∀ b ∈ blocks key calls rows, b.start.toNat + b.count.toNat ≤ 2 ^ 32) ∧
    ∀ (call : Call) (rows : Counters) (current expected : UInt32), call.current rows = .ok current →
      call.expected = some expected → current ≠ expected →
        call.allocateU32Block rows = (.error (.conflict (call.movedMessage expected current)), rows) := by
  refine ⟨pairwise_blocks calls rows hfit, ?_, ?_⟩
  · intro b hb
    have hstart := b.start.toNat_lt
    by_cases hcount : b.count = 0
    · rw [hcount]
      exact Nat.le_of_lt hstart
    · exact Nat.le_of_lt (le_start_of_mem calls rows hfit b hb hcount).2
  · intro call rows current expected hcurrent hexpected hne
    unfold Call.allocateU32Block
    simp only [hcurrent, hexpected, if_pos hne]

/-! ### Two runs -/

/-- Three blocks, the second expected where it is, the third lost to a failed fsync, and one more. -/
def sampleCalls : List Call :=
  [⟨"c", 3, none, none⟩, ⟨"c", 1, some 3, none⟩, ⟨"c", 2, none, some ⟨.persist, .internal "fsync"⟩⟩,
    ⟨"c", 5, none, none⟩]

theorem blocks_disjoint_sample :
    blocks "c" sampleCalls ∅ = [⟨0, 3⟩, ⟨3, 1⟩, ⟨6, 5⟩] ∧
      (blocks "c" sampleCalls ∅).Pairwise fun a b => Disjoint a.indices b.indices := by
  refine ⟨by decide +kernel, (blocks_disjoint "c" sampleCalls ∅ ⟨fun _ _ => ?_, fun _ _ => ?_, fun _ _ => ?_,
    fun _ _ => ?_, trivial⟩).1⟩
  · decide +kernel
  · decide +kernel
  · decide +kernel
  · decide +kernel

/-- The counter taken to the top of its range, one value from there, and one more. -/
def wrappingCalls : List Call :=
  [⟨"c", 4294967295, none, none⟩, ⟨"c", 1, none, none⟩, ⟨"c", 1, none, none⟩]

/-- **A block handed out twice.** The second call takes the counter past the top, and the third gets the first
index of the first. -/
theorem block_handed_out_twice :
    blocks "c" wrappingCalls ∅ = [⟨0, 4294967295⟩, ⟨4294967295, 1⟩, ⟨0, 1⟩] ∧
      ¬ (blocks "c" wrappingCalls ∅).Pairwise fun a b => Disjoint a.indices b.indices := by
  have hblocks : blocks "c" wrappingCalls ∅ = [⟨0, 4294967295⟩, ⟨4294967295, 1⟩, ⟨0, 1⟩] := by decide +kernel
  refine ⟨hblocks, ?_⟩
  rw [hblocks]
  intro hpairwise
  have hdisjoint := (List.pairwise_cons.mp hpairwise).1 ⟨0, 1⟩ (by simp)
  rw [Set.disjoint_left] at hdisjoint
  have hindex : (0 : Nat) ∉ (Block.mk 0 1).indices := hdisjoint (by simp [Block.indices])
  exact hindex (by simp [Block.indices])

end TrustInfrastructure.Common
