import TrustInfrastructure.Lib.Program

/-!
# A keyed store with conditional batches

The store most services keep their state in: a row under each key, typed by its key, and a clock. Reads and
writes of one row are atomic, and so are the compound operations that concurrent callers rely on: `take` (read and
remove), `insertIfAbsent`, a `batch` of writes that applies only if all its checks hold, and `move`, which renames a
row that is still the one expected.

`rowStore` is this store as an `Interface`, so that an operation of a service is a `Program` over it. What a
proof needs about an operation is what it leaves under each key; the `row_*` lemmas say so, one operation each.
-/

namespace TrustInfrastructure.Lib

variable {K : Type} {V : K → Type}

/-- What a batch requires of a row. -/
inductive Check (V : K → Type) where
  | absent (k : K)
  | present (k : K)
  | unchanged (k : K) (v : V k)

/-- What a batch does to a row. -/
inductive Write (V : K → Type) where
  | put (k : K) (v : V k)
  | delete (k : K)

/-- The rows under their keys, and the time. -/
structure Rows (V : K → Type) where
  row : (k : K) → Option (V k)
  clock : Nat

inductive MoveOutcome where
  | moved
  | sourceMissing
  | sourceChanged
  | targetExists
  deriving DecidableEq

inductive RowOp (V : K → Type) where
  | now
  | tick (seconds : Nat)
  | get (k : K)
  | take (k : K)
  | insert (k : K) (v : V k)
  | remove (k : K)
  | insertIfAbsent (k : K) (v : V k)
  | batch (checks : List (Check V)) (writes : List (Write V))
  | move (old : K) (expected : V old) (new : K) (v : V new)

namespace RowOp

def Reply : RowOp V → Type
  | .now => Nat
  | .tick _ => Unit
  | .get k => Option (V k)
  | .take k => Option (V k)
  | .insert _ _ => Unit
  | .remove _ => Unit
  | .insertIfAbsent _ _ => Bool
  | .batch _ _ => Bool
  | .move _ _ _ _ => MoveOutcome

/-- Whether the operation may change a row or the clock. -/
def writes : RowOp V → Bool
  | .now => false
  | .get _ => false
  | _ => true

end RowOp

def Write.key : Write V → K
  | .put k _ => k
  | .delete k => k

section
variable [DecidableEq K]

namespace Rows

def set (s : Rows V) (k : K) (v : Option (V k)) : Rows V := { s with row := Function.update s.row k v }

@[simp] theorem row_set_self (s : Rows V) (k : K) (v : Option (V k)) : (s.set k v).row k = v :=
  Function.update_self ..

theorem row_set_of_ne (s : Rows V) {k k' : K} (h : k' ≠ k) (v : Option (V k)) : (s.set k v).row k' = s.row k' :=
  Function.update_of_ne h ..

theorem set_none_of_none {s : Rows V} {k : K} (h : s.row k = none) : s.set k none = s := by
  rw [set, ← h, Function.update_eq_self]

def apply (s : Rows V) : Write V → Rows V
  | .put k v => s.set k (some v)
  | .delete k => s.set k none

theorem row_apply_of_ne (s : Rows V) {w : Write V} {k : K} (h : k ≠ w.key) : (s.apply w).row k = s.row k := by
  cases w with
  | put | delete => exact s.row_set_of_ne h _

theorem row_foldl_apply_of_notMem (writes : List (Write V)) (s : Rows V) {k : K} (h : ∀ w ∈ writes, k ≠ w.key) :
    (writes.foldl apply s).row k = s.row k := by
  induction writes generalizing s with
  | nil => rfl
  | cons w _ ih =>
    rw [List.foldl_cons, ih _ fun w' hw' => h w' (List.mem_cons_of_mem _ hw'),
      row_apply_of_ne s (h w List.mem_cons_self)]

theorem row_of_set_none {s : Rows V} {k k' : K} {v : V k} (h : (s.set k' none).row k = some v) :
    s.row k = some v := by
  by_cases hk : k = k'
  · subst hk
    rw [row_set_self] at h
    cases h
  · rwa [row_set_of_ne s hk] at h

theorem row_or_of_set_some {s : Rows V} {k k' : K} {v : V k} {v' : V k'} (h : (s.set k' (some v')).row k = some v) :
    s.row k = some v ∨ Write.put k v = Write.put k' v' := by
  by_cases hk : k = k'
  · subst hk
    rw [row_set_self] at h
    cases h
    exact .inr rfl
  · rw [row_set_of_ne s hk] at h
    exact .inl h

theorem row_or_put_of_foldl_apply (writes : List (Write V)) (s : Rows V) {k : K} {v : V k}
    (h : (writes.foldl apply s).row k = some v) : s.row k = some v ∨ Write.put k v ∈ writes := by
  induction writes generalizing s with
  | nil => exact .inl h
  | cons w _ ih =>
    rcases ih _ h with hrow | hput
    · cases w with
      | put =>
        rcases row_or_of_set_some hrow with hrow | hput
        · exact .inl hrow
        · exact .inr (hput ▸ List.mem_cons_self)
      | delete => exact .inl (row_of_set_none hrow)
    · exact .inr (List.mem_cons_of_mem _ hput)

@[simp] theorem clock_foldl_apply (writes : List (Write V)) (s : Rows V) :
    (writes.foldl apply s).clock = s.clock := by
  induction writes generalizing s with
  | nil => rfl
  | cons w _ ih =>
    rw [List.foldl_cons, ih]
    cases w <;> rfl

variable [∀ k, DecidableEq (V k)]

def holds (s : Rows V) : Check V → Bool
  | .absent k => (s.row k).isNone
  | .present k => (s.row k).isSome
  | .unchanged k v => decide (s.row k = some v)

end Rows

variable [∀ k, DecidableEq (V k)]

namespace RowOp

def exec : (o : RowOp V) → Rows V → o.Reply × Rows V
  | .now, s => (s.clock, s)
  | .tick seconds, s => ((), { s with clock := s.clock + seconds })
  | .get k, s => (s.row k, s)
  | .take k, s => (s.row k, s.set k none)
  | .insert k v, s => ((), s.set k (some v))
  | .remove k, s => ((), s.set k none)
  | .insertIfAbsent k v, s => if (s.row k).isNone then (true, s.set k (some v)) else (false, s)
  | .batch checks writes, s => if checks.all s.holds then (true, writes.foldl Rows.apply s) else (false, s)
  | .move old expected new v, s =>
    match s.row old with
    | none => (.sourceMissing, s)
    | some current =>
      if current ≠ expected then (.sourceChanged, s)
      else if (s.row new).isSome then (.targetExists, s)
      else (.moved, (s.set old none).set new (some v))

theorem exec_batch_applied {checks : List (Check V)} {s : Rows V} (h : checks.all s.holds = true)
    (writes : List (Write V)) : exec (.batch checks writes) s = (true, writes.foldl Rows.apply s) :=
  if_pos h

theorem exec_batch_refused {checks : List (Check V)} {s : Rows V} (h : checks.all s.holds = false)
    (writes : List (Write V)) : exec (.batch checks writes) s = (false, s) :=
  if_neg (by rw [h]; exact Bool.false_ne_true)

theorem exec_batch_cases (checks : List (Check V)) (writes : List (Write V)) (s : Rows V) :
    (checks.all s.holds = true ∧ exec (.batch checks writes) s = (true, writes.foldl Rows.apply s)) ∨
      exec (.batch checks writes) s = (false, s) := by
  cases hchecks : checks.all s.holds with
  | true => exact .inl ⟨rfl, exec_batch_applied hchecks writes⟩
  | false => exact .inr (exec_batch_refused hchecks writes)

def puts : RowOp V → List (Write V)
  | .insert k v => [.put k v]
  | .insertIfAbsent k v => [.put k v]
  | .batch _ writes => writes
  | .move _ _ new v => [.put new v]
  | _ => []

theorem exec_move_cases (s : Rows V) (old : K) (expected : V old) (new : K) (v : V new) :
    (exec (.move old expected new v) s = (.moved, (s.set old none).set new (some v)) ∧ s.row old = some expected ∧
        s.row new = none) ∨
      ∃ outcome : MoveOutcome, outcome ≠ .moved ∧ exec (.move old expected new v) s = (outcome, s) := by
  rw [exec]
  cases hcurrent : s.row old with
  | none => exact .inr ⟨.sourceMissing, by simp, rfl⟩
  | some current =>
    dsimp only
    by_cases hexpected : current = expected
    · rw [if_neg (not_not.mpr hexpected)]
      cases hnew : s.row new with
      | some => exact .inr ⟨.targetExists, by simp, if_pos rfl⟩
      | none => exact .inl ⟨if_neg (by simp), by rw [hexpected], rfl⟩
    · exact .inr ⟨.sourceChanged, by simp, if_pos hexpected⟩

def wrote : (o : RowOp V) → o.Reply → List K
  | .now, _ => []
  | .tick _, _ => []
  | .get _, _ => []
  | .take k, _ => [k]
  | .insert k _, _ => [k]
  | .remove k, _ => [k]
  | .insertIfAbsent k _, done => if (show Bool from done) then [k] else []
  | .batch _ writes, done => if (show Bool from done) then writes.map Write.key else []
  | .move old _ new _, outcome => if (show MoveOutcome from outcome) = .moved then [old, new] else []

theorem row_exec_of_notMem_wrote (o : RowOp V) (s : Rows V) {k : K} (h : k ∉ wrote o (exec o s).1) :
    (exec o s).2.row k = s.row k := by
  cases o with
  | now | tick | get => rfl
  | take | insert | remove => exact s.row_set_of_ne (fun heq => h (List.mem_singleton.mpr heq)) _
  | insertIfAbsent k' v =>
    by_cases habsent : (s.row k').isNone = true
    · have hexec : exec (.insertIfAbsent k' v) s = (true, s.set k' (some v)) := if_pos habsent
      rw [hexec] at h ⊢
      exact s.row_set_of_ne (fun heq => h (List.mem_singleton.mpr heq)) _
    · have hexec : exec (.insertIfAbsent k' v) s = (false, s) := if_neg habsent
      rw [hexec]
  | batch checks writes =>
    cases hchecks : checks.all s.holds with
    | true =>
      rw [exec_batch_applied hchecks] at h ⊢
      exact s.row_foldl_apply_of_notMem writes fun w hw heq => h (heq ▸ List.mem_map_of_mem hw)
    | false => rw [exec_batch_refused hchecks]
  | move old _ new =>
    rw [exec] at h ⊢
    split
    · rfl
    · rename_i current hcurrent
      rw [hcurrent] at h
      dsimp only at h ⊢
      split
      · rfl
      split
      · rfl
      · rename_i hexpected hfree
        rw [if_neg hexpected, if_neg hfree] at h
        have hne : k ≠ old ∧ k ≠ new := by
          refine ⟨fun heq => h ?_, fun heq => h ?_⟩ <;> simp [wrote, heq]
        rw [Rows.row_set_of_ne _ hne.2, Rows.row_set_of_ne _ hne.1]

theorem clock_le_exec (o : RowOp V) (s : Rows V) : s.clock ≤ (exec o s).2.clock := by
  cases o with
  | tick => exact Nat.le_add_right _ _
  | insertIfAbsent =>
    rw [exec]
    split <;> exact le_refl _
  | batch checks writes =>
    rcases exec_batch_cases checks writes s with ⟨-, hexec⟩ | hexec <;> rw [hexec]
    · rw [Rows.clock_foldl_apply]
  | move old expected new v =>
    rcases exec_move_cases s old expected new v with ⟨hexec, -⟩ | ⟨outcome, -, hexec⟩ <;> rw [hexec]
    · exact le_refl _
  | _ => exact le_refl _

theorem row_or_put_of_exec {o : RowOp V} {s : Rows V} {k : K} {v : V k} (h : (exec o s).2.row k = some v) :
    s.row k = some v ∨ Write.put k v ∈ o.puts := by
  have hput : ∀ {s : Rows V} {k' : K} {v' : V k'}, (s.set k' (some v')).row k = some v →
      s.row k = some v ∨ Write.put k v ∈ [Write.put k' v'] := by
    intro s k' v' hrow
    exact (Rows.row_or_of_set_some hrow).imp_right List.mem_singleton.mpr
  cases o with
  | now | tick | get => exact .inl h
  | take | remove => exact .inl (Rows.row_of_set_none h)
  | insert => exact hput h
  | insertIfAbsent =>
    rw [exec] at h
    split at h
    · exact hput h
    · exact .inl h
  | batch checks writes =>
    rcases exec_batch_cases checks writes s with ⟨-, hexec⟩ | hexec <;> rw [hexec] at h
    · exact s.row_or_put_of_foldl_apply writes h
    · exact .inl h
  | move old expected new v' =>
    rcases exec_move_cases s old expected new v' with ⟨hexec, -⟩ | ⟨outcome, -, hexec⟩ <;> rw [hexec] at h
    · exact (hput h).imp_left Rows.row_of_set_none
    · exact .inl h

end RowOp

abbrev rowStore (V : K → Type) [∀ k, DecidableEq (V k)] : Interface where
  State := Rows V
  Op := RowOp V
  Reply := RowOp.Reply
  exec := RowOp.exec
  writes := RowOp.writes
  exec_read o s h := by cases o <;> first | rfl | cases h

end

end TrustInfrastructure.Lib
