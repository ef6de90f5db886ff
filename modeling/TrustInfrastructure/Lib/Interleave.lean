import TrustInfrastructure.Lib.Program
import TrustInfrastructure.Lib.Run

/-!
# Interleaved read-modify-writes of one cell

Several programs run against one store, one atomic operation at a time in any order (`Pool`, `Pool.step`);
those marked `locked` hold one lock from their first operation to their end. Each reads a *cell* of the
store, computes from what it read, and later writes the whole cell back.

A cell (`Cell`) is named by the operations that read it and those that write it. `Fetches`, `Holds` and
`Quiet` follow one program through its three phases: it has not read the cell; it has read `v` and may only
write `commit v`; it writes the cell no more. `commit : V → Option V` is thereby the program's whole effect
on the cell.

A write is *fresh* when the cell still holds what its program read. The result is `run_serial`: if every
write of a run is fresh, the cell goes through the commits one after another, in the order of the writes,
each from the value the one before left. Programs that all run under the lock are always fresh
(`locked_fresh`).
-/

namespace TrustInfrastructure.Lib

structure Cell (I : Interface) (V : Type) where
  value : I.State → V
  reads : (o : I.Op) → Option (I.Reply o → V)
  writes : I.Op → Option V
  value_read : ∀ o f s, reads o = some f → f (I.exec o s).1 = value s
  value_write : ∀ o v s, writes o = some v → value (I.exec o s).2 = v
  value_other : ∀ o s, writes o = none → value (I.exec o s).2 = value s

namespace Program

variable {I : Interface} {V ε α β : Type} (C : Cell I V)

def Quiet : Program I ε α → Prop
  | .ret _ => True
  | .op o k => C.writes o = none ∧ ∀ r, (k r).Quiet

variable (commit : V → Option V)

/-- The program has read `v`: it fails, or writes `commit v` and then leaves the cell alone. -/
def Holds (v : V) : Program I ε α → Prop
  | .ret r => ∃ e, r = .error e
  | .op o k =>
    match C.writes o with
    | some v' => commit v = some v' ∧ ∀ r, (k r).Quiet C
    | none => C.reads o = none ∧ ∀ r, (k r).Holds v

def Fetches : Program I ε α → Prop
  | .ret r => ∃ e, r = .error e
  | .op o k =>
    C.writes o = none ∧
      match C.reads o with
      | some f => ∀ r, (k r).Holds C commit (f r)
      | none => ∀ r, (k r).Fetches

variable {C commit}

theorem Quiet.bind {p : Program I ε α} {f : α → Program I ε β} (hp : p.Quiet C) (hf : ∀ a, (f a).Quiet C) :
    (p.bind f).Quiet C := by
  induction p with
  | ret r =>
    cases r with
    | error => trivial
    | ok a => exact hf a
  | op _ _ ih => exact ⟨hp.1, fun r => ih r (hp.2 r)⟩

theorem Quiet.forEach {xs : List β} {f : β → Program I ε Unit} (hf : ∀ x, (f x).Quiet C) :
    (Program.forEach xs f).Quiet C := by
  induction xs with
  | nil => trivial
  | cons x _ ih => exact (hf x).bind fun _ => ih

theorem Holds.write {v v' : V} {o : I.Op} {k : I.Reply o → Program I ε α} (hw : C.writes o = some v')
    (hcommit : commit v = some v') (hk : ∀ r, (k r).Quiet C) : (Program.op o k).Holds C commit v := by
  simp only [Holds, hw]
  exact ⟨hcommit, hk⟩

theorem Holds.other {v : V} {o : I.Op} {k : I.Reply o → Program I ε α} (hw : C.writes o = none)
    (hr : C.reads o = none) (hk : ∀ r, (k r).Holds C commit v) : (Program.op o k).Holds C commit v := by
  simp only [Holds, hw]
  exact ⟨hr, hk⟩

theorem Fetches.read {o : I.Op} {f : I.Reply o → V} {k : I.Reply o → Program I ε α} (hw : C.writes o = none)
    (hr : C.reads o = some f) (hk : ∀ r, (k r).Holds C commit (f r)) : (Program.op o k).Fetches C commit := by
  simp only [Fetches, hr]
  exact ⟨hw, hk⟩

theorem Fetches.other {o : I.Op} {k : I.Reply o → Program I ε α} (hw : C.writes o = none)
    (hr : C.reads o = none) (hk : ∀ r, (k r).Fetches C commit) : (Program.op o k).Fetches C commit := by
  simp only [Fetches, hr]
  exact ⟨hw, hk⟩

end Program

/-! ### Pools of programs -/

/-- Programs under way against one store. `seen` and `writers` are history no program reads: what each saw
in the cell, and which of them have written it, newest first. -/
structure Pool (I : Interface) (V ι ε α : Type) where
  store : I.State
  threads : ι → Program I ε α
  holder : Option ι
  seen : ι → Option V
  writers : List ι

namespace Pool

variable {I : Interface} {V ι ε α : Type} [DecidableEq ι]

/-- Nothing has run. -/
def start (store : I.State) (threads : ι → Program I ε α) : Pool I V ι ε α :=
  ⟨store, threads, none, fun _ => none, []⟩

/-- `i` waits for the lock another holds. -/
def waits (locked : ι → Bool) (p : Pool I V ι ε α) (i : ι) : Bool :=
  locked i && p.holder.any fun j => j ≠ i

variable (C : Cell I V) (locked : ι → Bool)

/-- Thread `i` performs `o` and goes on with `k`. -/
def perform (p : Pool I V ι ε α) (i : ι) (o : I.Op) (k : I.Reply o → Program I ε α) : Pool I V ι ε α :=
  let r := (I.exec o p.store).1
  { store := (I.exec o p.store).2
    threads := Function.update p.threads i (k r)
    holder :=
      if locked i then
        match k r with
        | .ret _ => none
        | .op _ _ => some i
      else p.holder
    seen :=
      match C.reads o with
      | some f => Function.update p.seen i (some (f r))
      | none => p.seen
    writers :=
      match C.writes o with
      | some _ => i :: p.writers
      | none => p.writers }

/-- Thread `i` is scheduled: it performs its next operation, unless it has finished or waits. -/
def step (p : Pool I V ι ε α) (i : ι) : Pool I V ι ε α :=
  match p.threads i with
  | .ret _ => p
  | .op o k => if p.waits locked i then p else p.perform C locked i o k

/-- Scheduling a thread changes nothing, or performs its next operation. -/
theorem step_cases (p : Pool I V ι ε α) (i : ι) :
    p.step C locked i = p ∨
    ∃ o k, p.threads i = .op o k ∧ p.waits locked i = false ∧ p.step C locked i = p.perform C locked i o k := by
  unfold step
  cases hthread : p.threads i with
  | ret => exact Or.inl rfl
  | op o k =>
    by_cases hwaits : p.waits locked i = true
    · exact Or.inl (if_pos hwaits)
    · exact Or.inr ⟨o, k, rfl, by simpa using hwaits, if_neg hwaits⟩

/-- If `i` is about to write the cell, the cell holds what `i` read. -/
def Fresh (p : Pool I V ι ε α) (i : ι) : Prop :=
  match p.threads i with
  | .ret _ => True
  | .op o _ => (C.writes o).isSome → p.seen i = some (C.value p.store)

instance [DecidableEq V] (p : Pool I V ι ε α) (i : ι) : Decidable (Fresh C p i) :=
  match h : p.threads i with
  | .ret _ => .isTrue (by simp only [Fresh, h])
  | .op o _ => decidable_of_iff ((C.writes o).isSome → p.seen i = some (C.value p.store)) (by simp only [Fresh, h])

/-! ### The phases of the threads -/

variable (commit : ι → V → Option V)

/-- How far thread `i` is with the cell. -/
inductive Phase (p : Pool I V ι ε α) (i : ι) : Prop where
  | fetches (hnew : i ∉ p.writers) (h : (p.threads i).Fetches C (commit i))
  | holds (v : V) (hnew : i ∉ p.writers) (hseen : p.seen i = some v) (h : (p.threads i).Holds C (commit i) v)
  | done (hwrote : i ∈ p.writers) (h : (p.threads i).Quiet C)

variable {C commit}

section
variable {p : Pool I V ι ε α} {i : ι}

omit [DecidableEq ι] in
theorem phase_start (store : I.State) {threads : ι → Program I ε α}
    (h : ∀ i, (threads i).Fetches C (commit i)) (i : ι) :
    Phase C commit (start store threads : Pool I V ι ε α) i :=
  .fetches (by simp [start]) (h i)

omit [DecidableEq ι] in
/-- A thread that returned a value has written the cell. -/
theorem Phase.wrote_of_ok {a : α} (h : Phase C commit p i) (hok : p.threads i = .ret (.ok a)) :
    i ∈ p.writers := by
  cases h with
  | fetches _ h =>
    rw [hok] at h
    obtain ⟨e, he⟩ := h
    cases he
  | holds _ _ _ h =>
    rw [hok] at h
    obtain ⟨e, he⟩ := h
    cases he
  | done hwrote => exact hwrote

omit [DecidableEq ι] in
theorem Phase.holds_of_write {o : I.Op} {k : I.Reply o → Program I ε α} {v' : V} (h : Phase C commit p i)
    (hthread : p.threads i = .op o k) (hw : C.writes o = some v') :
    i ∉ p.writers ∧ ∃ v, p.seen i = some v ∧ commit i v = some v' := by
  cases h with
  | fetches _ h =>
    rw [hthread, Program.Fetches, hw] at h
    cases h.1
  | holds v hnew hseen h =>
    rw [hthread] at h
    simp only [Program.Holds, hw] at h
    exact ⟨hnew, v, hseen, h.1⟩
  | done _ h =>
    rw [hthread] at h
    rw [h.1] at hw
    cases hw

theorem Phase.perform_self {o : I.Op} {k : I.Reply o → Program I ε α} (h : Phase C commit p i)
    (hthread : p.threads i = .op o k) : Phase C commit (p.perform C locked i o k) i := by
  have hnext : (p.perform C locked i o k).threads i = k (I.exec o p.store).1 := Function.update_self ..
  cases h with
  | fetches hnew h =>
    rw [hthread, Program.Fetches] at h
    obtain ⟨hw, hk⟩ := h
    have hwriters : i ∉ (p.perform C locked i o k).writers := by simpa only [perform, hw] using hnew
    cases hr : C.reads o with
    | none =>
      simp only [hr] at hk
      exact .fetches hwriters (hnext ▸ hk _)
    | some f =>
      simp only [hr] at hk
      refine .holds (f (I.exec o p.store).1) hwriters ?_ (hnext ▸ hk _)
      simp only [perform, hr, Function.update_self]
  | holds v hnew hseen h =>
    rw [hthread] at h
    cases hw : C.writes o with
    | none =>
      simp only [Program.Holds, hw] at h
      refine .holds v ?_ ?_ (hnext ▸ h.2 _)
      · simpa only [perform, hw] using hnew
      · simpa only [perform, h.1] using hseen
    | some =>
      simp only [Program.Holds, hw] at h
      refine .done ?_ (hnext ▸ h.2 _)
      simp only [perform, hw, List.mem_cons_self]
  | done hwrote h =>
    rw [hthread] at h
    refine .done ?_ (hnext ▸ h.2 _)
    simpa only [perform, h.1] using hwrote

theorem Phase.perform_other {j : ι} {o : I.Op} {k : I.Reply o → Program I ε α} (hj : j ≠ i)
    (h : Phase C commit p j) : Phase C commit (p.perform C locked i o k) j := by
  have hthread : (p.perform C locked i o k).threads j = p.threads j := Function.update_of_ne hj ..
  have hseen : (p.perform C locked i o k).seen j = p.seen j := by
    cases hr : C.reads o <;> simp only [perform, hr, Function.update_of_ne hj]
  have hwriters : j ∈ (p.perform C locked i o k).writers ↔ j ∈ p.writers := by
    cases hw : C.writes o <;> simp only [perform, hw, List.mem_cons, hj, false_or]
  cases h with
  | fetches hnew h => exact .fetches (mt hwriters.mp hnew) (hthread ▸ h)
  | holds v hnew hs h => exact .holds v (mt hwriters.mp hnew) (hseen.trans hs) (hthread ▸ h)
  | done hwrote h => exact .done (hwriters.mpr hwrote) (hthread ▸ h)

theorem phase_step (h : ∀ j, Phase C commit p j) (j : ι) : Phase C commit (p.step C locked i) j := by
  rcases step_cases C locked p i with hstep | ⟨o, k, hthread, -, hstep⟩
  · rw [hstep]
    exact h j
  · rw [hstep]
    by_cases hj : j = i
    · subst hj
      exact (h j).perform_self locked hthread
    · exact (h j).perform_other locked hj

theorem phase_run (h : ∀ j, Phase C commit p j) (schedule : List ι) (j : ι) :
    Phase C commit (run (step C locked) p schedule) j :=
  run_invariant (I := fun p => ∀ j, Phase C commit p j) h (fun _ _ h => phase_step locked h) j

end

/-! ### Fresh runs are serial -/

variable (commit) in
/-- The cell went from `v₀` to `v` through the commits of `writers`, newest first. -/
def Serial (v₀ : V) : List ι → V → Prop
  | [], v => v = v₀
  | i :: older, v => ∃ u, Serial v₀ older u ∧ commit i u = some v

section
variable {p : Pool I V ι ε α} {i : ι}

/-- A fresh step leaves the cell as it is, or commits `i` from the value it holds. -/
theorem step_commits (h : ∀ j, Phase C commit p j) (hfresh : Fresh C p i) :
    ((p.step C locked i).writers = p.writers ∧ C.value (p.step C locked i).store = C.value p.store) ∨
    ((p.step C locked i).writers = i :: p.writers ∧
      commit i (C.value p.store) = some (C.value (p.step C locked i).store)) := by
  rcases step_cases C locked p i with hstep | ⟨o, k, hthread, -, hstep⟩
  · exact Or.inl (by rw [hstep]; exact ⟨rfl, rfl⟩)
  · rw [hstep]
    cases hw : C.writes o with
    | none => exact Or.inl ⟨by simp only [perform, hw], C.value_other o p.store hw⟩
    | some v' =>
      obtain ⟨-, v, hseen, hcommit⟩ := (h i).holds_of_write hthread hw
      have hcurrent : p.seen i = some (C.value p.store) := by
        simp only [Fresh, hthread, hw] at hfresh
        exact hfresh rfl
      have hv : v = C.value p.store := Option.some.inj (hseen.symm.trans hcurrent)
      refine Or.inr ⟨by simp only [perform, hw], ?_⟩
      rw [← hv, hcommit]
      exact congrArg some (C.value_write o v' p.store hw).symm

/-- A thread writes the cell once at the most. -/
theorem writers_nodup {store : I.State} {threads : ι → Program I ε α} (h : ∀ i, (threads i).Fetches C (commit i))
    (schedule : List ι) : (run (step C locked) (start store threads : Pool I V ι ε α) schedule).writers.Nodup := by
  induction schedule using List.reverseRecOn with
  | nil => exact List.nodup_nil
  | append_singleton schedule i ih =>
    have hphase := phase_run locked (phase_start store h) schedule i
    rw [run_concat]
    rcases step_cases C locked (run (step C locked) (start store threads) schedule) i with
      hstep | ⟨o, k, hthread, -, hstep⟩
    · rwa [hstep]
    · rw [hstep]
      cases hw : C.writes o with
      | none => simpa only [perform, hw] using ih
      | some => simpa only [perform, hw] using List.nodup_cons.mpr ⟨(hphase.holds_of_write hthread hw).1, ih⟩

theorem writers_length_le (store : I.State) (threads : ι → Program I ε α) (schedule : List ι) :
    (run (step C locked) (start store threads : Pool I V ι ε α) schedule).writers.length ≤ schedule.length := by
  induction schedule using List.reverseRecOn with
  | nil => exact Nat.le_refl 0
  | append_singleton schedule i ih =>
    rw [run_concat, List.length_append, List.length_singleton]
    rcases step_cases C locked (run (step C locked) (start store threads) schedule) i with
      hstep | ⟨o, k, -, -, hstep⟩
    · rw [hstep]
      omega
    · rw [hstep]
      cases hw : C.writes o <;> simp only [perform, hw, List.length_cons] <;> omega

/-- **Fresh runs are serial.** If every write of the run is fresh, the cell has gone through the commits of
its writers one after another. -/
theorem run_serial {store : I.State} {threads : ι → Program I ε α}
    (h : ∀ i, (threads i).Fetches C (commit i)) (schedule : List ι)
    (hfresh : Along (step C locked) (Fresh C) (start store threads : Pool I V ι ε α) schedule) :
    let p := run (step C locked) (start store threads : Pool I V ι ε α) schedule
    Serial commit (C.value store) p.writers (C.value p.store) := by
  induction schedule using List.reverseRecOn with
  | nil => rfl
  | append_singleton schedule _ ih =>
    obtain ⟨hinit, hlast⟩ := hfresh.concat
    have hserial := ih hinit
    have hphase := phase_run locked (phase_start store h) schedule
    rw [run_concat]
    dsimp only
    rcases step_commits locked hphase hlast with ⟨hwriters, hvalue⟩ | ⟨hwriters, hcommit⟩
    · rw [hwriters, hvalue]
      exact hserial
    · rw [hwriters]
      exact ⟨_, hserial, hcommit⟩

end

/-! ### The lock makes every write fresh -/

variable (C) in
/-- Only the lock's holder is between its first operation and its last, and what it read is current. -/
structure Owned (p : Pool I V ι ε α) : Prop where
  alone : ∀ i, p.holder = some i ∨ p.seen i = none ∨ ∃ r, p.threads i = .ret r
  current : ∀ i v, p.holder = some i → i ∉ p.writers → p.seen i = some v → v = C.value p.store

section
variable {p : Pool I V ι ε α} {i : ι}

theorem Owned.perform {o : I.Op} {k : I.Reply o → Program I ε α} (h : Owned C p) (hlocked : ∀ j, locked j = true)
    (hthread : p.threads i = .op o k) (hturn : p.waits locked i = false) : Owned C (p.perform C locked i o k) := by
  have hholder : p.holder = none ∨ p.holder = some i := by
    cases hh : p.holder with
    | none => exact Or.inl rfl
    | some j =>
      have hj : j = i := by simpa [waits, hlocked i, hh] using hturn
      exact Or.inr (congrArg some hj)
  have hnext : (p.perform C locked i o k).threads i = k (I.exec o p.store).1 := Function.update_self ..
  have hnewHolder : ∀ j, (p.perform C locked i o k).holder = some j → j = i := by
    intro j hj
    simp only [Pool.perform, hlocked i, if_true] at hj
    split at hj
    · cases hj
    · exact (Option.some.inj hj).symm
  constructor
  · intro j
    by_cases hj : j = i
    · subst hj
      cases hk : k (I.exec o p.store).1 with
      | ret r => exact Or.inr (Or.inr ⟨r, hnext.trans hk⟩)
      | op => exact Or.inl (by simp only [Pool.perform, hlocked j, if_true, hk])
    · -- whoever is not scheduled does not hold the lock, so it has not begun or has finished
      have hseen : (p.perform C locked i o k).seen j = p.seen j := by
        cases hr : C.reads o <;> simp only [Pool.perform, hr, Function.update_of_ne hj]
      rcases h.alone j with hh | hnone | ⟨r, hret⟩
      · rcases hholder with hn | hs
        · rw [hn] at hh; cases hh
        · exact absurd (Option.some.inj (hh.symm.trans hs)) hj
      · exact Or.inr (Or.inl (hseen.trans hnone))
      · exact Or.inr (Or.inr ⟨r, (Function.update_of_ne hj ..).trans hret⟩)
  · intro j v hh hnew hseen
    obtain rfl := hnewHolder j hh
    have hw : C.writes o = none := by
      cases hw : C.writes o with
      | none => rfl
      | some => simp [Pool.perform, hw] at hnew
    have hvalue : C.value (p.perform C locked j o k).store = C.value p.store := C.value_other o p.store hw
    rw [hvalue]
    cases hr : C.reads o with
    | some f =>
      simp only [Pool.perform, hr, Function.update_self, Option.some.injEq] at hseen
      exact hseen.symm.trans (C.value_read o f p.store hr)
    | none =>
      simp only [Pool.perform, hr] at hseen
      simp only [Pool.perform, hw] at hnew
      refine h.current j v ?_ hnew hseen
      rcases h.alone j with hh' | hnone | ⟨r, hret⟩
      · exact hh'
      · rw [hnone] at hseen; cases hseen
      · rw [hret] at hthread; cases hthread

theorem owned_run {store : I.State} {threads : ι → Program I ε α} (hlocked : ∀ j, locked j = true)
    (schedule : List ι) : Owned C (run (step C locked) (start store threads : Pool I V ι ε α) schedule) := by
  refine run_invariant ⟨fun i => Or.inr (Or.inl rfl), fun i v hh => nomatch hh⟩ fun p i h => ?_
  rcases step_cases C locked p i with hstep | ⟨o, k, hthread, hturn, hstep⟩
  · rwa [hstep]
  · rw [hstep]
    exact h.perform locked hlocked hthread hturn

/-- **Under the lock every write is fresh.** -/
theorem locked_fresh (store : I.State) {threads : ι → Program I ε α} (hlocked : ∀ j, locked j = true)
    (h : ∀ i, (threads i).Fetches C (commit i)) (schedule : List ι) :
    Along (step C locked) (Fresh C) (start store threads : Pool I V ι ε α) schedule := by
  refine along_iff.mpr fun done i _ _ => ?_
  have hphase := phase_run locked (phase_start store h) done i
  unfold Fresh
  split
  · trivial
  rename_i o k hthread
  intro hwrites
  obtain ⟨v', hw⟩ := Option.isSome_iff_exists.mp hwrites
  obtain ⟨hnew, v, hseen, -⟩ := hphase.holds_of_write hthread hw
  have howned : Owned C (run (step C locked) (start store threads : Pool I V ι ε α) done) :=
    owned_run locked hlocked done
  have hholder : (run (step C locked) (start store threads : Pool I V ι ε α) done).holder = some i := by
    rcases howned.alone i with hh | hnone | ⟨r, hret⟩
    · exact hh
    · rw [hnone] at hseen; cases hseen
    · rw [hret] at hthread; cases hthread
  rw [hseen, howned.current i v hholder hnew hseen]

end

end Pool

end TrustInfrastructure.Lib
