import TrustInfrastructure.Lib.Program

/-!
# What a program touches

A store holds the rows of many parties, and an operation on behalf of one should reach no row of another: what
it answers depends on that party's rows alone, and it leaves the others' as they were. With `view i` the part of
the store that is party `i`'s, a program that does so is `Confined` to `i`.

Being confined is checked operation by operation. `Owns` says it of one atomic operation, `Performs` says which
ones a program performs from a state, and a program that performs only operations its party owns is confined
(`confined_of_performs`). What it performs is found by walking through it (`performs_bind`, `performs_forEach`).

The views used are the rows under a party's keys, `only`, and scans, insertions and removals within those keys
act on them alone.
-/

namespace TrustInfrastructure.Lib

namespace Program

variable {I : Interface} {ε α β V ι : Type}

section
variable (o : I.Op) (k : I.Reply o → Program I ε α) (s : I.State)

theorem result_op : (Program.op o k).result s = (k (I.exec o s).1).result (I.exec o s).2 := by
  unfold result
  by_cases ho : I.writes o = true
  · rw [exec_write o k s ho]
    rfl
  · have ho' : I.writes o = false := by simpa using ho
    rw [exec_read o k s ho', I.exec_read o s ho']

theorem final_op : (Program.op o k).final s = (k (I.exec o s).1).final (I.exec o s).2 := by
  unfold final trace
  by_cases ho : I.writes o = true
  · rw [exec_write o k s ho]
    simp only [List.getLastD_cons]
    rfl
  · have ho' : I.writes o = false := by simpa using ho
    rw [exec_read o k s ho', I.exec_read o s ho']

end

theorem mem_trace_op {o : I.Op} {k : I.Reply o → Program I ε α} {s t : I.State} (h : t ∈ (Program.op o k).trace s) :
    t = (I.exec o s).2 ∨ t ∈ (k (I.exec o s).1).trace (I.exec o s).2 := by
  unfold trace at h
  by_cases ho : I.writes o = true
  · rw [exec_write o k s ho] at h
    exact List.mem_cons.mp h
  · have ho' : I.writes o = false := by simpa using ho
    rw [exec_read o k s ho'] at h
    rw [I.exec_read o s ho']
    exact .inr h

/-! ### The operations a program performs -/

/-- Every operation the program performs, run from `s`, satisfies `P`. -/
def Performs (P : I.Op → Prop) : Program I ε α → I.State → Prop
  | .ret _, _ => True
  | .op o k, s => P o ∧ (k (I.exec o s).1).Performs P (I.exec o s).2

theorem performs_bind {P : I.Op → Prop} {p : Program I ε α} {f : α → Program I ε β} {s : I.State}
    (hp : p.Performs P s) (hf : ∀ a, p.result s = .ok a → (f a).Performs P (p.final s)) :
    (p.bind f).Performs P s := by
  induction p generalizing s with
  | ret r =>
    cases r with
    | ok a => exact hf a rfl
    | error => trivial
  | op _ _ ih =>
    refine ⟨hp.1, ih _ hp.2 fun a ha => ?_⟩
    have hnext := hf a (by rw [result_op, ha])
    rwa [final_op] at hnext

theorem performs_perform {P : I.Op → Prop} {o : I.Op} {f : I.Reply o → Program I ε β} {s : I.State} (ho : P o)
    (hf : (f (I.exec o s).1).Performs P (I.exec o s).2) : ((perform o).bind f).Performs P s :=
  ⟨ho, hf⟩

theorem performs_forEach {P : I.Op → Prop} {xs : List β} {f : β → Program I ε Unit}
    (h : ∀ x ∈ xs, ∀ s, (f x).Performs P s) (s : I.State) : (forEach xs f).Performs P s := by
  induction xs generalizing s with
  | nil => trivial
  | cons x _ ih =>
    apply performs_bind (h x List.mem_cons_self s)
    intro a ha
    exact ih (fun y hy => h y (List.mem_cons_of_mem _ hy)) _

/-! ### Confinement -/

/-- The program answers from the rows of `i` alone, and leaves every other party's as they were, in each state it
passes through. -/
def Confined (view : ι → I.State → V) (i : ι) (p : Program I ε α) : Prop :=
  (∀ s s', view i s = view i s' → p.result s = p.result s') ∧
    ∀ s, ∀ t ∈ p.trace s, ∀ j, j ≠ i → view j t = view j s

/-- The operation is one on the rows of `i`: its answer and what it makes of them depend on them alone, and the
others' stay. -/
structure Owns (view : ι → I.State → V) (i : ι) (o : I.Op) : Prop where
  reply : ∀ s s', view i s = view i s' → (I.exec o s).1 = (I.exec o s').1
  own : ∀ s s', view i s = view i s' → view i (I.exec o s).2 = view i (I.exec o s').2
  others : ∀ s j, j ≠ i → view j (I.exec o s).2 = view j s

variable {view : ι → I.State → V} {i : ι}

theorem result_eq_of_view (p : Program I ε α) (s s' : I.State) (hp : p.Performs (Owns view i) s)
    (hview : view i s = view i s') : p.result s = p.result s' := by
  induction p generalizing s s' with
  | ret => rfl
  | op _ _ ih =>
    rw [result_op, result_op, ← hp.1.reply s s' hview]
    exact ih _ _ _ hp.2 (hp.1.own s s' hview)

theorem others_of_mem_trace (p : Program I ε α) (s t : I.State) (hp : p.Performs (Owns view i) s)
    (ht : t ∈ p.trace s) (j : ι) (hj : j ≠ i) : view j t = view j s := by
  induction p generalizing s with
  | ret => nomatch ht
  | op _ _ ih =>
    have hstep := hp.1.others s j hj
    rcases mem_trace_op ht with rfl | ht
    · exact hstep
    · exact (ih _ _ hp.2 ht).trans hstep

theorem confined_of_performs {p : Program I ε α} (hp : ∀ s, p.Performs (Owns view i) s) : p.Confined view i :=
  ⟨fun s s' hview => result_eq_of_view p s s' (hp s) hview,
    fun s t ht j hj => others_of_mem_trace p s t (hp s) ht j hj⟩

end Program

/-! ### The rows under some keys -/

section
open Std (ExtTreeMap)

variable {K V : Type} [Ord K] [Std.TransOrd K] [Std.LawfulEqOrd K]

/-- The rows whose key satisfies `p`. -/
def only (p : K → Bool) (m : ExtTreeMap K V) : ExtTreeMap K V := m.filter fun key _ => p key

variable {p q : K → Bool} {m m' : ExtTreeMap K V} {key : K}

theorem getElem?_only : (only p m)[key]? = if p key then m[key]? else none := by
  unfold only
  rw [ExtTreeMap.getElem?_filter]
  simp only [ExtTreeMap.getKey_eq]
  by_cases hp : p key = true
  · cases m[key]? <;> simp [hp]
  · simp [hp]

/-- A row of a party is there in its part alone. -/
theorem getElem?_of_only (hkey : p key = true) (h : only p m = only p m') : m[key]? = m'[key]? := by
  have hrow := congrArg (·[key]?) h
  simpa only [getElem?_only, hkey, if_true] using hrow

theorem only_eq_iff : only p m = only p m' ↔ ∀ key, p key = true → m[key]? = m'[key]? := by
  constructor
  · intro h key hkey
    exact getElem?_of_only hkey h
  · intro h
    apply ExtTreeMap.ext_getElem?
    intro key
    rw [getElem?_only, getElem?_only]
    by_cases hkey : p key = true
    · simp only [hkey, if_true, h key hkey]
    · simp only [hkey, Bool.false_eq_true, if_false]

/-- A scan within a party's keys finds its rows alone. -/
theorem filter_toList_of_only (hscan : ∀ key, q key = true → p key = true) (h : only p m = only p m') :
    (m.toList.filter fun row => q row.1) = m'.toList.filter fun row => q row.1 := by
  have hq : only q m = only q m' := by
    rw [only_eq_iff] at h ⊢
    exact fun key hkey => h key (hscan key hkey)
  have hlist := congrArg ExtTreeMap.toList hq
  unfold only at hlist
  rwa [ExtTreeMap.toList_filter, ExtTreeMap.toList_filter] at hlist

theorem only_erase_of_only (h : only p m = only p m') : only p (m.erase key) = only p (m'.erase key) := by
  rw [only_eq_iff] at h ⊢
  intro k hk
  rw [ExtTreeMap.getElem?_erase, ExtTreeMap.getElem?_erase, h k hk]

theorem only_erase (hkey : p key = false) : only p (m.erase key) = only p m := by
  rw [only_eq_iff]
  intro k hk
  rw [ExtTreeMap.getElem?_erase, if_neg]
  intro heq
  rw [Std.compare_eq_iff_eq.mp heq] at hkey
  rw [hkey] at hk
  exact Bool.false_ne_true hk

end

end TrustInfrastructure.Lib
