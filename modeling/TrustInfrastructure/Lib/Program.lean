import Mathlib

/-!
# Programs over a store of atomic operations

A service's operation on its store is a sequence of atomic reads and writes, each answered before the
next is chosen. `Interface` is such a store: its states, its operations, the type of each answer, and
which operations write. `Program I ε α` is an operation of the service: it either returns (a value or an
error), or performs one atomic operation and goes on with its answer.

Two readings of one program are used by the developments over it:

* `exec`: the states it leaves behind, one after each of its writes, and its outcome; a program stopped
  after `n` writes has passed through `(trace p s).take n`;
* one operation at a time, interleaved with other programs (`Lib.Interleave`).
-/

namespace TrustInfrastructure.Lib

structure Interface where
  State : Type
  Op : Type
  Reply : Op → Type
  exec : (o : Op) → State → Reply o × State
  /-- Whether the operation may change the store. -/
  writes : Op → Bool
  exec_read : ∀ o s, writes o = false → (exec o s).2 = s

/-- A program: an outcome, or one atomic operation and what is done with its answer. -/
inductive Program (I : Interface) (ε α : Type) where
  | ret (r : Except ε α)
  | op (o : I.Op) (k : I.Reply o → Program I ε α)

namespace Program

variable {I : Interface} {ε ε' α β γ : Type}

def bind : Program I ε α → (α → Program I ε β) → Program I ε β
  | .ret (.ok a), f => f a
  | .ret (.error e), _ => .ret (.error e)
  | .op o k, f => .op o fun r => (k r).bind f

instance : Monad (Program I ε) where
  pure a := .ret (.ok a)
  bind := Program.bind

/-- The program that fails with `e`. -/
def fail (e : ε) : Program I ε α := .ret (.error e)

/-- A pure computation that may fail, as a program. -/
def lift (r : Except ε α) : Program I ε α := .ret r

/-- One atomic operation, answered. -/
def perform (o : I.Op) : Program I ε (I.Reply o) := .op o fun r => .ret (.ok r)

/-- Run `p` and keep its value if it has one: Rust's `.ok()`, which drops the error. -/
def ok : Program I ε α → Program I ε' (Option α)
  | .ret (.ok a) => .ret (.ok (some a))
  | .ret (.error _) => .ret (.ok none)
  | .op o k => .op o fun r => (k r).ok

/-- Perform `f` on each element in turn, stopping at the first error. -/
def forEach (xs : List β) (f : β → Program I ε Unit) : Program I ε Unit :=
  match xs with
  | [] => .ret (.ok ())
  | x :: xs => (f x).bind fun _ => forEach xs f

def exec : Program I ε α → I.State → List I.State × Except ε α
  | .ret r, _ => ([], r)
  | .op o k, s =>
    let rest := (k (I.exec o s).1).exec (I.exec o s).2
    if I.writes o then ((I.exec o s).2 :: rest.1, rest.2) else rest

def trace (p : Program I ε α) (s : I.State) : List I.State := (p.exec s).1

/-- The outcome when nothing interrupts the program. -/
def result (p : Program I ε α) (s : I.State) : Except ε α := (p.exec s).2

def final (p : Program I ε α) (s : I.State) : I.State := (p.trace s).getLastD s

/-! ### How the operations compose -/

@[simp] theorem bind_eq (p : Program I ε α) (f : α → Program I ε β) : (p >>= f) = p.bind f := rfl

@[simp] theorem pure_eq (a : α) : (pure a : Program I ε α) = .ret (.ok a) := rfl

@[simp] theorem bind_ok (a : α) (f : α → Program I ε β) : (Program.ret (.ok a) : Program I ε α).bind f = f a :=
  rfl

@[simp] theorem bind_error (e : ε) (f : α → Program I ε β) :
    (Program.ret (.error e) : Program I ε α).bind f = .ret (.error e) := rfl

@[simp] theorem bind_op (o : I.Op) (k : I.Reply o → Program I ε α) (f : α → Program I ε β) :
    (Program.op o k).bind f = .op o fun r => (k r).bind f := rfl

@[simp] theorem perform_bind (o : I.Op) (f : I.Reply o → Program I ε β) :
    (perform o).bind f = .op o f := rfl

@[simp] theorem lift_ok (a : α) : (lift (.ok a) : Program I ε α) = .ret (.ok a) := rfl

@[simp] theorem lift_error (e : ε) : (lift (.error e) : Program I ε α) = .ret (.error e) := rfl

@[simp] theorem fail_eq (e : ε) : (fail e : Program I ε α) = .ret (.error e) := rfl

theorem bind_assoc (p : Program I ε α) (f : α → Program I ε β) (g : β → Program I ε γ) :
    (p.bind f).bind g = p.bind fun a => (f a).bind g := by
  induction p with
  | ret r => cases r <;> rfl
  | op _ _ ih => simp only [bind_op, ih]

@[simp] theorem exec_ret (r : Except ε α) (s : I.State) : (Program.ret r).exec s = ([], r) := rfl

section
variable (o : I.Op) (k : I.Reply o → Program I ε α) (s : I.State)

theorem exec_op : (Program.op o k).exec s =
      if I.writes o then
        ((I.exec o s).2 :: (k (I.exec o s).1).trace (I.exec o s).2, (k (I.exec o s).1).result (I.exec o s).2)
      else (k (I.exec o s).1).exec (I.exec o s).2 := rfl

theorem exec_read (ho : I.writes o = false) : (Program.op o k).exec s = (k (I.exec o s).1).exec s := by
  rw [exec_op, ho, if_neg (by simp), I.exec_read o s ho]

theorem exec_write (ho : I.writes o = true) : (Program.op o k).exec s =
      ((I.exec o s).2 :: (k (I.exec o s).1).trace (I.exec o s).2, (k (I.exec o s).1).result (I.exec o s).2) := by
  rw [exec_op, if_pos ho]

end

/-- Running a sequence: the first part, then the second from the state the first left, unless it failed. -/
theorem exec_bind (p : Program I ε α) (f : α → Program I ε β) (s : I.State) :
    (p.bind f).exec s = match p.result s with
      | .ok a => (p.trace s ++ (f a).trace (p.final s), (f a).result (p.final s))
      | .error e => (p.trace s, .error e) := by
  induction p generalizing s with
  | ret r => cases r <;> rfl
  | op o k ih =>
    rw [bind_op]
    by_cases ho : I.writes o = true
    · have hexec := ih (I.exec o s).1 (I.exec o s).2
      simp only [trace, result, final, exec_write _ _ _ ho] at hexec ⊢
      rw [hexec]
      cases ((k (I.exec o s).1).exec (I.exec o s).2).2 <;> simp only [List.getLastD_cons, List.cons_append]
    · have ho' : I.writes o = false := by simpa using ho
      have hexec := ih (I.exec o s).1 s
      simp only [trace, result, final, exec_read _ _ _ ho'] at hexec ⊢
      exact hexec

end Program

end TrustInfrastructure.Lib
