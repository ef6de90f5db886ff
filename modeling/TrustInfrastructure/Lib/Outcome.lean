import TrustInfrastructure.Lib.Conduct

/-!
# What a program run alone leaves

A program that nothing interrupts performs its operations one after another, each on the state the last one left.
`p.Runs s Q` says that from `s` it ends with an outcome and a state that satisfy `Q`; the rules follow the program, so
that a proof walks through it and computes each answer from the state.
-/

namespace TrustInfrastructure.Lib.Program

variable {I : Interface} {ε α β : Type}

/-- Run alone from `s`, the program ends as `Q` says. -/
def Runs : Program I ε α → I.State → (Except ε α → I.State → Prop) → Prop
  | .ret r, s, Q => Q r s
  | .op o k, s, Q => (k (I.exec o s).1).Runs (I.exec o s).2 Q

variable {p : Program I ε α} {s : I.State}

theorem runs_iff {Q : Except ε α → I.State → Prop} : p.Runs s Q ↔ Q (p.result s) (p.final s) := by
  induction p generalizing s with
  | ret => exact Iff.rfl
  | op _ _ ih =>
    rw [result_op, final_op]
    exact ih _

theorem Runs.mono {Q Q' : Except ε α → I.State → Prop} (h : p.Runs s Q) (himp : ∀ r s', Q r s' → Q' r s') :
    p.Runs s Q' :=
  runs_iff.mpr (himp _ _ (runs_iff.mp h))

/-- A program and what is done with its value: its error ends the whole. -/
theorem runs_bind {f : α → Program I ε β} {Q : Except ε β → I.State → Prop}
    (h : p.Runs s fun r s' => match r with
      | .ok a => (f a).Runs s' Q
      | .error e => Q (.error e) s') : (p.bind f).Runs s Q := by
  induction p generalizing s with
  | ret r =>
    cases r with
    | ok | error => exact h
  | op _ _ ih => exact ih _ h

/-- A program whose value is only renamed. -/
theorem runs_map {f : α → β} {Q : Except ε β → I.State → Prop} (h : p.Runs s fun r s' => Q (r.map f) s') :
    (p.bind fun a => pure (f a)).Runs s Q := by
  refine runs_bind (h.mono fun r s' hr => ?_)
  cases r with
  | ok | error => exact hr

/-- One operation, answered from the state. -/
theorem runs_perform {o : I.Op} {f : I.Reply o → Program I ε β} {Q : Except ε β → I.State → Prop}
    (h : (f (I.exec o s).1).Runs (I.exec o s).2 Q) : ((perform o).bind f).Runs s Q :=
  h

/-- A computation that touches no row. -/
theorem runs_lift {r : Except ε α} {f : α → Program I ε β} {Q : Except ε β → I.State → Prop}
    (herror : ∀ e, r = .error e → Q (.error e) s) (h : ∀ a, r = .ok a → (f a).Runs s Q) :
    ((lift r).bind f).Runs s Q := by
  cases r with
  | ok a => exact h a rfl
  | error e => exact herror e rfl

end TrustInfrastructure.Lib.Program
