import Mathlib

/-!
# Runs of a machine

A machine is a step function: a state and an action give the next state. `run` is the state after some actions,
`Along P` says that `P` holds of every action of a run at the state it is taken in, and `run_induction` is the rule
all invariants of a run are proved by. `Since Q P` is about the past of a run: at some moment `Q` held, and every state
reached after it satisfies `P`.
-/

namespace TrustInfrastructure.Lib

variable {S A : Type} (step : S → A → S)

def run (s : S) (actions : List A) : S := actions.foldl step s

/-- Every action of the run satisfies `P` at the state it is taken in. -/
def Along (P : S → A → Prop) (s : S) : List A → Prop
  | [] => True
  | a :: actions => P s a ∧ Along P (step s a) actions

instance instDecidableAlong (P : S → A → Prop) [∀ s a, Decidable (P s a)] :
    ∀ (s : S) (actions : List A), Decidable (Along step P s actions)
  | _, [] => .isTrue trivial
  | s, a :: actions =>
    have := instDecidableAlong P (step s a) actions
    inferInstanceAs (Decidable (P s a ∧ Along step P (step s a) actions))

variable {step} {P Q : S → A → Prop} {s : S} {actions : List A}

@[simp] theorem run_nil : run step s [] = s := rfl

@[simp] theorem run_cons (a : A) : run step s (a :: actions) = run step (step s a) actions := rfl

theorem run_append (before after : List A) : run step s (before ++ after) = run step (run step s before) after :=
  List.foldl_append

theorem run_concat (a : A) : run step s (actions ++ [a]) = step (run step s actions) a := by
  rw [run_append, run_cons, run_nil]

theorem along_append (before after : List A) :
    Along step P s (before ++ after) ↔ Along step P s before ∧ Along step P (run step s before) after := by
  induction before generalizing s with
  | nil => simp [Along]
  | cons _ _ ih => simp [Along, ih, and_assoc]

theorem Along.concat {a : A} (h : Along step P s (actions ++ [a])) :
    Along step P s actions ∧ P (run step s actions) a := by
  obtain ⟨hbefore, hlast⟩ := (along_append actions [a]).mp h
  exact ⟨hbefore, hlast.1⟩

/-- What holds at the start, and is kept by every step that satisfies `P`, holds after a run of such steps. -/
theorem run_induction {I : S → Prop} (hstart : I s) (halong : Along step P s actions)
    (hstep : ∀ s a, I s → P s a → I (step s a)) : I (run step s actions) := by
  induction actions generalizing s with
  | nil => exact hstart
  | cons a _ ih => exact ih (hstep s a hstart halong.1) halong.2

theorem run_invariant {I : S → Prop} (hstart : I s) (hstep : ∀ s a, I s → I (step s a)) : I (run step s actions) := by
  induction actions generalizing s with
  | nil => exact hstart
  | cons a _ ih => exact ih (hstep s a hstart)

theorem along_of_forall (h : ∀ a ∈ actions, ∀ s, P s a) : Along step P s actions := by
  induction actions generalizing s with
  | nil => trivial
  | cons a _ ih =>
    exact ⟨h a List.mem_cons_self s, ih fun b hb => h b (List.mem_cons_of_mem a hb)⟩

theorem Along.imp (h : Along step P s actions) (himp : ∀ s a, P s a → Q s a) : Along step Q s actions := by
  induction actions generalizing s with
  | nil => trivial
  | cons a _ ih => exact ⟨himp s a h.1, ih h.2⟩

theorem along_iff : Along step P s actions ↔ ∀ before a after, actions = before ++ a :: after →
    P (run step s before) a := by
  constructor
  · rintro h before a after rfl
    exact ((along_append before (a :: after)).mp h).2.1
  · intro h
    induction actions generalizing s with
    | nil => trivial
    | cons a actions ih =>
      exact ⟨h [] a actions rfl, ih fun before b after hsplit => h (a :: before) b after (congrArg _ hsplit)⟩

theorem Along.and (hP : Along step P s actions) (hQ : Along step Q s actions) :
    Along step (fun s a => P s a ∧ Q s a) s actions := by
  induction actions generalizing s with
  | nil => trivial
  | cons _ _ ih => exact ⟨⟨hP.1, hQ.1⟩, ih hP.2 hQ.2⟩

/-- Every state a run passes through, when a step passes through `visits`. -/
def trail (step : S → A → S) (visits : S → A → List S) (s : S) : List A → List S
  | [] => [s]
  | a :: actions => s :: visits s a ++ trail step visits (step s a) actions

theorem run_mem_trail (visits : S → A → List S) : run step s actions ∈ trail step visits s actions := by
  induction actions generalizing s with
  | nil => exact List.mem_singleton.mpr rfl
  | cons _ _ ih => exact List.mem_append_right _ ih

/-- Two events that satisfy `p` are one, in a history in which at most one does. -/
theorem eq_of_countP_le_one {E : Type} {p : E → Bool} {history : List E} {a b : E} (h : history.countP p ≤ 1)
    (ha : a ∈ history) (hb : b ∈ history) (hpa : p a = true) (hpb : p b = true) : a = b := by
  rw [List.countP_eq_length_filter] at h
  have hfa := List.mem_filter.mpr ⟨ha, hpa⟩
  have hfb := List.mem_filter.mpr ⟨hb, hpb⟩
  match hfilter : history.filter p, h with
  | [], _ =>
    rw [hfilter] at hfa
    cases hfa
  | [e], _ =>
    rw [hfilter, List.mem_singleton] at hfa hfb
    rw [hfa, hfb]

/-! ### Since a moment of the run -/

/-- Some state of the run satisfied `Q`, and every state reached after it satisfies `P`. -/
def Since (step : S → A → S) (Q P : S → Prop) (s : S) (actions : List A) : Prop :=
  ∃ before after, actions = before ++ after ∧ Q (run step s before) ∧
    ∀ early late, after = early ++ late → early ≠ [] → P (run step s (before ++ early))

section
variable {Q Q' P : S → Prop} {a : A}

theorem Since.mono (h : Since step Q P s actions) (himp : ∀ s, Q s → Q' s) : Since step Q' P s actions := by
  obtain ⟨before, after, rfl, hQ, hP⟩ := h
  exact ⟨before, after, rfl, himp _ hQ, hP⟩

/-- The last state but one satisfies `Q`, and the last one `P`. -/
theorem since_last (hQ : Q (run step s actions)) (hP : P (step (run step s actions) a)) :
    Since step Q P s (actions ++ [a]) := by
  refine ⟨actions, [a], rfl, hQ, fun early late hsplit hne => ?_⟩
  obtain ⟨b, early, rfl⟩ := List.exists_cons_of_ne_nil hne
  obtain ⟨rfl, hnil⟩ := List.cons_eq_cons.mp hsplit
  obtain ⟨rfl, -⟩ := List.append_eq_nil_iff.mp hnil.symm
  rwa [run_concat]

theorem Since.concat (h : Since step Q P s actions) (hP : P (step (run step s actions) a)) :
    Since step Q P s (actions ++ [a]) := by
  obtain ⟨before, after, rfl, hQ, hall⟩ := h
  refine ⟨before, after ++ [a], List.append_assoc before after [a], hQ, fun early late hsplit hne => ?_⟩
  rcases List.eq_nil_or_concat' late with rfl | ⟨late, b, rfl⟩
  · rw [List.append_nil] at hsplit
    rw [← hsplit, ← List.append_assoc, run_concat]
    exact hP
  · rw [← List.append_assoc] at hsplit
    obtain ⟨hsplit, -⟩ := List.append_inj' hsplit rfl
    exact hall early late hsplit hne

end

end TrustInfrastructure.Lib
