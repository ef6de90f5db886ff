import TrustInfrastructure.Lib.Frame
import TrustInfrastructure.Lib.Run

/-!
# Programs that act on what they have read

Concurrent callers of a store are programs that perform one atomic operation at a time, in any order. What each of
them may do next depends on what it has read so far, and a proof about all of them together needs to know just
that of each program. A `Conduct` says it: with `L` what a program knows, `may l o` says which operations it may
perform, and `learn l o r` what it knows after the answer `r`. A program that `Follows` a conduct performs only such
operations, and ends only as `ends` says. This is shown once for each program, by walking through it
(`follows_bind`, `follows_perform`, `follows_lift`).

A `Crew` is any number of programs under way against one store, each with what it knows, and the history of all
operations performed, newest first. The rule for crews, `crew_induction`, looks at no program's text: an invariant is
kept by a run if it is kept by every operation the conduct permits.
-/

namespace TrustInfrastructure.Lib

/-- What a program that knows `l` may do, and what it knows after an answer. -/
structure Conduct (I : Interface) (L : Type) where
  may : L → I.Op → Prop
  learn : L → (o : I.Op) → I.Reply o → L

namespace Program

variable {I : Interface} {L ε α β : Type} (C : Conduct I L)

/-- From knowing `l` on, the program does what the conduct permits and ends as `ends` says. -/
def Follows (ends : L → Except ε α → Prop) (l : L) : Program I ε α → Prop
  | .ret r => ends l r
  | .op o k => C.may l o ∧ ∀ r, (k r).Follows ends (C.learn l o r)

variable {C} {ends : L → Except ε α → Prop} {l : L}

theorem Follows.mono {ends' : L → Except ε α → Prop} {p : Program I ε α} (h : p.Follows C ends l)
    (himp : ∀ l r, ends l r → ends' l r) : p.Follows C ends' l := by
  induction p generalizing l with
  | ret r => exact himp l r h
  | op _ _ ih => exact ⟨h.1, fun r => ih r (h.2 r)⟩

section
variable {ends : L → Except ε β → Prop}

theorem follows_bind {p : Program I ε α} {f : α → Program I ε β} (h : p.Follows C (fun l r => match r with
      | .ok a => (f a).Follows C ends l
      | .error e => ends l (.error e)) l) : (p.bind f).Follows C ends l := by
  induction p generalizing l with
  | ret r =>
    cases r with
    | ok | error => exact h
  | op _ _ ih => exact ⟨h.1, fun r => ih r (h.2 r)⟩

theorem follows_perform {o : I.Op} {f : I.Reply o → Program I ε β} (hmay : C.may l o)
    (h : ∀ r, (f r).Follows C ends (C.learn l o r)) : ((perform o).bind f).Follows C ends l :=
  ⟨hmay, h⟩

/-- A computation that touches no row: what follows may use that it ended well. -/
theorem follows_lift {r : Except ε α} {f : α → Program I ε β}
    (herror : ∀ e, r = .error e → ends l (.error e)) (h : ∀ a, r = .ok a → (f a).Follows C ends l) :
    ((lift r).bind f).Follows C ends l := by
  cases r with
  | ok a => exact h a rfl
  | error e => exact herror e rfl

end

/-- The program has ended well. -/
def succeeded : Program I ε α → Bool
  | .ret (.ok _) => true
  | _ => false

/-- The program has an operation still to perform. -/
def running : Program I ε α → Bool
  | .ret _ => false
  | .op _ _ => true

theorem exists_of_succeeded {p : Program I ε α} (h : p.succeeded = true) : ∃ a, p = .ret (.ok a) := by
  match p, h with
  | .ret (.ok a), _ => exact ⟨a, rfl⟩

/-- The outcomes of a program of which only what it ends well with is asked. -/
def Ends (Q : L → α → Prop) : L → Except ε α → Prop
  | l, .ok a => Q l a
  | _, .error _ => True

/-- As `follows_lift`, where an error may end the whole. -/
theorem follows_check {Q : L → β → Prop} {r : Except ε α} {f : α → Program I ε β}
    (h : ∀ a, r = .ok a → (f a).Follows C (Ends Q) l) : ((lift r).bind f).Follows C (Ends Q) l :=
  follows_lift (fun _ _ => trivial) h

end Program

/-! ### Crews -/

/-- One operation performed, by whom, and its answer. -/
structure Event (I : Interface) (ι : Type) where
  thread : ι
  op : I.Op
  reply : I.Reply op

/-- Programs under way against one store, what each knows, and what has been performed, newest first. -/
structure Crew (I : Interface) (L ι ε α : Type) where
  store : I.State
  threads : ι → Program I ε α
  know : ι → L
  history : List (Event I ι)

namespace Crew

variable {I : Interface} {L ι ε α : Type} [DecidableEq ι] (C : Conduct I L)

/-- Nothing has run. -/
def start (store : I.State) (threads : ι → Program I ε α) (know : ι → L) : Crew I L ι ε α :=
  ⟨store, threads, know, []⟩

def perform (c : Crew I L ι ε α) (i : ι) (o : I.Op) (k : I.Reply o → Program I ε α) : Crew I L ι ε α :=
  let r := (I.exec o c.store).1
  { store := (I.exec o c.store).2
    threads := Function.update c.threads i (k r)
    know := Function.update c.know i (C.learn (c.know i) o r)
    history := ⟨i, o, r⟩ :: c.history }

/-- Thread `i` is scheduled: it performs its next operation, unless it has ended. -/
def step (c : Crew I L ι ε α) (i : ι) : Crew I L ι ε α :=
  match c.threads i with
  | .ret _ => c
  | .op o k => c.perform C i o k

/-- `P` holds of the operation thread `i` is about to perform. -/
def Meets (P : I.State → (ι → L) → List (Event I ι) → ι → I.Op → Prop) (c : Crew I L ι ε α) (i : ι) : Prop :=
  match c.threads i with
  | .ret _ => True
  | .op o _ => P c.store c.know c.history i o

instance instDecidableMeets (P : I.State → (ι → L) → List (Event I ι) → ι → I.Op → Prop)
    [∀ s know history i o, Decidable (P s know history i o)] (c : Crew I L ι ε α) (i : ι) : Decidable (Meets P c i) :=
  match h : c.threads i with
  | .ret _ => .isTrue (by rw [Meets, h]; trivial)
  | .op o _ => decidable_of_iff (P c.store c.know c.history i o) (by rw [Meets, h])

def Follow (E : ι → L → Except ε α → Prop) (c : Crew I L ι ε α) : Prop :=
  ∀ i, (c.threads i).Follows C (E i) (c.know i)

variable {C} {E : ι → L → Except ε α → Prop} {c : Crew I L ι ε α} {i : ι}

theorem Follow.step (h : c.Follow C E) (i : ι) : (c.step C i).Follow C E := by
  intro j
  unfold Crew.step
  split
  · exact h j
  · rename_i o k hthread
    have hi := h i
    rw [hthread] at hi
    by_cases hj : j = i
    · subst hj
      simp only [perform, Function.update_self]
      exact hi.2 _
    · simp only [perform, Function.update_of_ne hj]
      exact h j

/-- **The rule for crews.** What holds at the start and is kept by every operation the conduct permits, holds after
every run of programs that follow the conduct. -/
theorem crew_induction {Q : Crew I L ι ε α → ι → Prop} {G : Crew I L ι ε α → Prop} {schedule : List ι}
    (hfollow : c.Follow C E) (hstart : G c) (halong : Along (Crew.step C) Q c schedule)
    (hstep : ∀ c i o k, G c → c.Follow C E → c.threads i = .op o k → Q c i → G (c.perform C i o k)) :
    G (run (Crew.step C) c schedule) ∧ (run (Crew.step C) c schedule).Follow C E := by
  refine run_induction (I := fun c : Crew I L ι ε α => G c ∧ c.Follow C E) ⟨hstart, hfollow⟩ halong ?_
  intro c i hc hQ
  refine ⟨?_, hc.2.step i⟩
  unfold Crew.step
  split
  · exact hc.1
  · rename_i o k hthread
    exact hstep c i o k hc.1 hc.2 hthread hQ

theorem store_step {o : I.Op} {k : I.Reply o → Program I ε α} (h : c.threads i = .op o k) :
    (c.step C i).store = (I.exec o c.store).2 := by
  rw [Crew.step, h]
  rfl

/-- Every event of a run's history is a step of the run: its thread was about to perform it, and was answered so. -/
theorem exists_step_of_mem_history {schedule : List ι} {e : Event I ι} (hnil : c.history = [])
    (h : e ∈ (run (Crew.step C) c schedule).history) :
    ∃ before after k, schedule = before ++ e.thread :: after ∧
      (run (Crew.step C) c before).threads e.thread = .op e.op k ∧
      (I.exec e.op (run (Crew.step C) c before).store).1 = e.reply := by
  induction schedule using List.reverseRecOn with
  | nil =>
    rw [run_nil, hnil] at h
    cases h
  | append_singleton schedule i ih =>
    have hearlier : e ∈ (run (Crew.step C) c schedule).history →
        ∃ before after k, schedule ++ [i] = before ++ e.thread :: after ∧
          (run (Crew.step C) c before).threads e.thread = .op e.op k ∧
          (I.exec e.op (run (Crew.step C) c before).store).1 = e.reply := by
      intro hmem
      obtain ⟨before, after, k, rfl, hthread, hreply⟩ := ih hmem
      exact ⟨before, after ++ [i], k, by simp, hthread, hreply⟩
    rw [run_concat, Crew.step] at h
    split at h
    · exact hearlier h
    · rename_i o k hthread
      rcases List.mem_cons.mp h with rfl | hmem
      · exact ⟨schedule, [], k, rfl, hthread, rfl⟩
      · exact hearlier hmem

end Crew

/-! ### Diaries

The most a program can know is what it has done: every operation and its answer. A conduct stated over a program's
task and its diary needs no separate bookkeeping in a crew, since the diary of a thread is its part of the history. -/

/-- One operation and its answer. -/
structure Record (I : Interface) where
  op : I.Op
  reply : I.Reply op

/-- The conduct of programs that may do what their task and their diary, newest record first, permit. -/
def Conduct.ofDiary {I : Interface} {T : Type} (may : T → List (Record I) → I.Op → Prop) :
    Conduct I (T × List (Record I)) where
  may l := may l.1 l.2
  learn l o r := (l.1, ⟨o, r⟩ :: l.2)

namespace Crew

variable {I : Interface} {T ι ε α : Type} [DecidableEq ι]

/-- What thread `i` did, out of what all did. -/
def diary (i : ι) (history : List (Event I ι)) : List (Record I) :=
  (history.filter fun e => e.thread = i).map fun e => ⟨e.op, e.reply⟩

theorem diary_cons_self (i : ι) (o : I.Op) (r : I.Reply o) (history : List (Event I ι)) :
    diary i (⟨i, o, r⟩ :: history) = ⟨o, r⟩ :: diary i history := by
  simp [diary]

theorem diary_cons_of_ne {i : ι} {e : Event I ι} (h : e.thread ≠ i) (history : List (Event I ι)) :
    diary i (e :: history) = diary i history := by
  simp [diary, h]

theorem diary_append (i : ι) (newer older : List (Event I ι)) :
    diary i (newer ++ older) = diary i newer ++ diary i older := by
  simp [diary]

theorem mem_diary {i : ι} {history : List (Event I ι)} {o : I.Op} {r : I.Reply o} :
    (⟨o, r⟩ : Record I) ∈ diary i history ↔ (⟨i, o, r⟩ : Event I ι) ∈ history := by
  simp only [diary, List.mem_map, List.mem_filter, decide_eq_true_eq]
  constructor
  · rintro ⟨⟨j, o', r'⟩, ⟨hmem, rfl⟩, heq⟩
    cases heq
    exact hmem
  · exact fun hmem => ⟨_, ⟨hmem, rfl⟩, rfl⟩

/-- Each thread runs its task's program, and nothing has run yet. -/
def tasks (store : I.State) (program : T → Program I ε α) (task : ι → T) :
    Crew I (T × List (Record I)) ι ε α :=
  start store (fun i => program (task i)) fun i => (task i, [])

variable {may : T → List (Record I) → I.Op → Prop} {program : T → Program I ε α} {task : ι → T}
  {E : T × List (Record I) → Except ε α → Prop} {store : I.State} {schedule : List ι}
  {P : I.State → (ι → T × List (Record I)) → List (Event I ι) → ι → I.Op → Prop}
  {J : I.State → List (Event I ι) → Prop}

/-- What every thread does next is permitted by its task and its diary. -/
def Permitted (may : T → List (Record I) → I.Op → Prop) (task : ι → T) (c : Crew I (T × List (Record I)) ι ε α) :
    Prop :=
  ∀ i o k, c.threads i = .op o k → may (task i) (diary i c.history) o

theorem permitted_of_follow {c : Crew I (T × List (Record I)) ι ε α}
    (hknow : c.know = fun j => (task j, diary j c.history)) (hfollow : c.Follow (Conduct.ofDiary may) fun _ => E) :
    c.Permitted may task := by
  intro i o k hthread
  have hi := hfollow i
  rw [hthread, hknow] at hi
  exact hi.1

theorem ends_of_follow {c : Crew I (T × List (Record I)) ι ε α} {i : ι} {r : Except ε α}
    (hknow : c.know = fun j => (task j, diary j c.history)) (hfollow : c.Follow (Conduct.ofDiary may) fun _ => E)
    (hret : c.threads i = .ret r) : E (task i, diary i c.history) r := by
  have hi := hfollow i
  rw [hret, hknow] at hi
  exact hi

/-- The rule for crews whose threads know their task and their diary. -/
theorem tasks_induction {Q : Crew I (T × List (Record I)) ι ε α → ι → Prop}
    {G : Crew I (T × List (Record I)) ι ε α → Prop} (hfollow : ∀ t, (program t).Follows (Conduct.ofDiary may) E (t, []))
    (hstart : G (tasks store program task))
    (halong : Along (Crew.step (Conduct.ofDiary may)) Q (tasks store program task) schedule)
    (hstep : ∀ c i o k, G c → (c.know = fun j => (task j, diary j c.history)) → c.Permitted may task →
      (c.perform (Conduct.ofDiary may) i o k).Permitted may task → c.threads i = .op o k → Q c i →
      G (c.perform (Conduct.ofDiary may) i o k)) :
    let c := run (Crew.step (Conduct.ofDiary may)) (tasks store program task) schedule
    (G c ∧ c.know = fun j => (task j, diary j c.history)) ∧ c.Follow (Conduct.ofDiary may) fun _ => E := by
  refine crew_induction (G := fun c => G c ∧ c.know = fun j => (task j, diary j c.history))
    (fun i => hfollow (task i)) ⟨hstart, rfl⟩ halong ?_
  intro c i o k hinv hfollow hthread hQ
  have hknow : (c.perform (Conduct.ofDiary may) i o k).know =
      fun j => (task j, diary j (c.perform (Conduct.ofDiary may) i o k).history) := by
    funext j
    simp only [perform, hinv.2]
    by_cases hj : j = i
    · subst hj
      simp only [Function.update_self, diary_cons_self]
      rfl
    · rw [Function.update_of_ne hj, diary_cons_of_ne (Ne.symm hj)]
  have hnext : (c.perform (Conduct.ofDiary may) i o k).Follow (Conduct.ofDiary may) fun _ => E := by
    have hstepped := hfollow.step i
    rwa [Crew.step, hthread] at hstepped
  exact ⟨hstep c i o k hinv.1 hinv.2 (permitted_of_follow hinv.2 hfollow) (permitted_of_follow hknow hnext) hthread hQ,
    hknow⟩

section
variable (hfollow : ∀ t, (program t).Follows (Conduct.ofDiary may) E (t, [])) (hstart : J store [])
  (hstep : ∀ s history i o, J s history → may (task i) (diary i history) o →
    P s (fun j => (task j, diary j history)) history i o → J (I.exec o s).2 (⟨i, o, (I.exec o s).1⟩ :: history))
include hfollow hstart hstep

section
variable (halong : Along (Crew.step (Conduct.ofDiary may)) (Meets P) (tasks store program task) schedule)
include halong

theorem tasks_knowledge : let c := run (Crew.step (Conduct.ofDiary may)) (tasks store program task) schedule
    (J c.store c.history ∧ c.know = fun j => (task j, diary j c.history)) ∧
      c.Follow (Conduct.ofDiary may) fun _ => E := by
  refine tasks_induction (G := fun c => J c.store c.history) hfollow hstart halong ?_
  intro c i o k hinv hknow hpermitted _ hthread hmeets
  rw [Meets, hthread, hknow] at hmeets
  exact hstep _ _ i o hinv (hpermitted i o k hthread) hmeets

/-- **The rule for tasks.** An invariant of store and history is kept by a run if it is kept by every operation a
thread's task and diary permit; and every thread that ended did so as its task's outcomes say. -/
theorem tasks_invariant : let c := run (Crew.step (Conduct.ofDiary may)) (tasks store program task) schedule
    J c.store c.history ∧ ∀ i r, c.threads i = .ret r → E (task i, diary i c.history) r := by
  obtain ⟨⟨hinv, hknow⟩, hends⟩ := tasks_knowledge hfollow hstart hstep halong
  exact ⟨hinv, fun i r hret => ends_of_follow hknow hends hret⟩

end

/-- What holds when thread `i` is about to perform an operation in such a run: the invariant, and that its task and
its diary permit the operation. -/
theorem tasks_next {i : ι} {o : I.Op} {k : I.Reply o → Program I ε α}
    (halong : Along (Crew.step (Conduct.ofDiary may)) (Meets P) (tasks store program task) (schedule ++ [i]))
    (hthread : (run (Crew.step (Conduct.ofDiary may)) (tasks store program task) schedule).threads i = .op o k) :
    let c := run (Crew.step (Conduct.ofDiary may)) (tasks store program task) schedule
    J c.store c.history ∧ may (task i) (diary i c.history) o ∧
      P c.store (fun j => (task j, diary j c.history)) c.history i o := by
  obtain ⟨hbefore, hmeets⟩ := halong.concat
  obtain ⟨⟨hinv, hknow⟩, hfollows⟩ := tasks_knowledge hfollow hstart hstep hbefore
  rw [Meets, hthread, hknow] at hmeets
  exact ⟨hinv, permitted_of_follow hknow hfollows i o k hthread, hmeets⟩

end

end Crew

/-! ### One program alone -/

section
variable {I : Interface} {T ε α : Type} {may : T → List (Record I) → I.Op → Prop} {t : T} {s₀ : I.State}

/-- A diary of permitted operations performed one after another from `s₀`, and the state they lead to. -/
inductive Replays (may : T → List (Record I) → I.Op → Prop) (t : T) (s₀ : I.State) :
    List (Record I) → I.State → Prop
  | nil : Replays may t s₀ [] s₀
  | cons {diary s o} (h : Replays may t s₀ diary s) (hmay : may t diary o) :
      Replays may t s₀ (⟨o, (I.exec o s).1⟩ :: diary) (I.exec o s).2

namespace Program

/-- A program that keeps to a conduct, run alone, leaves a diary of what it did. -/
theorem Follows.replays {ends : T × List (Record I) → Except ε α → Prop} {p : Program I ε α}
    {diary : List (Record I)} {s : I.State} (h : p.Follows (Conduct.ofDiary may) ends (t, diary))
    (hdiary : Replays may t s₀ diary s) :
    ∃ whole, Replays may t s₀ whole (p.final s) ∧ ends (t, whole) (p.result s) := by
  induction p generalizing diary s with
  | ret => exact ⟨diary, hdiary, h⟩
  | op _ _ ih =>
    rw [final_op, result_op]
    exact ih _ (h.2 _) (.cons hdiary h.1)

end Program

end

end TrustInfrastructure.Lib
