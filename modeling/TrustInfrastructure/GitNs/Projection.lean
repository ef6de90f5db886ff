import TrustInfrastructure.Lib.Json
import TrustInfrastructure.Lib.Run
import TrustInfrastructure.Lib.Tally

/-!
# The registry projection

Each pass of `reconcile` deletes what the mirror says is published and is no longer desired, then puts what is desired
and not in the mirror. The mirror is written after the call it is about. So it says what the registry holds as long as
every call that reports an error had no effect, and no pass stops between a call and its mirror row (`Calm`): along
such runs nothing published is forgotten, a renamed repository gets no tuple while one under its old name is left, and
one pass over exact calls brings the registry to what is desired (`calm_runs_withdraw`).

The registry cannot be listed, so nothing else would find a tuple the mirror does not name. A put that took effect and
reported an error is forgotten once its tuple is no longer desired, and a delete that did is never made good if the
tuple is desired again (`tuple_forgotten`).
-/

namespace TrustInfrastructure.GitNs

open Lib Std

abbrev Key := String × String × String

/-- One record the registry should hold. -/
structure Tuple where
  entity : String
  action : String
  resource : String
  context : Value
  repoId : Option String
  deriving DecidableEq

def Tuple.key (tuple : Tuple) : Key := (tuple.entity, tuple.action, tuple.resource)

/-- Tuples under their keys: the desired ones, the mirror's, or those the registry holds. -/
@[ext] structure Tuples where
  rows : ExtTreeMap Key Tuple
  keyed : ∀ (key : Key) (tuple : Tuple), rows[key]? = some tuple → tuple.key = key

namespace Tuples

def empty : Tuples := ⟨∅, fun _ _ h => by simp at h⟩

def put (tuples : Tuples) (tuple : Tuple) : Tuples where
  rows := tuples.rows.insert tuple.key tuple
  keyed key found h := by
    rw [getElem?_insert_eq] at h
    split at h
    · cases h
      assumption
    · exact tuples.keyed key found h

def remove (tuples : Tuples) (key : Key) : Tuples where
  rows := tuples.rows.erase key
  keyed key' found h := by
    rw [getElem?_erase_eq] at h
    split at h
    · cases h
    · exact tuples.keyed key' found h

end Tuples

/-- Per-tuple retry schedule. -/
abbrev Backoff := ExtTreeMap Key (Nat × Nat)

namespace Backoff

def due (backoff : Backoff) (key : Key) (t : Nat) : Bool := backoff[key]?.all fun (_, at') => at' ≤ t

def failed (backoff : Backoff) (key : Key) (t : Nat) : Backoff :=
  let n := (backoff[key]?.map Prod.fst).getD 0 + 1
  backoff.insert key (n, t + min (5 * 2 ^ min n 16) 3600)

def succeeded (backoff : Backoff) (key : Key) : Backoff := backoff.erase key

end Backoff

/-- One registry call of a pass, for a tuple of the mirror or a desired one. -/
inductive Job where
  | delete (tuple : Tuple)
  | put (tuple : Tuple)
  deriving DecidableEq

namespace Job

def tuple : Job → Tuple
  | .delete tuple | .put tuple => tuple

/-- What the call makes of the registry, and its mirror row of the mirror. -/
def apply (tuples : Tuples) : Job → Tuples
  | .delete tuple => tuples.remove tuple.key
  | .put tuple => tuples.put tuple

def holds : Job → List String
  | .delete tuple => tuple.repoId.toList
  | .put _ => []

end Job

/-- The calls of a pass: deletes of what is published and not desired, then puts of what is desired and not there. -/
def plan (want mirror : Tuples) : List Job :=
  ((mirror.rows.toList.map Prod.snd).filter (·.key ∉ want.rows)).map .delete ++
    ((want.rows.toList.map Prod.snd).filter fun tuple => mirror.rows[tuple.key]? ≠ some tuple).map .put

/-- A pass under way: when it began, what it desires, the repositories with a delete outstanding, the calls to come,
and the call that succeeded and whose mirror row is not written yet. -/
structure Pass where
  t : Nat
  want : Tuples
  held : List String
  work : List Job
  called : Option Job

def Pass.waits (pass : Pass) (backoff : Backoff) : Job → Bool
  | .delete tuple => !backoff.due tuple.key pass.t
  | .put tuple => tuple.repoId.any (· ∈ pass.held) || !backoff.due tuple.key pass.t

def Pass.request (pass : Pass) (backoff : Backoff) : Option Job :=
  match pass.called, pass.work with
  | none, job :: _ => if pass.waits backoff job then none else some job
  | _, _ => none

/-- How a call ends: an error leaves open whether it took effect. -/
inductive Reply where
  | done
  | failed (landed : Bool)

structure Projection where
  now : Nat
  registry : Tuples
  mirror : Tuples
  backoff : Backoff
  pass : Option Pass

inductive Event where
  | wait (seconds : Nat)
  | begin (want : Tuples)
  | next (reply : Reply)
  /-- A store write fails, and the pass ends. -/
  | storeFails
  | crash

namespace Projection

def request (s : Projection) : Option Job := s.pass.bind fun pass => pass.request s.backoff

/-- What a pass does next, a call it makes being answered by `reply`. -/
def next (s : Projection) (pass : Pass) (reply : Reply) : Projection :=
  match pass.called, pass.work with
  | some job, _ =>
    { s with
      mirror := job.apply s.mirror
      backoff := s.backoff.succeeded job.tuple.key
      pass := some { pass with called := none } }
  | none, [] => { s with pass := none }
  | none, job :: rest =>
    let skipped : Pass := { pass with work := rest, held := job.holds ++ pass.held }
    if pass.waits s.backoff job then { s with pass := some skipped }
    else
      match reply with
      | .done =>
        { s with registry := job.apply s.registry, pass := some { pass with work := rest, called := some job } }
      | .failed landed =>
        { s with
          registry := if landed then job.apply s.registry else s.registry
          backoff := s.backoff.failed job.tuple.key pass.t
          pass := some skipped }

def step (s : Projection) : Event → Projection
  | .wait seconds => { s with now := s.now + seconds }
  | .begin want =>
    match s.pass with
    | some _ => s
    | none => { s with pass := some ⟨s.now, want, [], plan want s.mirror, none⟩ }
  | .next reply =>
    match s.pass with
    | some pass => s.next pass reply
    | none => s
  | .storeFails => { s with pass := none }
  | .crash => { s with pass := none, backoff := ∅ }

/-- Nothing is published. -/
def start : Projection := ⟨0, .empty, .empty, ∅, none⟩

def recorded (s : Projection) : Tuples := (s.pass.bind Pass.called).elim s.mirror fun job => job.apply s.mirror

end Projection

/-- A call that reports an error had no effect, and no pass stops between a call and its mirror row. -/
def Calm (s : Projection) : Event → Prop
  | .next (.failed landed) => landed = false
  | .storeFails | .crash => s.pass.bind Pass.called = none
  | _ => True

/-! ### The mirror says what the registry holds -/

theorem Tuples.getElem?_put (tuples : Tuples) (tuple : Tuple) (key : Key) :
    (tuples.put tuple).rows[key]? = if tuple.key = key then some tuple else tuples.rows[key]? := getElem?_insert_eq

theorem Tuples.getElem?_remove (tuples : Tuples) (key key' : Key) :
    (tuples.remove key).rows[key']? = if key = key' then none else tuples.rows[key']? := getElem?_erase_eq

theorem Tuples.mem_of_getElem? {tuples : Tuples} {key : Key} {tuple : Tuple} (h : tuples.rows[key]? = some tuple) :
    key ∈ tuples.rows := ExtTreeMap.mem_iff_isSome_getElem?.mpr (by rw [h]; rfl)

theorem Tuples.mem_tuples {tuples : Tuples} {tuple : Tuple} :
    tuple ∈ tuples.rows.toList.map Prod.snd ↔ tuples.rows[tuple.key]? = some tuple := by
  constructor
  · intro hmem
    obtain ⟨⟨key, found⟩, hrow, rfl⟩ := List.mem_map.mp hmem
    have hfound := ExtTreeMap.mem_toList_iff_getElem?_eq_some.mp hrow
    rwa [tuples.keyed key found hfound]
  · exact fun h => List.mem_map.mpr ⟨_, ExtTreeMap.mem_toList_iff_getElem?_eq_some.mpr h, rfl⟩

theorem mem_plan {want mirror : Tuples} {job : Job} : job ∈ plan want mirror ↔ match job with
    | .delete tuple => mirror.rows[tuple.key]? = some tuple ∧ tuple.key ∉ want.rows
    | .put tuple => want.rows[tuple.key]? = some tuple ∧ mirror.rows[tuple.key]? ≠ some tuple := by
  cases job <;> simp [plan, List.mem_filter, Tuples.mem_tuples]

/-- What a pass has brought the mirror to: of what it does not desire, only that is left whose delete is to come or
holds its repository back; and the puts, which come last, are of what it desires. -/
structure Pass.Inv (pass : Pass) (mirror : Tuples) : Prop where
  swept : ∀ (key : Key) (tuple : Tuple), mirror.rows[key]? = some tuple →
    key ∈ pass.want.rows ∨ .delete tuple ∈ pass.work ∨ ∀ id, tuple.repoId = some id → id ∈ pass.held
  desired : ∀ tuple, .put tuple ∈ pass.called.toList ++ pass.work → tuple.key ∈ pass.want.rows
  last : pass.work.Pairwise fun job job' => ∀ tuple tuple', job = .put tuple → job' ≠ .delete tuple'

structure Sound (s : Projection) : Prop where
  mirrored : s.registry = s.recorded
  pass : ∀ pass, s.pass = some pass → pass.Inv s.recorded

section
variable {pass : Pass} {mirror : Tuples} {backoff : Backoff} {s : Projection}

theorem inv_plan (want mirror : Tuples) (t : Nat) : Pass.Inv ⟨t, want, [], plan want mirror, none⟩ mirror := by
  refine ⟨fun key tuple hfound => ?_, fun tuple hmem => ?_, ?_⟩
  · have hkey := mirror.keyed key tuple hfound
    by_cases hin : key ∈ want.rows
    · exact .inl hin
    · exact .inr (.inl (mem_plan.mpr ⟨hkey ▸ hfound, hkey ▸ hin⟩))
  · exact Tuples.mem_of_getElem? (mem_plan.mp hmem).1
  · refine List.pairwise_append.mpr ⟨?_, ?_, ?_⟩
    · exact List.Pairwise.map _ (fun _ _ _ _ _ h => nomatch h) (List.pairwise_of_forall fun _ _ => trivial)
    · exact List.Pairwise.map _ (fun _ _ _ _ _ _ h => nomatch h) (List.pairwise_of_forall fun _ _ => trivial)
    · intro job hjob job' hjob' tuple tuple' heq
      obtain ⟨_, -, rfl⟩ := List.mem_map.mp hjob
      cases heq

theorem Pass.Inv.skip {job : Job} {rest : List Job} (h : pass.Inv mirror) (hcalled : pass.called = none)
    (hwork : pass.work = job :: rest) :
    Pass.Inv { pass with work := rest, held := job.holds ++ pass.held } mirror := by
  refine ⟨fun key tuple hfound => ?_, fun tuple hmem => ?_, ?_⟩
  · rcases h.swept key tuple hfound with hin | hmem | hheld
    · exact .inl hin
    · rw [hwork] at hmem
      rcases List.mem_cons.mp hmem with rfl | hmem
      · exact .inr (.inr fun id hid => List.mem_append_left _ (by simp [Job.holds, hid]))
      · exact .inr (.inl hmem)
    · exact .inr (.inr fun id hid => List.mem_append_right _ (hheld id hid))
  · refine h.desired tuple ?_
    rw [hcalled] at hmem ⊢
    rw [hwork]
    exact List.mem_cons_of_mem _ hmem
  · have hlast := h.last
    rw [hwork] at hlast
    exact hlast.of_cons

theorem Pass.Inv.call {job : Job} {rest : List Job} (h : pass.Inv mirror) (hwork : pass.work = job :: rest) :
    Pass.Inv { pass with work := rest, called := some job } (job.apply mirror) := by
  refine ⟨fun key tuple hfound => ?_, fun tuple hmem => ?_, ?_⟩
  · cases job with
    | delete =>
      rw [Job.apply, Tuples.getElem?_remove] at hfound
      split at hfound
      · cases hfound
      · rename_i hne
        refine (h.swept key tuple hfound).imp_right fun hleft => hleft.imp_left fun hmem => ?_
        rw [hwork] at hmem
        rcases List.mem_cons.mp hmem with heq | hmem
        · cases heq
          exact absurd (mirror.keyed key tuple hfound) hne
        · exact hmem
    | put new =>
      rw [Job.apply, Tuples.getElem?_put] at hfound
      split at hfound
      · rename_i hkey
        refine .inl (hkey ▸ h.desired new (List.mem_append_right _ ?_))
        rw [hwork]
        exact List.mem_cons_self
      · refine (h.swept key tuple hfound).imp_right fun hleft => hleft.imp_left fun hmem => ?_
        rw [hwork] at hmem
        simpa using hmem
  · refine h.desired tuple (List.mem_append_right _ ?_)
    rwa [hwork]
  · have hlast := h.last
    rw [hwork] at hlast
    exact hlast.of_cons

theorem sound_next (hs : Sound s) (hpass : s.pass = some pass) {reply : Reply} (hcalm : Calm s (.next reply)) :
    Sound (s.next pass reply) := by
  obtain ⟨now, registry, mirror, backoff, _⟩ := s
  cases hpass
  obtain ⟨t, want, held, work, called⟩ := pass
  obtain ⟨hmirrored, hpass⟩ := hs
  replace hpass := hpass _ rfl
  cases called with
  | some =>
    refine ⟨hmirrored, fun _ h => ?_⟩
    cases h
    exact ⟨hpass.swept, fun tuple hmem => hpass.desired tuple (List.mem_cons_of_mem _ hmem), hpass.last⟩
  | none =>
    cases work with
    | nil => exact ⟨hmirrored, nofun⟩
    | cons job =>
      unfold Projection.next
      dsimp only
      split
      · refine ⟨hmirrored, fun _ h => ?_⟩
        cases h
        exact hpass.skip rfl rfl
      · cases reply with
        | done =>
          refine ⟨congrArg job.apply hmirrored, fun _ h => ?_⟩
          cases h
          exact hpass.call rfl
        | failed =>
          cases hcalm
          refine ⟨hmirrored, fun _ h => ?_⟩
          cases h
          exact hpass.skip rfl rfl

theorem sound_step (hs : Sound s) {e : Event} (hcalm : Calm s e) : Sound (s.step e) := by
  cases e with
  | wait => exact ⟨hs.mirrored, hs.pass⟩
  | begin want =>
    unfold Projection.step
    cases hpass : s.pass with
    | some =>
      dsimp only
      exact hs
    | none =>
      have hrecorded : s.registry = s.mirror := by rw [hs.mirrored, Projection.recorded, hpass]; rfl
      refine ⟨hrecorded, fun pass h => ?_⟩
      cases h
      exact inv_plan want s.mirror s.now
  | next =>
    unfold Projection.step
    cases hpass : s.pass with
    | none =>
      dsimp only
      exact hs
    | some => exact sound_next hs hpass hcalm
  | storeFails | crash =>
    refine ⟨hs.mirrored.trans ?_, nofun⟩
    rw [Projection.recorded, show s.pass.bind Pass.called = none from hcalm]
    rfl

theorem Sound.named (hs : Sound s) {key : Key} {tuple : Tuple} (hfound : s.recorded.rows[key]? = some tuple) :
    key ∈ s.mirror.rows ∨ ∃ pass, s.pass = some pass ∧ key ∈ pass.want.rows := by
  unfold Projection.recorded at hfound
  cases hcalled : s.pass.bind Pass.called with
  | none =>
    rw [hcalled] at hfound
    exact .inl (Tuples.mem_of_getElem? hfound)
  | some job =>
    rw [hcalled] at hfound
    obtain ⟨pass, hpass, hcalled⟩ := Option.bind_eq_some_iff.mp hcalled
    cases job with
    | delete =>
      rw [Option.elim_some, Job.apply, Tuples.getElem?_remove] at hfound
      split at hfound
      · cases hfound
      · exact .inl (Tuples.mem_of_getElem? hfound)
    | put new =>
      rw [Option.elim_some, Job.apply, Tuples.getElem?_put] at hfound
      split at hfound
      · rename_i hkey
        exact .inr ⟨pass, hpass, hkey ▸ (hs.pass pass hpass).desired new (by simp [hcalled])⟩
      · exact .inl (Tuples.mem_of_getElem? hfound)

theorem Sound.none_left (hs : Sound s) {tuple other : Tuple} {id : String} {key : Key}
    (hrequest : s.request = some (.put tuple)) (hid : tuple.repoId = some id)
    (hfound : s.recorded.rows[key]? = some other) (hother : other.repoId = some id) :
    ∃ pass, s.pass = some pass ∧ key ∈ pass.want.rows := by
  obtain ⟨pass, hpass, hrequest⟩ := Option.bind_eq_some_iff.mp hrequest
  have hinv := hs.pass pass hpass
  refine ⟨pass, hpass, ?_⟩
  unfold Pass.request at hrequest
  split at hrequest
  · rename_i job rest hcalled hwork
    split at hrequest
    · cases hrequest
    rename_i hgoes
    cases hrequest
    have hlast := hinv.last
    rw [hwork] at hlast
    rcases hinv.swept key other hfound with hin | hmem | hheld
    · exact hin
    · rw [hwork] at hmem
      rcases List.mem_cons.mp hmem with heq | hmem
      · cases heq
      · exact absurd rfl (List.rel_of_pairwise_cons hlast hmem tuple other rfl)
    · refine absurd ?_ hgoes
      simp [Pass.waits, hid, hheld id hother]
  · cases hrequest

/-! ### A pass over exact calls -/

theorem due_succeeded (key key' : Key) (t : Nat) :
    (backoff.succeeded key).due key' t = if key = key' then true else backoff.due key' t := by
  unfold Backoff.succeeded Backoff.due
  rw [getElem?_erase_eq]
  split <;> rfl

/-- With nothing in back-off, exact calls make of both tables what the calls of the pass make of them. -/
theorem exact_pass {work : List Job} {t : Nat} {want : Tuples} (hpass : s.pass = some ⟨t, want, [], work, none⟩)
    (hdue : ∀ key, s.backoff.due key t = true) :
    let s' := run Projection.step s (List.replicate (2 * work.length + 1) (.next .done))
    s'.pass = none ∧ s'.registry = work.foldl (fun tuples job => job.apply tuples) s.registry ∧
      s'.mirror = work.foldl (fun tuples job => job.apply tuples) s.mirror := by
  induction work generalizing s with
  | nil =>
    rw [List.length_nil, List.replicate_one, run_cons, run_nil, Projection.step, hpass]
    exact ⟨rfl, rfl, rfl⟩
  | cons job rest ih =>
    have hgoes : Pass.waits ⟨t, want, [], job :: rest, none⟩ s.backoff job = false := by
      cases job <;> simp [Pass.waits, hdue]
    have htwo : (s.step (.next .done)).step (.next .done) = { s with
        registry := job.apply s.registry
        mirror := job.apply s.mirror
        backoff := s.backoff.succeeded job.tuple.key
        pass := some ⟨t, want, [], rest, none⟩ } := by
      have hone : s.step (.next .done) =
          { s with registry := job.apply s.registry, pass := some ⟨t, want, [], rest, some job⟩ } := by
        simp only [Projection.step, hpass, Projection.next, hgoes, Bool.false_eq_true, if_false]
      rw [hone]
      rfl
    rw [List.length_cons, show 2 * (rest.length + 1) + 1 = 2 * rest.length + 1 + 1 + 1 by omega, List.replicate_succ,
      List.replicate_succ, run_cons, run_cons, htwo]
    exact ih rfl fun key => (due_succeeded _ key t).trans (by rw [hdue, ite_self])

/-- Calls that agree on what is under a key leave that there; where no call is about it, it stays. -/
theorem getElem?_foldl_apply {jobs : List Job} {tuples : Tuples} {key : Key} {row : Option Tuple}
    (hagree : ∀ job ∈ jobs, job.tuple.key = key → ∀ tuples : Tuples, (job.apply tuples).rows[key]? = row)
    (hstay : (∀ job ∈ jobs, job.tuple.key ≠ key) → tuples.rows[key]? = row) :
    (jobs.foldl (fun tuples job => job.apply tuples) tuples).rows[key]? = row := by
  induction jobs generalizing tuples with
  | nil => exact hstay (by simp)
  | cons job _ ih =>
    rw [List.foldl_cons]
    refine ih (fun job' hmem => hagree job' (List.mem_cons_of_mem _ hmem)) fun hnone => ?_
    by_cases hkey : job.tuple.key = key
    · exact hagree job List.mem_cons_self hkey tuples
    · rw [← hstay (List.forall_mem_cons.mpr ⟨hkey, hnone⟩)]
      cases job with
      | delete gone => exact (tuples.getElem?_remove gone.key key).trans (if_neg hkey)
      | put new => exact (tuples.getElem?_put new key).trans (if_neg hkey)

/-- The calls of a pass bring the mirror to what is desired. -/
theorem foldl_plan (want mirror : Tuples) :
    (plan want mirror).foldl (fun tuples job => job.apply tuples) mirror = want := by
  refine Tuples.ext (ExtTreeMap.ext_getElem? fun key => ?_)
  refine getElem?_foldl_apply (fun job hjob hkey tuples => ?_) fun hnone => ?_
  · have hplan := mem_plan.mp hjob
    subst hkey
    cases job with
    | delete gone =>
      refine (tuples.getElem?_remove gone.key gone.key).trans ((if_pos rfl).trans ?_)
      exact (ExtTreeMap.getElem?_eq_none hplan.2).symm
    | put new => exact (tuples.getElem?_put new new.key).trans ((if_pos rfl).trans hplan.1.symm)
  · cases hwant : want.rows[key]? with
    | some tuple =>
      have hkey := want.keyed key tuple hwant
      by_contra hother
      exact hnone (.put tuple) (mem_plan.mpr ⟨hkey ▸ hwant, hkey ▸ hother⟩) hkey
    | none =>
      cases hfound : mirror.rows[key]? with
      | none => rfl
      | some tuple =>
        have hkey := mirror.keyed key tuple hfound
        refine absurd hkey (hnone (.delete tuple) (mem_plan.mpr ⟨hkey ▸ hfound, fun hin => ?_⟩))
        rw [hkey, ExtTreeMap.mem_iff_isSome_getElem?, hwant] at hin
        cases hin

theorem plan_self (want : Tuples) : plan want want = [] := by
  refine List.eq_nil_iff_forall_not_mem.mpr fun job hjob => ?_
  have hplan := mem_plan.mp hjob
  cases job with
  | delete => exact hplan.2 (Tuples.mem_of_getElem? hplan.1)
  | put => exact hplan.2 hplan.1

theorem idle_pass (hidle : ∀ pass, s.pass = some pass → pass.work = [] ∧ pass.called = none) (replies : List Reply) :
    (run Projection.step s (replies.map .next)).request = none := by
  induction replies generalizing s with
  | nil =>
    change s.request = none
    unfold Projection.request
    cases hpass : s.pass with
    | none => rfl
    | some pass =>
      obtain ⟨hwork, hcalled⟩ := hidle pass hpass
      simp [Pass.request, hwork, hcalled]
  | cons _ _ ih =>
    rw [List.map_cons, run_cons]
    refine ih fun pass' hpass' => ?_
    unfold Projection.step at hpass'
    cases hpass : s.pass with
    | none =>
      rw [hpass] at hpass'
      cases hpass.symm.trans hpass'
    | some pass =>
      obtain ⟨hwork, hcalled⟩ := hidle pass hpass
      simp [hpass, Projection.next, hwork, hcalled] at hpass'

end

/-- **Every published authorization is withdrawn again.** Along every run in which a call that reports an error had no
effect and no pass stops between a call and its mirror row, each tuple in the registry is named by the mirror or desired
by the pass under way; a put for a repository is made only when the registry holds no tuple of it that is no longer
desired; and where nothing is in back-off, a pass over exact calls brings the registry to any desired set, and another
one makes no call. -/
theorem calm_runs_withdraw (events : List Event) (hcalm : Along Projection.step Calm .start events) :
    let s := run Projection.step .start events
    (∀ (key : Key) (tuple : Tuple), s.registry.rows[key]? = some tuple →
      key ∈ s.mirror.rows ∨ ∃ pass, s.pass = some pass ∧ key ∈ pass.want.rows) ∧
    (∀ (tuple : Tuple) (id : String), s.request = some (.put tuple) → tuple.repoId = some id →
      ∀ (key : Key) (other : Tuple), s.registry.rows[key]? = some other → other.repoId = some id →
        ∃ pass, s.pass = some pass ∧ key ∈ pass.want.rows) ∧
    (s.pass = none → (∀ key, s.backoff.due key s.now = true) → ∀ want : Tuples, ∃ n,
      let s' := run Projection.step s (.begin want :: List.replicate n (.next .done))
      s'.pass = none ∧ s'.registry = want ∧
        ∀ replies : List Reply, (run Projection.step s' (.begin want :: replies.map .next)).request = none) := by
  intro s
  have hs : Sound s := run_induction ⟨rfl, nofun⟩ hcalm fun _ _ hs hcalm => sound_step hs hcalm
  refine ⟨fun key tuple hfound => ?_, fun tuple id hrequest hid key other hfound hother => ?_,
    fun hpass hdue want => ?_⟩
  · exact hs.named (hs.mirrored ▸ hfound)
  · exact hs.none_left hrequest hid (hs.mirrored ▸ hfound) hother
  · have hmirrored : s.registry = s.mirror := by rw [hs.mirrored, Projection.recorded, hpass]; rfl
    have hbegun : s.step (.begin want) = { s with pass := some ⟨s.now, want, [], plan want s.mirror, none⟩ } := by
      rw [Projection.step, hpass]
    obtain ⟨hended, hregistry, hmirror⟩ := exact_pass (congrArg Projection.pass hbegun) (by rw [hbegun]; exact hdue)
    rw [hbegun] at hended hregistry hmirror
    rw [foldl_plan] at hmirror
    refine ⟨2 * (plan want s.mirror).length + 1, ?_⟩
    rw [run_cons, hbegun]
    refine ⟨hended, hregistry.trans ?_, fun replies => ?_⟩
    · rw [hmirrored, foldl_plan]
    · rw [run_cons]
      refine idle_pass (fun pass h => ?_) replies
      rw [Projection.step, hended] at h
      cases h
      exact ⟨(congrArg (plan want) hmirror).trans (plan_self want), rfl⟩

/-! ### One grant, withdrawn; and what is forgotten -/

def ownerAt (resource : String) : Tuple := ⟨"did:a", "git.repo.own", resource, .null, some "repo"⟩

def owned (resource : String) : Tuples := Tuples.empty.put (ownerAt resource)

/-- A pass over the desired set, its calls answered so. -/
def passOver (want : Tuples) (reply : Reply) : List Event := .begin want :: List.replicate 8 (.next reply)

/-- The repository is published, and after a rename one pass brings the registry to its new name. -/
theorem calm_runs_withdraw_renamed :
    let s := run Projection.step .start (passOver (owned "acme/old") .done)
    s.registry.rows[(ownerAt "acme/old").key]? = some (ownerAt "acme/old") ∧
      ∃ n, (run Projection.step s (.begin (owned "acme/new") :: List.replicate n (.next .done))).registry =
        owned "acme/new" := by
  have hcalm : Along Projection.step Calm .start (passOver (owned "acme/old") .done) :=
    along_of_forall (by simp [passOver, Calm])
  have hfree : (run Projection.step .start (passOver (owned "acme/old") .done)).backoff = ∅ :=
    ExtTreeMap.isEmpty_iff.mp (by decide +kernel)
  refine ⟨by decide +kernel, ?_⟩
  obtain ⟨n, -, h, -⟩ := (calm_runs_withdraw _ hcalm).2.2 (by decide +kernel)
    (fun key => by rw [hfree, Backoff.due, ExtTreeMap.getElem?_empty]; rfl) (owned "acme/new")
  exact ⟨n, h⟩

/-- A put that took effect and reported an error, with its tuple no longer desired: the registry holds a tuple that
the mirror does not name and nothing desires. -/
def forgotten : List Event := passOver (owned "acme/old") (.failed true) ++ passOver .empty .done

/-- The same put with the repository renamed: the pass is about to put the new name's tuple. -/
def renamed : List Event := passOver (owned "acme/old") (.failed true) ++ [.begin (owned "acme/new")]

/-- A delete that took effect and reported an error, with its tuple desired again and no back-off left. -/
def missed : List Event :=
  passOver (owned "acme/old") .done ++ passOver .empty (.failed true) ++
    .wait 3600 :: passOver (owned "acme/old") .done

theorem tuple_forgotten :
    ((run Projection.step .start forgotten).registry.rows[(ownerAt "acme/old").key]? = some (ownerAt "acme/old") ∧
        (run Projection.step .start forgotten).pass = none ∧
        (run Projection.step .start forgotten).mirror.rows[(ownerAt "acme/old").key]? = none) ∧
      ((run Projection.step .start renamed).request = some (.put (ownerAt "acme/new")) ∧
        (run Projection.step .start renamed).registry.rows[(ownerAt "acme/old").key]? = some (ownerAt "acme/old")) ∧
      (run Projection.step .start missed).pass = none ∧
        (run Projection.step .start missed).registry.rows[(ownerAt "acme/old").key]? = none := by
  decide +kernel

end TrustInfrastructure.GitNs
