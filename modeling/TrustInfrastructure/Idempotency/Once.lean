import TrustInfrastructure.Idempotency.Store

/-!
# A keyed operation runs once while its record lives

Any number of attempts under one key run concurrently, and the key's record does not expire. While it is there it has
one owner, the attempt that claimed it, and only the owner removes it, when its operation had no effect. So an attempt
that keeps its claim (it completes, or it dies) is the last to be given the key, and once a completion is recorded every
later attempt is answered from it.

`Timely` is about the clock: an attempt's reading never makes a record that it replaces an expired one. `Single` is
about the record and its owner. One operation keeps both; it leaves the record alone, claims a free key, replaces the
record by one that expires no earlier, or drops it.

A try to extend a record's retention is lost to every write of the record meanwhile, so an attempt is answered with an
error after 64 of them. A record that is dropped takes with it the retention that repeats of the request have given it
(`retention_lost`), so `spares` asks that a claim be given back only before such a repeat.
-/

namespace TrustInfrastructure.Idempotency

open Lib (Program Conduct Record Event Crew Rows RowOp Check Write Bytes run Along)
open IdempotencyProgram

variable {old new entry x : CacheEntry} {o : StoreOp}

section
variable {ι : Type}

abbrev StoreEvent (ι : Type) := Event idempotencyStore ι

def live (sk : StorageKey) (s : StoreState) : Bool := (s.row sk).all fun entry => decide (s.clock < entry.expiresAt)

/-! ### Events -/

/-- A free key was claimed. -/
def claims : StoreEvent ι → Bool
  | ⟨_, .insertIfAbsent _ _, inserted⟩ => (show Bool from inserted)
  | _ => false

def removes : StoreOp → Bool
  | .batch [] [.delete _] => true
  | _ => false

def drops (e : StoreEvent ι) : Bool := removes e.op

def shown (e : StoreEvent ι) : Option CacheEntry := shownBy ⟨e.op, e.reply⟩

/-- The attempt does not give its claim back. -/
def Task.keeps : Task → Bool
  | .attempt a => decide (a.fate ≠ .releases)
  | .wait _ => false

/-- The second attempt repeats the request of the first and states how long the record must last. -/
def Task.retains : Task → Task → Bool
  | .attempt a, .attempt b => decide (b.requestHash = a.requestHash) && b.retainUntil.isSome
  | _, _ => false

/-- A claim is given back only if no attempt at its request that states a retention has begun. -/
def spares (task : ι → Task) (history : List (StoreEvent ι)) (i : ι) (o : StoreOp) : Bool :=
  !removes o || history.all fun e => !(task i).retains (task e.thread)

def Answered (history : List (StoreEvent ι)) (i : ι) : Prop := ∃ e ∈ history, e.thread = i ∧ claims e = true

def Owns (history : List (StoreEvent ι)) (i : ι) : Prop :=
  Answered history i ∧ ∀ e ∈ history, e.thread = i → drops e = false

/-! ### The invariants -/

structure Timely (sk : StorageKey) (s : StoreState) (history : List (StoreEvent ι)) : Prop where
  clock : ∀ i, ∀ now : Nat, (⟨i, .now, now⟩ : StoreEvent ι) ∈ history → now ≤ s.clock
  fresh : ∀ i, ∀ now : Nat, ∀ old new, (⟨i, .now, now⟩ : StoreEvent ι) ∈ history →
    (⟨i, replace sk old new, true⟩ : StoreEvent ι) ∈ history → now < old.expiresAt
  seen : ∀ i, ∀ now : Nat, ∀ entry : CacheEntry, (⟨i, .now, now⟩ : StoreEvent ι) ∈ history →
    (⟨i, .get sk, some entry⟩ : StoreEvent ι) ∈ history → now < entry.expiresAt

/-- What an event says about an earlier one: no key is handed out after a claim that is kept, a finished record is
neither dropped nor found otherwise, and a record shown to an attempt that states a retention is not dropped. -/
def Follows (sk : StorageKey) (task : ι → Task) (later earlier : StoreEvent ι) : Prop :=
  (claims earlier = true → (task earlier.thread).keeps = true → claims later = false) ∧
    ∀ entry, shown earlier = some entry →
      (entry.isInFlight = false → drops later = false ∧ claims later = false ∧
        ∀ j, ∀ found : Option CacheEntry, later = ⟨j, .get sk, found⟩ →
          ∃ found', found = some found' ∧ entry.SameOutcome found') ∧
      ∀ b, task earlier.thread = .attempt b → b.retainUntil.isSome = true → entry.requestHash = b.requestHash →
        drops later = false

structure Single (sk : StorageKey) (task : ι → Task) (s : StoreState) (history : List (StoreEvent ι)) : Prop where
  dropper : ∀ e ∈ history, drops e = true → (task e.thread).keeps = false ∧ e.op = drop sk
  free : s.row sk = none → ∀ i, ¬ Owns history i
  unique : ∀ i j, Owns history i → Owns history j → i = j
  held : ∀ entry, s.row sk = some entry → ∃ i a, task i = .attempt a ∧ Owns history i ∧
    entry.requestHash = a.requestHash ∧ (entry.isInFlight = false → a.fate ≠ .releases)
  finisher : ∀ i old new, (⟨i, replace sk old new, true⟩ : StoreEvent ι) ∈ history → old.isInFlight = true →
    new.isInFlight = false → ∃ a, task i = .attempt a ∧ old.requestHash = a.requestHash
  since : ∀ later e earlier entry, history = later ++ e :: earlier → shown e = some entry →
    (∀ e' ∈ later, drops e' = false) → ∃ now, s.row sk = some now ∧ entry.expiresAt ≤ now.expiresAt ∧
      now.requestHash = entry.requestHash ∧ (entry.isInFlight = false → entry.SameOutcome now)
  order : history.Pairwise (Follows sk task)

variable {sk : StorageKey} {task : ι → Task} {s s' : StoreState} {history : List (StoreEvent ι)} {e : StoreEvent ι}
  {i : ι} {o : StoreOp} {a : Attempt}

/-! ### The clock -/

theorem exec_replace_cases (sk : StorageKey) (old new : CacheEntry) (s : StoreState) :
    s.row sk = some old ∧ RowOp.exec (replace sk old new) s = (true, s.set sk (some new)) ∨
      RowOp.exec (replace sk old new) s = (false, s) := by
  rcases RowOp.exec_batch_cases [.unchanged sk old] [.put sk new] s with ⟨hholds, hexec⟩ | hexec
  · exact .inl ⟨by simpa [Rows.holds] using hholds, hexec⟩
  · exact .inr hexec

theorem lt_of_live (hlive : live sk s = true) (hrow : s.row sk = some entry) : s.clock < entry.expiresAt := by
  rw [live, hrow] at hlive
  exact of_decide_eq_true hlive

theorem Timely.cons (h : Timely sk s history) (hclock : s.clock ≤ s'.clock)
    (hnow : ∀ j, ∀ now : Nat, (⟨j, .now, now⟩ : StoreEvent ι) = e → now ≤ s'.clock ∧ ∀ e' ∈ history, e'.thread ≠ j)
    (hreplace : ∀ j old new, (⟨j, replace sk old new, true⟩ : StoreEvent ι) = e → s.clock < old.expiresAt)
    (hget : ∀ j, ∀ entry : CacheEntry, (⟨j, .get sk, some entry⟩ : StoreEvent ι) = e → s.clock < entry.expiresAt) :
    Timely sk s' (e :: history) where
  clock j now hmem := by
    rcases List.mem_cons.mp hmem with heq | hmem
    · exact (hnow j now heq).1
    · exact (h.clock j now hmem).trans hclock
  fresh j now old new hmem hmem' := by
    rcases List.mem_cons.mp hmem' with heq' | hmem'
    · rcases List.mem_cons.mp hmem with heq | hmem
      · cases (Event.mk.inj (heq.trans heq'.symm)).2.1
      · exact lt_of_le_of_lt (h.clock j now hmem) (hreplace j old new heq')
    · rcases List.mem_cons.mp hmem with heq | hmem
      · exact absurd rfl ((hnow j now heq).2 _ hmem')
      · exact h.fresh j now old new hmem hmem'
  seen j now entry hmem hmem' := by
    rcases List.mem_cons.mp hmem' with heq' | hmem'
    · rcases List.mem_cons.mp hmem with heq | hmem
      · cases (Event.mk.inj (heq.trans heq'.symm)).2.1
      · exact lt_of_le_of_lt (h.clock j now hmem) (hget j entry heq')
    · rcases List.mem_cons.mp hmem with heq | hmem
      · exact absurd rfl ((hnow j now heq).2 _ hmem')
      · exact h.seen j now entry hmem hmem'

variable [DecidableEq ι]

theorem timely_step (h : Timely sk s history) (hpermits : Permits sk (task i) (Crew.diary i history) o)
    (hlive : live sk s = true) :
    Timely sk (RowOp.exec o s).2 (⟨i, o, (RowOp.exec o s).1⟩ :: history) := by
  refine h.cons (RowOp.clock_le_exec o s) (fun j now heq => ?_) (fun j old new heq => ?_) fun j entry heq => ?_
  · obtain ⟨rfl, rfl, hreply⟩ := Event.mk.inj heq
    refine ⟨le_of_eq (show now = s.clock from eq_of_heq hreply), fun e' hmem hthread => ?_⟩
    -- An attempt reads the clock before anything else.
    have hdiary : Crew.diary j history = [] := by
      generalize Crew.diary j history = diary at hpermits
      generalize task j = t at hpermits
      cases hpermits
      rfl
    obtain ⟨k, o, r⟩ := e'
    obtain rfl : k = j := hthread
    have hmem := Crew.mem_diary.mpr hmem
    rw [hdiary] at hmem
    cases hmem
  · obtain ⟨rfl, rfl, hreply⟩ := Event.mk.inj heq
    rcases exec_replace_cases sk old new s with ⟨hrow, -⟩ | hexec
    · exact lt_of_live hlive hrow
    · cases (congrArg Prod.fst hexec).symm.trans (eq_of_heq hreply).symm
  · obtain ⟨rfl, rfl, hreply⟩ := Event.mk.inj heq
    exact lt_of_live hlive (eq_of_heq hreply).symm

theorem Timely.answered (h : Timely sk s history) (hclaimed : Claimed sk a (Crew.diary i history)) :
    Answered history i := by
  obtain ⟨now, hclock, hmem | ⟨old, hexpired, hmem⟩⟩ := hclaimed
  · exact ⟨_, Crew.mem_diary.mp hmem, rfl, rfl⟩
  · have hfresh := h.fresh i now old _ (Crew.mem_diary.mp hclock) (Crew.mem_diary.mp hmem)
    omega

end

/-! ### The record and its owner -/

section
variable {ι : Type} {sk : StorageKey} {task : ι → Task} {s s' : StoreState} {history : List (StoreEvent ι)}
  {e : StoreEvent ι} {i j : ι} {a : Attempt}

theorem Answered.cons (h : Answered history j) (e : StoreEvent ι) : Answered (e :: history) j := by
  obtain ⟨e', he', hrest⟩ := h
  exact ⟨e', List.mem_cons_of_mem _ he', hrest⟩

theorem Owns.of_cons (h : Owns (e :: history) j) (hclaims : claims e = false) : Owns history j := by
  obtain ⟨⟨e', he', hthread, hclaim⟩, hnot⟩ := h
  refine ⟨⟨e', ?_, hthread, hclaim⟩, (List.forall_mem_cons.mp hnot).2⟩
  rcases List.mem_cons.mp he' with rfl | he'
  · rw [hclaims] at hclaim
    cases hclaim
  · exact he'

theorem owns_cons (hclaims : claims e = false) (hdrops : drops e = false) : Owns (e :: history) j ↔ Owns history j :=
  ⟨fun h => h.of_cons hclaims, fun h => ⟨h.1.cons e, List.forall_mem_cons.mpr ⟨fun _ => hdrops, h.2⟩⟩⟩

section
variable (h : Single sk task s history)
include h

/-- An attempt that keeps its claim has it. -/
theorem Single.owns (hanswered : Answered history j) (hkeeps : (task j).keeps = true) :
    Owns history j := by
  refine ⟨hanswered, fun e he hthread => ?_⟩
  cases hdrops : drops e with
  | false => rfl
  | true =>
    rw [← hthread, (h.dropper e he hdrops).1] at hkeeps
    cases hkeeps

/-- A record that was finished is still there. -/
theorem Single.settled (he : e ∈ history) (hshown : shown e = some entry)
    (hfinished : entry.isInFlight = false) : ∃ now, s.row sk = some now ∧ entry.SameOutcome now := by
  obtain ⟨later, earlier, rfl⟩ := List.append_of_mem he
  have hnodrop : ∀ e' ∈ later, drops e' = false := fun e' he' =>
    ((((List.pairwise_append.mp h.order).2.2 e' he' e List.mem_cons_self).2 entry hshown).1 hfinished).1
  obtain ⟨now, hnow, -, -, hsame⟩ := h.since later e earlier entry rfl hshown hnodrop
  exact ⟨now, hnow, hsame hfinished⟩

/-- So is one that was shown to an attempt at its request that states a retention. -/
theorem Single.retained (he : e ∈ history) (hshown : shown e = some entry) (htask : task e.thread = .attempt a)
    (hretain : a.retainUntil.isSome = true) (hhash : entry.requestHash = a.requestHash) :
    ∃ now, s.row sk = some now ∧ entry.expiresAt ≤ now.expiresAt ∧ now.requestHash = a.requestHash := by
  obtain ⟨later, earlier, rfl⟩ := List.append_of_mem he
  have hnodrop : ∀ e' ∈ later, drops e' = false := fun e' he' =>
    (((List.pairwise_append.mp h.order).2.2 e' he' e List.mem_cons_self).2 entry hshown).2 a htask hretain hhash
  obtain ⟨now, hnow, hle, hsame, -⟩ := h.since later e earlier entry rfl hshown hnodrop
  exact ⟨now, hnow, hle, hsame.trans hhash⟩

/-- An event that leaves the record as it is. -/
theorem Single.quiet (hrow : s'.row sk = s.row sk) (hclaims : claims e = false)
    (hdrops : drops e = false) (hshown : ∀ entry, shown e = some entry → s.row sk = some entry)
    (hget : ∀ j, ∀ found : Option CacheEntry, e = ⟨j, .get sk, found⟩ → found = s.row sk)
    (hreplace : ∀ j old new, (⟨j, replace sk old new, true⟩ : StoreEvent ι) ≠ e) :
    Single sk task s' (e :: history) where
  dropper := List.forall_mem_cons.mpr ⟨fun hdrop => absurd (hdrops.symm.trans hdrop) Bool.false_ne_true, h.dropper⟩
  free hnone j := by
    rw [owns_cons hclaims hdrops]
    exact h.free (hrow ▸ hnone) j
  unique j k := by
    rw [owns_cons hclaims hdrops, owns_cons hclaims hdrops]
    exact h.unique j k
  held entry hentry := by
    obtain ⟨k, b, htask, howns, hrest⟩ := h.held entry (hrow ▸ hentry)
    exact ⟨k, b, htask, (owns_cons hclaims hdrops).mpr howns, hrest⟩
  finisher k old new hmem := h.finisher k old new ((List.mem_cons.mp hmem).resolve_left (hreplace k old new))
  since later e' earlier entry hsplit hentry hnodrop := by
    rw [hrow]
    rcases List.cons_eq_append_iff.mp hsplit with ⟨rfl, hcons⟩ | ⟨later, rfl, rfl⟩
    · obtain ⟨rfl, rfl⟩ := List.cons.inj hcons
      exact ⟨entry, hshown entry hentry, le_refl _, rfl, fun _ => entry.sameOutcome_refl⟩
    · exact h.since later e' earlier entry rfl hentry fun e'' he'' => hnodrop e'' (List.mem_cons_of_mem _ he'')
  order := by
    refine List.pairwise_cons.mpr ⟨fun e' he' => ⟨fun _ _ => hclaims, fun entry hentry => ⟨fun hfinished =>
      ⟨hdrops, hclaims, ?_⟩, fun _ _ _ _ => hdrops⟩⟩, h.order⟩
    intro j found heq
    obtain ⟨now, hnow, hsame⟩ := h.settled he' hentry hfinished
    exact ⟨now, (hget j found heq).trans hnow, hsame⟩

/-- A free key is claimed. -/
theorem Single.claim (hnone : s.row sk = none) (htask : task i = .attempt a) {now : Nat}
    (hundropped : ∀ e ∈ history, e.thread = i → drops e = false) :
    Single sk task (s.set sk (some (pendingEntry sk a now)))
      (⟨i, .insertIfAbsent sk (pendingEntry sk a now), true⟩ :: history) where
  dropper := List.forall_mem_cons.mpr ⟨fun hdrop => (by cases hdrop), h.dropper⟩
  free hfree := by
    rw [Rows.row_set_self] at hfree
    cases hfree
  unique j k hj hk := by
    -- Whoever claimed the key before has dropped it, since it is free.
    have hmine : ∀ j, Owns (⟨i, .insertIfAbsent sk (pendingEntry sk a now), true⟩ :: history) j → j = i := by
      rintro j ⟨⟨e', he', hthread, hclaim⟩, hnot⟩
      rcases List.mem_cons.mp he' with rfl | he'
      · exact hthread.symm
      · exact absurd ⟨⟨e', he', hthread, hclaim⟩, (List.forall_mem_cons.mp hnot).2⟩ (h.free hnone j)
    rw [hmine j hj, hmine k hk]
  held entry hentry := by
    rw [Rows.row_set_self] at hentry
    cases hentry
    exact ⟨i, a, htask, ⟨⟨_, List.mem_cons_self, rfl, rfl⟩, List.forall_mem_cons.mpr ⟨fun _ => rfl, hundropped⟩⟩, rfl,
      fun hfinished => by cases hfinished⟩
  finisher k old new hmem := h.finisher k old new ((List.mem_cons.mp hmem).resolve_left (by rintro ⟨⟩))
  since later e' earlier entry hsplit hentry hnodrop := by
    rw [Rows.row_set_self]
    rcases List.cons_eq_append_iff.mp hsplit with ⟨rfl, hcons⟩ | ⟨later, rfl, rfl⟩
    · obtain ⟨rfl, rfl⟩ := List.cons.inj hcons
      cases hentry
      exact ⟨_, rfl, le_refl _, rfl, fun _ => CacheEntry.sameOutcome_refl _⟩
    · obtain ⟨was, hwas, -⟩ := h.since later e' earlier entry rfl hentry fun e'' he'' =>
        hnodrop e'' (List.mem_cons_of_mem _ he'')
      rw [hnone] at hwas
      cases hwas
  order := by
    refine List.pairwise_cons.mpr ⟨fun e' he' => ⟨fun hclaim hkeeps => ?_, fun entry hentry => ⟨fun hfinished => ?_,
      fun _ _ _ _ => rfl⟩⟩, h.order⟩
    · exact absurd (h.owns ⟨e', he', rfl, hclaim⟩ hkeeps) (h.free hnone _)
    · obtain ⟨was, hwas, -⟩ := h.settled he' hentry hfinished
      rw [hnone] at hwas
      cases hwas

/-- The record is replaced by one that expires no earlier; what was finished stays so. -/
theorem Single.replace (hrow : s.row sk = some old)
    (hexpires : old.expiresAt ≤ new.expiresAt) (hhash : new.requestHash = old.requestHash)
    (hsame : old.isInFlight = false → old.SameOutcome new)
    (hfinish : old.isInFlight = true → new.isInFlight = false → Owns history i ∧ (task i).keeps = true) :
    Single sk task (s.set sk (some new)) (⟨i, IdempotencyProgram.replace sk old new, true⟩ :: history) where
  dropper := List.forall_mem_cons.mpr ⟨fun hdrop => (by cases hdrop), h.dropper⟩
  free hfree := by
    rw [Rows.row_set_self] at hfree
    cases hfree
  unique j k := by
    rw [owns_cons rfl rfl, owns_cons rfl rfl]
    exact h.unique j k
  held entry hentry := by
    rw [Rows.row_set_self] at hentry
    cases hentry
    obtain ⟨k, b, htask, howns, hhash', hfate⟩ := h.held old hrow
    refine ⟨k, b, htask, (owns_cons rfl rfl).mpr howns, hhash.trans hhash', fun hfinished => ?_⟩
    cases hflight : old.isInFlight with
    | false => exact hfate hflight
    | true =>
      obtain ⟨hmine, hkeeps⟩ := hfinish hflight hfinished
      rw [h.unique i k hmine howns, htask] at hkeeps
      exact of_decide_eq_true hkeeps
  finisher k old' new' hmem hflight hfinished := by
    rcases List.mem_cons.mp hmem with heq | hmem
    · obtain ⟨rfl, hop, -⟩ := Event.mk.inj heq
      cases hop
      obtain ⟨owner, b, htask, howns, hhash', -⟩ := h.held _ hrow
      obtain ⟨hmine, -⟩ := hfinish hflight hfinished
      exact ⟨b, h.unique k owner hmine howns ▸ htask, hhash'⟩
    · exact h.finisher k old' new' hmem hflight hfinished
  since later e' earlier entry hsplit hentry hnodrop := by
    rw [Rows.row_set_self]
    rcases List.cons_eq_append_iff.mp hsplit with ⟨rfl, hcons⟩ | ⟨later, rfl, rfl⟩
    · obtain ⟨rfl, rfl⟩ := List.cons.inj hcons
      cases hentry
      exact ⟨_, rfl, le_refl _, rfl, fun _ => CacheEntry.sameOutcome_refl _⟩
    · obtain ⟨was, hwas, hle, hwasHash, hwasSame⟩ := h.since later e' earlier entry rfl hentry fun e'' he'' =>
        hnodrop e'' (List.mem_cons_of_mem _ he'')
      rw [hrow] at hwas
      cases hwas
      refine ⟨new, rfl, hle.trans hexpires, hhash.trans hwasHash, fun hfinished => ?_⟩
      have hold := hwasSame hfinished
      exact hold.trans (hsame (hold.isInFlight_eq.trans hfinished))
  order := by
    refine List.pairwise_cons.mpr ⟨fun e' he' => ⟨fun _ _ => rfl, fun entry hentry => ⟨fun _ => ⟨rfl, rfl, ?_⟩,
      fun _ _ _ _ => rfl⟩⟩, h.order⟩
    intro j found heq
    cases heq

theorem Single.drop (howns : Owns history i) (hkeeps : (task i).keeps = false)
    (hspares : ∀ e ∈ history, (task i).retains (task e.thread) = false) (hgone : s'.row sk = none) :
    Single sk task s' (⟨i, Idempotency.drop sk, true⟩ :: history) where
  dropper := List.forall_mem_cons.mpr ⟨fun _ => ⟨hkeeps, rfl⟩, h.dropper⟩
  free _ j hj := by
    have hself := hj.2 _ List.mem_cons_self (h.unique i j howns (hj.of_cons rfl))
    cases hself
  unique j k hj := by
    have hself := hj.2 _ List.mem_cons_self (h.unique i j howns (hj.of_cons rfl))
    cases hself
  held entry hentry := by
    rw [hgone] at hentry
    cases hentry
  finisher k old new hmem := h.finisher k old new ((List.mem_cons.mp hmem).resolve_left (by rintro ⟨⟩))
  since later e' earlier entry hsplit hentry hnodrop := by
    rcases List.cons_eq_append_iff.mp hsplit with ⟨rfl, hcons⟩ | ⟨later, rfl, rfl⟩
    · obtain ⟨rfl, rfl⟩ := List.cons.inj hcons
      cases hentry
    · have hself := hnodrop _ List.mem_cons_self
      cases hself
  order := by
    refine List.pairwise_cons.mpr ⟨fun e' he' => ⟨fun _ _ => rfl, fun entry hentry => ⟨fun hfinished => ?_,
      fun b htaskb hretain hhash => ?_⟩⟩, h.order⟩
    · -- A finished record is kept by its owner.
      obtain ⟨now, hnow, hsame⟩ := h.settled he' hentry hfinished
      obtain ⟨owner, b, htask, hwas, -, hfate⟩ := h.held now hnow
      rw [h.unique i owner howns hwas, htask] at hkeeps
      exact absurd (hfate (hsame.isInFlight_eq.trans hfinished))
        (of_decide_eq_false (show decide (b.fate ≠ .releases) = false from hkeeps))
    · -- A record that was to last is of the owner's request.
      obtain ⟨now, hnow, -, hnowHash⟩ := h.retained he' hentry htaskb hretain hhash
      obtain ⟨owner, a, htask, hwas, hheld, -⟩ := h.held now hnow
      have hretains := hspares e' he'
      rw [h.unique i owner howns hwas, htask, htaskb] at hretains
      simp [Task.retains, hretain, ← hnowHash, hheld] at hretains

theorem Single.refused :
    Single sk task s (⟨i, IdempotencyProgram.replace sk old new, false⟩ :: history) :=
  h.quiet rfl rfl rfl (fun _ hshown => by cases hshown) (fun _ _ heq => by cases heq) fun _ _ _ heq => by
    obtain ⟨-, hop, hreply⟩ := Event.mk.inj heq
    cases hop
    cases hreply

/-- Replacements are made of the record found, or refused. -/
theorem single_replace (hmade : s.row sk = some old →
      Single sk task (s.set sk (some new)) (⟨i, IdempotencyProgram.replace sk old new, true⟩ :: history)) :
    Single sk task (RowOp.exec (IdempotencyProgram.replace sk old new) s).2
      (⟨i, IdempotencyProgram.replace sk old new, (RowOp.exec (IdempotencyProgram.replace sk old new) s).1⟩ ::
        history) := by
  rcases exec_replace_cases sk old new s with ⟨hrow, hexec⟩ | hexec
  · rw [hexec]
    exact hmade hrow
  · rw [hexec]
    exact h.refused

end

variable [DecidableEq ι]

/-- **One operation** of attempts keeps the invariant while the record lives. -/
theorem single_step (htimely : Timely sk s history) (h : Single sk task s history)
    (hpermits : Permits sk (task i) (Crew.diary i history) o) (hlive : live sk s = true)
    (hspares : spares task history i o = true) :
    Single sk task (RowOp.exec o s).2 (⟨i, o, (RowOp.exec o s).1⟩ :: history) := by
  generalize hcall : task i = t at hpermits
  generalize hdiary : Crew.diary i history = diary at hpermits
  have hundropped : (∀ r : Bool, (⟨drop sk, r⟩ : Record idempotencyStore) ∉ diary) →
      ∀ e ∈ history, e.thread = i → drops e = false := by
    intro hfirst e he hthread
    cases hdrops : drops e with
    | false => rfl
    | true =>
      obtain ⟨-, hop⟩ := h.dropper e he hdrops
      obtain ⟨j, o, r⟩ := e
      obtain rfl : o = drop sk := hop
      obtain rfl : j = i := hthread
      exact absurd (hdiary ▸ Crew.mem_diary.mpr he) (hfirst r)
  cases hpermits with
  | now | wait =>
    exact h.quiet rfl rfl rfl (fun _ hshown => by cases hshown) (fun _ _ heq => by cases heq)
      fun _ _ _ heq => by cases heq
  | read =>
    refine h.quiet rfl rfl rfl (fun _ hshown => hshown) (fun j found heq => ?_) fun _ _ _ heq => by cases heq
    obtain ⟨-, -, hreply⟩ := Event.mk.inj heq
    exact (eq_of_heq hreply).symm
  | @claim a _ now _ hfirst =>
    by_cases hnone : s.row sk = none
    · have hexec : RowOp.exec (.insertIfAbsent sk (pendingEntry sk a now)) s =
          (true, s.set sk (some (pendingEntry sk a now))) := if_pos (by rw [hnone]; rfl)
      rw [hexec]
      exact h.claim hnone hcall (hundropped hfirst)
    · have hexec : RowOp.exec (.insertIfAbsent sk (pendingEntry sk a now)) s = (false, s) :=
        if_neg (by simpa using hnone)
      rw [hexec]
      exact h.quiet rfl rfl rfl (fun _ hshown => by cases hshown) (fun _ _ heq => by cases heq)
        fun _ _ _ heq => by cases heq
  | @reclaim _ _ now _ hclock =>
    refine single_replace h fun hrow => ?_
    have hread := htimely.clock i now (Crew.mem_diary.mp (hdiary ▸ hclock))
    have halive := lt_of_live hlive hrow
    omega
  | @extend _ _ _ _ _ _ hlater =>
    refine single_replace h fun hrow => h.replace hrow hlater.le rfl (fun _ => rfl) fun hflight hfinished => ?_
    exact absurd (hflight.symm.trans hfinished) (by simp)
  | @finish _ _ _ response hclaimed hfate hrunning =>
    refine single_replace h fun hrow => ?_
    have hkeeps : (task i).keeps = true := by
      rw [hcall, Task.keeps, hfate]
      rfl
    have howns := h.owns (htimely.answered (hdiary ▸ hclaimed)) hkeeps
    refine h.replace hrow ?_ ?_ (fun hfinished => ?_) fun _ _ => ⟨howns, hkeeps⟩
    · cases response <;> exact le_refl _
    · cases response <;> rfl
    · rw [hrunning] at hfinished
      cases hfinished
  | @drop _ _ hclaimed hfate hfirst =>
    have hkeeps : (task i).keeps = false := by
      rw [hcall, Task.keeps, hfate]
      rfl
    have hnone : ∀ e ∈ history, (task i).retains (task e.thread) = false := by
      simpa [spares, removes, Idempotency.drop] using hspares
    exact h.drop ⟨htimely.answered (hdiary ▸ hclaimed), hundropped hfirst⟩ hkeeps hnone (s.row_set_self _ _)

/-- The record expires no earlier than before, as long as there is one. -/
theorem expiresAt_step {y : CacheEntry} (htimely : Timely sk s history)
    (hpermits : Permits sk (task i) (Crew.diary i history) o) (hlive : live sk s = true) (hx : s.row sk = some x)
    (hy : (RowOp.exec o s).2.row sk = some y) : x.expiresAt ≤ y.expiresAt := by
  generalize task i = t at hpermits
  generalize hdiary : Crew.diary i history = diary at hpermits
  have hsame : (RowOp.exec o s).2.row sk = s.row sk → x.expiresAt ≤ y.expiresAt := by
    intro hrow
    rw [hrow, hx] at hy
    cases hy
    exact le_refl _
  have hreplaced : ∀ old new, o = replace sk old new → (s.row sk = some old → old.expiresAt ≤ new.expiresAt) →
      x.expiresAt ≤ y.expiresAt := by
    rintro old new rfl hle
    rcases exec_replace_cases sk old new s with ⟨hold, hexec⟩ | hexec
    · rw [hexec, Rows.row_set_self] at hy
      cases hy
      cases hx.symm.trans hold
      exact hle hx
    · exact hsame (by rw [hexec])
  cases hpermits with
  | now | read | wait => exact hsame rfl
  | @claim a _ now =>
    have hexec : RowOp.exec (.insertIfAbsent sk (pendingEntry sk a now)) s = (false, s) := if_neg (by rw [hx]; simp)
    exact hsame (by rw [hexec])
  | @reclaim _ _ now _ hclock =>
    refine hreplaced _ _ rfl fun hrow => ?_
    have hread := htimely.clock i now (Crew.mem_diary.mp (hdiary ▸ hclock))
    have halive := lt_of_live hlive hrow
    omega
  | extend _ _ hlater => exact hreplaced _ _ rfl fun _ => hlater.le
  | @finish _ _ _ response =>
    refine hreplaced _ _ rfl fun _ => ?_
    cases response <;> exact le_refl _
  | drop =>
    rw [show (RowOp.exec (drop sk) s).2.row sk = none from s.row_set_self sk _] at hy
    cases hy

/-! ### Runs -/

def attempts (sk : StorageKey) (s : StoreState) (task : ι → Task) :
    Crew idempotencyStore (Task × Diary) ι Rooms.AppError ClaimOutcome :=
  Crew.tasks s (Task.program sk) task

def after (sk : StorageKey) (s : StoreState) (task : ι → Task) (schedule : List ι) :
    Crew idempotencyStore (Task × Diary) ι Rooms.AppError ClaimOutcome :=
  run (Crew.step (conduct sk)) (attempts sk s task) schedule

/-- A run in which the record does not expire, and takes no retention with it when it is dropped. -/
def RunsLive (sk : StorageKey) (s : StoreState) (task : ι → Task) (schedule : List ι) : Prop :=
  Along (Crew.step (conduct sk))
    (Crew.Meets fun s _ history i o => live sk s = true ∧ spares task history i o = true) (attempts sk s task) schedule

instance instDecidableRunsLive (s : StoreState) (task : ι → Task) (schedule : List ι) :
    Decidable (RunsLive sk s task schedule) :=
  inferInstanceAs (Decidable (Along _ _ _ _))

omit [DecidableEq ι] in
theorem single_start (h : s.row sk = none) :
    Timely sk s ([] : List (StoreEvent ι)) ∧ Single sk task s ([] : List (StoreEvent ι)) := by
  refine ⟨⟨fun _ _ hmem => (nomatch hmem), fun _ _ _ _ hmem => (nomatch hmem), fun _ _ _ hmem => (nomatch hmem)⟩,
    ⟨fun _ hmem => (nomatch hmem), fun _ _ howns => ?_, fun _ _ howns => ?_, fun entry hentry => ?_,
      fun _ _ _ hmem => (nomatch hmem), fun later e earlier _ hsplit => ?_, List.Pairwise.nil⟩⟩
  · obtain ⟨⟨_, hmem, -⟩, -⟩ := howns
    cases hmem
  · obtain ⟨⟨_, hmem, -⟩, -⟩ := howns
    cases hmem
  · rw [h] at hentry
    cases hentry
  · exact absurd hsplit.symm (by simp)

theorem answered_from {later earlier : List (StoreEvent ι)} {response : Option CompletedResponse}
    {b : Attempt} {r : Except Rooms.AppError ClaimOutcome} (htimely : Timely sk s history)
    (h : Single sk task s history)
    (hsplit : history = later ++ ⟨i, replace sk x (x.finished response), true⟩ :: earlier) (hother : j ≠ i)
    (hbegan : ∀ e ∈ earlier, e.thread ≠ j) (hdone : Done sk (.attempt b, Crew.diary j history) r) :
    (b.requestHash = x.requestHash → (Crew.diary j history).countP lost < writeAttempts →
      ∃ z, r = .ok (.completed z) ∧ (x.finished response).SameOutcome z) ∧
    (b.requestHash ≠ x.requestHash → r = .ok .conflict) := by
  have hhash : (x.finished response).requestHash = x.requestHash := by cases response <;> rfl
  -- Every event of the attempt comes after the completion.
  have hlater : ∀ e ∈ history, e.thread = j →
      claims e = false ∧ ∀ k, ∀ found : Option CacheEntry, e = ⟨k, .get sk, found⟩ →
        ∃ found', found = some found' ∧ (x.finished response).SameOutcome found' := by
    intro e he hthread
    rw [hsplit] at he
    rcases List.mem_append.mp he with he | he
    · have horder := h.order
      rw [hsplit] at horder
      exact ((((List.pairwise_append.mp horder).2.2 e he _ List.mem_cons_self).2 _ rfl).1
        (x.isInFlight_finished response)).2
    · rcases List.mem_cons.mp he with rfl | he
      · exact absurd hthread.symm hother
      · exact absurd hthread (hbegan e he)
  have hclaimed : ¬ Claimed sk b (Crew.diary j history) := by
    intro hclaimed
    obtain ⟨e, he, hthread, hclaim⟩ := htimely.answered hclaimed
    rw [(hlater e he hthread).1] at hclaim
    cases hclaim
  have hfound : ∀ entry, Found sk (Crew.diary j history) entry → (x.finished response).SameOutcome entry := by
    intro entry hentry
    obtain ⟨found, heq, hsame⟩ := (hlater _ (Crew.mem_diary.mp hentry) rfl).2 j (some entry) rfl
    cases heq
    exact hsame
  have hflight : ∀ entry, Found sk (Crew.diary j history) entry → entry.isInFlight = false := fun entry hentry =>
    (hfound entry hentry).isInFlight_eq.trans (x.isInFlight_finished response)
  have hrequest : ∀ entry, Found sk (Crew.diary j history) entry → entry.requestHash = x.requestHash :=
    fun entry hentry =>
    (hfound entry hentry).requestHash_eq.trans hhash
  cases r with
  | error =>
    obtain ⟨rfl, hlost, hcontended⟩ := hdone.resolve_left hclaimed
    refine ⟨fun _ hfew => absurd hfew (not_lt.mpr hlost), fun hne => ?_⟩
    rcases hcontended with hgone | ⟨entry, hentry, hsame | ⟨now, hclock, hexpired⟩⟩
    · obtain ⟨found, heq, -⟩ := (hlater _ (Crew.mem_diary.mp hgone) rfl).2 j none rfl
      cases heq
    · exact absurd (hsame.symm.trans (hrequest entry hentry)) hne
    · have halive := htimely.seen j now entry (Crew.mem_diary.mp hclock) (Crew.mem_diary.mp hentry)
      omega
  | ok outcome =>
    obtain ⟨hanswer, -⟩ := hdone
    cases outcome with
    | claimed => exact absurd hanswer hclaimed
    | inFlight | abandoned =>
      obtain ⟨entry, hentry, hrunning, -⟩ := hanswer
      exact absurd (hrunning.symm.trans (hflight entry hentry)) (by simp)
    | completed z =>
      obtain ⟨entry, hentry, -, hsame, houtcome⟩ := hanswer
      refine ⟨fun _ _ => ⟨z, rfl, (hfound entry hentry).trans houtcome⟩, fun hne => ?_⟩
      exact absurd (hsame.symm.trans (hrequest entry hentry)) hne
    | conflict =>
      obtain ⟨entry, hentry, hdiffers⟩ := hanswer
      exact ⟨fun hsame => absurd ((hrequest entry hentry).trans hsame.symm) hdiffers, fun _ => rfl⟩

/-- **A keyed operation runs at most once while its record lives.** In every run of attempts under one key in which the
record does not expire, and in which no claim is given back once an attempt at its request that states a retention has
begun: of attempts that do not give their claim back, at most one is answered that the key is its own, and after it no
attempt is; after a completion, an attempt that begins later is answered with the recorded outcome if it repeats the
request, unless it loses each of its 64 tries to other writes of the record, and with a conflict if it is another
request; the record's expiry never decreases while there is one, and after an attempt that states a retention and was
not a conflict there is a record that covers it. -/
theorem runs_at_most_once (sk : StorageKey) (s : StoreState) (task : ι → Task) (schedule : List ι)
    (hnone : s.row sk = none) (hlive : RunsLive sk s task schedule) :
    let c := after sk s task schedule
    (∀ i j, Answered c.history i → Answered c.history j → (task i).keeps = true → (task j).keeps = true → i = j) ∧
    (∀ i a, task i = .attempt a → c.threads i = .ret (.ok .claimed) → Answered c.history i) ∧
    (∀ later e earlier, c.history = later ++ e :: earlier → claims e = true → (task e.thread).keeps = true →
      ∀ e' ∈ later, claims e' = false) ∧
    (∀ later i x response earlier a, c.history = later ++ ⟨i, replace sk x (x.finished response), true⟩ :: earlier →
      x.isInFlight = true → task i = .attempt a →
      ∀ j b r, task j = .attempt b → j ≠ i → (∀ e ∈ earlier, e.thread ≠ j) → c.threads j = .ret r →
        (b.requestHash = a.requestHash → (Crew.diary j c.history).countP lost < writeAttempts →
          ∃ z, r = .ok (.completed z) ∧ (x.finished response).SameOutcome z) ∧
        (b.requestHash ≠ a.requestHash → r = .ok .conflict)) ∧
    (∀ before i later x y, schedule = before ++ i :: later → (after sk s task before).store.row sk = some x →
      (after sk s task (before ++ [i])).store.row sk = some y → x.expiresAt ≤ y.expiresAt) ∧
    (∀ j b keepUntil outcome, task j = .attempt b → b.retainUntil = some keepUntil →
      c.threads j = .ret (.ok outcome) → outcome ≠ .conflict →
      ∃ now, c.store.row sk = some now ∧ keepUntil ≤ now.expiresAt) := by
  intro c
  have hstep : ∀ s history i o, (Timely sk s history ∧ Single sk task s history) →
      Permits sk (task i) (Crew.diary i history) o → live sk s = true ∧ spares task history i o = true →
      Timely sk (idempotencyStore.exec o s).2 (⟨i, o, (idempotencyStore.exec o s).1⟩ :: history) ∧
        Single sk task (idempotencyStore.exec o s).2 (⟨i, o, (idempotencyStore.exec o s).1⟩ :: history) :=
    fun s history i o hinv hpermits hlive =>
      ⟨timely_step hinv.1 hpermits hlive.1, single_step hinv.1 hinv.2 hpermits hlive.1 hlive.2⟩
  obtain ⟨⟨htimely, hsingle⟩, hends⟩ := Crew.tasks_invariant
    (J := fun s history => Timely sk s history ∧ Single sk task s history) follows_program
      (single_start hnone) hstep hlive
  change Timely sk c.store c.history at htimely
  change Single sk task c.store c.history at hsingle
  refine ⟨?_, ?_, ?_, ?_, ?_, ?_⟩
  · exact fun i j hi hj hkeepsi hkeepsj => hsingle.unique i j (hsingle.owns hi hkeepsi) (hsingle.owns hj hkeepsj)
  · intro i a htask hret
    have hdone := hends i _ hret
    rw [htask] at hdone
    exact htimely.answered hdone.1
  · intro later e earlier hsplit hclaim hkeeps e' he'
    have horder := hsingle.order
    rw [hsplit] at horder
    exact ((List.pairwise_append.mp horder).2.2 e' he' e List.mem_cons_self).1 hclaim hkeeps
  · intro later i x response earlier a hsplit hrunning htask j b r htaskj hother hbegan hret
    have hmem : (⟨i, replace sk x (x.finished response), true⟩ : StoreEvent ι) ∈ c.history := by
      rw [hsplit]
      exact List.mem_append_right _ List.mem_cons_self
    obtain ⟨a', htask', hhash⟩ := hsingle.finisher i x _ hmem hrunning (x.isInFlight_finished response)
    rw [htask] at htask'
    cases htask'
    have hdone := hends j _ hret
    rw [htaskj] at hdone
    have hanswer := answered_from htimely hsingle hsplit hother hbegan hdone
    rwa [hhash] at hanswer
  · intro before i later x y hsplit hx hy
    have halong : RunsLive sk s task (before ++ [i]) := by
      rw [hsplit, show before ++ i :: later = (before ++ [i]) ++ later by simp] at hlive
      exact ((Lib.along_append _ _).mp hlive).1
    rw [after, Lib.run_concat] at hy
    cases hthread : (after sk s task before).threads i with
    | ret =>
      rw [Crew.step, show (run _ (attempts sk s task) before).threads i = _ from hthread] at hy
      rw [show (after sk s task before).store.row sk = some y from hy] at hx
      cases hx
      exact le_refl _
    | op =>
      obtain ⟨hinv, hpermits, halive, -⟩ := Crew.tasks_next
        (J := fun s history => Timely sk s history ∧ Single sk task s history) follows_program (single_start hnone)
        hstep halong hthread
      rw [show (Crew.step (conduct sk) (run _ (attempts sk s task) before) i).store = _ from
        Crew.store_step hthread] at hy
      exact expiresAt_step hinv.1 hpermits halive hx hy
  · intro j b keepUntil outcome htask hretain hret hne
    have hdone := hends j _ hret
    rw [htask] at hdone
    obtain ⟨⟨o, r⟩, hr, entry, hentry, hle, hhash⟩ := hdone.2 hne keepUntil hretain
    obtain ⟨now, hnow, hle', -⟩ := hsingle.retained (Crew.mem_diary.mp hr) hentry htask (by rw [hretain]; rfl) hhash
    exact ⟨now, hnow, hle.trans hle'⟩

end

/-! ### A retention lost -/

def sampleKey : StorageKey := ⟨[1], "key"⟩

def emptyStore : StoreState := ⟨fun _ => none, 100⟩

def sampleAttempt (retainUntil : Option Nat) (fate : Fate) : Attempt := ⟨[7], .nonDestructive, 30, retainUntil, fate⟩

def created : CompletedResponse := ⟨201, [], [42]⟩

/-- An attempt that gives its claim back, one that completes, a document that may be presented until 300000, twice, and
a day. -/
def releasingTasks : Nat → Task
  | 0 => .attempt (sampleAttempt none .releases)
  | 1 => .attempt (sampleAttempt none (.completes (some created)))
  | 2 | 3 => .attempt (sampleAttempt (some 300000) .dies)
  | _ => .wait 90000

/-- The document is told that the operation is in flight; the owner then gives its claim back, and the next attempt's
record has expired when the document is presented again. -/
def retentionDropped : List Nat := [0, 0, 2, 2, 2, 2, 0, 1, 1, 1, 1, 4, 3, 3, 3, 3]

/-- The record that was to last until 300000 is gone before that, and the operation runs again. -/
theorem retention_lost :
    let c := after sampleKey emptyStore releasingTasks retentionDropped
    (after sampleKey emptyStore releasingTasks [0, 0, 2, 2, 2, 2]).store.row sampleKey =
      some { pendingEntry sampleKey (sampleAttempt none .releases) 100 with expiresAt := 300000 } ∧
    (after sampleKey emptyStore releasingTasks (retentionDropped.take 11)).store.row sampleKey =
      some ((pendingEntry sampleKey (sampleAttempt none .releases) 100).finished (some created)) ∧
    c.store.clock = 90100 ∧
    c.threads 2 = .ret (.ok .inFlight) ∧ c.threads 1 = .ret (.ok .claimed) ∧ c.threads 3 = .ret (.ok .claimed) := by
  refine ⟨?_, ?_, ?_, rfl, rfl, rfl⟩ <;> decide +kernel

/-- The owner gives its claim back before the document is presented, and an answer is recorded and kept for it. -/
theorem runs_at_most_once_repeated :
    let c := after sampleKey emptyStore releasingTasks [0, 0, 0, 1, 1, 1, 1, 2, 2, 2, 2]
    RunsLive sampleKey emptyStore releasingTasks [0, 0, 0, 1, 1, 1, 1, 2, 2, 2, 2] ∧
    ∃ now, c.store.row sampleKey = some now ∧ 300000 ≤ now.expiresAt := by
  intro c
  have hlive : RunsLive sampleKey emptyStore releasingTasks [0, 0, 0, 1, 1, 1, 1, 2, 2, 2, 2] := by decide +kernel
  let x := pendingEntry sampleKey (sampleAttempt none (.completes (some created))) 100
  have hret : c.threads 2 = .ret (.ok (.completed { x.finished (some created) with expiresAt := 300000 })) := rfl
  obtain ⟨-, -, -, -, -, hkept⟩ := runs_at_most_once sampleKey emptyStore releasingTasks _ rfl hlive
  exact ⟨hlive, hkept 2 _ 300000 _ rfl rfl hret (by simp)⟩

end TrustInfrastructure.Idempotency
