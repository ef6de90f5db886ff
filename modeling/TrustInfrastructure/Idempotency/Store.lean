import TrustInfrastructure.Rooms.Types
import TrustInfrastructure.Lib.Conduct
import TrustInfrastructure.Lib.Rows
import TrustInfrastructure.Lib.Bytes

/-!
# Idempotency: claiming a key before the operation runs

A record under a principal and a key says how far the operation requested under it has come. `claimRetained` claims a
free key, or answers from the record it finds; `complete` and `release` end a claim. Every write but `release` is
conditional on the row as it was read, and is tried again, at most `writeAttempts` times, on what another attempt wrote.

An attempt claims the key, runs the operation if the key is its own, and then completes, releases or dies: which of
them is its `Fate`. Whether an operation had an effect is not visible in the store; an attempt releases only if it had
none.
-/

namespace TrustInfrastructure.Idempotency

open Lib (Program Conduct Record Rows RowOp Check Write rowStore Bytes)
open Rooms (AppError)

/-! ### Records -/

inductive IdempotencyClass where
  | nonDestructive
  | destructive
  deriving DecidableEq

def IdempotencyClass.ttlSeconds : IdempotencyClass → Nat
  | .nonDestructive => 24 * 60 * 60
  | .destructive => 60

inductive EntryState where
  | inFlight
  | completed
  | completedNotRetained
  deriving DecidableEq

structure CacheEntry where
  state : EntryState
  idempotencyKey : String
  requestHash : Bytes
  responseStatus : Nat
  responseHeaders : List (String × String)
  responseBody : Bytes
  opClass : IdempotencyClass
  createdAt : Nat
  expiresAt : Nat
  deriving DecidableEq

structure CompletedResponse where
  status : Nat
  headers : List (String × String)
  body : Bytes
  deriving DecidableEq

namespace CacheEntry

def isExpired (entry : CacheEntry) (now : Nat) : Bool := decide (entry.expiresAt ≤ now)

def isInFlight (entry : CacheEntry) : Bool := decide (entry.state = .inFlight)

/-- The record of a claim that ended, with its response unless that must not be retained. -/
def finished (entry : CacheEntry) : Option CompletedResponse → CacheEntry
  | some r =>
    { entry with state := .completed, responseStatus := r.status, responseHeaders := r.headers, responseBody := r.body }
  | none =>
    { entry with state := .completedNotRetained, responseStatus := 0, responseHeaders := [], responseBody := [] }

/-- The records answer a request alike: they differ in their expiry at most. -/
def SameOutcome (a b : CacheEntry) : Prop := { a with expiresAt := b.expiresAt } = b

theorem sameOutcome_refl (a : CacheEntry) : SameOutcome a a := rfl

theorem SameOutcome.trans {a b c : CacheEntry} (hab : SameOutcome a b) (hbc : SameOutcome b c) : SameOutcome a c := by
  unfold SameOutcome at hab hbc ⊢
  rw [← hbc, ← hab]

theorem SameOutcome.isInFlight_eq {a b : CacheEntry} (h : SameOutcome a b) : b.isInFlight = a.isInFlight := by
  rw [← h]
  rfl

theorem SameOutcome.requestHash_eq {a b : CacheEntry} (h : SameOutcome a b) : b.requestHash = a.requestHash := by
  rw [← h]

theorem isInFlight_finished (entry : CacheEntry) (response : Option CompletedResponse) :
    (entry.finished response).isInFlight = false := by
  cases response <;> rfl

end CacheEntry

inductive ClaimOutcome where
  | claimed
  | inFlight
  | abandoned (claimedAt : Nat)
  | completed (entry : CacheEntry)
  | conflict
  deriving DecidableEq

/-! ### The store -/

structure StorageKey where
  principalHash : Bytes
  key : String
  deriving DecidableEq

abbrev idempotencyStore : Lib.Interface := rowStore fun _ : StorageKey => CacheEntry

abbrev StoreOp := RowOp fun _ : StorageKey => CacheEntry

abbrev StoreState := Rows fun _ : StorageKey => CacheEntry

abbrev IdempotencyProgram (α : Type) := Program idempotencyStore AppError α

namespace IdempotencyProgram

def utcNow : IdempotencyProgram Nat := Program.perform (I := idempotencyStore) (.now : StoreOp)

def get (sk : StorageKey) : IdempotencyProgram (Option CacheEntry) :=
  Program.perform (I := idempotencyStore) (.get sk : StoreOp)

def insertIfAbsent (sk : StorageKey) (entry : CacheEntry) : IdempotencyProgram Bool :=
  Program.perform (I := idempotencyStore) (.insertIfAbsent sk entry : StoreOp)

def replace (sk : StorageKey) (read entry : CacheEntry) : StoreOp := .batch [.unchanged sk read] [.put sk entry]

def applyReplace (sk : StorageKey) (read entry : CacheEntry) : IdempotencyProgram Bool :=
  Program.perform (I := idempotencyStore) (replace sk read entry)

end IdempotencyProgram

open IdempotencyProgram

/-! ### Attempts -/

def writeAttempts : Nat := 64

/-- How an attempt that was answered that the key is its own ends: the operation took effect and its outcome is
recorded, it had no effect, or the attempt dies. -/
inductive Fate where
  | completes (response : Option CompletedResponse)
  | releases
  | dies
  deriving DecidableEq

structure Attempt where
  requestHash : Bytes
  opClass : IdempotencyClass
  inFlightGrace : Int
  retainUntil : Option Nat
  fate : Fate
  deriving DecidableEq

/-- The record of a new claim. -/
def pendingEntry (sk : StorageKey) (a : Attempt) (now : Nat) : CacheEntry :=
  let ttlEnd := now + a.opClass.ttlSeconds
  { state := .inFlight
    idempotencyKey := sk.key
    requestHash := a.requestHash
    responseStatus := 0
    responseHeaders := []
    responseBody := []
    opClass := a.opClass
    createdAt := now
    expiresAt := a.retainUntil.elim ttlEnd fun keepUntil => max keepUntil ttlEnd }

def keptChanging : AppError := .conflict "idempotency key kept changing while it was being claimed"

def answerRepeat (a : Attempt) (now : Nat) (existing : CacheEntry) : ClaimOutcome :=
  if existing.isInFlight then
    if (now : Int) - existing.createdAt > a.inFlightGrace then .abandoned existing.createdAt else .inFlight
  else .completed existing

def claimWithin (sk : StorageKey) (a : Attempt) (now : Nat) : Nat → IdempotencyProgram ClaimOutcome
  | 0 => Program.fail keptChanging
  | attempts + 1 =>
    (insertIfAbsent sk (pendingEntry sk a now)).bind fun inserted =>
      if inserted then pure .claimed
      else
        (get sk).bind fun found =>
          match found with
          | none => claimWithin sk a now attempts
          | some existing =>
            if existing.isExpired now then
              (applyReplace sk existing (pendingEntry sk a now)).bind fun applied =>
                if applied then pure .claimed else claimWithin sk a now attempts
            else if existing.requestHash ≠ a.requestHash then pure .conflict
            else
              match a.retainUntil with
              | none => pure (answerRepeat a now existing)
              | some keepUntil =>
                if existing.expiresAt < keepUntil then
                  (applyReplace sk existing { existing with expiresAt := keepUntil }).bind fun applied =>
                    if applied then pure (answerRepeat a now { existing with expiresAt := keepUntil })
                    else claimWithin sk a now attempts
                else pure (answerRepeat a now existing)

def claimRetained (sk : StorageKey) (a : Attempt) : IdempotencyProgram ClaimOutcome :=
  utcNow.bind fun now => claimWithin sk a now writeAttempts

def completeWithin (sk : StorageKey) (response : Option CompletedResponse) : Nat → IdempotencyProgram Unit
  | 0 => Program.fail (.conflict "idempotency key kept changing while its outcome was recorded")
  | attempts + 1 =>
    (get sk).bind fun found =>
      match found with
      | none => pure ()
      | some entry =>
        if !entry.isInFlight then pure ()
        else
          (applyReplace sk entry (entry.finished response)).bind fun applied =>
            if applied then pure () else completeWithin sk response attempts

def complete (sk : StorageKey) (response : Option CompletedResponse) : IdempotencyProgram Unit :=
  completeWithin sk response writeAttempts

/-- The batch that drops a claim, whatever its row holds. -/
def drop (sk : StorageKey) : StoreOp := .batch [] [.delete sk]

def release (sk : StorageKey) : IdempotencyProgram Unit :=
  (Program.perform (I := idempotencyStore) (drop sk)).bind fun _ => pure ()

def Attempt.program (sk : StorageKey) (a : Attempt) : IdempotencyProgram ClaimOutcome :=
  (claimRetained sk a).bind fun outcome =>
    match outcome with
    | .claimed =>
      match a.fate with
      | .completes response => (complete sk response).bind fun _ => pure .claimed
      | .releases => (release sk).bind fun _ => pure .claimed
      | .dies => pure .claimed
    | outcome => pure outcome

/-! ### What an attempt does -/

/-- An attempt, or time passing. -/
inductive Task where
  | attempt (a : Attempt)
  | wait (seconds : Nat)
  deriving DecidableEq

def Task.program (sk : StorageKey) : Task → IdempotencyProgram ClaimOutcome
  | .attempt a => a.program sk
  | .wait seconds => (Program.perform (I := idempotencyStore) (.tick seconds : StoreOp)).bind fun _ => pure .conflict

abbrev Diary := List (Record idempotencyStore)

def ReadClock (diary : Diary) (now : Nat) : Prop := (⟨(.now : StoreOp), now⟩ : Record idempotencyStore) ∈ diary

def Claimed (sk : StorageKey) (a : Attempt) (diary : Diary) : Prop :=
  ∃ now, ReadClock diary now ∧
    ((⟨(.insertIfAbsent sk (pendingEntry sk a now) : StoreOp), true⟩ : Record idempotencyStore) ∈ diary ∨
      ∃ old : CacheEntry, old.expiresAt ≤ now ∧
        (⟨replace sk old (pendingEntry sk a now), true⟩ : Record idempotencyStore) ∈ diary)

def Found (sk : StorageKey) (diary : Diary) (entry : CacheEntry) : Prop :=
  (⟨(.get sk : StoreOp), some entry⟩ : Record idempotencyStore) ∈ diary

/-- A try that was lost to another attempt's write. -/
def lost : Record idempotencyStore → Bool
  | ⟨.get _, found⟩ => (show Option CacheEntry from found).isNone
  | ⟨.batch _ _, applied⟩ => !(show Bool from applied)
  | _ => false

inductive Permits (sk : StorageKey) : Task → Diary → StoreOp → Prop
  | now {a} : Permits sk (.attempt a) [] .now
  | read {a diary} : Permits sk (.attempt a) diary (.get sk)
  | claim {a diary now} (clock : ReadClock diary now)
      (first : ∀ r : Bool, (⟨drop sk, r⟩ : Record idempotencyStore) ∉ diary) :
      Permits sk (.attempt a) diary (.insertIfAbsent sk (pendingEntry sk a now))
  | reclaim {a diary now old} (clock : ReadClock diary now) (expired : old.expiresAt ≤ now) :
      Permits sk (.attempt a) diary (replace sk old (pendingEntry sk a now))
  | extend {a diary old keepUntil} (same : old.requestHash = a.requestHash) (retain : a.retainUntil = some keepUntil)
      (later : old.expiresAt < keepUntil) :
      Permits sk (.attempt a) diary (replace sk old { old with expiresAt := keepUntil })
  | finish {a diary old response} (claimed : Claimed sk a diary) (fate : a.fate = .completes response)
      (running : old.isInFlight = true) : Permits sk (.attempt a) diary (replace sk old (old.finished response))
  | drop {a diary} (claimed : Claimed sk a diary) (fate : a.fate = .releases)
      (first : ∀ r : Bool, (⟨drop sk, r⟩ : Record idempotencyStore) ∉ diary) : Permits sk (.attempt a) diary (drop sk)
  | wait {seconds diary} : Permits sk (.wait seconds) diary (.tick seconds)

def shownBy : Record idempotencyStore → Option CacheEntry
  | ⟨.get _, found⟩ => (show Option CacheEntry from found)
  | ⟨.insertIfAbsent _ entry, inserted⟩ => if (show Bool from inserted) then some entry else none
  | ⟨.batch [.unchanged _ _] [.put _ entry], applied⟩ => if (show Bool from applied) then some entry else none
  | _ => none

/-- Why a try is lost: the record was gone when it was read, or it was one the attempt would replace. -/
def Contended (sk : StorageKey) (a : Attempt) (diary : Diary) : Prop :=
  (⟨(.get sk : StoreOp), none⟩ : Record idempotencyStore) ∈ diary ∨
    ∃ entry, Found sk diary entry ∧
      (entry.requestHash = a.requestHash ∨ ∃ now, ReadClock diary now ∧ entry.expiresAt ≤ now)

def Done (sk : StorageKey) : Task × Diary → Except AppError ClaimOutcome → Prop
  | (.attempt a, diary), .ok outcome =>
    (match outcome with
      | .claimed => Claimed sk a diary
      | .inFlight => ∃ entry, Found sk diary entry ∧ entry.isInFlight = true ∧ entry.requestHash = a.requestHash
      | .abandoned _ => ∃ entry, Found sk diary entry ∧ entry.isInFlight = true ∧ entry.requestHash = a.requestHash
      | .completed answer => ∃ entry, Found sk diary entry ∧ entry.isInFlight = false ∧
          entry.requestHash = a.requestHash ∧ entry.SameOutcome answer
      | .conflict => ∃ entry, Found sk diary entry ∧ entry.requestHash ≠ a.requestHash) ∧
    (outcome ≠ .conflict → ∀ keepUntil, a.retainUntil = some keepUntil →
      ∃ r ∈ diary, ∃ entry, shownBy r = some entry ∧ keepUntil ≤ entry.expiresAt ∧ entry.requestHash = a.requestHash)
  | (.attempt a, diary), .error e =>
    Claimed sk a diary ∨ (e = keptChanging ∧ writeAttempts ≤ diary.countP lost ∧ Contended sk a diary)
  | (.wait _, _), _ => True

abbrev conduct (sk : StorageKey) : Conduct idempotencyStore (Task × Diary) := Conduct.ofDiary (Permits sk)

/-! ### The walk through an attempt -/

section
open Lib.Program (Follows follows_bind follows_perform)

variable {sk : StorageKey} {a : Attempt} {diary : Diary} {now : Nat}

def Undropped (sk : StorageKey) (diary : Diary) : Prop :=
  ∀ r : Bool, (⟨drop sk, r⟩ : Record idempotencyStore) ∉ diary

theorem Undropped.cons (h : Undropped sk diary) {o : StoreOp} (r : RowOp.Reply o) (ho : o ≠ drop sk) :
    Undropped sk ((⟨o, r⟩ : Record idempotencyStore) :: diary) := by
  intro r' hmem
  rcases List.mem_cons.mp hmem with heq | hmem
  · exact ho (Record.mk.inj heq).1.symm
  · exact h r' hmem

theorem Claimed.mono {more : Diary} (h : Claimed sk a diary) (hsub : diary ⊆ more) : Claimed sk a more := by
  obtain ⟨now, hclock, hclaim⟩ := h
  exact ⟨now, hsub hclock, hclaim.imp (fun hmem => hsub hmem) fun ⟨old, hexpired, hmem⟩ => ⟨old, hexpired, hsub hmem⟩⟩

def ClaimEnds (sk : StorageKey) (a : Attempt) (l : Task × Diary) (r : Except AppError ClaimOutcome) : Prop :=
  l.1 = .attempt a ∧ Done sk l r ∧ Undropped sk l.2

theorem le_expiresAt_pendingEntry {keepUntil : Nat} (h : a.retainUntil = some keepUntil) :
    keepUntil ≤ (pendingEntry sk a now).expiresAt := by
  simp [pendingEntry, h]

theorem claimEnds_claimed {r : Record idempotencyStore} (hclock : ReadClock diary now)
    (hdrop : Undropped sk (r :: diary))
    (hr : r = ⟨(.insertIfAbsent sk (pendingEntry sk a now) : StoreOp), true⟩ ∨
      ∃ old : CacheEntry, old.expiresAt ≤ now ∧ r = ⟨replace sk old (pendingEntry sk a now), true⟩) :
    ClaimEnds sk a (.attempt a, r :: diary) (.ok .claimed) := by
  refine ⟨rfl, ⟨⟨now, List.mem_cons_of_mem _ hclock, ?_⟩, fun _ keepUntil hkeep => ⟨r, List.mem_cons_self, ?_⟩⟩, hdrop⟩
  · rcases hr with rfl | ⟨old, hexpired, rfl⟩
    · exact .inl List.mem_cons_self
    · exact .inr ⟨old, hexpired, List.mem_cons_self⟩
  · refine ⟨pendingEntry sk a now, ?_, le_expiresAt_pendingEntry hkeep, rfl⟩
    rcases hr with rfl | ⟨old, -, rfl⟩ <;> rfl

theorem answerRepeat_cases (a : Attempt) (now : Nat) (entry : CacheEntry) :
    (entry.isInFlight = true ∧ (answerRepeat a now entry = .inFlight ∨
      ∃ claimedAt, answerRepeat a now entry = .abandoned claimedAt)) ∨
      (entry.isInFlight = false ∧ answerRepeat a now entry = .completed entry) := by
  unfold answerRepeat
  cases entry.isInFlight with
  | true =>
    by_cases hgrace : (now : Int) - entry.createdAt > a.inFlightGrace
    · exact .inl ⟨rfl, .inr ⟨entry.createdAt, by simp [hgrace]⟩⟩
    · exact .inl ⟨rfl, .inl (by simp [hgrace])⟩
  | false => exact .inr ⟨rfl, by simp⟩

theorem claimEnds_answerRepeat {existing shown : CacheEntry} {r : Record idempotencyStore}
    (hfound : Found sk diary existing) (hsame : existing.requestHash = a.requestHash)
    (houtcome : existing.SameOutcome shown) (hr : r ∈ diary) (hshown : shownBy r = some shown)
    (hkeep : ∀ keepUntil, a.retainUntil = some keepUntil → keepUntil ≤ shown.expiresAt) (hdrop : Undropped sk diary) :
    ClaimEnds sk a (.attempt a, diary) (.ok (answerRepeat a now shown)) := by
  have hstate : shown.isInFlight = existing.isInFlight := houtcome.isInFlight_eq
  have hhash : shown.requestHash = a.requestHash := houtcome.requestHash_eq.trans hsame
  refine ⟨rfl, ⟨?_, fun _ keepUntil hsome => ⟨r, hr, shown, hshown, hkeep keepUntil hsome, hhash⟩⟩, hdrop⟩
  rcases answerRepeat_cases a now shown with ⟨hflight, hanswer | ⟨claimedAt, hanswer⟩⟩ | ⟨hflight, hanswer⟩
  · rw [hanswer]
    exact ⟨existing, hfound, hstate ▸ hflight, hsame⟩
  · rw [hanswer]
    exact ⟨existing, hfound, hstate ▸ hflight, hsame⟩
  · rw [hanswer]
    exact ⟨existing, hfound, hstate ▸ hflight, hsame, houtcome⟩

theorem follows_claimWithin (attempts : Nat) (hclock : ReadClock diary now) (hdrop : Undropped sk diary)
    (hlost : writeAttempts ≤ diary.countP lost + attempts) (hwhy : attempts = writeAttempts ∨ Contended sk a diary) :
    (claimWithin sk a now attempts).Follows (conduct sk) (ClaimEnds sk a) (.attempt a, diary) := by
  induction attempts generalizing diary with
  | zero =>
    refine ⟨rfl, .inr ⟨rfl, by simpa using hlost, ?_⟩, hdrop⟩
    exact hwhy.resolve_left (by simp [writeAttempts])
  | succ attempts ih =>
    refine follows_perform (C := conduct sk) (.claim hclock hdrop) fun (inserted : Bool) => ?_
    have hdrop₁ : Undropped sk (⟨(.insertIfAbsent sk (pendingEntry sk a now) : StoreOp), inserted⟩ :: diary) :=
      hdrop.cons _ (by simp [drop])
    cases inserted with
    | true => exact claimEnds_claimed hclock hdrop₁ (.inl rfl)
    | false =>
      have hclock₁ : ReadClock (⟨(.insertIfAbsent sk (pendingEntry sk a now) : StoreOp), false⟩ :: diary) now :=
        List.mem_cons_of_mem _ hclock
      rw [← List.countP_cons_of_neg (a := ⟨(.insertIfAbsent sk (pendingEntry sk a now) : StoreOp), false⟩)
        Bool.false_ne_true] at hlost
      change Follows _ _ (Task.attempt a, ⟨(.insertIfAbsent sk (pendingEntry sk a now) : StoreOp), false⟩ :: diary) _
      generalize (⟨(.insertIfAbsent sk (pendingEntry sk a now) : StoreOp), false⟩ :: diary : Diary) = seen at *
      refine follows_perform (C := conduct sk) .read fun (found : Option CacheEntry) => ?_
      have hdrop₂ : Undropped sk (⟨(.get sk : StoreOp), found⟩ :: seen) := hdrop₁.cons _ (by simp [drop])
      have hclock₂ : ReadClock (⟨(.get sk : StoreOp), found⟩ :: seen) now := List.mem_cons_of_mem _ hclock₁
      cases found with
      | none =>
        have hcount : (⟨(.get sk : StoreOp), none⟩ :: seen).countP lost = seen.countP lost + 1 :=
          List.countP_cons_of_pos rfl
        have hrest := ih hclock₂ hdrop₂ (by rw [hcount]; omega) (.inr (.inl List.mem_cons_self))
        exact hrest
      | some existing =>
        dsimp only
        have hfound : ∀ (o : StoreOp) (r : RowOp.Reply o), Found sk (⟨o, r⟩ :: ⟨(.get sk : StoreOp), some existing⟩ ::
            seen) existing := fun o r => List.mem_cons_of_mem _ List.mem_cons_self
        -- A replacement that is refused is a try lost.
        have hagain : ∀ entry : CacheEntry, (existing.requestHash = a.requestHash ∨ existing.expiresAt ≤ now) →
            (claimWithin sk a now attempts).Follows (conduct sk) (ClaimEnds sk a) (.attempt a,
              ⟨replace sk existing entry, false⟩ :: ⟨(.get sk : StoreOp), some existing⟩ :: seen) := by
          intro entry hreason
          have hcount :
              (⟨replace sk existing entry, false⟩ :: ⟨(.get sk : StoreOp), some existing⟩ :: seen).countP lost =
              seen.countP lost + 1 := by
            simp [lost, replace]
          exact ih (List.mem_cons_of_mem _ hclock₂) (hdrop₂.cons _ (by simp [drop, replace])) (by rw [hcount]; omega)
            (.inr (.inr ⟨existing, hfound _ _, hreason.imp_right fun hexpired =>
              ⟨now, List.mem_cons_of_mem _ hclock₂, hexpired⟩⟩))
        split
        · rename_i hexpired
          have hle : existing.expiresAt ≤ now := of_decide_eq_true hexpired
          refine follows_perform (C := conduct sk) (.reclaim hclock₂ hle) fun (applied : Bool) => ?_
          cases applied with
          | true =>
            exact claimEnds_claimed hclock₂ (hdrop₂.cons _ (by simp [drop, replace])) (.inr ⟨existing, hle, rfl⟩)
          | false => exact hagain _ (.inr hle)
        split
        · rename_i hother
          exact ⟨rfl, ⟨⟨existing, List.mem_cons_self, hother⟩, fun hne => absurd rfl hne⟩, hdrop₂⟩
        rename_i hsame
        have hsame : existing.requestHash = a.requestHash := not_not.mp hsame
        split
        · rename_i hretain
          refine claimEnds_answerRepeat List.mem_cons_self hsame rfl List.mem_cons_self rfl
            (fun keepUntil hkeep => ?_) hdrop₂
          rw [hretain] at hkeep
          cases hkeep
        · rename_i keepUntil hretain
          split
          · rename_i hlater
            refine follows_perform (C := conduct sk) (.extend hsame hretain hlater) fun (applied : Bool) => ?_
            cases applied with
            | true =>
              refine claimEnds_answerRepeat (hfound _ _) hsame rfl List.mem_cons_self rfl (fun keepUntil' hkeep => ?_)
                (hdrop₂.cons _ (by simp [drop, replace]))
              rw [hretain] at hkeep
              cases hkeep
              exact le_refl _
            | false => exact hagain _ (.inl hsame)
          · rename_i hlater
            refine claimEnds_answerRepeat List.mem_cons_self hsame rfl List.mem_cons_self rfl
              (fun keepUntil' hkeep => ?_)
              hdrop₂
            rw [hretain] at hkeep
            cases hkeep
            omega

theorem Done.mono {more : Diary} (h : Done sk (.attempt a, diary) (.ok .claimed)) (hsub : diary ⊆ more) :
    Done sk (.attempt a, more) (.ok .claimed) := by
  refine ⟨h.1.mono hsub, fun hne keepUntil hkeep => ?_⟩
  obtain ⟨r, hr, hshown⟩ := h.2 hne keepUntil hkeep
  exact ⟨r, hsub hr, hshown⟩

theorem follows_completeWithin (response : Option CompletedResponse) (attempts : Nat)
    (hfate : a.fate = .completes response) (hdone : ClaimEnds sk a (.attempt a, diary) (.ok .claimed)) :
    ((completeWithin sk response attempts).bind fun _ => pure ClaimOutcome.claimed).Follows (conduct sk) (Done sk)
      (.attempt a, diary) := by
  induction attempts generalizing diary with
  | zero => exact .inl hdone.2.1.1
  | succ _ ih =>
    rw [completeWithin, Program.bind_assoc]
    refine follows_perform (C := conduct sk) .read fun (found : Option CacheEntry) => ?_
    cases found with
    | none => exact hdone.2.1.mono (List.subset_cons_self _ _)
    | some entry =>
      dsimp only
      split
      · exact hdone.2.1.mono (List.subset_cons_self _ _)
      · rename_i hflight
        rw [Program.bind_assoc]
        have hrunning : entry.isInFlight = true := by simpa using hflight
        refine follows_perform (C := conduct sk)
          (.finish (hdone.2.1.1.mono (List.subset_cons_self _ _)) hfate hrunning) fun (applied : Bool) => ?_
        have hsub : diary ⊆ ⟨replace sk entry (entry.finished response), applied⟩ ::
            ⟨(.get sk : StoreOp), some entry⟩ :: diary := fun r hr => List.mem_cons_of_mem _ (List.mem_cons_of_mem _ hr)
        cases applied with
        | true => exact hdone.2.1.mono hsub
        | false =>
          refine ih ⟨rfl, hdone.2.1.mono hsub, ?_⟩
          exact (hdone.2.2.cons (o := .get sk) (some entry) (by simp [drop])).cons _ (by simp [drop, replace])

/-- **Every attempt keeps to its conduct, and ends as it should.** -/
theorem follows_program (t : Task) : (t.program sk).Follows (conduct sk) (Done sk) (t, []) := by
  cases t with
  | wait => exact follows_perform (C := conduct sk) .wait fun _ => trivial
  | attempt a =>
    rw [Task.program, Attempt.program, claimRetained, Program.bind_assoc]
    refine follows_perform (C := conduct sk) .now fun now => ?_
    refine follows_bind (Follows.mono (follows_claimWithin (a := a) writeAttempts List.mem_cons_self ?_ ?_
      (.inl rfl)) ?_)
    · intro r hmem
      cases List.mem_singleton.mp hmem
    · exact Nat.le_add_left _ _
    · rintro ⟨t, diary⟩ r ⟨rfl, hdone, hdrop⟩
      cases r with
      | error => exact hdone
      | ok =>
        dsimp only
        split
        · split
          · rename_i response hfate
            exact follows_completeWithin response writeAttempts hfate ⟨rfl, hdone, hdrop⟩
          · rename_i hfate
            rw [release, Program.bind_assoc]
            refine follows_perform (C := conduct sk) (.drop hdone.1 hfate hdrop) fun _ => ?_
            exact hdone.mono (List.subset_cons_self _ _)
          · exact hdone
        · exact hdone

end

end TrustInfrastructure.Idempotency
