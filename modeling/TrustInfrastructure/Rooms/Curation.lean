import TrustInfrastructure.Rooms.Versions

/-!
# Bodies under curation

A record that is not a tombstone should carry the body of its latest put, and a tombstone should stay one
until a put rewrites it (`KeepsBodies`). A retraction drops the body, so every way out of `retracted` has to
be closed. `curate_record` closes the one to `active` and leaves the one to `deprecated` open.

What one call does to one record is `step_bodies`: a put leaves the body it stored, a curation that ends
outside `retracted` began outside it and leaves the body alone, unless it is the open transition (`revives`).
Over a run of puts and curations the bodies are kept exactly when no call of it is one (`bodies_kept_iff`).
-/

namespace TrustInfrastructure.Rooms

open Lib

variable {roomId key : String} {room : Room} {record : Record} {curation : Curation} {s : HostStore}
  {call : RecordCall} {calls : List RecordCall}

/-! ### Runs and their latest puts -/

section
variable (roomId : String)

def RecordCall.after (s : HostStore) (call : RecordCall) : HostStore := (call.trace roomId s).getLastD s

abbrev afterAll : HostStore → List RecordCall → HostStore := run (RecordCall.after roomId)

/-- The record the call stores under `key` if it is a put there that succeeds. -/
def RecordCall.putOn (key : String) (s : HostStore) : RecordCall → Option Record
  | .put record expectedVersion now =>
    if record.key = key then ((putRecord roomId record expectedVersion now).result s).toOption else none
  | _ => none

/-- The record as the latest put of the run under `key` stored it; `latest` where the run has none. -/
def latestPut (key : String) (latest : Option Record) (s : HostStore) : List RecordCall → Option Record
  | [] => latest
  | call :: calls => latestPut key ((call.putOn roomId key s).or latest) (call.after roomId s) calls

def RecordCall.writesActive : RecordCall → Bool
  | .put record _ _ => record.status = .active
  | .curate _ _ _ => true
  | .prune _ _ => false

/-- The call is a curation that is accepted and takes a tombstone to `deprecated`. -/
def RecordCall.revives (s : HostStore) : RecordCall → Bool
  | .curate key curation _ =>
    match s.record roomId key with
    | some record => record.status = .retracted ∧ curation.status = some .deprecated ∧
        (curation.expectedVersion = none ∨ curation.expectedVersion = some record.version)
    | none => false
  | _ => false

/-- No call of the run takes a tombstone to `deprecated`. -/
abbrev NoneRevived : HostStore → List RecordCall → Prop :=
  Along (RecordCall.after roomId) fun s call => call.revives roomId s = false

end

/-! ### The property -/

def Record.body (record : Record) : Option Value × Option String × Option String × Option Nat :=
  (record.cleartext, record.sealed, record.nonce, record.sealedVersion)

/-- `record` carries the body `stored` has, bound to the version the put assigned. -/
def CarriesBody (visibility : Visibility) (record stored : Record) : Prop :=
  if visibility.storesCleartext then record.cleartext.isSome ∧ record.cleartext = stored.cleartext
  else record.sealed.isSome ∧ record.sealed = stored.sealed ∧ record.nonce = stored.nonce ∧
    record.sealedVersion = some stored.version

/-- After `calls`, what is not a tombstone carries the body of its latest put, and what was a tombstone on
the way is one still unless a put rewrote it. -/
structure KeepsBodies (roomId : String) (visibility : Visibility) (s : HostStore) (calls : List RecordCall) :
    Prop where
  body : ∀ key record, (afterAll roomId s calls).record roomId key = some record → record.status ≠ .retracted →
    ∃ stored, latestPut roomId key none s calls = some stored ∧ CarriesBody visibility record stored
  tombstone : ∀ before after key record, calls = before ++ after →
    (afterAll roomId s before).record roomId key = some record → record.status = .retracted →
    latestPut roomId key none (afterAll roomId s before) after = none →
    ∃ record', (afterAll roomId s calls).record roomId key = some record' ∧ record'.status = .retracted

/-! ### One call -/

theorem carriesBody_stampPut
    (hcontent : checkContent roomId room record = .ok ()) (existing : Option Record) (now : Nat) :
    CarriesBody room.visibility (stampPut room existing record now) (stampPut room existing record now) := by
  rw [checkContent] at hcontent
  rw [CarriesBody]
  split at hcontent
  · rw [if_pos ‹_›]
    split at hcontent
    · cases hcontent
    split at hcontent
    · cases hcontent
    · rename_i hcleartext
      exact ⟨Option.isSome_iff_ne_none.mpr fun h => hcleartext (Option.isNone_iff_eq_none.mpr h), rfl⟩
  · rw [if_neg ‹_›]
    split at hcontent
    · cases hcontent
    split at hcontent
    · cases hcontent
    · rename_i hcontained
      have hsealed : record.sealed.isSome = true :=
        Option.isSome_iff_ne_none.mpr fun h => hcontained (Option.isNone_iff_eq_none.mpr h)
      obtain ⟨ciphertext, hciphertext⟩ := Option.isSome_iff_exists.mp hsealed
      refine ⟨hsealed, rfl, rfl, ?_⟩
      simp only [stampPut, hciphertext, Option.map_some]

theorem CarriesBody.of_body_eq {visibility : Visibility} {record' stored : Record}
    (h : CarriesBody visibility record stored) (hbody : record'.body = record.body) :
    CarriesBody visibility record' stored := by
  simp only [Record.body, Prod.mk.injEq] at hbody
  obtain ⟨hcleartext, hsealed, hnonce, hversion⟩ := hbody
  rw [CarriesBody] at h ⊢
  rw [hcleartext, hsealed, hnonce, hversion]
  exact h

section
variable (room : Room) (record : Record) (curation : Curation) (now : Nat)

theorem stampCuration_status :
    (stampCuration room record curation now).status = curation.status.getD record.status := by
  rcases curation with ⟨_ | status, _ | pinned, expected⟩
  · rfl
  · rfl
  · cases status <;> rfl
  · cases status <;> rfl

theorem stampCuration_body (hkept : curation.status ≠ some .retracted) :
    (stampCuration room record curation now).body = record.body := by
  rcases curation with ⟨_ | status, _ | pinned, expected⟩
  · rfl
  · rfl
  all_goals
    cases status with
    | active => rfl
    | deprecated => rfl
    | retracted => exact absurd rfl hkept

end

/-- An accepted curation of a tombstone does not ask for `active`, and meets its version if it names one. -/
theorem checkCuration_ok (h : checkCuration key record curation = .ok ()) :
    ¬(record.status = .retracted ∧ curation.status = some .active) ∧
      (curation.expectedVersion = none ∨ curation.expectedVersion = some record.version) := by
  have hrestore : ∀ h : checkCuration.checkRestore key record curation = .ok (),
      ¬(record.status = .retracted ∧ curation.status = some .active) := by
    intro h hboth
    rw [checkCuration.checkRestore, if_pos hboth] at h
    cases h
  rw [checkCuration] at h
  split at h
  · split at h
    · cases h
    · rename_i expected hexpected hversion
      rw [not_not] at hversion
      exact ⟨hrestore h, .inr (by rw [hexpected, hversion])⟩
  · exact ⟨hrestore h, .inl ‹_›⟩

/-- **What a call does to the bodies.** The store stays and nothing is put; or a put stored `stored`, active
and with its body; or a curation replaced one record, which it left a tombstone or as much of one as it was
with its body alone, unless it revived one. -/
theorem call_cases (roomId : String) (call : RecordCall) (s : HostStore) (hcall : call.writesActive = true) :
    (call.after roomId s = s ∧ ∀ key, call.putOn roomId key s = none) ∨
    (∃ room now put stored, s.room roomId = some room ∧ stored.status = .active ∧
      CarriesBody room.visibility stored stored ∧
      call.after roomId s = (s.withRecord roomId put stored).withRoom roomId (takeVersion room now) ∧
      ∀ key, call.putOn roomId key s = if put = key then some stored else none) ∨
    ∃ room now curated record stored, s.room roomId = some room ∧ s.record roomId curated = some record ∧
      call.after roomId s = (s.withRecord roomId curated stored).withRoom roomId (takeVersion room now) ∧
      (∀ key, call.putOn roomId key s = none) ∧
      (stored.status ≠ .retracted → stored.body = record.body) ∧
      (record.status = .retracted → (stored.status ≠ .retracted ↔ call.revives roomId s = true)) := by
  cases call with
  | put record expectedVersion now =>
    rcases putRecord_cases s roomId record expectedVersion now with
      ⟨e, hexec⟩ | ⟨room, hroom, -, hcontent, hexec⟩
    · refine .inl ⟨?_, fun key => ?_⟩
      · rw [RecordCall.after, RecordCall.trace, Program.trace, hexec]
        rfl
      · rw [RecordCall.putOn, Program.result, hexec]
        exact ite_self _
    · refine .inr (.inl ⟨room, now, record.key, stampPut room (s.record roomId record.key) record now, hroom, ?_,
        carriesBody_stampPut hcontent _ now, ?_, fun key => ?_⟩)
      · exact of_decide_eq_true hcall
      · rw [RecordCall.after, RecordCall.trace, Program.trace, hexec]
        rfl
      · rw [RecordCall.putOn, Program.result, hexec]
        rfl
  | curate key curation now =>
    rcases curateRecord_cases s roomId key curation now with
      ⟨e, hexec⟩ | ⟨record, room, hrecord, hroom, hcuration, hexec⟩
    · refine .inl ⟨?_, fun key => rfl⟩
      rw [RecordCall.after, RecordCall.trace, Program.trace, hexec]
      rfl
    · obtain ⟨hrestore, hexpected⟩ := checkCuration_ok hcuration
      refine .inr (.inr ⟨room, now, key, record, stampCuration room record curation now, hroom, hrecord, ?_,
        fun key => rfl, fun hout => ?_, fun htomb => ?_⟩)
      · rw [RecordCall.after, RecordCall.trace, Program.trace, hexec]
        rfl
      · refine stampCuration_body room record curation now fun hretract => ?_
        rw [stampCuration_status, hretract] at hout
        exact hout rfl
      · rw [stampCuration_status, RecordCall.revives, hrecord]
        cases hstatus : curation.status with
        | none => simp [htomb]
        | some status =>
          cases status with
          | active => exact absurd ⟨htomb, hstatus⟩ hrestore
          | deprecated => simp [htomb, hexpected]
          | retracted => simp
  | prune => cases hcall

theorem exec_curateRecord {now : Nat} (hrecord : s.record roomId key = some record)
    (hroom : s.room roomId = some room) (hcuration : checkCuration key record curation = .ok ()) :
    (curateRecord roomId key curation now).exec s =
      let stored := stampCuration room record curation now
      ([s.withRecord roomId key stored,
        (s.withRecord roomId key stored).withRoom roomId (takeVersion room now)], .ok stored) := by
  simp only [curateRecord, Program.bind_eq]
  rw [exec_getRecord_bind, hrecord]
  dsimp only
  rw [exec_lift_bind, hcuration]
  rw [exec_getRoom_bind, hroom]
  rfl

/-- A curation that revives a tombstone is accepted, and leaves it `deprecated`. -/
theorem after_of_revives (hroom : s.room roomId = some room) (hrevives : call.revives roomId s = true) :
    ∃ key record, s.record roomId key = some record ∧ record.status = .retracted ∧
      call.putOn roomId key s = none ∧
      ∃ record', (call.after roomId s).record roomId key = some record' ∧ record'.status ≠ .retracted := by
  cases call with
  | put | prune => cases hrevives
  | curate key curation now =>
    rw [RecordCall.revives] at hrevives
    cases hrecord : s.record roomId key with
    | none => rw [hrecord] at hrevives; cases hrevives
    | some record =>
      rw [hrecord] at hrevives
      obtain ⟨htomb, hstatus, hexpected⟩ := of_decide_eq_true hrevives
      have haccepted : checkCuration key record curation = .ok () := by
        have hrestore : checkCuration.checkRestore key record curation = .ok () := by
          rw [checkCuration.checkRestore, if_neg]
          rintro ⟨-, hactive⟩
          rw [hstatus] at hactive
          cases hactive
        rw [checkCuration, hrestore]
        rcases hexpected with hexpected | hexpected
        · rw [hexpected]
        · rw [hexpected]
          exact if_neg (not_not.mpr rfl)
      refine ⟨key, record, hrecord, htomb, rfl, stampCuration room record curation now, ?_, ?_⟩
      · rw [RecordCall.after, RecordCall.trace, Program.trace, exec_curateRecord hrecord hroom haccepted]
        change ((s.withRecord roomId key _).withRoom roomId _).record roomId key = _
        rw [HostStore.record_withRoom, HostStore.record_withRecord, if_pos rfl]
      · rw [stampCuration_status, hstatus]
        exact RecordStatus.noConfusion

/-! ### Runs -/

structure Bodies (roomId : String) (visibility : Visibility) (latest : String → Option Record) (s : HostStore) :
    Prop where
  room : ∃ room, s.room roomId = some room ∧ room.visibility = visibility
  body : ∀ key record, s.record roomId key = some record → record.status ≠ .retracted →
    ∃ stored, latest key = some stored ∧ CarriesBody visibility record stored

section
variable {roomId : String} {visibility : Visibility} {latest : String → Option Record} {s : HostStore}

theorem step_bodies (call : RecordCall) (hcall : call.writesActive = true) (h : Bodies roomId visibility latest s)
    (hnone : call.revives roomId s = false) :
    Bodies roomId visibility (fun key => (call.putOn roomId key s).or (latest key)) (call.after roomId s) := by
  obtain ⟨room, hroom, htier⟩ := h.room
  rcases call_cases roomId call s hcall with ⟨hafter, hput⟩ | ⟨room', now, put, stored, hroom', -, hcarries,
    hafter, hput⟩ | ⟨room', now, curated, record, stored, hroom', hrecord, hafter, hput, hbody, hrevives⟩
  · rw [hafter]
    refine ⟨⟨room, hroom, htier⟩, fun key found hfound hstatus => ?_⟩
    rw [hput, Option.none_or]
    exact h.body key found hfound hstatus
  · cases hroom.symm.trans hroom'
    rw [hafter]
    refine ⟨⟨takeVersion room now, HostStore.room_withRoom _ _ _, htier⟩, fun key found hfound hstatus => ?_⟩
    rw [HostStore.record_withRoom, HostStore.record_withRecord] at hfound
    rw [hput]
    split at hfound
    · cases hfound
      rename_i hkey
      rw [if_pos hkey, Option.some_or]
      exact ⟨stored, rfl, htier ▸ hcarries⟩
    · rename_i hkey
      rw [if_neg hkey, Option.none_or]
      exact h.body key found hfound hstatus
  · cases hroom.symm.trans hroom'
    rw [hafter]
    refine ⟨⟨takeVersion room now, HostStore.room_withRoom _ _ _, htier⟩, fun key found hfound hstatus => ?_⟩
    rw [HostStore.record_withRoom, HostStore.record_withRecord] at hfound
    rw [hput, Option.none_or]
    split at hfound
    · cases hfound
      rename_i hkey
      subst hkey
      have hbefore : record.status ≠ .retracted := fun htomb => by
        rw [(hrevives htomb).mp hstatus] at hnone
        cases hnone
      obtain ⟨latest', hlatest, hcarries⟩ := h.body curated record hrecord hbefore
      exact ⟨latest', hlatest, hcarries.of_body_eq (hbody hstatus)⟩
    · exact h.body key found hfound hstatus

theorem step_tombstone (call : RecordCall) (hcall : call.writesActive = true)
    (hnone : call.revives roomId s = false) (hput : call.putOn roomId key s = none)
    (htomb : ∃ record, s.record roomId key = some record ∧ record.status = .retracted) :
    ∃ record, (call.after roomId s).record roomId key = some record ∧ record.status = .retracted := by
  obtain ⟨record, hrecord, hstatus⟩ := htomb
  rcases call_cases roomId call s hcall with ⟨hafter, -⟩ | ⟨room, now, put, stored, -, -, -, hafter, hputs⟩ |
    ⟨room, now, curated, before, stored, -, hbefore, hafter, -, -, hrevives⟩
  · rw [hafter]
    exact ⟨record, hrecord, hstatus⟩
  · rw [hputs] at hput
    split at hput
    · cases hput
    · rename_i hother
      refine ⟨record, ?_, hstatus⟩
      rw [hafter, HostStore.record_withRoom, HostStore.record_withRecord, if_neg hother, hrecord]
  · rw [hafter, HostStore.record_withRoom, HostStore.record_withRecord]
    split
    · rename_i hkey
      subst hkey
      cases hrecord.symm.trans hbefore
      refine ⟨stored, rfl, ?_⟩
      by_contra hout
      rw [(hrevives hstatus).mp hout] at hnone
      cases hnone
    · exact ⟨record, hrecord, hstatus⟩

theorem run_bodies (calls : List RecordCall) (hcalls : ∀ call ∈ calls, call.writesActive = true)
    (h : Bodies roomId visibility latest s) (hnone : NoneRevived roomId s calls) :
    Bodies roomId visibility (fun key => latestPut roomId key (latest key) s calls) (afterAll roomId s calls) := by
  induction calls generalizing s latest with
  | nil => exact h
  | cons call _ ih =>
    exact ih (fun later hlater => hcalls later (List.mem_cons_of_mem _ hlater))
      (step_bodies call (hcalls call List.mem_cons_self) h hnone.1) hnone.2

theorem latestPut_some (key : String) (record : Record) (s : HostStore) (calls : List RecordCall) :
    latestPut roomId key (some record) s calls ≠ none := by
  induction calls generalizing s record with
  | nil => exact Option.some_ne_none record
  | cons call _ ih =>
    rw [latestPut]
    cases call.putOn roomId key s with
    | none => exact ih record _
    | some put => exact ih put _

theorem run_tombstone (calls : List RecordCall) (hcalls : ∀ call ∈ calls, call.writesActive = true)
    (hnone : NoneRevived roomId s calls) (hput : latestPut roomId key none s calls = none)
    (htomb : ∃ record, s.record roomId key = some record ∧ record.status = .retracted) :
    ∃ record, (afterAll roomId s calls).record roomId key = some record ∧ record.status = .retracted := by
  induction calls generalizing s with
  | nil => exact htomb
  | cons call calls ih =>
    rw [latestPut, Option.or_none] at hput
    cases hhead : call.putOn roomId key s with
    | some put =>
      rw [hhead] at hput
      exact absurd hput (latestPut_some key put _ calls)
    | none =>
      rw [hhead] at hput
      exact ih (fun later hlater => hcalls later (List.mem_cons_of_mem _ hlater)) hnone.2 hput
        (step_tombstone call (hcalls call List.mem_cons_self) hnone.1 hhead htomb)

theorem keepsBodies_of_noneRevived (hroom : s.room roomId = some room) (hempty : NoRecords roomId s)
    (hcalls : ∀ call ∈ calls, call.writesActive = true)
    (hnone : NoneRevived roomId s calls) : KeepsBodies roomId room.visibility s calls where
  body := by
    have hstart : Bodies roomId room.visibility (fun _ => none) s :=
      ⟨⟨room, hroom, rfl⟩, fun key record hrecord => by rw [hempty key] at hrecord; cases hrecord⟩
    exact (run_bodies calls hcalls hstart hnone).body
  tombstone := by
    rintro before after key record rfl hrecord hstatus hput
    rw [afterAll, run_append]
    exact run_tombstone after (fun call hcall => hcalls call (List.mem_append_right _ hcall))
      ((along_append before after).mp hnone).2 hput ⟨record, hrecord, hstatus⟩

theorem room_after (hcall : call.writesActive = true)
    (hroom : s.room roomId = some room) : ∃ room', (call.after roomId s).room roomId = some room' := by
  rcases call_cases roomId call s hcall with ⟨hafter, -⟩ | ⟨room', now, put, stored, -, -, -, hafter, -⟩ |
    ⟨room', now, curated, record, stored, -, -, hafter, -⟩
  · rw [hafter]
    exact ⟨room, hroom⟩
  · rw [hafter, HostStore.room_withRoom]
    exact ⟨_, rfl⟩
  · rw [hafter, HostStore.room_withRoom]
    exact ⟨_, rfl⟩

theorem noneRevived_of_tombstones (hcalls : ∀ call ∈ calls, call.writesActive = true)
    (hroom : s.room roomId = some room)
    (hstay : ∀ before call after, calls = before ++ call :: after → ∀ key record,
      (afterAll roomId s before).record roomId key = some record → record.status = .retracted →
      call.putOn roomId key (afterAll roomId s before) = none →
      ∃ record', (call.after roomId (afterAll roomId s before)).record roomId key = some record' ∧
        record'.status = .retracted) :
    NoneRevived roomId s calls := by
  refine along_iff.mpr fun before call after hsplit => ?_
  have hthere : ∃ room', (afterAll roomId s before).room roomId = some room' :=
    run_induction (I := fun s : HostStore => ∃ room', s.room roomId = some room')
      (P := fun _ call => call.writesActive = true) ⟨room, hroom⟩
      (along_of_forall fun call hcall _ => hcalls call (hsplit ▸ List.mem_append_left _ hcall))
      fun _ _ hs hactive => room_after hactive hs.choose_spec
  obtain ⟨room', hroom'⟩ := hthere
  by_contra hrevives
  obtain ⟨key, record, hrecord, htomb, hput, revived, hafter, hout⟩ :=
    after_of_revives hroom' (Bool.not_eq_false _ ▸ hrevives)
  obtain ⟨record', hrecord', hstill⟩ := hstay before call after hsplit key record hrecord htomb hput
  cases hafter.symm.trans hrecord'
  exact hout hstill

end

/-- **When bodies are kept.** From an empty room, over a run of puts of active records and of curations: in
every state of the run, what is no tombstone carries the body of its latest put and tombstones stay until a
put rewrites them, exactly when no accepted curation of the run takes a tombstone to `deprecated`. -/
theorem bodies_kept_iff (roomId : String) (s : HostStore) (room : Room) (hroom : s.room roomId = some room)
    (hempty : NoRecords roomId s) (calls : List RecordCall)
    (hcalls : ∀ call ∈ calls, call.writesActive = true) :
    (∀ done rest, calls = done ++ rest → KeepsBodies roomId room.visibility s done) ↔
      NoneRevived roomId s calls := by
  constructor
  · intro hkept
    refine noneRevived_of_tombstones hcalls hroom fun before call after hsplit key record hrecord htomb hput => ?_
    have hstep := (hkept (before ++ [call]) after (by rw [hsplit, List.append_assoc]; rfl)).tombstone
      before [call] key record rfl hrecord htomb (by rw [latestPut, hput]; rfl)
    rwa [afterAll, run_append] at hstep
  · rintro hnone done rest rfl
    exact keepsBodies_of_noneRevived hroom hempty (fun call hcall => hcalls call (List.mem_append_left _ hcall))
      ((along_append done rest).mp hnone).1

/-- A note demoted and restored, and another retracted and written again. -/
def keptRun : List RecordCall :=
  [.put (sampleNote "a" "one") none 101, .put (sampleNote "b" "two") none 102,
    .curate "a" ⟨some .deprecated, none, none⟩ 103, .curate "a" ⟨some .active, some true, none⟩ 104,
    .curate "b" ⟨some .retracted, none, none⟩ 105, .put (sampleNote "b" "three") none 106]

theorem bodies_kept_iff_sample : KeepsBodies "did:webvh:room" .openRoom sampleStore keptRun :=
  (bodies_kept_iff "did:webvh:room" sampleStore sampleRoom (by decide) sampleStore_noRecords keptRun
    (by decide)).mpr (by decide) keptRun [] (by rw [List.append_nil])

def revivedRun : List RecordCall :=
  [.put (sampleNote "a" "one") none 101, .curate "a" ⟨some .retracted, none, none⟩ 102,
    .curate "a" ⟨some .deprecated, none, none⟩ 103]

/-- **A demotion revives a tombstone.** The note ends `deprecated`, without a body. -/
theorem demotion_revives_tombstone : ¬ KeepsBodies "did:webvh:room" .openRoom sampleStore revivedRun := by
  intro hkept
  obtain ⟨record, hrecord, hstatus, hcleartext⟩ :
      ∃ record, (afterAll "did:webvh:room" sampleStore revivedRun).record "did:webvh:room" "a" = some record ∧
        record.status = .deprecated ∧ record.cleartext = none := ⟨_, rfl, by decide⟩
  obtain ⟨stored, -, hbody⟩ := hkept.body "a" record hrecord (by rw [hstatus]; decide)
  have hsome : record.cleartext.isSome = true := hbody.1
  rw [hcleartext] at hsome
  cases hsome

end TrustInfrastructure.Rooms
