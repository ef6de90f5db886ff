import TrustInfrastructure.Rooms.Calls

/-!
# A version is assigned once

`storage.rs` promises that the read-modify-write behind a version "can produce a *skipped* version rather
than a duplicated one". `put_record` and `curate_record` write the record row before the counter, so a call
cut between its two writes leaves a record at a version the counter still offers, and the next call assigns
that version again (`torn_put_reuses_version`). `remove_pruned` writes the counter first and may be cut
anywhere.

`Ledger roomId seen s` carries the argument for all other runs: `seen` is every (key, record) a state of the
run has held, the counter is above all their versions, and no two of them share one. A step extends the
ledger by at most the record it writes, which takes the counter's version (`step_ledger`).
-/

namespace TrustInfrastructure.Rooms

open Lib (Along along_append run_mem_trail)

/-- No version is assigned twice in the run: two records any of its states held under one version are one
record under one key, and what the run held up to any point lies below the counter there, from which the
next call takes its version. -/
structure VersionsAssignedOnce (roomId : String) (s : HostStore) (steps : List RecordStep) : Prop where
  distinct : ∀ s₁ ∈ history roomId s steps, ∀ s₂ ∈ history roomId s steps, ∀ key₁ key₂ record₁ record₂,
    s₁.record roomId key₁ = some record₁ → s₂.record roomId key₂ = some record₂ →
    record₁.version = record₂.version → key₁ = key₂ ∧ record₁ = record₂
  below : ∀ done rest, steps = done ++ rest → ∀ s' ∈ history roomId s done, ∀ key record room,
    s'.record roomId key = some record → (reach roomId s done).room roomId = some room →
    record.version < room.nextVersion

def RecordStep.torn (step : RecordStep) : Bool :=
  step.call.writesRecord && step.writes == some 1

/-- The step is not torn, and begins with a counter that can move on. -/
def Untorn (roomId : String) (s : HostStore) (step : RecordStep) : Prop :=
  step.torn = false ∧ CounterFits roomId s

instance decidableUntorn (roomId : String) (s : HostStore) (step : RecordStep) : Decidable (Untorn roomId s step) :=
  inferInstanceAs (Decidable (_ ∧ _))

/-! ### The ledger of a run -/

/-- `seen` holds every record of `s`, below the counter of its room and with no version twice. -/
structure Ledger (roomId : String) (seen : String → Record → Prop) (s : HostStore) : Prop where
  covers : ∀ key record, s.record roomId key = some record → seen key record
  below : ∀ room, s.room roomId = some room → ∀ key record, seen key record → record.version < room.nextVersion
  distinct : ∀ key₁ key₂ record₁ record₂, seen key₁ record₁ → seen key₂ record₂ →
    record₁.version = record₂.version → key₁ = key₂ ∧ record₁ = record₂

def enter (seen : String → Record → Prop) (key : String) (record : Record) : String → Record → Prop :=
  fun key' record' => seen key' record' ∨ (key' = key ∧ record' = record)

section
variable {roomId : String} {seen : String → Record → Prop} {s : HostStore}

theorem Ledger.write {room : Room} (h : Ledger roomId seen s) (hroom : s.room roomId = some room)
    (key : String) (record : Record) (hversion : record.version = room.nextVersion) (now : Nat)
    (hfits : room.nextVersion + 1 < 2 ^ 64) :
    Ledger roomId (enter seen key record)
      ((s.withRecord roomId key record).withRoom roomId (takeVersion room now)) where
  covers key' record' hrecord := by
    rw [HostStore.record_withRoom, HostStore.record_withRecord] at hrecord
    split at hrecord
    · rename_i hkey
      exact Or.inr ⟨hkey.symm, (Option.some.inj hrecord).symm⟩
    · exact Or.inl (h.covers key' record' hrecord)
  below room' hroom' key' record' hseen := by
    rw [HostStore.room_withRoom] at hroom'
    obtain rfl := Option.some.inj hroom'
    rw [nextVersion_takeVersion hfits]
    rcases hseen with hseen | ⟨-, rfl⟩
    · have := h.below room hroom key' record' hseen
      omega
    · omega
  distinct key₁ key₂ record₁ record₂ hseen₁ hseen₂ heq := by
    -- the new record is at the counter's version and the earlier ones are below it
    rcases hseen₁ with hseen₁ | ⟨rfl, rfl⟩ <;> rcases hseen₂ with hseen₂ | ⟨rfl, rfl⟩
    · exact h.distinct key₁ key₂ record₁ record₂ hseen₁ hseen₂ heq
    · have := h.below room hroom key₁ record₁ hseen₁
      omega
    · have := h.below room hroom key₂ record₂ hseen₂
      omega
    · exact ⟨rfl, rfl⟩

theorem Ledger.shrink {s' : HostStore} (h : Ledger roomId seen s)
    (hrecords : ∀ key record, s'.record roomId key = some record → s.record roomId key = some record)
    (hroom : ∀ room', s'.room roomId = some room' →
      ∃ room, s.room roomId = some room ∧ room.nextVersion ≤ room'.nextVersion) :
    Ledger roomId seen s' where
  covers key record hrecord := h.covers key record (hrecords key record hrecord)
  below room' hroom' key record hseen := by
    obtain ⟨room, hr, hle⟩ := hroom room' hroom'
    exact (h.below room hr key record hseen).trans_le hle
  distinct := h.distinct

/-- A step that is not torn passes only through states the extended ledger covers. -/
theorem step_ledger (step : RecordStep) (h : Ledger roomId seen s) (hwhole : Untorn roomId s step) :
    ∃ seen', (∀ key record, seen key record → seen' key record) ∧
      Ledger roomId seen' (step.leaves roomId s) ∧
      ∀ s' ∈ step.visits roomId s, ∀ key record, s'.record roomId key = some record → seen' key record := by
  obtain ⟨hwhole, hfits⟩ := hwhole
  rcases recordCall_cases roomId step.call s with hnil | ⟨room, key, record, now, hwrites, hroom, hversion, htrace⟩ |
    ⟨room, keys, now, -, hroom, -, htrace⟩
  · have hvisits : step.visits roomId s = [] := List.eq_nil_iff_forall_not_mem.mpr fun s' hs' => by
      simpa [hnil] using RecordStep.mem_trace_of_mem_visits hs'
    refine ⟨seen, fun _ _ => id, ?_, by simp [hvisits]⟩
    simpa [RecordStep.leaves, hvisits] using h
  · -- a put or a curation that is not torn did both of its writes or none
    have hboth : step.visits roomId s = step.call.trace roomId s ∨ step.visits roomId s = [] := by
      unfold RecordStep.torn at hwhole
      unfold RecordStep.visits
      rcases hn : step.writes with - | - | - | n
      · exact Or.inl rfl
      · exact Or.inr rfl
      · simp [hwrites, hn] at hwhole
      · exact Or.inl (by simp [htrace])
    rcases hboth with hvisits | hvisits
    · have hwritten := h.write hroom key record hversion now (hfits room hroom)
      refine ⟨enter seen key record, fun _ _ => Or.inl, ?_, ?_⟩
      · simpa [RecordStep.leaves, hvisits, htrace] using hwritten
      · intro s' hs' key' record' hrecord
        rw [hvisits, htrace] at hs'
        apply hwritten.covers key' record'
        rcases List.mem_cons.mp hs' with rfl | hs'
        · exact hrecord
        · rwa [List.mem_singleton.mp hs'] at hrecord
    · refine ⟨seen, fun _ _ => id, ?_, by simp [hvisits]⟩
      simpa [RecordStep.leaves, hvisits] using h
  · -- every state of a prune has the counter moved on and only records that were there
    have hstates : ∀ s' ∈ step.visits roomId s, Ledger roomId seen s' := by
      intro s' hs'
      have hmem := RecordStep.mem_trace_of_mem_visits hs'
      rw [htrace] at hmem
      apply h.shrink
      · rcases List.mem_cons.mp hmem with rfl | hmem
        · exact fun _ _ hrecord => hrecord
        · exact (mem_removals hmem).2
      · intro room' hroom'
        refine ⟨room, hroom, ?_⟩
        have hpruned : s'.room roomId = some (prunedRoom room keys now) := by
          rcases List.mem_cons.mp hmem with rfl | hmem
          · exact HostStore.room_withRoom ..
          · rw [(mem_removals hmem).1, HostStore.room_withRoom]
        obtain rfl := Option.some.inj (hpruned.symm.trans hroom')
        exact (nextVersion_takeVersion (hfits room hroom) now).ge.trans' (Nat.le_succ _)
    refine ⟨seen, fun _ _ => id, ?_, fun s' hs' => (hstates s' hs').covers⟩
    rcases step.leaves_cases roomId s with ⟨-, hleaves⟩ | hleaves
    · rwa [hleaves]
    · exact hstates _ hleaves

/-- Over a whole run the ledger grows to cover every state passed through. -/
theorem run_ledger (steps : List RecordStep) (h : Ledger roomId seen s)
    (hwhole : Along (RecordStep.leaves roomId) (Untorn roomId) s steps) :
    ∃ seen', (∀ key record, seen key record → seen' key record) ∧
      Ledger roomId seen' (reach roomId s steps) ∧
      ∀ s' ∈ history roomId s steps, ∀ key record, s'.record roomId key = some record → seen' key record := by
  induction steps generalizing s seen with
  | nil =>
    refine ⟨seen, fun _ _ => id, h, fun s' hs' => ?_⟩
    rw [List.mem_singleton.mp hs']
    exact h.covers
  | cons step _ ih =>
    obtain ⟨seen₁, hgrow₁, hleft, hvisited⟩ := step_ledger step h hwhole.1
    obtain ⟨seen₂, hgrow₂, hreach, hrest⟩ := ih hleft hwhole.2
    refine ⟨seen₂, fun key record hseen => hgrow₂ _ _ (hgrow₁ _ _ hseen), hreach, ?_⟩
    intro s' hs' key record hrecord
    rcases List.mem_append.mp hs' with hs' | hs'
    · rcases List.mem_cons.mp hs' with rfl | hs'
      · exact hgrow₂ _ _ (hgrow₁ _ _ (h.covers key record hrecord))
      · exact hgrow₂ _ _ (hvisited s' hs' key record hrecord)
    · exact hrest s' hs' key record hrecord

end

/-! ### Runs from a room with no records -/

def NoRecords (roomId : String) (s : HostStore) : Prop := ∀ key, s.record roomId key = none

theorem NoRecords.ledger {roomId : String} {s : HostStore} (h : NoRecords roomId s) :
    Ledger roomId (fun _ _ => False) s where
  covers key record hrecord := by rw [h key] at hrecord; cases hrecord
  below _ _ _ _ := False.elim
  distinct _ _ _ _ := False.elim

/-- **Untorn runs assign every version once.** In a run from a room with no records, whose puts and
curations are never cut between their record write and their room write, and none of whose calls begins with
the counter at the last `u64`, no version is assigned twice; prunes may be cut anywhere, and any call may be
refused or cut before its first write. -/
theorem untorn_run_assigns_once (roomId : String) (s : HostStore) (hempty : NoRecords roomId s)
    (steps : List RecordStep) (hwhole : Along (RecordStep.leaves roomId) (Untorn roomId) s steps) :
    VersionsAssignedOnce roomId s steps where
  distinct s₁ hs₁ s₂ hs₂ key₁ key₂ record₁ record₂ h₁ h₂ := by
    obtain ⟨seen, -, hreach, hcovers⟩ := run_ledger steps hempty.ledger hwhole
    exact hreach.distinct key₁ key₂ record₁ record₂ (hcovers s₁ hs₁ key₁ record₁ h₁)
      (hcovers s₂ hs₂ key₂ record₂ h₂)
  below done rest hsteps s' hs' key record room hrecord hroom := by
    rw [hsteps, along_append] at hwhole
    obtain ⟨seen, -, hreach, hcovers⟩ := run_ledger done hempty.ledger hwhole.1
    exact hreach.below room hroom key record (hcovers s' hs' key record hrecord)

theorem sampleStore_noRecords : NoRecords "did:webvh:room" sampleStore := fun key => by
  simp [sampleStore, HostStore.record, HostStore.withRoom, HostStore.empty]

/-- A put, a prune of its record cut after the mark, and another put. -/
theorem untorn_run_assigns_once_sample :
    VersionsAssignedOnce "did:webvh:room" sampleStore
      [⟨.put (sampleNote "a" "first") none 101, none⟩, ⟨.prune ["a"] 102, some 1⟩,
        ⟨.put (sampleNote "b" "second") none 103, none⟩] :=
  untorn_run_assigns_once _ _ sampleStore_noRecords _ (by decide)

/-- A put of `a` that ends after its record write, then a put of `b`. -/
def tornRun : List RecordStep :=
  [⟨.put (sampleNote "a" "first") none 101, some 1⟩, ⟨.put (sampleNote "b" "second") none 102, none⟩]

/-- The put that was cut leaves `a` at version 1 and the counter at 1, so `b` is stored at version 1 too. -/
theorem torn_put_reuses_version :
    NoRecords "did:webvh:room" sampleStore ∧ ¬ VersionsAssignedOnce "did:webvh:room" sampleStore tornRun := by
  refine ⟨sampleStore_noRecords, fun h => ?_⟩
  have hlast : reach "did:webvh:room" sampleStore tornRun ∈ history _ sampleStore tornRun := run_mem_trail _
  have ha : ((reach "did:webvh:room" sampleStore tornRun).record "did:webvh:room" "a").map Record.version = some 1 := by
    decide
  have hb : ((reach "did:webvh:room" sampleStore tornRun).record "did:webvh:room" "b").map Record.version = some 1 := by
    decide
  obtain ⟨recordA, hrecordA, hversionA⟩ := Option.map_eq_some_iff.mp ha
  obtain ⟨recordB, hrecordB, hversionB⟩ := Option.map_eq_some_iff.mp hb
  have hkey := (h.distinct _ hlast _ hlast "a" "b" recordA recordB hrecordA hrecordB
    (hversionA.trans hversionB.symm)).1
  exact absurd hkey (by decide)

end TrustInfrastructure.Rooms
