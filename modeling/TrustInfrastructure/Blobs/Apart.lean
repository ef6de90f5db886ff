import TrustInfrastructure.Blobs.Purge

/-!
# Rooms are kept apart

What is done in a room stays within it: the commit or abort of one of its uploads, any stage of its migration, and its
purge, whatever deletions fail, leave the rows and objects of every other room as they were (`Host.OnlyRoom`). That the
object keys and the runner's stage are of the room is part of being well formed, so it holds in every reachable state.
-/

namespace TrustInfrastructure.Blobs

open Lib Host
open Std (ExtTreeMap)

variable {env : Env} {h h' : Host} {roomId : String}

/-! ### Operations that stay within a room -/

namespace Host

theorem onlyRoom_putUpload {id : Nat} {rec rec' : UploadRecord} (hrec : h.uploads[id]? = some rec)
    (hroom : rec.roomId = roomId) (hroom' : rec'.roomId = roomId) : h.OnlyRoom roomId (h.putUpload id rec') :=
  { OnlyRoom.refl roomId h with
    uploads := by
      intro id' found hfound
      change (h.uploads.insert id rec')[id']? = some found ↔ _
      rw [getElem?_insert_eq]
      split
      · rename_i heq
        subst heq
        refine ⟨fun hsome => ?_, fun hsome => ?_⟩
        · cases hsome
          exact absurd hroom' hfound
        · cases hrec.symm.trans hsome
          exact absurd hroom hfound
      · exact .rfl }

theorem nodup_scopes (roomId : String) (chargedTo : Option String) : (scopes roomId chargedTo).Nodup := by
  cases chargedTo with
  | none | some => simp [scopes]

theorem onlyRoom_updateUsage (chargedTo : Option String) (f : Usage → Usage) :
    h.OnlyRoom roomId (h.updateUsage roomId chargedTo f) :=
  { OnlyRoom.refl roomId h with
    usage := by
      intro scope hscope
      change (updateAt {} (scopes roomId chargedTo) f h.usage)[scope]? = _
      rw [getElem?_updateAt (nodup_scopes roomId chargedTo), if_neg]
      intro hmem
      rcases List.mem_cons.mp hmem with rfl | hmem
      · exact hscope rfl
      · obtain ⟨member, -, rfl⟩ := List.mem_map.mp hmem
        exact hscope rfl }

theorem onlyRoom_storage (storage : ExtTreeMap (Option String) StorageUsage) : h.OnlyRoom roomId { h with storage } :=
  (takes_storage storage).onlyRoom

theorem onlyRoom_slots (slots : ExtTreeMap Nat Slot) : h.OnlyRoom roomId { h with slots } :=
  (takes_slots slots).onlyRoom

theorem onlyRoom_deleteObject {configId : String} {key : ObjectKey} (hroom : key.roomId = roomId) :
    h.OnlyRoom roomId (h.deleteObject configId key) := (takes_deleteObject hroom).onlyRoom

theorem onlyRoom_putObject {configId blobRef : String} {key : ObjectKey} (hroom : key.roomId = roomId) :
    h.OnlyRoom roomId (h.putObject configId key blobRef) :=
  { OnlyRoom.refl roomId h with
    objects := fun configId' key' hkey => by
      rw [objects_putObject, if_neg]
      rintro ⟨-, rfl⟩
      exact hkey hroom }

theorem onlyRoom_touch (scope : Scope) (hscope : scope.1 = roomId) (a : Activity) (uploadedAt : Option Nat) :
    h.OnlyRoom roomId (h.touch scope a uploadedAt) := by
  have hday (h : Host) : h.OnlyRoom roomId (h.touchDay scope a) :=
    { OnlyRoom.refl roomId h with
      days := by
        intro key hkey
        change (h.days.insert (scope, h.today) _)[key]? = _
        rw [getElem?_insert_eq, if_neg]
        rintro rfl
        exact hkey hscope }
  unfold touch
  dsimp only
  split
  · refine OnlyRoom.trans ?_ (hday _)
    exact { OnlyRoom.refl roomId h with
      lastUpload := by
        intro scope' hscope'
        rw [getElem?_insert_eq, if_neg]
        rintro rfl
        exact hscope' hscope }
  · exact hday h

theorem onlyRoom_recordActivity (member : Option String) (a : Activity) (uploadedAt : Option Nat) :
    h.OnlyRoom roomId (h.recordActivity roomId member a uploadedAt) := by
  unfold recordActivity
  split
  · exact onlyRoom_touch (roomId, none) rfl a none
  · exact (onlyRoom_touch (roomId, none) rfl a none).trans (onlyRoom_touch (roomId, some _) rfl a uploadedAt)

theorem onlyRoom_releaseReservation {rec : UploadRecord} (hroom : rec.roomId = roomId) :
    h.OnlyRoom roomId (h.releaseReservation rec) := by
  subst hroom
  exact (onlyRoom_updateUsage _ _).trans (onlyRoom_storage _)

theorem onlyRoom_convertReservation {rec : UploadRecord} (hroom : rec.roomId = roomId) (configId : String) :
    h.OnlyRoom roomId (h.convertReservation rec configId) := by
  subst hroom
  exact ((onlyRoom_updateUsage _ _).trans (onlyRoom_storage _)).trans (onlyRoom_storage _)

section
variable {id : Nat} {rec : UploadRecord} (hrec : h.uploads[id]? = some rec) (hroom : rec.roomId = roomId)
include hrec hroom

theorem onlyRoom_finishUpload (phase : UploadPhase) : h.OnlyRoom roomId (h.finishUpload id rec phase) :=
  onlyRoom_putUpload hrec hroom hroom

theorem onlyRoom_storeBlob (configId : String) (key : ObjectKey) :
    h.OnlyRoom roomId (h.storeBlob id rec configId key) := by
  unfold storeBlob
  dsimp only
  generalize (⟨rec.size, configId, key, .committed, 0, rec.chargedTo, h.now, none⟩ : BlobEntry) = entry
  have hinserted : h.OnlyRoom roomId { h with blobs := h.blobs.insert (rec.roomId, rec.blobRef) entry } :=
    { OnlyRoom.refl roomId h with
      blobs := by
        intro key' hkey'
        rw [getElem?_insert_eq, if_neg]
        rintro rfl
        exact hkey' hroom }
  have hconverted := hinserted.trans (onlyRoom_convertReservation hroom configId)
  generalize hinner : convertReservation { h with blobs := h.blobs.insert (rec.roomId, rec.blobRef) entry }
    rec configId =
    converted at hconverted ⊢
  have huploads : converted.uploads = h.uploads := by
    rw [← hinner]
    rfl
  have hrecorded : converted.OnlyRoom roomId
      (converted.recordActivity rec.roomId rec.chargedTo { uploads := 1 } (some h.now)) := by
    rw [hroom]
    exact onlyRoom_recordActivity _ _ _
  have hstill : (converted.recordActivity rec.roomId rec.chargedTo { uploads := 1 } (some h.now)).uploads[id]? =
      some rec := by
    rw [(touches_recordActivity (h := converted) _ _ _ _).uploads, huploads]
    exact hrec
  exact (hconverted.trans hrecorded).trans (onlyRoom_finishUpload hstill hroom _)

end

section
variable {id : Nat} {rec : UploadRecord} (hformed : h.Formed env) (hrec : h.uploads[id]? = some rec)
  (hroom : rec.roomId = roomId)
include hformed hrec hroom

theorem objectKey_room {d : DirectState} (hdirect : rec.direct = some d) : d.objectKey.roomId = roomId := by
  rw [((hformed.uploads id rec hrec).1.direct d.objectKey (by rw [hdirect]; rfl)).2]
  exact hroom

omit hformed in
theorem onlyRoom_release (phase : UploadPhase) :
    h.OnlyRoom roomId ((h.releaseReservation rec).finishUpload id rec phase) :=
  (onlyRoom_releaseReservation hroom).trans (onlyRoom_finishUpload (h := h.releaseReservation rec) hrec hroom phase)

theorem onlyRoom_commitDirect {d : DirectState} (hdirect : rec.direct = some d) (stores : Stores) :
    h.OnlyRoom roomId (h.commitDirect stores id rec d).2 := by
  have hkey := objectKey_room hformed hrec hroom hdirect
  have hput : h.OnlyRoom roomId (h.putObject (rec.configId.getD "") d.objectKey rec.blobRef) := onlyRoom_putObject hkey
  unfold commitDirect
  dsimp only
  split
  · exact .refl roomId h
  · split
    · exact .refl roomId h
    · exact (onlyRoom_deleteObject hkey).trans (onlyRoom_release (h := h.deleteObject _ _) hrec hroom _)
    · split
      · split
        · rw [deleteObject_putObject]
          exact (onlyRoom_deleteObject hkey).trans (onlyRoom_release (h := h.deleteObject _ _) hrec hroom _)
        · exact hput.trans (onlyRoom_release (h := h.putObject _ _ _) hrec hroom _)
      · exact hput.trans (onlyRoom_storeBlob (h := h.putObject _ _ _) hrec hroom _ _)

omit hformed in
theorem onlyRoom_commitProxied (env : Env) (stores : Stores) :
    h.OnlyRoom roomId (h.commitProxied env stores id rec).2 := by
  have hchecked : ∃ slots, (h.finalizePrecheck env rec.opener rec.blobRef id).2 = { h with slots } :=
    finalizePrecheck_eq _ _ _
  obtain ⟨slots, hchecked⟩ := hchecked
  have hleft : h.OnlyRoom roomId { h with slots } := onlyRoom_slots slots
  unfold commitProxied
  split <;> rename_i left heq <;> rw [heq] at hchecked <;> dsimp only at hchecked <;> subst hchecked
  · exact hleft
  · exact hleft
  · obtain ⟨slots', hstopped⟩ := abortSlot_eq (h := { h with slots }) rec.opener id
    rw [hstopped]
    exact (hleft.trans (onlyRoom_slots slots')).trans (onlyRoom_release (h := { h with slots := slots' }) hrec hroom _)
  · split
    · obtain ⟨slots', hclosed⟩ := closeSlot_eq (h := releaseReservation { h with slots } rec) id
      rw [hclosed]
      have hreleased := (hleft.trans (onlyRoom_releaseReservation hroom)).trans (onlyRoom_slots slots')
      exact hreleased.trans
        (onlyRoom_finishUpload (h := { releaseReservation _ rec with slots := slots' }) hrec hroom _)
    · split
      · exact hleft
      · split
        · exact hleft
        · rename_i configId hconfig
          dsimp only
          generalize hstored : ({ h with slots }.putObject configId (.forRoom rec.roomId rec.blobRef)
            rec.blobRef).storeBlob id
            rec configId (.forRoom rec.roomId rec.blobRef) = stored
          have hput : { h with slots }.OnlyRoom roomId stored := by
            rw [← hstored]
            have hkey : (ObjectKey.forRoom rec.roomId rec.blobRef).roomId = roomId := hroom
            exact (onlyRoom_putObject hkey).trans
              (onlyRoom_storeBlob (h := { h with slots }.putObject _ _ _) hrec hroom _ _)
          obtain ⟨slots', hclosed⟩ := closeSlot_eq (h := stored) id
          rw [hclosed]
          exact (hleft.trans hput).trans (onlyRoom_slots slots')

theorem onlyRoom_commitAs (stores : Stores) (caller : UploadCaller) :
    h.OnlyRoom roomId (h.commitAs env stores caller id).2 := by
  unfold commitAs
  rw [hrec]
  dsimp only
  split
  · exact .refl roomId h
  · split
    · exact .refl roomId h
    · exact .refl roomId h
    · exact .refl roomId h
    · split
      · split
        · exact .refl roomId h
        · exact onlyRoom_finishUpload hrec hroom _
      · split
        · rename_i d hdirect
          exact onlyRoom_commitDirect hformed hrec hroom hdirect stores
        · exact onlyRoom_commitProxied hrec hroom env stores

theorem onlyRoom_abortAs (caller : UploadCaller) : h.OnlyRoom roomId (h.abortAs caller id).2 := by
  unfold abortAs
  rw [hrec]
  dsimp only
  split
  · exact .refl roomId h
  · split
    · exact .refl roomId h
    · exact .refl roomId h
    · exact .refl roomId h
    · split
      · rename_i hsome
        obtain ⟨d, hdirect⟩ := Option.isSome_iff_exists.mp hsome
        have habort : h.abortDirect rec = h.deleteObject (rec.configId.getD "") d.objectKey := by
          rw [abortDirect, hdirect]
        rw [habort]
        have hkey := objectKey_room hformed hrec hroom hdirect
        exact (onlyRoom_deleteObject hkey).trans (onlyRoom_release (h := h.deleteObject _ _) hrec hroom _)
      · split
        · obtain ⟨slots, hstopped⟩ := abortSlot_eq (h := h) rec.opener id
          rw [hstopped]
          exact (onlyRoom_slots slots).trans (onlyRoom_release (h := { h with slots }) hrec hroom _)
        · exact onlyRoom_finishUpload hrec hroom _

end

theorem onlyRoom_putMigration (m : Migration) : h.OnlyRoom roomId (h.putMigration roomId m) :=
  { OnlyRoom.refl roomId h with
    migrations := fun _ hroom => insert_other (Ne.symm hroom) }

theorem onlyRoom_reclaimMoved (roomId blobRef configId : String) :
    h.OnlyRoom roomId (h.reclaimMoved roomId blobRef configId) := by
  have hfold : ∀ (rows : List ((String × String × Nat) × MovedCopy)) (h : Host), (∀ row ∈ rows, row.1.1 = roomId) →
      h.OnlyRoom roomId (rows.foldl (fun h row => { h.uncountCopy row.2.configId row.2.size with
        moved := h.moved.erase row.1 }) h) := by
    intro rows
    induction rows with
    | nil => exact fun h _ => .refl roomId h
    | cons row rows ih =>
      intro h hrows
      have hrow : h.OnlyRoom roomId { h.uncountCopy row.2.configId row.2.size with moved := h.moved.erase row.1 } :=
        { OnlyRoom.refl roomId h with
          moved := fun key hkey => erase_other fun heq => hkey (heq ▸ hrows row List.mem_cons_self) }
      exact hrow.trans (ih _ fun row' hrow' => hrows row' (List.mem_cons_of_mem row hrow'))
  refine hfold _ h fun row hrow => ?_
  have hhere := (List.mem_filter.mp hrow).2
  simp only [Bool.and_eq_true, decide_eq_true_eq] at hhere
  exact hhere.1.1

theorem skip_eq {m : Migration} (run : Run) (blobRef : String) (size : Nat) :
    ∃ storage plan m', h.skip run blobRef size m =
        { h with storage, plan, migrations := h.migrations.insert run.roomId m' } ∧
      ∀ key : String × String, key.1 ≠ run.roomId → plan[key]? = h.plan[key]? := by
  unfold skip
  rw [unreserve_eq]
  dsimp only
  split
  · refine ⟨_, _, _, rfl, fun key hkey => erase_other ?_⟩
    rintro rfl
    exact hkey rfl
  · exact ⟨_, _, _, rfl, fun _ _ => rfl⟩

/-- The runner stays within its room. -/
theorem onlyRoom_nextStage {run : Run} {stage : Stage} (chance : Chance) (hstage : stage.Formed env run) :
    h.OnlyRoom run.roomId (h.nextStage chance run stage).1 := by
  have hself : h.OnlyRoom run.roomId h := .refl run.roomId h
  fun_cases h.nextStage chance run stage with
  | case6 flight _ hrecord | case18 flight copy _ hrecord =>
    obtain ⟨m, -, rfl⟩ := recordFlight_eq_some hrecord
    exact onlyRoom_putMigration _
  | case14 => exact onlyRoom_reclaimMoved _ _ _
  | case16 => exact onlyRoom_putObject rfl
  | case25 flight copy =>
    fun_cases h.switch run flight copy with
    | case3 =>
      exact { OnlyRoom.refl run.roomId h with
        blobs := fun key hkey => insert_other fun heq => hkey (heq ▸ rfl)
        moved := fun key hkey => insert_other fun heq => hkey (heq ▸ rfl)
        plan := fun key hkey => erase_other fun heq => hkey (heq ▸ rfl)
        done := fun key hkey => insert_other fun heq => hkey (heq ▸ rfl)
        migrations := fun _ hroom => insert_other (Ne.symm hroom) }
    | _ => exact hself
  | case27 blobRef size _ m =>
    obtain ⟨storage, plan, m', heq, hplan⟩ := skip_eq (h := h) (m := m) run blobRef size
    rw [heq]
    exact { OnlyRoom.refl run.roomId h with
      plan := hplan
      migrations := (onlyRoom_putMigration m').migrations }
  | case29 =>
    unfold fail
    rw [unreserve_eq]
    exact { OnlyRoom.refl run.roomId h with
      plan := fun key hkey => filter_other fun _ => decide_eq_true hkey
      done := fun key hkey => filter_other fun _ => decide_eq_true hkey
      migrations := (onlyRoom_putMigration _).migrations }
  | case31 =>
    unfold retry
    dsimp only
    split <;> exact onlyRoom_putMigration _
  | case33 =>
    unfold finish
    rw [unreserve_eq]
    exact { OnlyRoom.refl run.roomId h with
      done := fun key hkey => filter_other fun _ => decide_eq_true hkey
      migrations := (onlyRoom_putMigration _).migrations }
  | case36 =>
    obtain ⟨-, ⟨blobRef, rfl⟩, -⟩ := hstage
    dsimp only
    split
    · exact hself
    · exact onlyRoom_deleteObject rfl
  | _ => exact hself

end Host

namespace World

/-- In every state of every run, what is done in one room leaves the rows and objects of the others alone. -/
theorem rooms_kept_apart (env : Env) (now : Nat) (rooms : ExtTreeMap String RoomOverride)
    (members : ExtTreeMap (String × String) ScopeLimits) (actions : List Action) (roomId : String) :
    let w := reached env now rooms members actions
    (∀ id rec, w.host.uploads[id]? = some rec → rec.roomId = roomId → ∀ caller stores,
      w.host.OnlyRoom roomId (w.step env (.abort caller id)).host ∧
        w.host.OnlyRoom roomId (w.step env (.commit stores caller id)).host) ∧
    (∀ fails, w.host.OnlyRoom roomId (w.step env (.purge roomId fails)).host) ∧
    ∀ job stage chance, w.runner = some (job, stage) → job.roomId = roomId →
      w.host.OnlyRoom roomId (w.step env (.migrateNext chance)).host := by
  intro w
  have hw : w.Formed env := by
    refine run_induction (P := fun _ _ => True) (formed_start ..) (along_of_forall fun _ _ _ => trivial)
      fun w a hw _ => ?_
    cases a with
    | purge roomId fails =>
      have hfewer := (takes_purgeRoom fails roomId hw.host).fewer
      exact hw.evolves (hfewer.formed hw.host) hfewer.evolves
    | _ => exact formed_step hw (by rintro _ _ ⟨⟩)
  refine ⟨fun id rec hrec hroom caller stores => ?_, fun fails => (takes_purgeRoom fails roomId hw.host).onlyRoom, ?_⟩
  · exact ⟨onlyRoom_abortAs hw.host hrec hroom caller, onlyRoom_commitAs hw.host hrec hroom stores caller⟩
  · rintro job stage chance hrunner rfl
    unfold step
    rw [hrunner]
    exact onlyRoom_nextStage chance (hw.runner job stage hrunner).formed

end World

end TrustInfrastructure.Blobs
