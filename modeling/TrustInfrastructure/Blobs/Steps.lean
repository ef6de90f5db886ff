import TrustInfrastructure.Blobs.Effects

/-!
# What a step can do

The calls that are not on uploads, and the rows of a collection pass, taken apart into their effects.

An upload row is worked on as it was read. While the stored row is still open, what is done to it is what a lapse
does; `Fresh` says so of the pass's next row.
-/

namespace TrustInfrastructure.Blobs

open Lib Host
open Rooms (Room Presented)
open Std (ExtTreeMap)

def Action.IsAllowed (allowed : Allowed) (h : Host) : Action → Prop
  | .beginUpload req _ => allowed.opens h.nextId req.room.roomId req.blobRef req.chargedTo
  | .commit _ _ id => ∀ rec, h.uploads[id]? = some rec → allowed.stores id rec
  | .writeRecord _ _ _ blobs => allowed.lists blobs
  | .retract _ _ | .prune _ _ => allowed.lists []
  | .setLimits _ _ _ _ => allowed.limits
  | _ => True

/-- Old copies that are gone, or that an entry names again, may stop counting. -/
def Allowed.Sweeps (allowed : Allowed) : Prop :=
  ∀ h key row, h.names key.1 key.2.1 row.configId row.backendRef = true ∨ h.objects row.configId row.backendRef = none →
    allowed.uncounts h key row

/-- Nothing asked of a run. -/
def anything : Allowed := {}

theorem Action.allowed_anything (h : Host) (a : Action) : a.IsAllowed anything h := by
  cases a with
  | commit => exact fun _ _ => trivial
  | _ => trivial

theorem sweeps_anything : anything.Sweeps := fun _ _ _ _ => trivial

variable {env : Env} {allowed : Allowed} {h h' : Host}

namespace Host

/-! ### Calls that touch nothing -/

theorem quiet_touchDay (scope : Scope) (a : Activity) : h.Quiet (h.touchDay scope a) :=
  { Quiet.refl h with }

theorem quiet_touch (scope : Scope) (a : Activity) (uploadedAt : Option Nat) :
    h.Quiet (h.touch scope a uploadedAt) := by
  unfold touch
  dsimp only
  split
  · exact { Quiet.refl _ with }
  · exact quiet_touchDay scope a

theorem quiet_recordActivity (roomId : String) (member : Option String) (a : Activity) (uploadedAt : Option Nat) :
    h.Quiet (h.recordActivity roomId member a uploadedAt) := by
  unfold recordActivity
  split
  · exact quiet_touch _ a none
  · exact (quiet_touch _ a none).trans (quiet_touch _ a uploadedAt)

theorem quiet_openDownload (room : Room) (opener : String) (member : Option String) (presented : Option Presented)
    (blobRef : String) : h.Quiet (h.openDownload room opener member presented blobRef).2 := by
  unfold openDownload
  split
  · exact .refl h
  · refine Quiet.trans ?_ (quiet_recordActivity _ _ _ _)
    exact { Quiet.refl h with nextId := Nat.le_succ _ }

theorem quiet_rollDays : h.Quiet h.rollDays := by
  have hrolled : ∀ (scopes : List Scope) (h : Host), h.Quiet (scopes.foldl (fun h scope => h.touchDay scope {}) h) := by
    intro scopes
    induction scopes with
    | nil => exact .refl
    | cons scope _ ih => exact fun h => (quiet_touchDay scope {}).trans (ih _)
  refine (hrolled h.lastUpload.keys h).trans ?_
  exact { Quiet.refl _ with }

/-! ### Records -/

theorem writeRecord_effects (room : Room) (member : Option String) (recordKey : String) (blobs : List String)
    (hlist : allowed.lists blobs) :
    Effects env allowed h (h.writeRecord env room member recordKey blobs).2 := by
  unfold writeRecord
  split
  · exact .refl
  · rename_i hprepared
    unfold prepareRecord at hprepared
    dsimp only at hprepared
    split at hprepared
    · cases hprepared
    · rename_i hpresent
      refine .single (.wrote _ _ _ _ hlist (fun b hb => ?_) ?_)
      · by_contra habsent
        refine hpresent (List.any_eq_true.mpr ⟨b, hb, ?_⟩)
        rwa [Bool.not_eq_true, Option.isSome_eq_false_iff] at habsent
      · split at hprepared
        · rename_i hnone
          exact .inl (List.isEmpty_iff.mp hnone)
        · exact .inr hprepared

theorem releaseRecord_effects (hlist : allowed.lists []) (roomId recordKey : String) :
    Effects env allowed h (h.releaseRecord roomId recordKey) :=
  .single (.wrote roomId recordKey [] none hlist (fun _ hb => nomatch hb) (.inl rfl))

theorem releaseRecords_effects (hlist : allowed.lists []) (roomId : String) (recordKeys : List String) :
    Effects env allowed h (h.releaseRecords roomId recordKeys) := by
  induction recordKeys generalizing h with
  | nil => exact .refl
  | cons recordKey _ ih => exact (releaseRecord_effects hlist roomId recordKey).trans ih

/-! ### Limits -/

theorem setLimitOverride_effects (room : Room) (target : LimitTarget) (limits : Option ScopeLimits)
    (filesEnabled : Option Bool) (hlimits : allowed.limits) :
    Effects env allowed h (h.setLimitOverride env room target limits filesEnabled).2 := by
  unfold setLimitOverride
  split
  · exact .refl
  · split <;> exact .single (.limited _ _ hlimits)

/-! ### Migrations as their callers see them -/

theorem kept_putMigration {roomId : String} {m m' : Migration} (hm : h.migrations[roomId]? = some m)
    (hkept : m.Kept m') :
    Effect env allowed h (h.putMigration roomId m') := by
  refine .kept _ fun roomId' => ?_
  rw [getElem?_insert_eq]
  by_cases hroom : roomId = roomId'
  · rw [if_pos hroom, ← hroom, hm]
    exact .some hkept
  · rw [if_neg hroom]
    cases h.migrations[roomId']? with
    | none => exact .none
    | some other => exact .some (.refl other)

theorem kept_mapMigrations {f : String → Migration → Migration}
    (hf : ∀ (roomId : String) (m : Migration), m.Kept (f roomId m)) :
    Effect env allowed h (h.mapMigrations f) := by
  refine .kept _ fun roomId => ?_
  rw [ExtTreeMap.getElem?_map]
  cases h.migrations[roomId]? with
  | none => exact .none
  | some m => exact .some (hf roomId m)

theorem Migration.kept_state (m : Migration) (state : MigrationState) (attempts : Nat) (nextAttemptAt : Option Nat)
    (pausedCause : Option PauseCause) (hopen : state.isOpen = m.state.isOpen) :
    m.Kept { m with state, attempts, nextAttemptAt, pausedCause } := ⟨rfl, rfl, hopen, rfl, rfl, rfl, rfl, rfl, rfl⟩

/-- `Begins h req h'`: a migration is started, in a room that has none open. -/
def Begins (h : Host) (req : MigrationRequest) (h' : Host) : Prop :=
  (∀ m, h.migrations[req.roomId]? = some m → m.state.isOpen = false) ∧
    h' = h.beginMigration req (h.planItems req.roomId req.toConfig)

theorem startMigration_cases (req : MigrationRequest) :
    Effects env allowed h (h.startMigration env req).2 ∨ h.Begins req (h.startMigration env req).2 := by
  unfold startMigration
  split
  · rename_i m hm
    obtain ⟨hm, -⟩ := Option.filter_eq_some_iff.mp hm
    split
    · rename_i hpaused
      refine .inl (.single (kept_putMigration hm (Migration.kept_state m _ _ _ _ ?_)))
      rw [hpaused]
      rfl
    · exact .inl .refl
  · rename_i hnone
    dsimp only
    split
    · exact .inl .refl
    · refine .inr ⟨fun m hm => ?_, rfl⟩
      rw [hm, Option.filter_eq_none_iff] at hnone
      exact Bool.eq_false_iff.mpr (hnone m rfl)

theorem running_eq_some {run : Run} {m : Migration} (hm : h.running run = some m) :
    h.migrations[run.roomId]? = some m ∧ m.migrationId = run.migrationId ∧ m.state = .running := by
  obtain ⟨hm, hboth⟩ := Option.filter_eq_some_iff.mp hm
  rw [Bool.and_eq_true, beq_iff_eq, beq_iff_eq] at hboth
  exact ⟨hm, hboth⟩

theorem retry_effects {run : Run} {m : Migration} (hm : h.running run = some m) (cause : PauseCause) (delay : Nat) :
    Effects env allowed h (h.retry run m cause delay) := by
  obtain ⟨hm, -, hrunning⟩ := running_eq_some hm
  unfold retry
  dsimp only
  split
  · refine .single (kept_putMigration hm (Migration.kept_state m _ _ _ _ ?_))
    rw [hrunning]
    rfl
  · exact .single (kept_putMigration hm (Migration.kept_state m m.state _ _ m.pausedCause rfl))

/-! ### Every call -/

theorem call_effects (hformed : h.Formed env) {a : Action} (ha : a.isFiles = true) (hallowed : a.IsAllowed allowed h) :
    Effects env allowed h (h.call env a) := by
  cases a with
  | wait =>
    exact .quiet { Quiet.refl h with now := Nat.le_add_right _ _ }
  | beginUpload req stores => exact beginWith_effects req stores hallowed
  | putChunk caller id index => exact .quiet (quiet_slots (putChunkAs_eq caller id index))
  | commit stores caller id => exact commitAs_effects hformed stores caller hallowed
  | abort caller id => exact abortAs_effects hformed caller id
  | writeRecord room member recordKey blobs => exact writeRecord_effects room member recordKey blobs hallowed
  | retract roomId recordKey => exact releaseRecord_effects hallowed roomId recordKey
  | prune roomId recordKeys => exact releaseRecords_effects hallowed roomId recordKeys
  | setLimits room target limits filesEnabled => exact setLimitOverride_effects room target limits filesEnabled hallowed
  | openDownload room opener member presented blobRef =>
    exact .quiet (quiet_openDownload room opener member presented blobRef)
  | sweep | sweepNext | migrate | migrateNext | migrateDrop => exact .refl
  | startMigration | purge => cases ha
  | pauseMigrations =>
    refine .single (kept_mapMigrations fun roomId m => ?_)
    split
    · rename_i hrunning
      exact Migration.kept_state m _ m.attempts _ _ (by rw [hrunning]; rfl)
    · exact .refl m
  | resumeMigrations =>
    refine .single (kept_mapMigrations fun roomId m => ?_)
    split
    · rename_i hpaused
      exact Migration.kept_state m _ _ _ _ (by rw [hpaused.1]; rfl)
    · exact .refl m
  | promoteMigrations =>
    refine .single (kept_mapMigrations fun roomId m => ?_)
    split
    · rename_i hqueued
      exact Migration.kept_state m _ m.attempts m.nextAttemptAt m.pausedCause (by rw [hqueued.1]; rfl)
    · exact .refl m
  | stepFailed _ _ cause delay =>
    rw [Host.call]
    split
    · rename_i m hm
      exact retry_effects hm cause delay
    · exact .refl

theorem call_cases (hformed : h.Formed env) {a : Action} (ha : ∀ roomId fails, a ≠ .purge roomId fails)
    (hallowed : a.IsAllowed allowed h) :
    Effects env allowed h (h.call env a) ∨ ∃ req, h.Begins req (h.call env a) := by
  by_cases hfiles : a.isFiles = true
  · exact .inl (call_effects hformed hfiles hallowed)
  · cases a with
    | startMigration req =>
      rcases startMigration_cases (h := h) req with heffects | hbegins
      · exact .inl heffects
      · exact .inr ⟨req, hbegins⟩
    | purge roomId fails => exact absurd rfl (ha roomId fails)
    | _ => exact absurd rfl hfiles

/-! ### Rows of a pass -/

def Fresh (h : Host) (pass : Pass) : Prop :=
  ∀ now id rec rows, pass = .uploads now ((id, rec) :: rows) → rec.phase = .opened → h.lapsed now id rec = true →
    ∃ stored, h.uploads[id]? = some stored ∧ stored.phase = .opened

/-- A row read off the uploads agrees with the stored one, if there still is one: it is of the same upload, and what
was finished then is finished now. -/
def ReadOff (env : Env) (h : Host) (row : Nat × UploadRecord) : Prop :=
  row.2.Formed env row.1 ∧ row.1 < h.nextId ∧
    ∀ stored, h.uploads[row.1]? = some stored → row.2.Same stored ∧ (row.2.phase ≠ .opened → stored.phase ≠ .opened)

theorem sweepMoved_effects (hsweeps : allowed.Sweeps) (grace now : Nat) (key : String × String × Nat) :
    Effects env allowed h (h.sweepMoved grace now key) := by
  unfold sweepMoved
  split
  · exact .refl
  · rename_i row hrow
    split
    · exact .refl
    · split
      · rename_i hnamed
        exact .single (.uncounted key row hrow (hsweeps h key row (.inl hnamed)))
      · rename_i hunnamed
        refine .tail (.single (.dropped key row hrow (Bool.eq_false_iff.mpr hunnamed))) ?_
        refine .uncounted key row hrow (hsweeps _ key row (.inr ?_))
        simp [deleteObject]

theorem sweepUpload_effects {now id : Nat} {rec : UploadRecord} (hread : h.ReadOff env (id, rec))
    (hfresh : rec.phase = .opened → h.lapsed now id rec = true →
      ∃ stored, h.uploads[id]? = some stored ∧ stored.phase = .opened) :
    Effects env allowed h (h.sweepUpload now id rec) := by
  obtain ⟨hformed, -, hstored⟩ := hread
  unfold sweepUpload
  split
  · rename_i hopen
    split
    · rename_i hlapsed
      obtain ⟨stored, hrec, hopen'⟩ := hfresh hopen hlapsed
      have hsame : stored.Same rec := (hstored stored hrec).1.symm
      have hsame' := hsame.trans (same_with_end rec .released (some now))
      have hphase : { rec with phase := .released, finishedAt := some now }.phase ≠ UploadPhase.opened :=
        fun hreleased => nomatch hreleased
      generalize { rec with phase := .released, finishedAt := some now } = finished at hsame' hphase ⊢
      have hclosed {left : Host} (hrec : left.uploads[id]? = some stored) :
          Effect env allowed left ((left.letGo rec).putUpload id finished) := by
        rw [letGo_same hsame]
        exact .closed id stored finished hrec hopen' hsame' hphase
      cases hdirect : rec.direct with
      | none =>
        have habort : h.abortDirect rec = h := by rw [abortDirect, hdirect]
        rw [habort]
        exact .single (hclosed hrec)
      | some =>
        have hkey := hsame.direct
        rw [hdirect] at hkey
        obtain ⟨d', hd', hobject⟩ := Option.map_eq_some_iff.mp hkey.symm
        have habort : h.abortDirect rec = h.deleteObject (stored.configId.getD "") d'.objectKey := by
          rw [abortDirect, hdirect, hsame.configId, hobject]
        rw [habort]
        exact .tail (.single (.reclaimed id stored d' hrec hopen' hd')) (hclosed hrec)
    · exact .refl
  · rename_i hdone
    split
    · exact .single (.forgotten id rec fun stored hrec => ⟨(hstored stored hrec).1, (hstored stored hrec).2 hdone⟩)
    · exact .refl

theorem nextRow_effects {pass : Pass} (hsweeps : allowed.Sweeps) (hfresh : h.Fresh pass)
    (hread : ∀ now rows, pass = .uploads now rows → ∀ row ∈ rows, h.ReadOff env row)
    (hcollects : ∀ now row rows, pass = .blobs now (row :: rows) → row.2.due env.limits.orphanGraceSecs now = true →
      allowed.collects h row.1.1 row.1.2) :
    Effects env allowed h (h.nextRow env pass).1 := by
  unfold nextRow
  split
  · exact .refl
  · exact .refl
  · rename_i now row rows
    split
    · rename_i hdue
      exact .single (.collected row.1.1 row.1.2 (hcollects now row rows rfl hdue))
    · exact .refl
  · exact .refl
  · exact sweepMoved_effects hsweeps _ _ _
  · exact .refl
  · rename_i now row rows
    refine sweepUpload_effects (hread now _ rfl row List.mem_cons_self) ?_
    exact hfresh now row.1 row.2 rows rfl
  · exact .quiet quiet_rollDays
  · split
    · exact .quiet { Quiet.refl _ with }
    · exact .refl

theorem reclaimMoved_effects (huncounts : ∀ h key row, allowed.uncounts h key row) (roomId blobRef configId : String) :
    Effects env allowed h (h.reclaimMoved roomId blobRef configId) := by
  have hrows : ∀ (rows : List ((String × String × Nat) × MovedCopy)) (h : Host), (rows.map (·.1)).Nodup →
      (∀ row ∈ rows, h.moved[row.1]? = some row.2) →
      Effects env allowed h (rows.foldl
        (fun h row => { h.uncountCopy row.2.configId row.2.size with moved := h.moved.erase row.1 }) h) := by
    intro rows
    induction rows with
    | nil => exact fun h _ _ => .refl
    | cons row _ ih =>
      intro h hnodup hmem
      rw [List.map_cons, List.nodup_cons] at hnodup
      refine .head (.uncounted row.1 row.2 (hmem row List.mem_cons_self) (huncounts h row.1 row.2))
        (ih _ hnodup.2 fun row' hrow' => ?_)
      rw [getElem?_erase_eq, if_neg]
      · exact hmem row' (List.mem_cons_of_mem row hrow')
      · intro heq
        exact hnodup.1 (heq ▸ List.mem_map_of_mem hrow')
  refine hrows _ h ?_ fun row hrow => ?_
  · refine List.Nodup.sublist (List.filter_sublist.map _) ?_
    rw [ExtTreeMap.map_fst_toList_eq_keys]
    exact ExtTreeMap.nodup_keys
  · exact ExtTreeMap.mem_toList_iff_getElem?_eq_some.mp (List.mem_filter.mp hrow).1

end Host

end TrustInfrastructure.Blobs
