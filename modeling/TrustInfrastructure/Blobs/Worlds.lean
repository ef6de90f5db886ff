import TrustInfrastructure.Blobs.Formed

/-!
# Worlds that are well formed

What runs beside the callers agrees with the host: the upload rows a pass has read are of the stored uploads
(`ReadOff`), and the migration runner knows what its migration has recorded as in flight (`Stage.Agrees`), as long as
the migration is still the room's. `World.Formed` is this and the host's own, and every step but a purge keeps it.
-/

namespace TrustInfrastructure.Blobs

open Lib Host
open Std (ExtTreeMap)

variable {env : Env} {allowed : Allowed} {h h' h'' : Host}
variable {id : Nat} {req : MigrationRequest} {run : Run} {stage stage' : Stage} {roomId blobRef : String}
  {flight : InFlight} {m : Migration} {rec : UploadRecord} {a : Action}

/-! ### What stays the same while a host is used -/

def Migration.SameFlight (m m' : Migration) : Prop :=
  m'.migrationId = m.migrationId ∧ m'.toConfig = m.toConfig ∧ m'.inFlight = m.inFlight

/-- Time and identifiers go on; an upload that was there before is still that upload, and if it is open it was; a
migration that was there before has the same blob in flight. -/
structure Host.Evolves (h h' : Host) : Prop where
  now : h.now ≤ h'.now
  nextId : h.nextId ≤ h'.nextId
  uploads : ∀ (id : Nat) (rec' : UploadRecord), h'.uploads[id]? = some rec' →
    (∃ rec, h.uploads[id]? = some rec ∧ rec.Same rec' ∧ (rec'.phase = .opened → rec.phase = .opened)) ∨ h.nextId ≤ id
  migrations : ∀ (roomId : String) (m' : Migration), h'.migrations[roomId]? = some m' →
    (∃ m, h.migrations[roomId]? = some m ∧ m.SameFlight m') ∨ h.nextId ≤ m'.migrationId

namespace Host

theorem Evolves.trans (he : h.Evolves h') (he' : h'.Evolves h'') : h.Evolves h'' where
  now := he.now.trans he'.now
  nextId := he.nextId.trans he'.nextId
  uploads id rec'' hrec'' := by
    rcases he'.uploads id rec'' hrec'' with ⟨rec', hrec', hsame', hopen'⟩ | hnew
    · rcases he.uploads id rec' hrec' with ⟨rec, hrec, hsame, hopen⟩ | hnew
      · exact .inl ⟨rec, hrec, hsame.trans hsame', fun h => hopen (hopen' h)⟩
      · exact .inr hnew
    · exact .inr (he.nextId.trans hnew)
  migrations roomId m'' hm'' := by
    rcases he'.migrations roomId m'' hm'' with ⟨m', hm', hid', hto', hflight'⟩ | hnew
    · rcases he.migrations roomId m' hm' with ⟨m, hm, hid, hto, hflight⟩ | hnew
      · exact .inl ⟨m, hm, hid'.trans hid, hto'.trans hto, hflight'.trans hflight⟩
      · exact .inr (hid' ▸ hnew)
    · exact .inr (he.nextId.trans hnew)

theorem Evolves.sub (hnow : h.now ≤ h'.now) (hnextId : h.nextId ≤ h'.nextId)
    (huploads : ∀ (id : Nat) (rec : UploadRecord), h'.uploads[id]? = some rec → h.uploads[id]? = some rec)
    (hmigrations : ∀ (roomId : String) (m : Migration), h'.migrations[roomId]? = some m →
      h.migrations[roomId]? = some m) : h.Evolves h' where
  now := hnow
  nextId := hnextId
  uploads id rec hrec := .inl ⟨rec, huploads id rec hrec, .refl rec, fun hopen => hopen⟩
  migrations roomId m hm := .inl ⟨m, hmigrations roomId m hm, rfl, rfl, rfl⟩

theorem Evolves.of_eq (hnow : h.now ≤ h'.now) (hnextId : h.nextId ≤ h'.nextId) (huploads : h'.uploads = h.uploads)
    (hmigrations : h'.migrations = h.migrations) : h.Evolves h' := by
  refine .sub hnow hnextId ?_ ?_
  · rw [huploads]
    exact fun _ _ hrow => hrow
  · rw [hmigrations]
    exact fun _ _ hrow => hrow

theorem Evolves.refl (h : Host) : h.Evolves h := .of_eq le_rfl le_rfl rfl rfl

theorem Quiet.evolves (hquiet : h.Quiet h') : h.Evolves h' :=
  .of_eq hquiet.now hquiet.nextId hquiet.uploads hquiet.migrations

/-- No migration is begun and no old copy made. -/
structure Steady (h h' : Host) : Prop where
  migrations : ∀ (roomId : String) (m' : Migration), h'.migrations[roomId]? = some m' →
    ∃ m, h.migrations[roomId]? = some m ∧ m.SameFlight m'
  moved : ∀ (key : String × String × Nat) (row : MovedCopy), h'.moved[key]? = some row → h.moved[key]? = some row

theorem Steady.frame (hmigrations : h'.migrations = h.migrations) (hmoved : h'.moved = h.moved) : h.Steady h' :=
  ⟨fun _ m hm => ⟨m, hmigrations ▸ hm, rfl, rfl, rfl⟩, fun _ _ hrow => hmoved ▸ hrow⟩

theorem Steady.rel {R : Migration → Migration → Prop} (hR : ∀ m m', R m m' → m.SameFlight m')
    (hmoved : h'.moved = h.moved)
    (hrel : ∀ roomId : String, Option.Rel R h.migrations[roomId]? h'.migrations[roomId]?) : h.Steady h' := by
  refine ⟨fun roomId m' hm' => ?_, fun _ _ hrow => hmoved ▸ hrow⟩
  have hroom := hrel roomId
  rw [hm'] at hroom
  obtain ⟨m, hm, hsame⟩ := rel_some hroom
  exact ⟨m, hm, hR m m' hsame⟩

theorem Touches.steady (ht : h.Touches h') : h.Steady h' :=
  .rel (fun _ _ hsame => ⟨hsame.migrationId, hsame.toConfig, hsame.inFlight⟩) ht.moved ht.migrations

theorem Steady.kept {migrations : ExtTreeMap String Migration}
    (hkept : ∀ roomId : String, Option.Rel Migration.Kept h.migrations[roomId]? migrations[roomId]?) :
    h.Steady { h with migrations } :=
  .rel (fun _ _ hsame => ⟨hsame.migrationId, hsame.toConfig, hsame.inFlight⟩) rfl hkept

theorem Steady.of_eq (hsteady : h'.Steady h'') (hmigrations : h'.migrations = h.migrations)
    (hmoved : h'.moved = h.moved) : h.Steady h'' :=
  ⟨hmigrations ▸ hsteady.migrations, hmoved ▸ hsteady.moved⟩

theorem Touches.evolves (ht : h.Touches h') : h.Evolves h' where
  now := ht.now.ge
  nextId := ht.nextId.ge
  uploads id rec hrec := by
    rw [ht.uploads] at hrec
    exact .inl ⟨rec, hrec, .refl rec, fun hopen => hopen⟩
  migrations roomId m' hm' := .inl (ht.steady.migrations roomId m' hm')

theorem Evolves.putUpload {rec' : UploadRecord} (hnow : h'.now = h.now) (hnextId : h.nextId ≤ h'.nextId)
    (huploads : h'.uploads = h.uploads.insert id rec') (hmigrations : h'.migrations = h.migrations)
    (hid : (∃ rec, h.uploads[id]? = some rec ∧ rec.Same rec' ∧ (rec'.phase = .opened → rec.phase = .opened)) ∨
      h.nextId ≤ id) : h.Evolves h' where
  now := hnow.ge
  nextId := hnextId
  uploads id' rec hrec := by
    rcases insert_cases (huploads ▸ hrec) with ⟨rfl, rfl⟩ | ⟨-, hrec⟩
    · exact hid
    · exact .inl ⟨rec, hrec, .refl rec, fun hopen => hopen⟩
  migrations roomId m hm := by
    rw [hmigrations] at hm
    exact .inl ⟨m, hm, rfl, rfl, rfl⟩

end Host

theorem Effect.evolves (heffect : Effect env allowed h h') : h.Evolves h' := by
  cases heffect with
  | quiet hquiet => exact hquiet.evolves
  | limited | reclaimed | duplicated | dropped | uncounted => exact .of_eq le_rfl le_rfl rfl rfl
  | opened =>
    rw [hold_eq]
    exact .putUpload rfl (Nat.le_succ _) rfl rfl (.inr le_rfl)
  | rebound _ rec _ hrec hsame hphase =>
    exact .putUpload rfl le_rfl rfl rfl (.inl ⟨rec, hrec, hsame, fun hopen => hphase ▸ hopen⟩)
  | closed _ rec _ hrec hopen hsame hphase =>
    rw [letGo_eq]
    exact .putUpload rfl le_rfl rfl rfl (.inl ⟨rec, hrec, hsame, fun hopen => absurd hopen hphase⟩)
  | stored id rec configId key hrec hopen =>
    obtain ⟨usage, storage, hquiet⟩ := quiet_stored (h := h) id rec configId key
    refine Evolves.trans ?_ hquiet.evolves
    exact .putUpload rfl le_rfl rfl rfl (.inl ⟨rec, hrec, same_with_end rec _ _, fun _ => hopen⟩)
  | forgotten => exact .sub le_rfl le_rfl (fun _ _ => erase_sub) (fun _ _ hrow => hrow)
  | wrote => exact (touches_applyRefs _ _ _ _ _).evolves
  | collected roomId blobRef =>
    rcases collectBlob_cases (h := h) roomId blobRef with heq | ⟨entry, -, -, heq⟩
    · rw [heq]
      exact .refl h
    · rw [heq]
      obtain ⟨usage, storage, hquiet⟩ := quiet_collected (h := h) roomId blobRef entry
      refine Evolves.trans (Evolves.trans ?_ hquiet.evolves) (touches_dropFromMigration roomId blobRef).evolves
      exact .of_eq le_rfl le_rfl rfl rfl
  | kept _ hkept =>
    exact ⟨le_rfl, le_rfl, fun id rec hrec => .inl ⟨rec, hrec, .refl rec, fun hopen => hopen⟩,
      fun roomId m' hm' => .inl ((Steady.kept hkept).migrations roomId m' hm')⟩

theorem Effect.steady (heffect : Effect env allowed h h') : h.Steady h' := by
  cases heffect with
  | quiet hquiet => exact .frame hquiet.migrations hquiet.moved
  | limited | rebound | reclaimed | duplicated | forgotten | dropped => exact .frame rfl rfl
  | opened =>
    rw [hold_eq]
    exact .frame rfl rfl
  | closed =>
    rw [letGo_eq]
    exact .frame rfl rfl
  | stored id rec configId key =>
    obtain ⟨usage, storage, hquiet⟩ := quiet_stored (h := h) id rec configId key
    exact .frame hquiet.migrations hquiet.moved
  | wrote => exact (touches_applyRefs _ _ _ _ _).steady
  | collected roomId blobRef =>
    rcases collectBlob_cases (h := h) roomId blobRef with heq | ⟨entry, -, -, heq⟩
    · rw [heq]
      exact .frame rfl rfl
    · obtain ⟨usage, storage, hquiet⟩ := quiet_collected (h := h) roomId blobRef entry
      rw [heq]
      exact (touches_dropFromMigration roomId blobRef).steady.of_eq hquiet.migrations hquiet.moved
  | uncounted =>
    exact ⟨fun _ m hm => ⟨m, hm, rfl, rfl, rfl⟩, fun _ _ => erase_sub⟩
  | kept _ hkept => exact .kept hkept

theorem Host.Begins.formed (hbegins : h.Begins req h') (hformed : h.Formed env) : h'.Formed env := by
  rw [hbegins.2]
  exact formed_beginMigration hformed req

theorem Host.Begins.evolves (hbegins : h.Begins req h') : h.Evolves h' := by
  rw [hbegins.2, beginMigration_eq]
  refine ⟨le_rfl, Nat.le_succ _, fun id rec hrec => .inl ⟨rec, hrec, .refl rec, fun hopen => hopen⟩,
    fun roomId m hm => ?_⟩
  rcases insert_cases hm with ⟨rfl, rfl⟩ | ⟨-, hm⟩
  · exact .inr le_rfl
  · exact .inl ⟨m, hm, rfl, rfl, rfl⟩

theorem Effects.formed (heffects : Effects env allowed h h') (hformed : h.Formed env) : h'.Formed env := by
  induction heffects with
  | refl => exact hformed
  | tail _ heffect ih => exact heffect.formed ih

theorem Effects.evolves (heffects : Effects env allowed h h') : h.Evolves h' := by
  induction heffects with
  | refl => exact .refl h
  | tail _ heffect ih => exact ih.trans heffect.evolves

/-! ### The runner -/

def Stage.Formed (env : Env) (run : Run) : Stage → Prop
  | .scanning | .failing _ | .retrying _ | .finishing => True
  | .picked blobRef planned => planned = (env.manifest blobRef).size
  | .choosing flight => flight.Formed env run.roomId ∧ flight.copy = none
  | .checking flight | .staging flight | .reclaiming flight | .putting flight => flight.Formed env run.roomId
  | .copied flight copy | .verifying flight copy _ | .switching flight copy =>
    flight.Formed env run.roomId ∧ copy = .forRoom run.roomId flight.blobRef
  | .skipping blobRef size copy =>
    size = (env.manifest blobRef).size ∧ ∀ key, copy = some key → key = .forRoom run.roomId blobRef
  | .discarding configId blobRef copy retry =>
    configId = run.toConfig ∧ copy = .forRoom run.roomId blobRef ∧
      ∀ flight, retry = some flight → flight.Formed env run.roomId
  | .deleting configId copy retry =>
    configId = run.toConfig ∧ (∃ blobRef, copy = .forRoom run.roomId blobRef) ∧
      ∀ flight, retry = some flight → flight.Formed env run.roomId

/-- What the runner takes to be recorded as in flight, at each stage, is what `recorded` says. -/
def Stage.Agrees (recorded : Option InFlight) : Stage → Prop
  | .scanning | .picked _ _ | .choosing _ | .finishing => recorded = none
  | .checking flight | .staging flight | .reclaiming flight | .putting flight | .copied flight _ =>
    recorded = some flight
  | .verifying flight copy again =>
    recorded = some { flight with copy := some copy } ∧ (again = true → flight.copy = some copy)
  | .switching flight copy => recorded = some { flight with copy := some copy }
  | .skipping blobRef _ copy => ∀ flight, recorded = some flight → flight.blobRef = blobRef ∧ flight.copy = copy
  | .failing copy => ∀ flight, recorded = some flight → copy = none ∨ copy = flight.copy
  | .retrying _ => True
  | .discarding _ _ _ retry | .deleting _ _ retry => ∀ flight, retry = some flight → recorded = some flight

namespace Host

structure Knows (env : Env) (h : Host) (run : Run) (stage : Stage) : Prop where
  formed : stage.Formed env run
  drawn : run.migrationId < h.nextId
  agrees : ∀ m, h.migrations[run.roomId]? = some m → m.migrationId = run.migrationId →
    m.toConfig = run.toConfig ∧ stage.Agrees m.inFlight

theorem Knows.evolves (hknows : h.Knows env run stage) (he : h.Evolves h') :
    h'.Knows env run stage where
  formed := hknows.formed
  drawn := hknows.drawn.trans_le he.nextId
  agrees m' hm' hid' := by
    rcases he.migrations run.roomId m' hm' with ⟨m, hm, hid, hto, hflight⟩ | hnew
    · rw [hto, hflight]
      exact hknows.agrees m hm (hid.symm.trans hid')
    · have hdrawn := hknows.drawn
      omega

/-- The runner goes on to a stage that needs the same of the record. -/
theorem Knows.next (hknows : h.Knows env run stage) (hformed : stage.Formed env run → stage'.Formed env run)
    (hagrees : ∀ recorded, stage.Agrees recorded → stage'.Agrees recorded) : h.Knows env run stage' where
  formed := hformed hknows.formed
  drawn := hknows.drawn
  agrees m hm hid := ⟨(hknows.agrees m hm hid).1, hagrees _ (hknows.agrees m hm hid).2⟩

theorem knows_beginStep (hformed : h.Formed env)
    (hbegin : h.beginStep roomId = some (run, stage)) : h.Knows env run stage := by
  unfold beginStep at hbegin
  split at hbegin
  · cases hbegin
  · rename_i m hm
    split at hbegin
    · cases hbegin
    · have hold := hformed.migrations roomId m hm
      split at hbegin
      · rename_i flight hflight
        cases hbegin
        refine ⟨hold.2 flight hflight, hold.1, fun m' hm' _ => ?_⟩
        cases hm.symm.trans hm'
        exact ⟨rfl, hflight⟩
      · rename_i hflight
        cases hbegin
        refine ⟨trivial, hold.1, fun m' hm' _ => ?_⟩
        cases hm.symm.trans hm'
        exact ⟨rfl, hflight⟩

/-- One migration's record rewritten, and no plan row more than there was. -/
theorem Formed.putMigration (hformed : h.Formed env) {m' : Migration} (hnextId : h'.nextId = h.nextId)
    (huploads : h'.uploads = h.uploads) (hblobs : h'.blobs = h.blobs)
    (hplan : ∀ (key : String × String) (size : Nat), h'.plan[key]? = some size → h.plan[key]? = some size)
    (hmoved : h'.moved = h.moved) (hmigrations : h'.migrations = h.migrations.insert roomId m')
    (hid : m'.migrationId < h.nextId) (hflight : ∀ flight, m'.inFlight = some flight → flight.Formed env roomId) :
    h'.Formed env := by
  refine hformed.sub hnextId.ge (fun _ _ hrow => huploads ▸ hrow) (fun _ _ hrow => hblobs ▸ hrow) hplan
    (fun _ _ hrow => hmoved ▸ hrow) fun roomId' m hm => ?_
  · rw [hnextId]
    rcases insert_cases (hmigrations ▸ hm) with ⟨rfl, rfl⟩ | ⟨-, hm⟩
    · exact ⟨hid, hflight⟩
    · exact hformed.migrations roomId' m hm

/-- The runner's migration gives up a blob, or all it has left: plan and done rows go, and a reservation, and nothing
new is in flight. -/
def Settles (h : Host) (run : Run) (m : Migration) (h' : Host) : Prop :=
  ∃ storage plan done m', h' = { h with storage, plan, done, migrations := h.migrations.insert run.roomId m' } ∧
    (∀ (key : String × String) (size : Nat), plan[key]? = some size → h.plan[key]? = some size) ∧
    m'.migrationId = m.migrationId ∧ m'.toConfig = m.toConfig ∧
    ∀ flight, m'.inFlight = some flight → m.inFlight = some flight

section
variable {run : Run} {m : Migration} (hformed : h.Formed env) (hm : h.running run = some m)
include hformed hm

theorem formed_recordFlight (hflight : flight.Formed env run.roomId) :
    (h.putMigration run.roomId { m with inFlight := some flight }).Formed env := by
  have hold := hformed.migrations run.roomId m (running_eq_some hm).1
  refine hformed.putMigration rfl rfl rfl (fun _ _ hrow => hrow) rfl rfl hold.1 fun flight' hflight' => ?_
  cases hflight'
  exact hflight

theorem formed_moveTo {copy : ObjectKey} {entry : BlobEntry}
    (hentry : h.blob run.roomId flight.blobRef = some entry) (hcopy : copy = .forRoom run.roomId flight.blobRef) :
    (h.moveTo run flight copy m entry).Formed env := by
  have hold := hformed.migrations run.roomId m (running_eq_some hm).1
  have hholds := hformed.blobs _ entry hentry
  refine ⟨hformed.uploads, fun key entry' hentry' => ?_, fun key size hsize => ?_, fun key row hrow => ?_,
    fun roomId m' hm' => ?_⟩
  · rcases insert_cases hentry' with ⟨rfl, rfl⟩ | ⟨-, hentry'⟩
    · refine ⟨hholds.1, ?_⟩
      rw [hcopy]
      exact ⟨rfl, rfl⟩
    · exact hformed.blobs key entry' hentry'
  · exact hformed.plan key size (erase_sub hsize)
  · rcases insert_cases hrow with ⟨rfl, rfl⟩ | ⟨-, hrow⟩
    · refine ⟨hholds, ?_⟩
      rw [← (running_eq_some hm).2.1]
      exact hold.1
    · exact hformed.moved key row hrow
  · rcases insert_cases hm' with ⟨rfl, rfl⟩ | ⟨-, hm'⟩
    · exact ⟨hold.1, fun flight hflight => nomatch hflight⟩
    · exact hformed.migrations roomId m' hm'

omit hformed hm in
theorem settles_skip (blobRef : String) (size : Nat) : h.Settles run m (h.skip run blobRef size m) := by
  unfold skip
  rw [unreserve_eq]
  generalize hcleared :
    (if m.inFlight.any fun f => f.blobRef == blobRef then { m with inFlight := none } else m) = cleared
  have hflight (flight : InFlight) (hflight : cleared.inFlight = some flight) : m.inFlight = some flight := by
    rw [← hcleared] at hflight
    split at hflight
    · cases hflight
    · exact hflight
  have hid : cleared.migrationId = m.migrationId := by
    rw [← hcleared]
    split <;> rfl
  have hto : cleared.toConfig = m.toConfig := by
    rw [← hcleared]
    split <;> rfl
  split
  · exact ⟨_, _, _, _, rfl, fun _ _ => erase_sub, hid, hto, hflight⟩
  · exact ⟨_, _, _, _, rfl, fun _ _ hrow => hrow, hid, hto, hflight⟩

omit hformed hm in
theorem settles_finish : h.Settles run m (h.finish run m) := by
  unfold finish
  rw [unreserve_eq]
  exact ⟨_, _, _, _, rfl, fun _ _ hrow => hrow, rfl, rfl, fun _ hflight => nomatch hflight⟩

omit hformed hm in
theorem settles_fail : h.Settles run m (h.fail run m) := by
  unfold fail
  rw [unreserve_eq]
  exact ⟨_, _, _, _, rfl, fun _ _ => filter_sub, rfl, rfl, fun _ hflight => nomatch hflight⟩

theorem Settles.formed (hsettles : h.Settles run m h') : h'.Formed env := by
  obtain ⟨storage, plan, done, m', rfl, hplan, hid, -, hflight⟩ := hsettles
  have hold := hformed.migrations run.roomId m (running_eq_some hm).1
  exact hformed.putMigration rfl rfl rfl hplan rfl rfl (hid ▸ hold.1) fun flight h => hold.2 flight (hflight flight h)

end

end Host

inductive Advance (env : Env) (h : Host) (run : Run) : Stage → Host → Prop
  | effects (stage : Stage) {h' : Host}
      (heffects : ∀ allowed : Allowed, (∀ h key row, allowed.uncounts h key row) → Effects env allowed h h') :
      Advance env h run stage h'
  | recorded (stage : Stage) (m : Migration) (flight : InFlight) (hm : h.running run = some m)
      (hflight : flight.Formed env run.roomId)
      (hstage : flight.copy = none ∨ ∃ before copy, stage = .copied before copy ∧
        flight = { before with copy := some copy }) :
      Advance env h run stage (h.putMigration run.roomId { m with inFlight := some flight })
  | put (flight : InFlight) :
      Advance env h run (.putting flight)
        (h.putObject run.toConfig (.forRoom run.roomId flight.blobRef) flight.blobRef)
  | switched (flight : InFlight) (copy : ObjectKey) (m : Migration) (entry : BlobEntry)
      (hm : h.running run = some m) (hentry : h.unchanged run flight = some entry) :
      Advance env h run (.switching flight copy) (h.moveTo run flight copy m entry)
  | skipped (blobRef : String) (size : Nat) (copy : Option ObjectKey) (m : Migration) (hm : h.running run = some m) :
      Advance env h run (.skipping blobRef size copy) (h.skip run blobRef size m)
  | failed (copy : Option ObjectKey) (m : Migration) (hm : h.running run = some m) :
      Advance env h run (.failing copy) (h.fail run m)
  | finished (m : Migration) (hm : h.running run = some m) : Advance env h run .finishing (h.finish run m)
  | deleted (configId : String) (copy : ObjectKey) (retry : Option InFlight) :
      Advance env h run (.deleting configId copy retry) (h.deleteObject configId copy)

namespace Host

variable {run : Run} {stage : Stage} {chance : Chance}

theorem recordFlight_eq_some (hrecord : h.recordFlight run flight = some h') :
    ∃ m, h.running run = some m ∧ h' = h.putMigration run.roomId { m with inFlight := some flight } := by
  obtain ⟨m, hm, rfl⟩ := Option.map_eq_some_iff.mp hrecord
  exact ⟨m, hm, rfl⟩

theorem nextStage_advance (hformed : stage.Formed env run) :
    Advance env h run stage (h.nextStage chance run stage).1 := by
  have hself : Advance env h run stage h := .effects stage fun _ _ => .refl
  fun_cases h.nextStage chance run stage with
  | case6 flight _ hrecord =>
    obtain ⟨m, hm, rfl⟩ := recordFlight_eq_some hrecord
    exact .recorded _ m flight hm hformed.1 (.inl hformed.2)
  | case14 => exact .effects _ fun _ huncounts => reclaimMoved_effects huncounts _ _ _
  | case16 flight => exact .put flight
  | case18 flight copy _ hrecord =>
    obtain ⟨m, hm, rfl⟩ := recordFlight_eq_some hrecord
    refine .recorded _ m _ hm ⟨hformed.1.1, fun key hkey => ?_⟩ (.inr ⟨flight, copy, rfl, rfl⟩)
    cases hkey
    exact hformed.2
  | case25 flight copy =>
    fun_cases h.switch run flight copy with
    | case3 m hm entry hentry => exact .switched flight copy m entry hm hentry
    | _ => exact hself
  | case27 blobRef size copy m hm => exact .skipped blobRef size copy m hm
  | case29 copy m hm => exact .failed copy m hm
  | case31 cause _ hm => exact .effects _ fun _ _ => retry_effects hm cause chance.delay
  | case33 m hm => exact .finished m hm
  | case36 configId copy retry =>
    dsimp only
    split
    · exact hself
    · exact .deleted configId copy retry
  | _ => exact hself

theorem advance_formed (hadvance : Advance env h run stage h') (hformed : h.Formed env)
    (hstage : stage.Formed env run) :
    h'.Formed env := by
  cases hadvance with
  | effects _ heffects => exact (heffects anything fun _ _ _ => trivial).formed hformed
  | recorded _ _ _ hm hflight => exact formed_recordFlight hformed hm hflight
  | put | deleted => exact hformed.objects _
  | switched _ _ _ _ hm hentry =>
    exact formed_moveTo hformed hm (Option.filter_eq_some_iff.mp hentry).1 hstage.2
  | skipped blobRef size _ _ hm => exact Settles.formed hformed hm (settles_skip blobRef size)
  | failed _ _ hm => exact Settles.formed hformed hm settles_fail
  | finished _ hm => exact Settles.formed hformed hm settles_finish

theorem nextStage_uploads (chance : Chance) (hstage : stage.Formed env run) :
    h.now ≤ (h.nextStage chance run stage).1.now ∧ h.nextId ≤ (h.nextStage chance run stage).1.nextId ∧
      ∀ id rec', (h.nextStage chance run stage).1.uploads[id]? = some rec' →
        (∃ rec, h.uploads[id]? = some rec ∧ rec.Same rec' ∧ (rec'.phase = .opened → rec.phase = .opened)) ∨
          h.nextId ≤ id := by
  have hself (h' : Host) (hnow : h'.now = h.now) (hid : h'.nextId = h.nextId) (huploads : h'.uploads = h.uploads) :
      h.now ≤ h'.now ∧ h.nextId ≤ h'.nextId ∧ ∀ (id : Nat) (rec' : UploadRecord), h'.uploads[id]? = some rec' →
        (∃ rec, h.uploads[id]? = some rec ∧ rec.Same rec' ∧ (rec'.phase = .opened → rec.phase = .opened)) ∨
          h.nextId ≤ id := by
    refine ⟨hnow.ge, hid.ge, fun id rec hrec => .inl ⟨rec, ?_, .refl rec, fun hopen => hopen⟩⟩
    rwa [huploads] at hrec
  have hadvance : Advance env h run stage (h.nextStage chance run stage).1 := nextStage_advance hstage
  generalize (h.nextStage chance run stage).1 = h' at hadvance ⊢
  cases hadvance with
  | effects _ heffects =>
    have he := (heffects anything fun _ _ _ => trivial).evolves
    exact ⟨he.now, he.nextId, he.uploads⟩
  | recorded | put | switched | deleted => exact hself _ rfl rfl rfl
  | skipped blobRef size _ m =>
    have hsettles : h.Settles run m (h.skip run blobRef size m) := settles_skip blobRef size
    obtain ⟨_, _, _, _, heq, -⟩ := hsettles
    rw [heq]
    exact hself _ rfl rfl rfl
  | failed _ m =>
    have hsettles : h.Settles run m (h.fail run m) := settles_fail
    obtain ⟨_, _, _, _, heq, -⟩ := hsettles
    rw [heq]
    exact hself _ rfl rfl rfl
  | finished m =>
    have hsettles : h.Settles run m (h.finish run m) := settles_finish
    obtain ⟨_, _, _, _, heq, -⟩ := hsettles
    rw [heq]
    exact hself _ rfl rfl rfl

/-- The stage goes on with what it read, over a host whose migrations are the same. -/
theorem Knows.of_migrations (hknows : h.Knows env run stage) (hnextId : h.nextId ≤ h'.nextId)
    (hmigrations : h'.migrations = h.migrations) (hformed : stage.Formed env run → stage'.Formed env run)
    (hagrees : ∀ recorded, stage.Agrees recorded → stage'.Agrees recorded) : h'.Knows env run stage' where
  formed := hformed hknows.formed
  drawn := hknows.drawn.trans_le hnextId
  agrees m hm hid := by
    rw [hmigrations] at hm
    exact ⟨(hknows.agrees m hm hid).1, hagrees _ (hknows.agrees m hm hid).2⟩

theorem Knows.recorded (hknows : h.Knows env run stage)
    (hm : h.running run = some m) (hformed : stage'.Formed env run) (hagrees : stage'.Agrees (some flight)) :
    (h.putMigration run.roomId { m with inFlight := some flight }).Knows env run stage' where
  formed := hformed
  drawn := hknows.drawn
  agrees m' hm' hid := by
    change (h.migrations.insert run.roomId _)[run.roomId]? = _ at hm'
    rw [getElem?_insert_eq, if_pos rfl] at hm'
    cases hm'
    obtain ⟨hstored, hid, -⟩ := running_eq_some hm
    exact ⟨(hknows.agrees m hstored hid).1, hagrees⟩

theorem nextPlanned_eq_some {size : Nat}
    (hnext : h.nextPlanned roomId = some (blobRef, size)) : h.plan[(roomId, blobRef)]? = some size := by
  obtain ⟨⟨⟨room, ref⟩, found⟩, hfind, heq⟩ := Option.map_eq_some_iff.mp hnext
  cases heq
  have hroom := List.find?_some hfind
  rw [beq_iff_eq] at hroom
  rw [← hroom]
  exact ExtTreeMap.mem_toList_iff_getElem?_eq_some.mp (List.mem_of_find?_eq_some hfind)

theorem Settles.knows {copy : Option ObjectKey}
    (hknows : h.Knows env run stage) (hm : h.running run = some m) (hsettles : h.Settles run m h')
    (hcopy : ∀ key, copy = some key → key = .forRoom run.roomId blobRef)
    (hstage : discard m.toConfig blobRef copy = some stage') : h'.Knows env run stage' := by
  obtain ⟨hstored, hid, -⟩ := running_eq_some hm
  have hto := (hknows.agrees m hstored hid).1
  obtain ⟨key, hkey, rfl⟩ := Option.map_eq_some_iff.mp hstage
  obtain ⟨_, _, _, m', rfl, -, -, hto', -⟩ := hsettles
  refine ⟨⟨hto, hcopy key hkey, fun _ hretry => nomatch hretry⟩, hknows.drawn, fun m'' hm'' _ => ⟨?_, ?_⟩⟩
  · rw [getElem?_insert_eq, if_pos rfl] at hm''
    cases hm''
    exact hto'.trans hto
  · exact fun _ hretry => nomatch hretry

section
variable {copy : ObjectKey}

theorem Knows.changed (hknows : h.Knows env run (.checking flight)) :
    h.Knows env run (.skipping flight.blobRef flight.size flight.copy) := by
  refine hknows.next (fun hflight => hflight) fun recorded hrec flight' hflight' => ?_
  rw [show recorded = some flight from hrec] at hflight'
  cases hflight'
  exact ⟨rfl, rfl⟩

/-- A recorded copy that is gone is made again. -/
theorem Knows.again (hknows : h.Knows env run (.verifying flight copy true)) : h.Knows env run (.staging flight) := by
  refine hknows.next (fun hflight => hflight.1) fun recorded hrec => ?_
  have hcopy : flight.copy = some copy := hrec.2 rfl
  rw [hrec.1, ← hcopy]
  rfl

/-- A recorded copy with other bytes is discarded, and made again. -/
theorem Knows.mismatched (hknows : h.Knows env run (.verifying flight copy true)) :
    h.Knows env run (.discarding run.toConfig flight.blobRef copy (some flight)) := by
  refine hknows.next (fun hflight => ⟨rfl, hflight.2, fun flight' hretry => ?_⟩) fun recorded hrec flight' hretry => ?_
  · cases hretry
    exact hflight.1
  · cases hretry
    have hcopy : flight.copy = some copy := hrec.2 rfl
    rw [hrec.1, ← hcopy]

theorem Knows.unverified (hknows : h.Knows env run (.verifying flight copy false)) :
    h.Knows env run (.failing (some copy)) := by
  refine hknows.next (fun _ => trivial) fun recorded hrec flight' hflight' => .inr ?_
  rw [hrec.1] at hflight'
  cases hflight'
  rfl

theorem Knows.unswitched (hknows : h.Knows env run (.switching flight copy)) :
    h.Knows env run (.skipping flight.blobRef flight.size (some copy)) := by
  refine hknows.next (fun hflight => ⟨hflight.1.1, fun key hkey => ?_⟩) fun recorded hrec flight' hflight' => ?_
  · cases hkey
    exact hflight.2
  · rw [show recorded = _ from hrec] at hflight'
    cases hflight'
    exact ⟨rfl, rfl⟩

/-- A failed migration discards the copy it was at, or the one recorded. -/
theorem Knows.failed {copy : Option ObjectKey} (hformed : h.Formed env) (hknows : h.Knows env run (.failing copy))
    (hm : h.running run = some m)
    (hnext : (m.inFlight.bind fun flight => discard m.toConfig flight.blobRef (copy <|> flight.copy)) = some stage') :
    (h.fail run m).Knows env run stage' := by
  obtain ⟨hstored, hid, -⟩ := running_eq_some hm
  obtain ⟨flight, hflight, hnext⟩ := Option.bind_eq_some_iff.mp hnext
  refine Settles.knows hknows hm settles_fail (fun key hkey => ?_) hnext
  have hcopy : flight.copy = some key := by
    rcases (hknows.agrees m hstored hid).2 flight hflight with rfl | hsame
    · exact hkey
    · rw [hsame] at hkey
      cases hflightCopy : flight.copy with
      | none | some => rwa [hflightCopy] at hkey
  exact ((hformed.migrations run.roomId m hstored).2 flight hflight).2 key hcopy

end

/-- The runner's next stage agrees with what it leaves recorded. -/
theorem nextStage_knows (hformed : h.Formed env) (hknows : h.Knows env run stage)
    (hnext : h.nextStage chance run stage = (h', some stage')) : h'.Knows env run stage' := by
  revert hnext
  fun_cases h.nextStage chance run stage with
  | case2 _ planned hplanned =>
    rintro ⟨⟩
    exact hknows.next (fun _ => hformed.plan _ planned (nextPlanned_eq_some hplanned)) fun _ hrec => hrec
  | case3 _ _ entry hentry =>
    rintro ⟨⟩
    have hholds := hformed.blobs _ entry (Option.filter_eq_some_iff.mp hentry).1
    exact hknows.next (fun _ => ⟨⟨hholds.1, fun _ hkey => nomatch hkey⟩, rfl⟩) fun _ hrec => hrec
  | case4 =>
    rintro ⟨⟩
    refine hknows.next (fun hsize => ⟨hsize, fun _ hkey => nomatch hkey⟩) fun recorded hrec flight hflight => ?_
    rw [show recorded = none from hrec] at hflight
    cases hflight
  | case6 _ _ hrecord =>
    rintro ⟨⟩
    obtain ⟨m, hm, rfl⟩ := recordFlight_eq_some hrecord
    exact hknows.recorded hm hknows.formed.1 rfl
  | case7 =>
    rintro ⟨⟩
    exact hknows.changed
  | case8 flight _ _ copy hcopy =>
    rintro ⟨⟩
    refine hknows.next (fun hflight => ⟨hflight, hflight.2 copy hcopy⟩) fun recorded hrec => ⟨?_, fun _ => hcopy⟩
    rw [show recorded = some flight from hrec, ← hcopy]
  | case14 flight =>
    rintro ⟨⟩
    have heffects : Effects env anything h (h.reclaimMoved run.roomId flight.blobRef run.toConfig) :=
      reclaimMoved_effects (fun _ _ _ => trivial) _ _ _
    exact (hknows.evolves heffects.evolves).next (fun hflight => hflight) fun _ hrec => hrec
  | case16 =>
    rintro ⟨⟩
    exact hknows.of_migrations le_rfl rfl (fun hflight => ⟨hflight, rfl⟩) fun _ hrec => hrec
  | case18 _ _ _ hrecord =>
    rintro ⟨⟩
    obtain ⟨m, hm, rfl⟩ := recordFlight_eq_some hrecord
    exact hknows.recorded hm hknows.formed ⟨rfl, fun hagain => nomatch hagain⟩
  | case20 =>
    rintro ⟨⟩
    exact hknows.next (fun hflight => hflight) fun _ hrec => hrec.1
  | case21 =>
    rintro ⟨⟩
    exact hknows.again
  | case22 =>
    rintro ⟨⟩
    exact hknows.mismatched
  | case24 =>
    rintro ⟨⟩
    exact hknows.unverified
  | case25 flight copy =>
    fun_cases h.switch run flight copy with
    | case2 =>
      rintro ⟨⟩
      exact hknows.unswitched
    | _ => nofun
  | case27 blobRef size _ _ hm =>
    intro heq
    obtain ⟨rfl, hnext⟩ := Prod.mk.inj heq
    exact Settles.knows hknows hm (settles_skip blobRef size) hknows.formed.2 hnext
  | case29 _ _ hm =>
    intro heq
    obtain ⟨rfl, hnext⟩ := Prod.mk.inj heq
    exact hknows.failed hformed hm hnext
  | case34 =>
    intro heq
    obtain ⟨rfl, hnext⟩ := Prod.mk.inj heq
    obtain ⟨flight, hretry, rfl⟩ := Option.map_eq_some_iff.mp hnext
    exact hknows.next (fun hstage => hstage.2.2 flight hretry) fun _ hrec => hrec flight hretry
  | case35 _ blobRef =>
    rintro ⟨⟩
    exact hknows.next (fun hstage => ⟨hstage.1, ⟨blobRef, hstage.2.1⟩, hstage.2.2⟩) fun _ hrec => hrec
  | case36 =>
    intro heq
    obtain ⟨rfl, hnext⟩ := Prod.mk.inj heq
    obtain ⟨flight, hretry, rfl⟩ := Option.map_eq_some_iff.mp hnext
    split <;>
      exact hknows.of_migrations le_rfl rfl (fun hstage => hstage.2.2 flight hretry) fun _ hrec => hrec flight hretry
  | case1 | case9 | case11 =>
    rintro ⟨⟩
    exact hknows.next (fun hflight => hflight) fun _ hrec => hrec
  | case10 | case12 | case15 | case19 =>
    rintro ⟨⟩
    exact hknows.next (fun _ => trivial) fun _ _ => trivial
  | case13 | case23 =>
    rintro ⟨⟩
    exact hknows.next (fun _ => trivial) fun _ _ _ _ => .inl rfl
  | _ => nofun

end Host

/-! ### Worlds -/

structure World.Formed (env : Env) (w : World) : Prop where
  host : w.host.Formed env
  pass : ∀ now rows, w.pass = .uploads now rows →
    (rows.map Prod.fst).Nodup ∧ ∀ row ∈ rows, w.host.ReadOff env row
  runner : ∀ run stage, w.runner = some (run, stage) → w.host.Knows env run stage

namespace Host

theorem ReadOff.evolves {row : Nat × UploadRecord} (hread : h.ReadOff env row) (hnextId : h.nextId ≤ h'.nextId)
    (huploads : ∀ rec', h'.uploads[row.1]? = some rec' →
      (∃ rec, h.uploads[row.1]? = some rec ∧ rec.Same rec' ∧ (rec'.phase = .opened → rec.phase = .opened)) ∨
        h.nextId ≤ row.1) : h'.ReadOff env row := by
  obtain ⟨hformed, hdrawn, hstored⟩ := hread
  refine ⟨hformed, hdrawn.trans_le hnextId, fun rec' hrec' => ?_⟩
  rcases huploads rec' hrec' with ⟨rec, hrec, hsame, hopen⟩ | hnew
  · exact ⟨(hstored rec hrec).1.trans hsame, fun hphase hphase' => (hstored rec hrec).2 hphase (hopen hphase')⟩
  · omega

theorem readOff_stored (hformed : h.Formed env) (hrec : h.uploads[id]? = some rec) : h.ReadOff env (id, rec) := by
  refine ⟨(hformed.uploads id rec hrec).1, (hformed.uploads id rec hrec).2, fun stored hstored => ?_⟩
  cases hrec.symm.trans hstored
  exact ⟨.refl rec, fun hphase => hphase⟩

/-- What an upload row of a pass changes: the row itself, and things no other row depends on. -/
theorem sweepUpload_eq (now id : Nat) (rec : UploadRecord) :
    ∃ usage storage objects signers index, ∃ uploads : ExtTreeMap Nat UploadRecord,
      h.sweepUpload now id rec =
        { h with usage, storage, objects, signerIndex := signers, uploadIndex := index, uploads } ∧
      (uploads = h.uploads ∨ uploads = h.uploads.erase id ∨
        uploads = h.uploads.insert id { rec with phase := .released, finishedAt := some now }) := by
  unfold sweepUpload
  split
  · split
    · change ∃ usage storage objects signers index, ∃ uploads : ExtTreeMap Nat UploadRecord,
        ((h.abortDirect rec).letGo rec).putUpload id _ = _ ∧ _
      rw [letGo_eq]
      unfold abortDirect
      split
      · exact ⟨_, _, _, _, _, _, rfl, .inr (.inr rfl)⟩
      · exact ⟨_, _, _, _, _, _, rfl, .inr (.inr rfl)⟩
    · exact ⟨_, _, _, _, _, _, rfl, .inl rfl⟩
  · split
    · exact ⟨_, _, _, _, _, _, rfl, .inr (.inl rfl)⟩
    · exact ⟨_, _, _, _, _, _, rfl, .inl rfl⟩

theorem formed_sweepUpload (hformed : h.Formed env) {now : Nat}
    (hread : h.ReadOff env (id, rec)) : (h.sweepUpload now id rec).Formed env := by
  obtain ⟨usage, storage, objects, signers, index, uploads, heq, huploads⟩ := sweepUpload_eq (h := h) now id rec
  rw [heq]
  rcases huploads with rfl | rfl | rfl
  · exact ⟨hformed.1, hformed.2, hformed.3, hformed.4, hformed.5⟩
  · exact hformed.sub le_rfl (fun _ _ => erase_sub) (fun _ _ hrow => hrow) (fun _ _ hrow => hrow)
      (fun _ _ hrow => hrow) hformed.migrations
  · exact hformed.putUpload (hread.1.same (same_with_end rec _ _)) hread.2.1 le_rfl rfl rfl rfl rfl rfl

theorem quiet_sweepSlots : h.Quiet h.sweepSlots :=
  { Quiet.refl h with }

end Host

namespace World

variable {w : World}

theorem formed_start (now : Nat) (roomOverrides : ExtTreeMap String RoomOverride)
    (memberOverrides : ExtTreeMap (String × String) ScopeLimits) :
    (World.start now roomOverrides memberOverrides).Formed env := by
  have hempty : (Host.empty now).Formed env := formed_empty now
  exact ⟨⟨hempty.1, hempty.2, hempty.3, hempty.4, hempty.5⟩, fun _ _ hpass => (nomatch hpass),
    fun _ _ hrunner => nomatch hrunner⟩

section
variable (hw : w.Formed env)
include hw

theorem Formed.evolves (hformed : h'.Formed env) (he : w.host.Evolves h') :
    { w with host := h' }.Formed env where
  host := hformed
  pass now rows hpass :=
    ⟨(hw.pass now rows hpass).1, fun row hrow => ((hw.pass now rows hpass).2 row hrow).evolves he.nextId
      (he.uploads row.1)⟩
  runner run stage hrunner := (hw.runner run stage hrunner).evolves he

theorem Formed.effects (heffects : Effects env allowed w.host h') : { w with host := h' }.Formed env :=
  hw.evolves (heffects.formed hw.host) heffects.evolves

theorem Formed.row {pass : Pass} (heffects : Effects env anything w.host h')
    (hpass : ∀ now rows, pass = .uploads now rows → (rows.map Prod.fst).Nodup ∧ ∀ row ∈ rows, h'.ReadOff env row) :
    { w with host := h', pass }.Formed env :=
  ⟨(hw.effects heffects).host, hpass, (hw.effects heffects).runner⟩

theorem formed_sweepNext : (w.step env .sweepNext).Formed env := by
  change World.Formed env { w with host := (w.host.nextRow env w.pass).1, pass := (w.host.nextRow env w.pass).2 }
  cases hpass : w.pass with
  | idle => exact hw.row .refl fun _ _ h => by cases h
  | blobs _ rows =>
    cases rows with
    | nil => exact hw.row .refl fun _ _ h => by cases h
    | cons =>
      refine hw.row (nextRow_effects sweeps_anything (fun _ _ _ _ h => by cases h) (fun _ _ h => by cases h)
        fun _ _ _ _ _ => trivial) fun _ _ h => by cases h
  | moved _ keys =>
    cases keys with
    | nil =>
      refine hw.row .refl fun now' rows hrows => ?_
      cases hrows
      refine ⟨?_, fun row hrow => readOff_stored hw.host (ExtTreeMap.mem_toList_iff_getElem?_eq_some.mp hrow)⟩
      rw [ExtTreeMap.map_fst_toList_eq_keys]
      exact ExtTreeMap.nodup_keys
    | cons => exact hw.row (sweepMoved_effects sweeps_anything _ _ _) fun _ _ h => by cases h
  | uploads now rows =>
    cases rows with
    | nil => exact hw.row .refl fun _ _ h => by cases h
    | cons row =>
      obtain ⟨hnodup, hread⟩ := hw.pass now _ hpass
      rw [List.map_cons, List.nodup_cons] at hnodup
      have hformed : (w.host.sweepUpload now row.1 row.2).Formed env :=
        formed_sweepUpload hw.host (hread row List.mem_cons_self)
      obtain ⟨usage, storage, objects, signers, index, uploads, heq, huploads⟩ :=
        sweepUpload_eq (h := w.host) now row.1 row.2
      refine ⟨hformed, fun now' rows' hrows' => ?_, fun run stage hrunner => ?_⟩
      · cases hrows'
        refine ⟨hnodup.2, fun row' hrow' => ?_⟩
        have hne : row.1 ≠ row'.1 := fun hid => hnodup.1 (hid ▸ List.mem_map_of_mem hrow')
        refine (hread row' (List.mem_cons_of_mem row hrow')).evolves ?_ fun rec hrec => .inl ⟨rec, ?_, .refl rec, id⟩
        · dsimp only [nextRow]
          rw [heq]
        · dsimp only [nextRow] at hrec
          rw [heq] at hrec
          rcases huploads with rfl | rfl | rfl
          · exact hrec
          · exact erase_sub hrec
          · rwa [getElem?_insert_eq, if_neg hne] at hrec
      · refine (hw.runner run stage hrunner).of_migrations ?_ ?_ (fun hstage => hstage) fun _ hrec => hrec
        · dsimp only [nextRow]
          rw [heq]
        · dsimp only [nextRow]
          rw [heq]
  | downloads rows =>
    cases rows with
    | nil => exact hw.row (Effects.quiet quiet_rollDays) fun _ _ h => by cases h
    | cons =>
      exact hw.row (nextRow_effects sweeps_anything (fun _ _ _ _ h => by cases h) (fun _ _ h => by cases h)
        fun _ _ _ _ _ => trivial) fun _ _ h => by cases h

theorem formed_migrateNext (chance : Chance) : (w.step env (.migrateNext chance)).Formed env := by
  unfold World.step
  dsimp only
  split
  · exact hw
  · rename_i run stage hrunner
    have hknows := hw.runner run stage hrunner
    have huploads := nextStage_uploads (h := w.host) chance hknows.formed
    refine ⟨advance_formed (nextStage_advance hknows.formed) hw.host hknows.formed, fun now rows hpass => ?_, ?_⟩
    · refine ⟨(hw.pass now rows hpass).1, fun row hrow => ?_⟩
      exact ((hw.pass now rows hpass).2 row hrow).evolves huploads.2.1 (huploads.2.2 row.1)
    · intro run' stage' hnext
      obtain ⟨stage'', hnext, heq⟩ := Option.map_eq_some_iff.mp hnext
      cases heq
      exact nextStage_knows hw.host hknows (Prod.ext rfl hnext)

theorem formed_step (ha : ∀ roomId fails, a ≠ .purge roomId fails) :
    (w.step env a).Formed env := by
  have hcall : { w with host := w.host.call env a }.Formed env := by
    rcases call_cases hw.host ha (a.allowed_anything w.host) with heffects | ⟨req, hbegins⟩
    · exact hw.effects heffects
    · exact hw.evolves (hbegins.formed hw.host) hbegins.evolves
  cases a with
  | sweep =>
    unfold World.step
    dsimp only
    split
    · refine ⟨quiet_sweepSlots.formed hw.host, fun _ _ hpass => (nomatch hpass), fun run stage hrunner => ?_⟩
      exact (hw.runner run stage hrunner).evolves quiet_sweepSlots.evolves
    · exact hw
  | sweepNext => exact formed_sweepNext hw
  | migrate =>
    unfold World.step
    dsimp only
    split
    · exact ⟨hw.host, hw.pass, fun run stage hrunner => knows_beginStep hw.host hrunner⟩
    · exact hw
  | migrateNext chance => exact formed_migrateNext hw chance
  | migrateDrop => exact ⟨hw.host, hw.pass, fun _ _ hrunner => nomatch hrunner⟩
  | _ => exact hcall

end

/-- What a step other than a purge does to the host: effects, the beginning of a migration, a sub-step of the runner, or
what the pass does with the next upload row it read. -/
theorem step_cases (hw : w.Formed env) (ha : ∀ roomId fails, a ≠ .purge roomId fails)
    (hallowed : a.IsAllowed allowed w.host) (hsweeps : allowed.Sweeps)
    (hcollects : a = .sweepNext → ∀ now row rows, w.pass = .blobs now (row :: rows) →
      row.2.due env.limits.orphanGraceSecs now = true → allowed.collects w.host row.1.1 row.1.2) :
    Effects env allowed w.host (w.step env a).host ∨ (∃ req, w.host.Begins req (w.step env a).host) ∨
      (∃ chance run stage, a = .migrateNext chance ∧ w.runner = some (run, stage) ∧
        Advance env w.host run stage (w.step env a).host) ∨
      ∃ now row rows, a = .sweepNext ∧ w.pass = .uploads now (row :: rows) ∧
        (w.step env a).host = w.host.sweepUpload now row.1 row.2 := by
  have hcall : Effects env allowed w.host (w.host.call env a) ∨ ∃ req, w.host.Begins req (w.host.call env a) :=
    call_cases hw.host ha hallowed
  cases a with
  | sweep =>
    unfold World.step
    dsimp only
    split
    · exact .inl (Effects.quiet quiet_sweepSlots)
    · exact .inl .refl
  | sweepNext =>
    by_cases hpass : ∃ now row rows, w.pass = .uploads now (row :: rows)
    · obtain ⟨now, row, rows, hpass⟩ := hpass
      refine .inr (.inr (.inr ⟨now, row, rows, rfl, hpass, ?_⟩))
      change (w.host.nextRow env w.pass).1 = _
      rw [hpass]
      rfl
    · refine .inl (nextRow_effects hsweeps (fun now id rec rows h => ?_) (fun now rows h => (hw.pass now rows h).2)
        (hcollects rfl))
      exact absurd ⟨now, (id, rec), rows, h⟩ hpass
  | migrate =>
    unfold World.step
    dsimp only
    split <;> exact .inl .refl
  | migrateNext chance =>
    unfold World.step
    dsimp only
    split
    · exact .inl .refl
    · rename_i run stage hrunner
      exact .inr (.inr (.inl ⟨chance, run, stage, rfl, hrunner, nextStage_advance
        (hw.runner run stage hrunner).formed⟩))
  | migrateDrop => exact .inl .refl
  | _ => exact hcall.imp_right .inl

/-! ### A small host -/

/-- A host without limits, whose files have one chunk: the blob `large` of 20 bytes, any other of 10. -/
def smallHost : Env :=
  ⟨⟨true, ⟨none, none, none⟩, ⟨none, none, none⟩, 1000, none, 3600⟩, .off,
    fun blobRef => ⟨if blobRef = "large" then 20 else 10, 1, true⟩, fun _ => true⟩

def library : Rooms.Room :=
  ⟨"library", "did:owner", .attributed, .never, .chained, 1, 1, 0, none, none, none, none, none, none, 0, 0⟩

/-- Storage on one config, which takes no direct uploads. -/
def oneDisk : Stores := ⟨.ok ⟨"disk", none⟩, false, [], .stored, true⟩

def beginFile (opener blobRef : String) : Action := .beginUpload ⟨library, opener, none, none, blobRef, none⟩ oneDisk

end World

end TrustInfrastructure.Blobs
