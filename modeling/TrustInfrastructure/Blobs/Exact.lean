import TrustInfrastructure.Blobs.Books

/-!
# The counters along a run

Along any run without a purge the usage counters, the storage counters and the migrations' records stay the sums they
stand for, as long as two things hold where the code does not check them: an upload row that a collection pass read as
open, and that has lapsed when the pass comes to it, is still open (`World.rowFresh`), and a blob that a migration
switches is still on its plan (`World.switchPlanned`).

Neither can be dropped. A commit between the read of an upload row and the pass coming to it closes the upload's slot,
so the row looks lapsed and its reservation is released a second time, out of another upload's (`released_twice`). A
blob in flight that is orphaned leaves the plan; named again before the switch, it is moved all the same, and counted
done without being counted among the total (`done_beyond_total`).
-/

namespace TrustInfrastructure.Blobs

open Lib Host
open Std (ExtTreeMap)

variable {env : Env} {allowed : Allowed} {h h' : Host}

/-! ### What the code does not check -/

def World.rowFresh (w : World) : Action → Bool
  | .sweepNext =>
    match w.pass with
    | .uploads now ((id, rec) :: _) =>
      !(rec.phase == .opened && w.host.lapsed now id rec) || w.host.uploads[id]?.any fun s => s.phase == .opened
    | _ => true
  | _ => true

def World.switchPlanned (w : World) : Action → Bool
  | .migrateNext _ =>
    match w.runner with
    | some (run, .switching flight _) =>
      !((w.host.running run).isSome && (w.host.unchanged run flight).isSome) ||
        w.host.plan[(run.roomId, flight.blobRef)]?.isSome
    | _ => true
  | _ => true

theorem World.fresh_of_rowFresh {w : World} (hfresh : w.rowFresh .sweepNext = true) : w.host.Fresh w.pass := by
  intro now id rec rows hpass hopen hlapsed
  unfold World.rowFresh at hfresh
  rw [hpass] at hfresh
  dsimp only at hfresh
  rw [hopen, hlapsed] at hfresh
  cases hstored : w.host.uploads[id]? with
  | none =>
    rw [hstored] at hfresh
    cases hfresh
  | some stored =>
    rw [hstored] at hfresh
    exact ⟨stored, rfl, by simpa using hfresh⟩

/-! ### The runner's sub-steps -/

theorem Effects.usageExact (heffects : Effects env allowed h h') (hformed : h.Formed env) (hexact : h.UsageExact) :
    h'.UsageExact := by
  induction heffects with
  | refl => exact hexact
  | tail hbefore heffect ih => exact heffect.usageExact (Effects.formed hbefore hformed) ih

theorem Effects.booked (heffects : Effects env allowed h h') (hformed : h.Formed env) (hbooked : h.Booked) :
    h'.Booked := by
  induction heffects with
  | refl => exact hbooked
  | tail hbefore heffect ih => exact heffect.booked (Effects.formed hbefore hformed) ih

namespace Host

variable {run : Run} {stage : Stage}

theorem Settles.usageExact {m : Migration} (hsettles : h.Settles run m h') (hexact : h.UsageExact) : h'.UsageExact := by
  obtain ⟨_, _, _, _, rfl, -⟩ := hsettles
  exact hexact.frame rfl rfl rfl

theorem advance_usageExact (hadvance : Advance env h run stage h') (hformed : h.Formed env) (hexact : h.UsageExact) :
    h'.UsageExact := by
  cases hadvance with
  | effects _ heffects => exact (heffects anything fun _ _ _ => trivial).usageExact hformed hexact
  | recorded | put | deleted => exact hexact.frame rfl rfl rfl
  | switched flight _ _ entry _ hentry =>
    have hstored : h.blobs[(run.roomId, flight.blobRef)]? = some entry := (Option.filter_eq_some_iff.mp hentry).1
    refine hexact.putBlob rfl rfl fun scope x hbefore => ?_
    rw [weightAt_some hstored] at hbefore
    exact hbefore
  | skipped blobRef size => exact (settles_skip blobRef size).usageExact hexact
  | failed => exact settles_fail.usageExact hexact
  | finished => exact settles_finish.usageExact hexact

theorem advance_booked (hadvance : Advance env h run stage h') (hformed : h.Formed env) (hstage : stage.Formed env run)
    (hbooked : h.Booked)
    (hplanned : ∀ flight copy, stage = .switching flight copy → (h.running run).isSome →
      (h.unchanged run flight).isSome →
      h.plan[(run.roomId, flight.blobRef)]?.isSome) : h'.Booked := by
  cases hadvance with
  | effects _ heffects => exact (heffects anything fun _ _ _ => trivial).booked hformed hbooked
  | recorded _ _ flight hm => exact booked_recordFlight hbooked hm flight
  | put | deleted => exact hbooked.frame rfl rfl rfl rfl rfl rfl rfl
  | switched flight copy _ entry hm hentry =>
    have hstored : h.blob run.roomId flight.blobRef = some entry := (Option.filter_eq_some_iff.mp hentry).1
    have hsome := hplanned flight copy rfl (by rw [hm]; rfl) (by rw [hentry]; rfl)
    obtain ⟨size, hsize⟩ := Option.isSome_iff_exists.mp hsome
    have hflight : flight.size = (env.manifest flight.blobRef).size := hstage.1.1
    rw [hformed.plan _ size hsize, ← hflight] at hsize
    exact booked_moveTo hbooked hm hstored ((hformed.blobs _ entry hstored).1.trans hflight.symm) hsize
  | skipped _ _ _ _ hm => exact booked_skip hbooked hm hformed hstage.1
  | failed _ _ hm => exact booked_fail hbooked hm
  | finished _ hm => exact booked_finish hbooked hm

end Host

/-! ### Steps and runs -/

namespace World

variable {w : World} {a : Action}

theorem step_host {Inv : Host → Prop} (hw : w.Formed env) (ha : ∀ roomId fails, a ≠ .purge roomId fails)
    (hfresh : w.rowFresh a = true)
    (heffects : ∀ h', Effects env anything w.host h' → Inv h') (hbegins : ∀ req h', w.host.Begins req h' → Inv h')
    (hadvance : ∀ chance run stage h', a = .migrateNext chance → w.runner = some (run, stage) →
      Advance env w.host run stage h' → Inv h') : Inv (w.step env a).host := by
  rcases step_cases hw ha (a.allowed_anything w.host) sweeps_anything (fun _ _ _ _ _ _ => trivial) with
    hstep | ⟨req, hstep⟩ | ⟨chance, run, stage, rfl, hrunner, hstep⟩ |
    ⟨now, row, rows, rfl, hpass, heq⟩
  · exact heffects _ hstep
  · exact hbegins req _ hstep
  · exact hadvance chance run stage _ rfl hrunner hstep
  · rw [heq]
    refine heffects _ (sweepUpload_effects ((hw.pass now _ hpass).2 row List.mem_cons_self) ?_)
    exact fresh_of_rowFresh hfresh now row.1 row.2 rows hpass

section
variable (hw : w.Formed env) (ha : ∀ roomId fails, a ≠ .purge roomId fails) (hfresh : w.rowFresh a = true)
include hw ha hfresh

theorem usageExact_step (hexact : w.host.UsageExact) : (w.step env a).host.UsageExact := by
  refine step_host hw ha hfresh (fun h' heffects => ?_) (fun req h' hbegins => ?_)
    fun chance run stage h' _ _ hadvance => ?_
  · exact heffects.usageExact hw.host hexact
  · exact hbegins.usageExact hexact
  · exact advance_usageExact hadvance hw.host hexact

theorem booked_step (hplanned : w.switchPlanned a = true) (hbooked : w.host.Booked) : (w.step env a).host.Booked := by
  refine step_host hw ha hfresh (fun h' heffects => ?_) (fun req h' hbegins => ?_)
    fun chance run stage h' ha hrunner hadvance => ?_
  · exact heffects.booked hw.host hbooked
  · exact hbegins.booked hbooked hw.host
  · refine advance_booked hadvance hw.host (hw.runner run stage hrunner).formed hbooked
      fun flight copy hstage hm hentry => ?_
    subst ha hstage
    unfold World.switchPlanned at hplanned
    rw [hrunner] at hplanned
    dsimp only at hplanned
    rw [hm, hentry] at hplanned
    simpa using hplanned

end

/-- The counters of a host and its migrations' records are exact along every run without a purge whose steps find
lapsed upload rows still open and switched blobs still planned. -/
theorem exact_run {w : World} {actions : List Action} (hw : w.Formed env) (hexact : w.host.UsageExact)
    (hbooked : w.host.Booked) (hpurge : ∀ a ∈ actions, ∀ roomId fails, a ≠ .purge roomId fails)
    (hfresh : Along (World.step env) (fun w a => w.rowFresh a = true) w actions)
    (hplanned : Along (World.step env) (fun w a => w.switchPlanned a = true) w actions) :
    (run (World.step env) w actions).Formed env ∧ (run (World.step env) w actions).host.UsageExact ∧
      (run (World.step env) w actions).host.Booked := by
  have hall := (hfresh.and hplanned).and
    (along_of_forall (P := fun _ a => ∀ roomId fails, a ≠ .purge roomId fails) fun a ha _ => hpurge a ha)
  refine run_induction (I := fun w => w.Formed env ∧ w.host.UsageExact ∧ w.host.Booked) ⟨hw, hexact, hbooked⟩ hall ?_
  rintro w a ⟨hw, hexact, hbooked⟩ ⟨⟨hfresh, hplanned⟩, ha⟩
  exact ⟨formed_step hw ha, usageExact_step hw ha hfresh hexact, booked_step hw ha hfresh hplanned hbooked⟩

end World

theorem Host.usageExact_empty (now : Nat) : (Host.empty now).UsageExact := fun _ => rfl

theorem Host.booked_empty (now : Nat) : (Host.empty now).Booked := by
  refine ⟨fun _ => rfl, ?_, ?_, ?_, ?_⟩
  · intro roomId m hm
    simp [Host.empty] at hm
  · intro roomId m hm
    simp [Host.empty] at hm
  · intro key size hsize
    simp [Host.empty] at hsize
  · intro roomId blobRef id row hrow
    simp [Host.empty] at hrow

/-! ### What is reserved -/

def reservedPart : StorageUsage →+ Nat where
  toFun s := s.reservedBytes
  map_zero' := rfl
  map_add' _ _ := rfl

theorem Host.Booked.reserved (hbooked : h.Booked) (key : Option String) :
    (h.counter key).reservedBytes = tally (fun id rec => (uploadHeld key id rec).reservedBytes) h.uploads +
      tally (fun roomId m => (migrationHeld key roomId m).reservedBytes) h.migrations := by
  have hcopies : reservedPart (tally (copyHeld key) h.blobs) = 0 := by
    rw [map_tally]
    refine tally_eq_zero fun at' entry _ => ?_
    unfold copyHeld
    split <;> rfl
  have hmoved : reservedPart (tally (movedHeld key) h.moved) = 0 := by
    rw [map_tally]
    refine tally_eq_zero fun at' row _ => ?_
    unfold movedHeld
    split <;> rfl
  change reservedPart (h.counter key) = _
  rw [hbooked.storage key, held, map_add, map_add, map_add, hcopies, hmoved, map_tally, map_tally, zero_add, zero_add]
  rfl

/-! ### Hosts without migrations -/

def Host.Unmigrated (h : Host) : Prop :=
  (∀ roomId : String, h.migrations[roomId]? = none) ∧ ∀ key : String × String × Nat, h.moved[key]? = none

theorem Host.Unmigrated.held (hnone : h.Unmigrated) (key : Option String) :
    h.held key = tally (copyHeld key) h.blobs + tally (uploadHeld key) h.uploads := by
  have hmoved : tally (movedHeld key) h.moved = 0 := tally_eq_zero fun at' row hrow => by
    rw [hnone.2 at'] at hrow
    cases hrow
  have hmigrations : tally (migrationHeld key) h.migrations = 0 := tally_eq_zero fun roomId m hm => by
    rw [hnone.1 roomId] at hm
    cases hm
  rw [Host.held, hmoved, hmigrations, add_zero, add_zero]

theorem Effect.unmigrated (heffect : Effect env allowed h h') (hnone : h.Unmigrated) : h'.Unmigrated := by
  obtain ⟨hmigrations, hmoved⟩ := heffect.steady
  refine ⟨fun roomId => Option.eq_none_iff_forall_ne_some.mpr fun m' hm' => ?_,
    fun key => Option.eq_none_iff_forall_ne_some.mpr fun row hrow => ?_⟩
  · obtain ⟨m, hm, -⟩ := hmigrations roomId m' hm'
    cases (hnone.1 roomId).symm.trans hm
  · cases (hnone.2 key).symm.trans (hmoved key row hrow)

theorem Effects.unmigrated (heffects : Effects env allowed h h') (hnone : h.Unmigrated) : h'.Unmigrated := by
  induction heffects with
  | refl => exact hnone
  | tail _ heffect ih => exact heffect.unmigrated ih

namespace World

variable {w : World} {a : Action}

/-- Nothing is migrated, and the runner has nothing to step. -/
def Unmigrated (w : World) : Prop := w.host.Unmigrated ∧ w.runner = none

theorem unmigrated_step (hw : w.Formed env) (ha : a.isFiles = true) (hfresh : w.rowFresh a = true)
    (hnone : w.Unmigrated) : (w.step env a).Unmigrated := by
  have hcall : World.Unmigrated { w with host := w.host.call env a } :=
    ⟨(call_effects hw.host ha (a.allowed_anything _)).unmigrated hnone.1, hnone.2⟩
  cases a with
  | sweep =>
    unfold World.step
    dsimp only
    split
    · exact ⟨⟨hnone.1.1, hnone.1.2⟩, hnone.2⟩
    · exact hnone
  | sweepNext =>
    have heffects : Effects env anything w.host (w.host.nextRow env w.pass).1 :=
      nextRow_effects sweeps_anything (fresh_of_rowFresh hfresh) (fun now rows hpass => (hw.pass now rows hpass).2)
        fun _ _ _ _ _ => trivial
    exact ⟨heffects.unmigrated hnone.1, hnone.2⟩
  | migrate roomId =>
    unfold World.step
    rw [hnone.2]
    refine ⟨hnone.1, ?_⟩
    dsimp only [beginStep]
    rw [hnone.1.1 roomId]
  | migrateNext =>
    unfold World.step
    rw [hnone.2]
    exact hnone
  | migrateDrop => exact ⟨hnone.1, rfl⟩
  | _ => exact hcall

/-- Blob accounting is exact: along every run of uploads, record writes, releases and collection, from a host that has
served nothing, in which the pass finds lapsed upload rows still open, each room's and each member's usage is the sum of
what is committed and reserved there, and each storage counter the sum of the blobs stored and the uploads open. -/
theorem accounting_exact (env : Env) (now : Nat) (roomOverrides : ExtTreeMap String RoomOverride)
    (memberOverrides : ExtTreeMap (String × String) ScopeLimits) (actions : List Action)
    (hfiles : ∀ a ∈ actions, a.isFiles = true)
    (hfresh : Along (World.step env) (fun w a => w.rowFresh a = true) (World.start now roomOverrides memberOverrides)
      actions) :
    (∀ scope, (reached env now roomOverrides memberOverrides actions).host.usageAt scope =
      (reached env now roomOverrides memberOverrides actions).host.charged scope) ∧
    ∀ key, (reached env now roomOverrides memberOverrides actions).host.counter key =
      tally (copyHeld key) (reached env now roomOverrides memberOverrides actions).host.blobs +
      tally (uploadHeld key) (reached env now roomOverrides memberOverrides actions).host.uploads := by
  have hstart : (World.start now roomOverrides memberOverrides).Unmigrated :=
    ⟨⟨fun _ => rfl, fun _ => rfl⟩, rfl⟩
  have hbooks : (World.start now roomOverrides memberOverrides).host.Booked := by
    refine (booked_empty now).frame ?_ ?_ ?_ ?_ ?_ ?_ ?_ <;> rfl
  have hall := hfresh.and (along_of_forall (P := fun _ a => a.isFiles = true) fun a ha _ => hfiles a ha)
  have hexact := run_induction (I := fun w => w.Formed env ∧ w.Unmigrated ∧ w.host.UsageExact ∧ w.host.Booked)
    ⟨formed_start now roomOverrides memberOverrides, hstart, (usageExact_empty now).frame rfl rfl rfl,
      hbooks⟩ hall ?_
  · obtain ⟨-, hnone, husage, hbooked⟩ := hexact
    refine ⟨husage, fun key => ?_⟩
    rw [hbooked.storage key, hnone.1.held]
  · rintro w a ⟨hw, hnone, husage, hbooked⟩ ⟨hfresh, ha⟩
    have hpurge : ∀ roomId fails, a ≠ .purge roomId fails := by
      rintro roomId fails rfl
      cases ha
    have hplanned : w.switchPlanned a = true := by
      unfold World.switchPlanned
      rw [hnone.2]
      split <;> rfl
    exact ⟨formed_step hw hpurge, unmigrated_step hw ha hfresh hnone, usageExact_step hw hpurge hfresh husage,
      booked_step hw hpurge hfresh hplanned hbooked⟩

/-! ### A reservation released twice -/

/-- The first of two uploads is committed after the pass has read the upload rows, and before it comes to them. -/
def commitDuringSweep : List Action :=
  [beginFile "did:a" "large", beginFile "did:b" "small", .putChunk (.v1 "did:a") 0 0, .sweep, .sweepNext, .sweepNext,
    .commit oneDisk (.v1 "did:a") 0, .sweepNext]

/-- The other upload is open, and nothing is left of its reservation. -/
theorem released_twice :
    ((reached smallHost 0 ∅ ∅ commitDuringSweep).host.usageAt ("library", none)).reservedBytes = 0 ∧
    ((reached smallHost 0 ∅ ∅ commitDuringSweep).host.charged ("library", none)).reservedBytes = 10 := by
  decide +kernel

/-- The same uploads with the pass run to its end before the commit. -/
def commitAfterSweep : List Action :=
  [beginFile "did:a" "large", beginFile "did:b" "small", .putChunk (.v1 "did:a") 0 0, .sweep, .sweepNext, .sweepNext,
    .sweepNext, .sweepNext, .commit oneDisk (.v1 "did:a") 0]

theorem accounting_exact_two_uploads :
    (reached smallHost 0 ∅ ∅ commitAfterSweep).host.usageAt ("library", none) =
      (reached smallHost 0 ∅ ∅ commitAfterSweep).host.charged ("library", none) :=
  (accounting_exact smallHost 0 ∅ ∅ commitAfterSweep (by decide) (by decide +kernel)).1 ("library", none)

/-! ### A blob counted done and not among the total -/

/-- Migration bookkeeping stays consistent: along every run without a purge, from a host that has served nothing, in
which switched blobs are still planned and the pass finds lapsed upload rows still open, an open migration's record adds
up its done rows and its plan rows, it reserves what its plan rows have, and the counters have reserved that and the
open uploads. -/
theorem migration_consistent (env : Env) (now : Nat) (roomOverrides : ExtTreeMap String RoomOverride)
    (memberOverrides : ExtTreeMap (String × String) ScopeLimits) (actions : List Action)
    (hpurge : ∀ a ∈ actions, ∀ roomId fails, a ≠ .purge roomId fails)
    (hplanned : Along (World.step env) (fun w a => w.switchPlanned a = true)
      (World.start now roomOverrides memberOverrides) actions)
    (hfresh : Along (World.step env) (fun w a => w.rowFresh a = true) (World.start now roomOverrides memberOverrides)
      actions) (roomId : String) (m : Migration)
    (hm : (reached env now roomOverrides memberOverrides actions).host.migrations[roomId]? = some m)
    (hopen : m.state.isOpen = true) :
    (m.doneFiles, m.doneBytes) = (reached env now roomOverrides memberOverrides actions).host.doneRows roomId ∧
    m.totalFiles = ((reached env now roomOverrides memberOverrides actions).host.planRows roomId).1 +
      ((reached env now roomOverrides memberOverrides actions).host.doneRows roomId).1 ∧
    m.reservedBytes = ((reached env now roomOverrides memberOverrides actions).host.planRows roomId).2 ∧
    (∀ key, ((reached env now roomOverrides memberOverrides actions).host.counter key).reservedBytes =
      tally (fun id rec => (uploadHeld key id rec).reservedBytes)
        (reached env now roomOverrides memberOverrides actions).host.uploads +
      tally (fun roomId m => (migrationHeld key roomId m).reservedBytes)
        (reached env now roomOverrides memberOverrides actions).host.migrations) ∧
    m.doneFiles ≤ m.totalFiles := by
  have hbooks : (World.start now roomOverrides memberOverrides).host.Booked := by
    refine (booked_empty now).frame ?_ ?_ ?_ ?_ ?_ ?_ ?_ <;> rfl
  obtain ⟨-, -, hbooked⟩ := exact_run (formed_start now roomOverrides memberOverrides)
    ((usageExact_empty now).frame rfl rfl rfl) hbooks hpurge hfresh hplanned
  have hadds := hbooked.planned.adds roomId m hm hopen
  have htotal := congrArg Prod.fst hadds.total
  have hdone := congrArg Prod.fst hadds.done
  rw [Prod.fst_add] at htotal
  exact ⟨hadds.done, htotal, hadds.reserved, hbooked.reserved, by omega⟩

/-- The room's one blob is stored, named by a record, and on its way to another config, its copy verified. -/
def nearSwitch : List Action :=
  [beginFile "did:a" "large", .putChunk (.v1 "did:a") 0 0, .commit oneDisk (.v1 "did:a") 0,
    .writeRecord library none "note" ["large"], .startMigration ⟨"library", "vault", none⟩, .migrate "library"] ++
  List.replicate 9 (.migrateNext ⟨false, 0⟩)

def renamedBeforeSwitch : List Action :=
  nearSwitch ++ [.retract "library" "note", .writeRecord library none "note" ["large"], .migrateNext ⟨false, 0⟩]

theorem done_beyond_total :
    ((reached smallHost 0 ∅ ∅ renamedBeforeSwitch).host.migrations["library"]?.map fun m =>
      (m.state, m.doneFiles, m.totalFiles)) = some (.running, 1, 0) := by
  decide +kernel

def switchedRun : List Action := nearSwitch ++ [.migrateNext ⟨false, 0⟩]

/-- The migration's record once the blob is switched, the library's record left alone. -/
def switchedRecord : Migration := ⟨1, "vault", .running, 1, 20, 1, 20, 0, 0, none, none, 1, 0, none⟩

/-- The same migration with the record left alone. -/
theorem migration_consistent_one_blob :
    (reached smallHost 0 ∅ ∅ switchedRun).host.migrations["library"]? = some switchedRecord ∧
      switchedRecord.doneFiles ≤ switchedRecord.totalFiles := by
  have hpurge : ∀ a ∈ switchedRun, ∀ roomId fails, a ≠ .purge roomId fails := by
    simp [switchedRun, nearSwitch, beginFile]
  have hm : (reached smallHost 0 ∅ ∅ switchedRun).host.migrations["library"]? = some switchedRecord := by
    decide +kernel
  have hall := migration_consistent smallHost 0 ∅ ∅ switchedRun hpurge (by decide +kernel) (by decide +kernel)
    "library" switchedRecord
  exact ⟨hm, (hall hm rfl).2.2.2.2⟩

end World

end TrustInfrastructure.Blobs
