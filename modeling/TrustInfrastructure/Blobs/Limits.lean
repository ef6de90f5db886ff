import TrustInfrastructure.Blobs.Exact
import TrustInfrastructure.Blobs.Refs

/-!
# Limits along a run

Bytes enter a scope in two ways: an upload is begun, which is admitted by all the limits, its own size included, or a
record names an orphan again, which is admitted by the counts and totals. Everything else moves what a scope holds
from one of its parts to the other, or takes it out (`Host.Grows`, with nothing to grow by). That a commit only moves
rests on the counters being exact: what it turns into usage was reserved.

The limit on one file is applied where an upload begins, to the member who uploads. An orphan that another member's
record names again is charged to that member without it, so what can be said of a stored blob is said of the member who
uploaded it (`World.limits_hold`); that the member charged for it would not have been let upload it is
`World.large_file_renamed`.
-/

namespace TrustInfrastructure.Blobs

open Lib Host
open Std (ExtTreeMap)

variable {env : Env} {allowed : Allowed} {h h' h'' : Host}
variable {f : Usage → Usage} {configId : String} {id size : Nat} {rec : UploadRecord} {limits : ScopeLimits}
  {u u' : Usage}

/-! ### What is held in a scope -/

def Usage.heldFiles (u : Usage) : Nat := u.files + u.reservedFiles

def Usage.heldBytes (u : Usage) : Nat := u.bytes + u.reservedBytes

def Usage.held (u : Usage) : Nat × Nat := (u.heldFiles, u.heldBytes)

def StorageUsage.heldBytes (s : StorageUsage) : Nat := s.bytes + s.reservedBytes

/-- A scope's counts and totals are within its limits. -/
def ScopeLimits.Admit (limits : ScopeLimits) (u : Usage) : Prop :=
  (∀ max, limits.maxFiles = some max → u.heldFiles ≤ max) ∧ ∀ max, limits.maxBytes = some max → u.heldBytes ≤ max

namespace Host

def limitsAt (env : Env) (h : Host) (scope : Scope) : ScopeLimits :=
  match scope.2 with
  | none => (h.limitsFor env scope.1 none).room
  | some member => (h.limitsFor env scope.1 (some member)).member

structure Limited (env : Env) (h : Host) : Prop where
  scope : ∀ scope : Scope, (h.limitsAt env scope).Admit (h.usageAt scope)
  capacity : ∀ max, env.limits.storageCapacityBytes = some max → (h.counter none).heldBytes ≤ max

/-- What is charged to a member of a room grows by no more than `charge`, some files of some bytes, the storage by no
more than `stored`, and nothing else grows. -/
structure Grows (h h' : Host) (roomId : String) (chargedTo : Option String) (charge : Nat × Nat) (stored : Nat) :
    Prop where
  roomOverrides : h'.roomOverrides = h.roomOverrides
  memberOverrides : h'.memberOverrides = h.memberOverrides
  scope : ∀ scope, (h'.usageAt scope).held ≤
    (h.usageAt scope).held + if Scope.counts scope roomId chargedTo then charge else 0
  stored : (h'.counter none).heldBytes ≤ (h.counter none).heldBytes + stored

section
variable {roomId : String} {chargedTo : Option String} {charge charge' : Nat × Nat} {files bytes stored stored' : Nat}

theorem Grows.trans (hgrows : h.Grows h' roomId chargedTo charge stored)
    (hgrows' : h'.Grows h'' roomId chargedTo charge' stored') :
    h.Grows h'' roomId chargedTo (charge + charge') (stored + stored') where
  roomOverrides := hgrows'.roomOverrides.trans hgrows.roomOverrides
  memberOverrides := hgrows'.memberOverrides.trans hgrows.memberOverrides
  scope scope := by
    refine (hgrows'.scope scope).trans ((add_le_add_left (hgrows.scope scope) _).trans_eq ?_)
    split <;> simp only [add_assoc, add_zero]
  stored := by
    have hfirst := hgrows.stored
    have hsecond := hgrows'.stored
    omega

theorem Grows.shrinks (hgrows : h.Grows h' roomId chargedTo charge stored)
    (hgrows' : h'.Grows h'' roomId chargedTo 0 0) :
    h.Grows h'' roomId chargedTo charge stored := by
  simpa using hgrows.trans hgrows'

theorem Grows.mono (hgrows : h.Grows h' roomId chargedTo charge stored) (hle : charge ≤ charge') :
    h.Grows h' roomId chargedTo charge' stored where
  roomOverrides := hgrows.roomOverrides
  memberOverrides := hgrows.memberOverrides
  scope scope := by
    refine (hgrows.scope scope).trans (add_le_add_right ?_ _)
    split
    · exact hle
    · exact le_rfl
  stored := hgrows.stored

/-- The overrides and counters of another host that has the same ones. -/
theorem Grows.same (hgrows : h.Grows h' roomId chargedTo charge stored)
    (hrooms : h''.roomOverrides = h'.roomOverrides) (hmembers : h''.memberOverrides = h'.memberOverrides)
    (husage : h''.usage = h'.usage) (hstorage : h''.storage = h'.storage) :
    h.Grows h'' roomId chargedTo charge stored := by
  refine ⟨hrooms.trans hgrows.roomOverrides, hmembers.trans hgrows.memberOverrides, fun scope => ?_, ?_⟩
  · rw [usageAt, husage]
    exact hgrows.scope scope
  · rw [counter, hstorage]
    exact hgrows.stored

theorem Grows.refl : h.Grows h roomId chargedTo 0 0 :=
  ⟨rfl, rfl, fun _ => le_add_of_nonneg_right zero_le, Nat.le_refl _⟩

theorem Grows.frame (hrooms : h'.roomOverrides = h.roomOverrides) (hmembers : h'.memberOverrides = h.memberOverrides)
    (husage : h'.usage = h.usage) (hstorage : h'.storage = h.storage) : h.Grows h' roomId chargedTo 0 0 :=
  Grows.refl.same hrooms hmembers husage hstorage

theorem Quiet.grows (hquiet : h.Quiet h') : h.Grows h' roomId chargedTo 0 0 :=
  .frame hquiet.roomOverrides hquiet.memberOverrides hquiet.usage hquiet.storage

theorem grows_updateUsage (hf : ∀ u, (f u).held ≤ u.held + charge) :
    h.Grows (h.updateUsage roomId chargedTo f) roomId chargedTo charge 0 := by
  refine ⟨rfl, rfl, fun scope => ?_, Nat.le_refl _⟩
  rw [usageAt_updateUsage]
  split
  · exact hf _
  · exact le_rfl

theorem shrinks_updateUsage {room : String} {who : Option String} (hf : ∀ u, (f u).held ≤ u.held) :
    h.Grows (h.updateUsage room who f) roomId chargedTo 0 0 := by
  refine ⟨rfl, rfl, fun scope => ?_, Nat.le_refl _⟩
  rw [usageAt_updateUsage, ite_self]
  split
  · exact hf _
  · exact le_rfl

theorem grows_updateStorage {configId : Option String} {f : StorageUsage → StorageUsage}
    (hf : ∀ s, (f s).heldBytes ≤ s.heldBytes + stored) :
    h.Grows (h.updateStorage configId f) roomId chargedTo 0 stored := by
  refine ⟨rfl, rfl, Grows.refl.scope, ?_⟩
  rw [counter_updateStorage]
  split
  · exact hf _
  · exact Nat.le_add_right _ _

/-! ### What only shrinks -/

theorem grows_letGo (rec : UploadRecord) : h.Grows (h.letGo rec) roomId chargedTo 0 0 := by
  unfold letGo
  split
  · exact .frame rfl rfl rfl rfl
  · refine Grows.shrinks (shrinks_updateUsage fun u => ?_) (grows_updateStorage fun s => ?_)
    · simp only [Usage.held, Usage.heldFiles, Usage.heldBytes, Prod.mk_le_mk]
      omega
    · simp only [StorageUsage.heldBytes]
      omega

theorem grows_credit (room : String) (entry : BlobEntry) :
    h.Grows (h.charge room entry false) roomId chargedTo 0 0 := by
  refine Grows.shrinks (shrinks_updateUsage fun u => ?_) (quiet_recordActivity _ _ _ _).grows
  simp only [Usage.held, Usage.heldFiles, Usage.heldBytes, Prod.mk_le_mk, Bool.false_eq_true, if_false]
  omega

theorem grows_uncountCopy (configId : String) (size : Nat) :
    h.Grows (h.uncountCopy configId size) roomId chargedTo 0 0 := by
  refine grows_updateStorage fun s => ?_
  simp only [StorageUsage.heldBytes]
  omega

theorem grows_unreserve (configId : String) (size : Nat) :
    h.Grows (h.unreserve configId size) roomId chargedTo 0 0 := by
  unfold unreserve
  split
  · exact .frame rfl rfl rfl rfl
  · refine grows_updateStorage fun s => ?_
    simp only [StorageUsage.heldBytes]
    omega

theorem grows_dropFromMigration (room blobRef : String) :
    h.Grows (h.dropFromMigration room blobRef) roomId chargedTo 0 0 := by
  unfold dropFromMigration
  split
  · exact .frame rfl rfl rfl rfl
  · rename_i m hm
    split
    · exact .frame rfl rfl rfl rfl
    · split
      · rename_i size hsize
        exact (grows_unreserve m.toConfig size).same rfl rfl rfl rfl
      · split <;> exact .frame rfl rfl rfl rfl

theorem grows_dereference (room b : String) (entry : BlobEntry) :
    h.Grows (h.dereference room b entry) roomId chargedTo 0 0 := by
  unfold dereference
  split
  · exact ((grows_credit room _).shrinks (grows_dropFromMigration room b)).same rfl rfl rfl rfl
  · exact .frame rfl rfl rfl rfl

theorem grows_collected (room b : String) (entry : BlobEntry) :
    h.Grows (h.collected room b entry) roomId chargedTo 0 0 := by
  have hdeleted : h.Grows (h.deleteObject entry.configId entry.backendRef) roomId chargedTo 0 0 :=
    .frame rfl rfl rfl rfl
  unfold collected
  split
  · refine Grows.same ((hdeleted.shrinks (grows_credit room entry)).shrinks
      (grows_uncountCopy entry.configId entry.size))
      ?_ ?_ ?_ ?_ <;> rfl
  · exact (hdeleted.shrinks (grows_uncountCopy entry.configId entry.size)).same rfl rfl rfl rfl

/-! ### What grows -/

theorem grows_hold (rec : UploadRecord) (hnew : rec.alreadyCommitted = false) :
    h.Grows (h.hold rec) rec.roomId rec.chargedTo (1, rec.size) rec.size := by
  have hreserve : h.Grows (h.reserve rec) rec.roomId rec.chargedTo ((1, rec.size) + 0) (0 + rec.size) := by
    refine Grows.trans (grows_updateUsage fun u => ?_) (grows_updateStorage fun s => ?_)
    · simp only [Usage.held, Usage.heldFiles, Usage.heldBytes, Prod.mk_add_mk, Prod.mk_le_mk]
      omega
    · simp only [StorageUsage.heldBytes]
      omega
  rw [hold, hnew]
  simpa using hreserve

theorem grows_storeBlob (hexact : h.UsageExact) (hstorage : h.StorageExact)
    (hrec : h.uploads[id]? = some rec) (hopen : rec.phase = .opened)
    (hnew : rec.alreadyCommitted = false) (hconfig : rec.configId = some configId) (key : ObjectKey) :
    h.Grows (h.storeBlob id rec configId key) roomId chargedTo 0 0 := by
  have hquiet := quiet_storeBlob (h := h) id rec configId key
  have husage (scope : Scope) : ∃ x, h.usageAt scope = x + reservation scope id rec := by
    refine ⟨tally (blobCharge scope) h.blobs + tally (reservation scope) (h.uploads.erase id), ?_⟩
    have hweight : weightAt (reservation scope) h.uploads id = reservation scope id rec := weightAt_some hrec
    rw [hexact scope, charged, ← hweight, add_assoc, tally_erase]
  have hcounter : ∃ x, h.counter none = x + uploadHeld none id rec := by
    refine ⟨tally (copyHeld none) h.blobs + tally (movedHeld none) h.moved +
      tally (uploadHeld none) (h.uploads.erase id) + tally (migrationHeld none) h.migrations, ?_⟩
    have hweight : weightAt (uploadHeld none) h.uploads id = uploadHeld none id rec := weightAt_some hrec
    rw [hstorage none, held, ← tally_erase (m := h.uploads), hweight]
    abel
  have hconverted : h.Grows (h.convertReservation rec configId) roomId chargedTo 0 0 := by
    refine ⟨rfl, rfl, fun scope => ?_, ?_⟩
    · obtain ⟨x, hx⟩ := husage scope
      rw [usageAt_convertReservation configId hopen hnew hx, hx, reservation_opened hopen hnew, ite_self, add_zero]
      split <;> simp only [Usage.add_def, Usage.held, Usage.heldFiles, Usage.heldBytes, Usage.zero_def,
        Prod.mk_le_mk] <;>
        omega
    · obtain ⟨x, hx⟩ := hcounter
      rw [counter_convertReservation hopen hnew hconfig hx, hx, uploadHeld_opened hopen hnew]
      simp only [covers, Option.isNone_none, Bool.true_or, if_true, StorageUsage.add_def, StorageUsage.heldBytes]
      omega
  exact hconverted.same hquiet.roomOverrides hquiet.memberOverrides hquiet.usage hquiet.storage

def orphansOf (h : Host) (roomId : String) (blobs : List String) : List String :=
  blobs.filter fun b => (h.blob roomId b).any fun entry => entry.state == .orphaned

theorem grows_charge (roomId : String) (entry : BlobEntry) :
    h.Grows (h.charge roomId entry true) roomId entry.chargedTo (1, entry.size) 0 := by
  refine Grows.shrinks (grows_updateUsage fun u => ?_) (quiet_recordActivity _ _ _ _).grows
  simp only [Usage.held, Usage.heldFiles, Usage.heldBytes, Prod.mk_add_mk, Prod.mk_le_mk, if_true]
  omega

/-- The blobs as a charge. -/
def chargeOf (h : Host) (roomId : String) (blobs : List String) : Nat × Nat := (blobs.length, h.sizeOf roomId blobs)

theorem chargeOf_append (roomId : String) (first second : List String) :
    h.chargeOf roomId (first ++ second) = h.chargeOf roomId first + h.chargeOf roomId second := by
  unfold chargeOf sizeOf
  rw [List.length_append, List.map_append, List.sum_append, Prod.mk_add_mk]

theorem grows_adjustRefs_one (roomId b : String) (member : Option String) :
    h.Grows (h.adjustRefs roomId b 1 member) roomId member (h.chargeOf roomId (h.orphansOf roomId [b])) 0 := by
  unfold adjustRefs
  cases hentry : h.blob roomId b with
  | none => exact Grows.refl.mono zero_le
  | some entry =>
    dsimp only
    rw [if_pos Int.one_pos, reference]
    split
    · rename_i horphan
      have hone : h.orphansOf roomId [b] = [b] := by
        unfold orphansOf
        rw [List.filter_cons_of_pos]
        · rfl
        · rw [hentry]
          simpa using horphan
      have hsize : h.sizeOf roomId [b] = entry.size := by
        unfold sizeOf
        rw [List.map_cons, hentry]
        rfl
      rw [hone, chargeOf, hsize]
      refine Grows.same (grows_charge roomId { entry with
        refs := entry.refs + 1, state := .committed, orphanedAt := none, chargedTo := member }) ?_ ?_ ?_ ?_ <;> rfl
    · exact Grows.mono (.frame rfl rfl rfl rfl) zero_le

/-- Referencing a blob leaves sizes alone and makes no orphan. -/
theorem orphansOf_adjustRefs_one (roomId b : String) (member : Option String) (blobs : List String) :
    ((h.adjustRefs roomId b 1 member).orphansOf roomId blobs).Sublist (h.orphansOf roomId blobs) := by
  refine List.monotone_filter_right blobs fun ref => ?_
  unfold blob
  rw [getElem?_adjustRefs]
  split
  · cases h.blobs[(roomId, ref)]? with
    | none => exact id
    | some => simp [BlobEntry.state_adjusted_one]
  · exact id

theorem sizeOf_adjustRefs (roomId b : String) (delta : Int) (member : Option String) (blobs : List String) :
    (h.adjustRefs roomId b delta member).sizeOf roomId blobs = h.sizeOf roomId blobs := by
  unfold sizeOf blob
  congr 1
  refine List.map_congr_left fun ref _ => ?_
  rw [getElem?_adjustRefs]
  split
  · cases h.blobs[(roomId, ref)]? with
    | none => rfl
    | some =>
      simp only [Option.map_some, Option.elim_some, BlobEntry.adjusted]
      repeat' split
      all_goals rfl
  · rfl

theorem grows_gained (roomId : String) (member : Option String) : ∀ (blobs : List String) (h : Host),
    h.Grows (blobs.foldl (fun h b => h.adjustRefs roomId b 1 member) h) roomId member
      (h.chargeOf roomId (h.orphansOf roomId blobs)) 0
  | [], h => Grows.refl
  | b :: blobs, h => by
    have hsplit : h.orphansOf roomId (b :: blobs) = h.orphansOf roomId [b] ++ h.orphansOf roomId blobs := by
      unfold orphansOf
      rw [← List.filter_append]
      rfl
    have hsub := orphansOf_adjustRefs_one (h := h) roomId b member blobs
    have hcharge : (h.adjustRefs roomId b 1 member).chargeOf roomId
      ((h.adjustRefs roomId b 1 member).orphansOf roomId blobs) ≤
        h.chargeOf roomId (h.orphansOf roomId blobs) := by
      unfold chargeOf
      rw [sizeOf_adjustRefs]
      exact ⟨hsub.length_le, (hsub.map _).sum_le_sum fun _ _ => Nat.zero_le _⟩
    rw [hsplit, chargeOf_append]
    exact (grows_adjustRefs_one roomId b member).trans ((grows_gained roomId member blobs _).mono hcharge)

theorem grows_dropped (room : String) (member : Option String) : ∀ (blobs : List String) (h : Host),
    h.Grows (blobs.foldl (fun h b => h.adjustRefs room b (-1) member) h) roomId chargedTo 0 0
  | [], h => .frame rfl rfl rfl rfl
  | b :: blobs, h => by
    have hone : h.Grows (h.adjustRefs room b (-1) member) roomId chargedTo 0 0 := by
      unfold adjustRefs
      split
      · exact .frame rfl rfl rfl rfl
      · rw [if_neg (by decide)]
        exact grows_dereference room b _
    exact hone.shrinks (grows_dropped room member blobs _)

/-- A record write charges no more than the orphans it names again. -/
theorem grows_applyRefs (roomId recordKey : String) (previous blobs : List String) (member : Option String) :
    h.Grows (h.applyRefs roomId recordKey previous blobs member) roomId member
      (h.chargeOf roomId (h.recharged roomId previous blobs)) 0 := by
  unfold applyRefs
  split
  · exact Grows.refl.mono zero_le
  · have hgained := grows_gained roomId member (blobs.filter fun b => !previous.contains b) h
    have horphans : h.orphansOf roomId (blobs.filter fun b => !previous.contains b) =
        h.recharged roomId previous blobs := List.filter_filter
    rw [horphans] at hgained
    exact (hgained.shrinks (grows_dropped roomId member _ _)).same rfl rfl rfl rfl

/-! ### What the checks admit -/

theorem admit_of_fits {scope : LimitScope}
    (hfits : fits scope limits u files bytes = .ok ()) (hheld : u'.held ≤ u.held + (files, bytes)) :
    limits.Admit u' := by
  have hfiles : u'.heldFiles ≤ u.heldFiles + files := hheld.1
  have hbytes : u'.heldBytes ≤ u.heldBytes + bytes := hheld.2
  unfold fits at hfits
  dsimp only at hfits
  split at hfits
  · cases hfits
  · rename_i hmaxFiles
    split at hfits
    · cases hfits
    · rename_i hmaxBytes
      refine ⟨fun max hmax => ?_, fun max hmax => ?_⟩
      · rw [hmax] at hmaxFiles
        have hle : u.heldFiles + files ≤ max := by simpa [Usage.heldFiles] using hmaxFiles
        omega
      · rw [hmax] at hmaxBytes
        have hle : u.heldBytes + bytes ≤ max := by simpa [Usage.heldBytes] using hmaxBytes
        omega

theorem Admit.of_le (hlets : limits.Admit u) (hheld : u'.held ≤ u.held) : limits.Admit u' :=
  ⟨fun max hmax => hheld.1.trans (hlets.1 max hmax), fun max hmax => hheld.2.trans (hlets.2 max hmax)⟩

theorem le_of_fitsCapacity {capacity : Option Nat} {s : StorageUsage} (hfits : fitsCapacity capacity s bytes = .ok ())
    {max : Nat} (hmax : capacity = some max) : s.heldBytes + bytes ≤ max := by
  unfold fitsCapacity at hfits
  dsimp only at hfits
  split at hfits
  · cases hfits
  · rename_i hfull
    rw [hmax] at hfull
    simpa [StorageUsage.heldBytes] using hfull

theorem checkTotals_ok {storage : Bool} {limits : Applied}
    (hok : h.checkTotals env roomId chargedTo files bytes storage limits = .ok ()) :
    (∀ m, chargedTo = some m → fits .member limits.member (h.memberUsage roomId m) files bytes = .ok ()) ∧
      fits .room limits.room (h.roomUsage roomId) files bytes = .ok () ∧
      (storage = true → fitsCapacity env.limits.storageCapacityBytes (h.counter none) bytes = .ok ()) := by
  cases chargedTo with
  | none =>
    obtain ⟨_, hroom, hstorage⟩ := bind_eq_ok.mp hok
    exact ⟨fun m hm => (nomatch hm), hroom, fun hcheck => by rwa [if_pos hcheck] at hstorage⟩
  | some =>
    obtain ⟨_, hmember, hok⟩ := bind_eq_ok.mp hok
    obtain ⟨_, hroom, hstorage⟩ := bind_eq_ok.mp hok
    refine ⟨fun m' hm => ?_, hroom, fun hcheck => by rwa [if_pos hcheck] at hstorage⟩
    cases hm
    exact hmember

def fileLimits (env : Env) (h : Host) (roomId : String) (member : Option String) : List Nat :=
  (member.bind fun _ => (h.limitsFor env roomId member).member.maxFileBytes).toList ++
    (h.limitsFor env roomId member).room.maxFileBytes.toList ++ [env.limits.maxFileBytes]

theorem exists_smallestFileLimit (env : Env) (h : Host) (roomId : String) (member : Option String) :
    ∃ scope least, smallestFileLimit env member (h.limitsFor env roomId member) = some (scope, least) ∧
      ∀ limit ∈ h.fileLimits env roomId member, least ≤ limit := by
  unfold smallestFileLimit fileLimits
  generalize (member.bind fun _ => (h.limitsFor env roomId member).member.maxFileBytes) = own
  generalize (h.limitsFor env roomId member).room.maxFileBytes = room
  cases own <;> cases room <;>
    simp only [List.foldl_cons, List.foldl_nil, Option.all_none, Option.all_some, if_true, decide_eq_true_eq]
  case none.none => exact ⟨_, _, rfl, by simp⟩
  case some.some =>
    split <;> simp only [Option.all_some, decide_eq_true_eq] <;> split <;> refine ⟨_, _, rfl, ?_⟩ <;> simp <;> omega
  all_goals split <;> refine ⟨_, _, rfl, ?_⟩ <;> simp <;> omega

theorem checkLimits_ok {target : UploadTarget}
    (hok : h.checkLimits env roomId chargedTo size target (h.limitsFor env roomId chargedTo) = .ok ()) :
    (∀ limit ∈ h.fileLimits env roomId chargedTo, size ≤ limit) ∧
      h.checkTotals env roomId chargedTo 1 size true (h.limitsFor env roomId chargedTo) = .ok () := by
  obtain ⟨scope, least, hleast, hle⟩ := exists_smallestFileLimit env h roomId chargedTo
  unfold checkLimits at hok
  rw [hleast] at hok
  dsimp only at hok
  split at hok
  · obtain ⟨_, herror, -⟩ := bind_eq_ok.mp hok
    cases herror
  · rename_i hsize
    obtain ⟨_, htotals, -⟩ := bind_eq_ok.mp hok
    exact ⟨fun limit hlimit => (Nat.not_lt.mp hsize).trans (hle limit hlimit), htotals⟩

theorem Limited.grows (hlimited : h.Limited env) (hgrows : h.Grows h' roomId chargedTo charge stored)
    (hscope : charge = 0 ∨ ∃ storage,
      h.checkTotals env roomId chargedTo charge.1 charge.2 storage (h.limitsFor env roomId chargedTo) = .ok ())
    (hcapacity : stored = 0 ∨ fitsCapacity env.limits.storageCapacityBytes (h.counter none) stored = .ok ()) :
    h'.Limited env := by
  refine ⟨fun scope => ?_, fun max hmax => ?_⟩
  · have hlimits : h'.limitsAt env scope = h.limitsAt env scope := by
      unfold limitsAt limitsFor
      rw [hgrows.roomOverrides, hgrows.memberOverrides]
    have hheld := hgrows.scope scope
    rw [hlimits]
    by_cases hcounts : Scope.counts scope roomId chargedTo = true
    · rw [if_pos hcounts] at hheld
      rcases hscope with rfl | ⟨storage, hok⟩
      · exact Admit.of_le (hlimited.scope scope) hheld
      · obtain ⟨hmember, hroom, -⟩ := checkTotals_ok hok
        obtain ⟨room, who⟩ := scope
        rw [← mem_scopes, scopes, List.mem_cons, List.mem_map] at hcounts
        rcases hcounts with hhere | ⟨m, hm, hhere⟩
        · cases hhere
          exact admit_of_fits hroom hheld
        · cases hhere
          obtain rfl : chargedTo = some m := Option.mem_toList.mp hm
          exact admit_of_fits (hmember m rfl) hheld
    · rw [if_neg hcounts] at hheld
      exact Admit.of_le (hlimited.scope scope) hheld
  · have hstored := hgrows.stored
    rcases hcapacity with rfl | hfits
    · have hbefore := hlimited.capacity max hmax
      omega
    · have hafter := le_of_fitsCapacity hfits hmax
      omega

theorem Limited.shrinks (hlimited : h.Limited env) (hgrows : h.Grows h' "" none 0 0) : h'.Limited env :=
  hlimited.grows hgrows (.inl rfl) (.inl rfl)

end

end Host

/-! ### Effects stay within the limits -/

theorem Effect.staysLimited (heffect : Effect env allowed h h') (hfixed : ¬ allowed.limits) (hexact : h.UsageExact)
    (hstorage : h.StorageExact) (hlimited : h.Limited env) : h'.Limited env := by
  cases heffect with
  | quiet hquiet => exact hlimited.shrinks hquiet.grows
  | limited _ _ hlimits => exact absurd hlimits hfixed
  | opened rec _ _ _ hfits =>
    cases hnew : rec.alreadyCommitted with
    | true =>
      refine hlimited.shrinks ?_
      rw [hold, hnew]
      exact .frame rfl rfl rfl rfl
    | false =>
      obtain ⟨target, hok⟩ := hfits hnew
      have htotals := (checkLimits_ok hok).2
      refine hlimited.grows ((grows_hold rec hnew).same rfl rfl rfl rfl) (.inr ⟨true, htotals⟩) (.inr ?_)
      exact (checkTotals_ok htotals).2.2 rfl
  | rebound | reclaimed | duplicated | forgotten | dropped | kept => exact hlimited.shrinks (.frame rfl rfl rfl rfl)
  | closed _ rec =>
    exact hlimited.shrinks ((grows_letGo rec).same rfl rfl rfl rfl)
  | stored _ rec configId key hrec hopen hnew _ hconfig =>
    have hput : (h.putObject configId key rec.blobRef).UsageExact := hexact.frame rfl rfl rfl
    have hput' : (h.putObject configId key rec.blobRef).StorageExact := hstorage.frame rfl rfl rfl rfl rfl
    have hself : h.Grows (h.putObject configId key rec.blobRef) "" none 0 0 := .frame rfl rfl rfl rfl
    exact hlimited.shrinks (hself.shrinks (grows_storeBlob hput hput' hrec hopen hnew hconfig key))
  | wrote roomId recordKey blobs member _ _ hfits =>
    refine hlimited.grows (grows_applyRefs roomId recordKey _ blobs member) ?_ (.inl rfl)
    rcases hfits with hnone | hok
    · rw [hnone]
      exact .inl rfl
    · exact .inr ⟨false, hok⟩
  | collected roomId blobRef =>
    rcases collectBlob_cases (h := h) roomId blobRef with heq | ⟨entry, -, -, heq⟩
    · rwa [heq]
    · rw [heq]
      exact hlimited.shrinks ((grows_collected roomId blobRef entry).shrinks (grows_dropFromMigration roomId blobRef))
  | uncounted => exact hlimited.shrinks ((grows_uncountCopy _ _).same rfl rfl rfl rfl)

/-! ### The size of one file -/

namespace Host

theorem fileLimits_congr (hrooms : h'.roomOverrides = h.roomOverrides)
    (hmembers : h'.memberOverrides = h.memberOverrides)
    (roomId : String) (member : Option String) : h'.fileLimits env roomId member = h.fileLimits env roomId member := by
  unfold fileLimits limitsFor
  rw [hrooms, hmembers]

/-- What a change adds: an upload that was not there has been opened, within the limits on one file, and a blob that was
not there has been stored by an upload. -/
structure Adds (env : Env) (allowed : Allowed) (h h' : Host) : Prop where
  roomOverrides : h'.roomOverrides = h.roomOverrides
  memberOverrides : h'.memberOverrides = h.memberOverrides
  uploads : ∀ (id : Nat) (rec' : UploadRecord), h'.uploads[id]? = some rec' → rec'.alreadyCommitted = false →
    (∃ rec, h.uploads[id]? = some rec ∧ rec.Same rec') ∨
      allowed.opens id rec'.roomId rec'.blobRef rec'.chargedTo ∧
        ∀ limit ∈ h.fileLimits env rec'.roomId rec'.chargedTo, rec'.size ≤ limit
  blobs : ∀ key : String × String, h'.blobs[key]?.isSome → h.blobs[key]?.isSome ∨
    ∃ id rec, allowed.stores id rec ∧ rec.alreadyCommitted = false ∧ (rec.roomId, rec.blobRef) = key

theorem Adds.trans (hadds : h.Adds env allowed h') (hadds' : h'.Adds env allowed h'') : h.Adds env allowed h'' where
  roomOverrides := hadds'.roomOverrides.trans hadds.roomOverrides
  memberOverrides := hadds'.memberOverrides.trans hadds.memberOverrides
  uploads id rec'' hrec'' hnew := by
    rcases hadds'.uploads id rec'' hrec'' hnew with ⟨rec', hrec', hsame'⟩ | hopened
    · rcases hadds.uploads id rec' hrec' (hsame'.alreadyCommitted ▸ hnew) with ⟨rec, hrec, hsame⟩ | hopened
      · exact .inl ⟨rec, hrec, hsame.trans hsame'⟩
      · rw [hsame'.roomId, hsame'.blobRef, hsame'.chargedTo, hsame'.size]
        exact .inr hopened
    · rw [fileLimits_congr hadds.roomOverrides hadds.memberOverrides] at hopened
      exact .inr hopened
  blobs key hsome := (hadds'.blobs key hsome).elim (hadds.blobs key) .inr

section
variable (hrooms : h'.roomOverrides = h.roomOverrides) (hmembers : h'.memberOverrides = h.memberOverrides)
include hrooms hmembers

theorem Adds.sub (huploads : ∀ (id : Nat) (rec' : UploadRecord), h'.uploads[id]? = some rec' →
      ∃ rec : UploadRecord, h.uploads[id]? = some rec ∧ rec.Same rec')
    (hblobs : ∀ key : String × String, h'.blobs[key]?.isSome → h.blobs[key]?.isSome) : h.Adds env allowed h' :=
  ⟨hrooms, hmembers, fun id rec' hrec' _ => .inl (huploads id rec' hrec'), fun key hsome => .inl (hblobs key hsome)⟩

theorem Adds.frame (huploads : h'.uploads = h.uploads) (hblobs : h'.blobs = h.blobs) : h.Adds env allowed h' :=
  .sub hrooms hmembers (fun _ rec hrec => ⟨rec, huploads ▸ hrec, .refl rec⟩) fun _ hsome => hblobs ▸ hsome

theorem Adds.putUpload {rec' : UploadRecord} (hrec : h.uploads[id]? = some rec) (hsame : rec.Same rec')
    (huploads : h'.uploads = h.uploads.insert id rec') (hblobs : h'.blobs = h.blobs) : h.Adds env allowed h' := by
  refine .sub hrooms hmembers (fun id' found hfound => ?_) fun _ hsome => hblobs ▸ hsome
  rcases insert_cases (huploads ▸ hfound) with ⟨rfl, rfl⟩ | ⟨-, hfound⟩
  · exact ⟨rec, hrec, hsame⟩
  · exact ⟨found, hfound, .refl found⟩

end

theorem Touches.adds (ht : h.Touches h') : h.Adds env allowed h' := by
  refine .sub ht.roomOverrides ht.memberOverrides (fun _ rec hrec => ⟨rec, ?_, .refl rec⟩) fun key hsome => ?_
  · rwa [ht.uploads] at hrec
  · obtain ⟨entry', hentry'⟩ := Option.isSome_iff_exists.mp hsome
    have hrel := ht.blobs key
    rw [hentry'] at hrel
    obtain ⟨entry, hentry, -⟩ := rel_some hrel
    rw [hentry]
    rfl

theorem Quiet.adds (hquiet : h.Quiet h') : h.Adds env allowed h' :=
  .frame hquiet.roomOverrides hquiet.memberOverrides hquiet.uploads hquiet.blobs

end Host

theorem Effect.adds (heffect : Effect env allowed h h') (hfixed : ¬ allowed.limits) : h.Adds env allowed h' := by
  cases heffect with
  | quiet hquiet => exact hquiet.adds
  | limited _ _ hlimits => exact absurd hlimits hfixed
  | opened rec _ _ hopens hfits =>
    rw [hold_eq]
    refine ⟨rfl, rfl, fun id' found hfound hnew => ?_, fun _ hsome => .inl hsome⟩
    change (h.uploads.insert h.nextId rec)[id']? = some found at hfound
    rcases insert_cases hfound with ⟨rfl, rfl⟩ | ⟨-, hfound⟩
    · obtain ⟨target, hok⟩ := hfits hnew
      exact .inr ⟨hopens, (checkLimits_ok hok).1⟩
    · exact .inl ⟨found, hfound, .refl found⟩
  | rebound _ _ _ hrec hsame => exact .putUpload rfl rfl hrec hsame rfl rfl
  | closed _ _ _ hrec _ hsame =>
    rw [letGo_eq]
    exact .putUpload rfl rfl hrec hsame rfl rfl
  | reclaimed | duplicated | dropped | uncounted | kept => exact .frame rfl rfl rfl rfl
  | stored id rec configId key hrec _ hnew _ _ _ hstores =>
    obtain ⟨usage, storage, hquiet⟩ := quiet_stored (h := h) id rec configId key
    refine Adds.trans ?_ hquiet.adds
    refine ⟨rfl, rfl, fun id' found hfound _ => .inl ?_, fun key' hsome => ?_⟩
    · rcases insert_cases hfound with ⟨rfl, rfl⟩ | ⟨-, hfound⟩
      · exact ⟨rec, hrec, same_with_end rec _ _⟩
      · exact ⟨found, hfound, .refl found⟩
    · dsimp only at hsome
      rw [getElem?_insert_eq] at hsome
      split at hsome
      · rename_i hkey
        exact .inr ⟨id, rec, hstores, hnew, hkey⟩
      · exact .inl hsome
  | forgotten =>
    exact .sub rfl rfl (fun _ found hfound => ⟨found, erase_sub hfound, .refl found⟩) fun _ hsome => hsome
  | wrote roomId recordKey blobs member => exact (touches_applyRefs roomId recordKey _ blobs member).adds
  | collected roomId blobRef =>
    rcases collectBlob_cases (h := h) roomId blobRef with heq | ⟨entry, -, -, heq⟩
    · rw [heq]
      exact .frame rfl rfl rfl rfl
    · obtain ⟨usage, storage, hquiet⟩ := quiet_collected (h := h) roomId blobRef entry
      rw [heq]
      refine Adds.trans (Adds.trans ?_ hquiet.adds) (touches_dropFromMigration roomId blobRef).adds
      refine .sub rfl rfl (fun _ rec hrec => ⟨rec, hrec, .refl rec⟩) fun key hsome => ?_
      obtain ⟨row, hrow⟩ := Option.isSome_iff_exists.mp hsome
      rw [erase_sub hrow]
      rfl

/-! ### Runs -/

def Action.isUse : Action → Bool
  | .wait _ | .beginUpload _ _ | .putChunk _ _ _ | .commit _ _ _ | .abort _ _ | .writeRecord _ _ _ _ | .retract _ _
  | .prune _ _ | .openDownload _ _ _ _ _ => true
  | _ => false

/-- What one action of a run under fixed limits does: a begin opens an upload under the next identifier, and a commit
stores the upload it names. -/
def Allowed.uses (h : Host) (a : Action) : Allowed where
  opens id roomId blobRef member := id = h.nextId ∧ ∃ req stores, a = .beginUpload req stores ∧
    req.room.roomId = roomId ∧
    req.blobRef = blobRef ∧ req.chargedTo = member
  stores id rec := h.uploads[id]? = some rec ∧ ∃ stores caller, a = .commit stores caller id
  limits := False

theorem Effects.within (heffects : Effects env allowed h h') (hfixed : ¬ allowed.limits) (hformed : h.Formed env)
    (hexact : h.UsageExact) (hbooked : h.Booked) (hlimited : h.Limited env) :
    h'.Limited env ∧ h.Adds env allowed h' := by
  induction heffects with
  | refl => exact ⟨hlimited, .frame rfl rfl rfl rfl⟩
  | tail hbefore heffect ih =>
    have hexact' := Effects.usageExact hbefore hformed hexact
    have hbooked' := Effects.booked hbefore hformed hbooked
    exact ⟨heffect.staysLimited hfixed hexact' hbooked'.storage ih.1, ih.2.trans (heffect.adds hfixed)⟩

namespace World

variable {w start : World} {a : Action} {actions : List Action} {req : BeginRequest}

/-- The books are in order, and the limits hold. -/
structure Within (env : Env) (w : World) : Prop where
  formed : w.Formed env
  usage : w.host.UsageExact
  booked : w.host.Booked
  limited : w.host.Limited env

theorem within_step (ha : a.isUse = true) (hwithin : w.Within env) :
    (w.step env a).Within env ∧ w.host.Adds env (.uses w.host a) (w.step env a).host := by
  have hfiles : a.isFiles = true := by cases a <;> first | rfl | cases ha
  have hpurge : ∀ roomId fails, a ≠ .purge roomId fails := by
    rintro roomId fails rfl
    cases ha
  have hallowed : a.IsAllowed (.uses w.host a) w.host := by
    cases a with
    | beginUpload req stores => exact ⟨rfl, req, stores, rfl, rfl, rfl, rfl⟩
    | commit stores caller id => exact fun rec hrec => ⟨hrec, stores, caller, rfl⟩
    | setLimits => cases ha
    | _ => trivial
  have hhost : (w.step env a).host = w.host.call env a := by cases a <;> first | rfl | cases ha
  have heffects := call_effects hwithin.formed.host hfiles hallowed
  rw [← hhost] at heffects
  obtain ⟨hlimited, hadds⟩ :=
    heffects.within id hwithin.formed.host hwithin.usage hwithin.booked hwithin.limited
  exact ⟨⟨formed_step hwithin.formed hpurge, heffects.usageExact hwithin.formed.host hwithin.usage,
    heffects.booked hwithin.formed.host hwithin.booked, hlimited⟩, hadds⟩

/-- A begin of the run opened the upload, under the identifier that was the next one then. -/
def Opened (env : Env) (start : World) (actions : List Action) (id : Nat) (req : BeginRequest) : Prop :=
  ∃ early stores late, actions = early ++ .beginUpload req stores :: late ∧
    id = (run (World.step env) start early).host.nextId ∧
    (run (World.step env) start (early ++ [.beginUpload req stores])).host.uploads[id]?.isSome

theorem Opened.concat (hopened : Opened env start actions id req) (a : Action) :
    Opened env start (actions ++ [a]) id req := by
  obtain ⟨early, stores, late, rfl, hid⟩ := hopened
  exact ⟨early, stores, late ++ [a], by simp, hid⟩

/-- A commit of the run made the blob's row, for the upload that a begin of `req` before it had opened. -/
def StoredFor (env : Env) (start : World) (actions : List Action) (roomId blobRef : String) (req : BeginRequest) :
    Prop :=
  ∃ early stores caller id late, actions = early ++ .commit stores caller id :: late ∧ Opened env start early id req ∧
    req.room.roomId = roomId ∧ req.blobRef = blobRef ∧
    (run (World.step env) start early).host.blob roomId blobRef = none ∧
    ((run (World.step env) start (early ++ [.commit stores caller id])).host.blob roomId blobRef).isSome

theorem StoredFor.concat {roomId blobRef : String} (hstored : StoredFor env start actions roomId blobRef req)
    (a : Action) : StoredFor env start (actions ++ [a]) roomId blobRef req := by
  obtain ⟨early, stores, caller, id, late, rfl, hfor⟩ := hstored
  exact ⟨early, stores, caller, id, late ++ [a], by simp, hfor⟩

/-- Every upload of new bytes was opened by a begin of the run, every blob was stored for one, and the limits on one
file that held for the member who began it are those the run started with. -/
structure Traced (env : Env) (start : World) (actions : List Action) : Prop where
  roomOverrides : (run (World.step env) start actions).host.roomOverrides = start.host.roomOverrides
  memberOverrides : (run (World.step env) start actions).host.memberOverrides = start.host.memberOverrides
  uploads : ∀ (id : Nat) (rec : UploadRecord), (run (World.step env) start actions).host.uploads[id]? = some rec →
    rec.alreadyCommitted = false → ∃ req, Opened env start actions id req ∧ req.room.roomId = rec.roomId ∧
      req.blobRef = rec.blobRef ∧ ∀ limit ∈ start.host.fileLimits env rec.roomId req.chargedTo, rec.size ≤ limit
  blobs : ∀ (roomId blobRef : String) (entry : BlobEntry),
    (run (World.step env) start actions).host.blob roomId blobRef = some entry →
    ∃ req, StoredFor env start actions roomId blobRef req ∧
      ∀ limit ∈ start.host.fileLimits env roomId req.chargedTo, entry.size ≤ limit

theorem Traced.concat (htraced : Traced env start actions)
    (hformed : (run (World.step env) start actions).Formed env)
    (hformed' : ((run (World.step env) start actions).step env a).Formed env)
    (hadds : (run (World.step env) start actions).host.Adds env (.uses (run (World.step env) start actions).host a)
      ((run (World.step env) start actions).step env a).host) : Traced env start (actions ++ [a]) := by
  refine ⟨?_, ?_, fun id rec' hrec' hnew => ?_, fun roomId blobRef entry' hentry' => ?_⟩ <;> rw [run_concat] at *
  · exact hadds.roomOverrides.trans htraced.roomOverrides
  · exact hadds.memberOverrides.trans htraced.memberOverrides
  · rcases hadds.uploads id rec' hrec' hnew with ⟨rec, hrec, hsame⟩ |
      ⟨⟨rfl, req, stores, rfl, hroom, href, hmember⟩, hlimits⟩
    · obtain ⟨req, hopened, hrest⟩ := htraced.uploads id rec hrec (hsame.alreadyCommitted ▸ hnew)
      rw [hsame.roomId, hsame.blobRef, hsame.size]
      exact ⟨req, hopened.concat a, hrest⟩
    · rw [fileLimits_congr htraced.roomOverrides htraced.memberOverrides, ← hmember] at hlimits
      refine ⟨req, ⟨actions, stores, [], rfl, rfl, ?_⟩, hroom, href, hlimits⟩
      rw [run_concat, hrec']
      rfl
  · have hsize := (hformed'.host.blobs (roomId, blobRef) entry' hentry').1
    cases hbefore : (run (World.step env) start actions).host.blob roomId blobRef with
    | some entry =>
      obtain ⟨req, hstored, hlimits⟩ := htraced.blobs roomId blobRef entry hbefore
      rw [hsize, ← (hformed.host.blobs (roomId, blobRef) entry hbefore).1]
      exact ⟨req, hstored.concat a, hlimits⟩
    | none =>
      have hsome : (((run (World.step env) start actions).step env a).host.blob roomId blobRef).isSome := by
        rw [hentry']
        rfl
      rcases hadds.blobs (roomId, blobRef) hsome with hold | ⟨id, rec, ⟨hrec, stores, caller, rfl⟩, hnew, hkey⟩
      · rw [show (run (World.step env) start actions).host.blobs[(roomId, blobRef)]? = none from hbefore] at hold
        cases hold
      · cases hkey
        obtain ⟨req, hopened, hroom, href, hlimits⟩ := htraced.uploads id rec hrec hnew
        refine ⟨req, ⟨actions, stores, caller, id, [], rfl, hopened, hroom, href, hbefore, ?_⟩, ?_⟩
        · rwa [run_concat]
        · rwa [hsize, ← (hformed.host.uploads id rec hrec).1.size]

theorem within_run (hstart : start.Within env) (htraced : Traced env start []) (huse : ∀ a ∈ actions, a.isUse = true) :
    (run (World.step env) start actions).Within env ∧ Traced env start actions := by
  induction actions using List.reverseRecOn with
  | nil => exact ⟨hstart, htraced⟩
  | append_singleton actions a ih =>
    obtain ⟨hwithin, htraced⟩ := ih fun b hb => huse b (List.mem_append_left _ hb)
    obtain ⟨hwithin', hadds⟩ := within_step (huse a (List.mem_append_right _ List.mem_cons_self)) hwithin
    refine ⟨?_, htraced.concat hwithin.formed hwithin'.formed hadds⟩
    rwa [run_concat]

/-- Limits are never exceeded. Along every run of uploads, record writes and releases under the limits the host started
with, each room and each member holds no more files and bytes than their limits allow, what is reserved included, the
storage no more than its capacity, and no blob is larger than the member could upload who began the upload that a commit
of the run stored it for. -/
theorem limits_hold (env : Env) (now : Nat) (roomOverrides : ExtTreeMap String RoomOverride)
    (memberOverrides : ExtTreeMap (String × String) ScopeLimits) (actions : List Action)
    (huse : ∀ a ∈ actions, a.isUse = true) (h : Host)
    (hrun : h = (reached env now roomOverrides memberOverrides actions).host) :
    (∀ roomId, (h.limitsFor env roomId none).room.Admit (h.roomUsage roomId)) ∧
    (∀ roomId member, (h.limitsFor env roomId (some member)).member.Admit (h.memberUsage roomId member)) ∧
    (∀ max, env.limits.storageCapacityBytes = some max → (h.counter none).heldBytes ≤ max) ∧
    ∀ roomId blobRef entry, h.blob roomId blobRef = some entry →
      ∃ req, StoredFor env (World.start now roomOverrides memberOverrides) actions roomId blobRef req ∧
        ∀ limit ∈ h.fileLimits env roomId req.chargedTo, entry.size ≤ limit := by
  have hlimited : (World.start now roomOverrides memberOverrides).host.Limited env := by
    refine ⟨fun scope => ⟨fun max _ => ?_, fun max _ => ?_⟩, fun max _ => ?_⟩ <;> exact Nat.zero_le max
  have hbooked : (World.start now roomOverrides memberOverrides).host.Booked := by
    refine (booked_empty now).frame ?_ ?_ ?_ ?_ ?_ ?_ ?_ <;> rfl
  have hstart : (World.start now roomOverrides memberOverrides).Within env :=
    ⟨formed_start now roomOverrides memberOverrides, (usageExact_empty now).frame rfl rfl rfl, hbooked, hlimited⟩
  have htraced : Traced env (World.start now roomOverrides memberOverrides) [] := by
    refine ⟨rfl, rfl, fun id rec hrec => ?_, fun roomId blobRef entry hentry => ?_⟩
    · simp [World.start, Host.empty] at hrec
    · simp [World.start, Host.empty, Host.blob] at hentry
  obtain ⟨hwithin, htraced⟩ := within_run hstart htraced huse
  unfold reached at hrun
  subst hrun
  refine ⟨fun roomId => hwithin.limited.scope (roomId, none),
    fun roomId member => hwithin.limited.scope (roomId, some member),
    hwithin.limited.capacity, fun roomId blobRef entry hentry => ?_⟩
  obtain ⟨req, hstored, hlimits⟩ := htraced.blobs roomId blobRef entry hentry
  rw [← fileLimits_congr htraced.roomOverrides htraced.memberOverrides] at hlimits
  exact ⟨req, hstored, hlimits⟩

def beginAs (member blobRef : String) : Action :=
  .beginUpload ⟨library, member, some member, none, blobRef, none⟩ oneDisk

/-- A host with a limit on everything: 4 files, of 30 bytes and 60 in all, for a room, 2 files, of 25 bytes and 40 in
all, for a member, and a storage of 100 bytes. -/
def boundedHost : Env :=
  { smallHost with limits := ⟨true, ⟨some 4, some 30, some 60⟩, ⟨some 2, some 25, some 40⟩, 1000, some 100, 3600⟩ }

/-- A member who may have files of 10 bytes and no larger. -/
def smallFiles : ExtTreeMap (String × String) ScopeLimits :=
  (∅ : ExtTreeMap (String × String) ScopeLimits).insert ("library", "did:b") ⟨none, some 10, none⟩

def largeFileReleased : List Action :=
  [beginAs "did:a" "large", .putChunk (.v1 "did:a") 0 0, .commit oneDisk (.v1 "did:a") 0,
    .writeRecord library (some "did:a") "note" ["large"], .retract "library" "note"]

/-- The blob is named again, and its uploader begins a second upload. -/
def secondUpload : List Action :=
  largeFileReleased ++ [.writeRecord library (some "did:a") "note" ["large"], beginAs "did:a" "small"]

theorem limits_hold_second_upload :
    let h := (reached boundedHost 0 ∅ ∅ secondUpload).host
    (h.memberUsage "library" "did:a").heldFiles = 2 ∧ (h.memberUsage "library" "did:a").heldFiles ≤ 2 ∧
      (h.memberUsage "library" "did:a").heldBytes = 30 ∧ (h.memberUsage "library" "did:a").heldBytes ≤ 40 ∧
      (h.roomUsage "library").heldFiles ≤ 4 ∧ (h.roomUsage "library").heldBytes ≤ 60 ∧
      (h.counter none).heldBytes ≤ 100 ∧
      ∃ req, StoredFor boundedHost (World.start 0 ∅ ∅) secondUpload "library" "large" req ∧
        ∀ limit ∈ h.fileLimits boundedHost "library" req.chargedTo, 20 ≤ limit := by
  intro h
  obtain ⟨hroom, hmember, hstorage, hfiles⟩ := limits_hold boundedHost 0 ∅ ∅ secondUpload (by decide) h rfl
  obtain ⟨entry, hentry, hsize⟩ : ∃ entry, h.blob "library" "large" = some entry ∧ entry.size = 20 := by
    have hlarge : (h.blob "library" "large").map BlobEntry.size = some 20 := by decide +kernel
    exact Option.map_eq_some_iff.mp hlarge
  refine ⟨by decide +kernel, (hmember "library" "did:a").1 2 (by decide +kernel), by decide +kernel,
    (hmember "library" "did:a").2 40 (by decide +kernel), (hroom "library").1 4 (by decide +kernel),
    (hroom "library").2 60 (by decide +kernel), hstorage 100 rfl, ?_⟩
  rw [← hsize]
  exact hfiles "library" "large" entry hentry

/-- Another, who may not upload it, names it again, and is charged for it. -/
def largeFileRenamed : List Action :=
  largeFileReleased ++ [.writeRecord library (some "did:b") "memo" ["large"]]

theorem large_file_renamed :
    ((reached smallHost 0 ∅ smallFiles largeFileRenamed).host.blob "library" "large").map
        (fun entry => (entry.size, entry.state, entry.chargedTo)) = some (20, .committed, some "did:b") ∧
      ((reached smallHost 0 ∅ smallFiles largeFileRenamed).host.limitsFor smallHost "library"
        (some "did:b")).member.maxFileBytes = some 10 := by
  decide +kernel

end World

end TrustInfrastructure.Blobs
