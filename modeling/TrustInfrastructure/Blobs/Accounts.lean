import TrustInfrastructure.Blobs.Worlds

/-!
# What the usage counters count

A usage counter is meant to be a sum over rows: the committed blobs charged to its scope, and the reservations of the
uploads open there. `Host.charged` is that sum, counts and bytes at once, and `Host.UsageExact` says every counter is
it. A blob moves between the parts of the sum when it is stored, orphaned, named again or collected, an upload when it
is opened or ends; each effect moves the counters by as much.
-/

namespace TrustInfrastructure.Blobs

open Lib Host
open Std (ExtTreeMap)

/-! ### Counters as vectors -/

namespace Usage

instance : Add Usage :=
  ⟨fun u v => ⟨u.files + v.files, u.bytes + v.bytes, u.reservedBytes + v.reservedBytes,
    u.reservedFiles + v.reservedFiles⟩⟩

instance : Zero Usage := ⟨{}⟩

theorem add_def (u v : Usage) :
    u + v = ⟨u.files + v.files, u.bytes + v.bytes, u.reservedBytes + v.reservedBytes,
      u.reservedFiles + v.reservedFiles⟩ :=
  rfl

theorem zero_def : (0 : Usage) = {} := rfl

instance : AddCommMonoid Usage where
  add_assoc u v x := by simp only [add_def, Nat.add_assoc]
  zero_add u := by simp only [add_def, zero_def, Nat.zero_add]
  add_zero u := by simp only [add_def, zero_def, Nat.add_zero]
  add_comm u v := by simp only [add_def, Nat.add_comm]
  nsmul := nsmulRec

end Usage

namespace StorageUsage

instance : Add StorageUsage := ⟨fun s t => ⟨s.files + t.files, s.bytes + t.bytes, s.reservedBytes + t.reservedBytes⟩⟩

instance : Zero StorageUsage := ⟨{}⟩

theorem add_def (s t : StorageUsage) :
    s + t = ⟨s.files + t.files, s.bytes + t.bytes, s.reservedBytes + t.reservedBytes⟩ := rfl

theorem zero_def : (0 : StorageUsage) = {} := rfl

instance : AddCommMonoid StorageUsage where
  add_assoc s t x := by simp only [add_def, Nat.add_assoc]
  zero_add s := by simp only [add_def, zero_def, Nat.zero_add]
  add_zero s := by simp only [add_def, zero_def, Nat.add_zero]
  add_comm s t := by simp only [add_def, Nat.add_comm]
  nsmul := nsmulRec

end StorageUsage

/-! ### What is charged to a scope -/

def blobCharge (scope : Scope) (key : String × String) (entry : BlobEntry) : Usage :=
  if entry.state = .committed ∧ Scope.counts scope key.1 entry.chargedTo then { files := 1, bytes := entry.size } else 0

def reservation (scope : Scope) (_ : Nat) (rec : UploadRecord) : Usage :=
  if rec.reserves ∧ Scope.counts scope rec.roomId rec.chargedTo then { reservedBytes := rec.size, reservedFiles := 1 }
  else 0

def Host.charged (h : Host) (scope : Scope) : Usage :=
  tally (blobCharge scope) h.blobs + tally (reservation scope) h.uploads

/-- Every usage counter is the sum it stands for. -/
def Host.UsageExact (h : Host) : Prop := ∀ scope, h.usageAt scope = h.charged scope

variable {env : Env} {allowed : Allowed} {h h' : Host}

namespace Host

theorem UsageExact.frame (hexact : h.UsageExact) (husage : h'.usage = h.usage) (hblobs : h'.blobs = h.blobs)
    (huploads : h'.uploads = h.uploads) : h'.UsageExact := by
  intro scope
  rw [usageAt, charged, husage, hblobs, huploads]
  exact hexact scope

section
variable {roomId : String} {chargedTo : Option String} {f : Usage → Usage} {scope : Scope}

/-- A counter that had `a` in it for its part of a change, and `x` otherwise, has `b` and `x` after it. -/
theorem usageAt_updateUsage_move {a b x : Usage} (hf : ∀ u, f (u + a) = u + b)
    (hbefore : h.usageAt scope = x + if Scope.counts scope roomId chargedTo then a else 0) :
    (h.updateUsage roomId chargedTo f).usageAt scope = x + if Scope.counts scope roomId chargedTo then b else 0 := by
  rw [usageAt_updateUsage]
  split
  · rename_i hcounts
    rw [hbefore, if_pos hcounts, hf]
  · rename_i hcounts
    rw [hbefore, if_neg hcounts]

/-- A change that takes `a` away. -/
theorem usageAt_updateUsage_take {a x : Usage} (hf : ∀ u, f (u + a) = u)
    (hbefore : h.usageAt scope = x + if Scope.counts scope roomId chargedTo then a else 0) :
    (h.updateUsage roomId chargedTo f).usageAt scope = x := by
  rw [usageAt_updateUsage_move (b := 0) (fun u => (hf u).trans (add_zero u).symm) hbefore, ite_self, add_zero]

end

section
variable {configId : Option String} {f : StorageUsage → StorageUsage} {key : Option String}

theorem counter_updateStorage_move {a b x : StorageUsage} (hf : ∀ s, f (s + a) = s + b)
    (hbefore : h.counter key = x + if covers key configId then a else 0) :
    (h.updateStorage configId f).counter key = x + if covers key configId then b else 0 := by
  rw [counter_updateStorage]
  split
  · rename_i hcovers
    rw [hbefore, if_pos hcovers, hf]
  · rename_i hcovers
    rw [hbefore, if_neg hcovers]

theorem counter_updateStorage_take {a x : StorageUsage} (hf : ∀ s, f (s + a) = s)
    (hbefore : h.counter key = x + if covers key configId then a else 0) :
    (h.updateStorage configId f).counter key = x := by
  rw [counter_updateStorage_move (b := 0) (fun s => (hf s).trans (add_zero s).symm) hbefore, ite_self, add_zero]

end

/-! ### Uploads -/

section
variable {scope : Scope} {id : Nat} {rec rec' : UploadRecord} {x : Usage}

theorem reservation_same (hsame : rec.Same rec') (hphase : rec'.phase = rec.phase) :
    reservation scope id rec' = reservation scope id rec := by
  unfold reservation UploadRecord.reserves
  rw [hphase, hsame.alreadyCommitted, hsame.roomId, hsame.chargedTo, hsame.size]

theorem reservation_ended (hphase : rec.phase ≠ .opened) : reservation scope id rec = 0 := by
  unfold reservation UploadRecord.reserves
  rw [beq_eq_false_iff_ne.mpr hphase]
  simp

theorem reservation_committed (hnew : rec.alreadyCommitted = true) : reservation scope id rec = 0 := by
  unfold reservation UploadRecord.reserves
  rw [hnew]
  simp

theorem reservation_opened (hopen : rec.phase = .opened) (hnew : rec.alreadyCommitted = false) :
    reservation scope id rec =
      if Scope.counts scope rec.roomId rec.chargedTo then { reservedBytes := rec.size, reservedFiles := 1 } else 0 := by
  unfold reservation UploadRecord.reserves
  rw [hopen, hnew]
  simp

theorem usageAt_hold (hopen : rec.phase = .opened) :
    (h.hold rec).usageAt scope = h.usageAt scope + reservation scope id rec := by
  unfold hold
  split
  · rename_i hnew
    rw [reservation_committed hnew, add_zero]
  · rename_i hnew
    rw [reservation_opened hopen (Bool.eq_false_iff.mpr hnew)]
    refine usageAt_updateUsage_move (a := 0) (fun u => ?_) ?_
    · simp only [Usage.add_def, Usage.zero_def, Nat.add_zero]
    · rw [ite_self, add_zero]

theorem usageAt_letGo (hopen : rec.phase = .opened) (hbefore : h.usageAt scope = x + reservation scope id rec) :
    (h.letGo rec).usageAt scope = x := by
  unfold letGo
  split
  · rename_i hnew
    rw [hbefore, reservation_committed hnew, add_zero]
  · rename_i hnew
    rw [reservation_opened hopen (Bool.eq_false_iff.mpr hnew)] at hbefore
    refine usageAt_updateUsage_take (fun u => ?_) hbefore
    simp only [Usage.add_def, Nat.add_zero, Nat.add_sub_cancel]

theorem blobCharge_committed {key : String × String} {entry : BlobEntry} (hstate : entry.state = .committed) :
    blobCharge scope key entry =
      if Scope.counts scope key.1 entry.chargedTo then { files := 1, bytes := entry.size } else 0 := by
  unfold blobCharge
  simp only [hstate, true_and]

theorem blobCharge_orphaned {key : String × String} {entry : BlobEntry} (hstate : entry.state = .orphaned) :
    blobCharge scope key entry = 0 := by
  unfold blobCharge
  rw [hstate]
  simp

theorem usageAt_convertReservation (configId : String) (hopen : rec.phase = .opened)
    (hnew : rec.alreadyCommitted = false)
    (hbefore : h.usageAt scope = x + reservation scope id rec) :
    (h.convertReservation rec configId).usageAt scope =
      x + if Scope.counts scope rec.roomId rec.chargedTo then { files := 1, bytes := rec.size } else 0 := by
  rw [reservation_opened hopen hnew] at hbefore
  refine usageAt_updateUsage_move (fun u => ?_) hbefore
  simp only [Usage.add_def, Nat.add_zero, Nat.add_sub_cancel]

end

/-! ### Rows written and removed -/

section
variable (hexact : h.UsageExact)
include hexact

theorem UsageExact.putUpload {id : Nat} {rec' : UploadRecord} (hblobs : h'.blobs = h.blobs)
    (huploads : h'.uploads = h.uploads.insert id rec')
    (husage : ∀ scope x, h.usageAt scope = x + weightAt (reservation scope) h.uploads id →
      h'.usageAt scope = x + reservation scope id rec') : h'.UsageExact := by
  intro scope
  have hbefore : h.charged scope = tally (blobCharge scope) h.blobs + tally (reservation scope) (h.uploads.erase id) +
      weightAt (reservation scope) h.uploads id := by
    rw [charged, add_assoc, tally_erase]
  rw [husage scope _ ((hexact scope).trans hbefore), charged, hblobs, huploads, tally_insert_erase]
  abel

theorem UsageExact.eraseUpload {id : Nat} (hblobs : h'.blobs = h.blobs) (huploads : h'.uploads = h.uploads.erase id)
    (husage : h'.usage = h.usage) (hdone : ∀ rec, h.uploads[id]? = some rec → rec.phase ≠ .opened) :
    h'.UsageExact := by
  intro scope
  have hweight : weightAt (reservation scope) h.uploads id = 0 := by
    cases hrow : h.uploads[id]? with
    | none => exact weightAt_none hrow
    | some rec => exact (weightAt_some hrow).trans (reservation_ended (hdone rec hrow))
  rw [usageAt, husage, charged, hblobs, huploads, tally_erase_of_weightAt hweight]
  exact hexact scope

theorem UsageExact.putBlob {key : String × String} {entry' : BlobEntry} (hblobs : h'.blobs = h.blobs.insert key entry')
    (huploads : h'.uploads = h.uploads)
    (husage : ∀ scope x, h.usageAt scope = x + weightAt (blobCharge scope) h.blobs key →
      h'.usageAt scope = x + blobCharge scope key entry') : h'.UsageExact := by
  intro scope
  have hbefore : h.charged scope = tally (blobCharge scope) (h.blobs.erase key) + tally (reservation scope) h.uploads +
      weightAt (blobCharge scope) h.blobs key := by
    rw [charged, add_right_comm, tally_erase]
  rw [husage scope _ ((hexact scope).trans hbefore), charged, hblobs, huploads, tally_insert_erase]
  abel

theorem UsageExact.eraseBlob {key : String × String} (hblobs : h'.blobs = h.blobs.erase key)
    (huploads : h'.uploads = h.uploads)
    (husage : ∀ scope x, h.usageAt scope = x + weightAt (blobCharge scope) h.blobs key → h'.usageAt scope = x) :
    h'.UsageExact := by
  intro scope
  have hbefore : h.charged scope = tally (blobCharge scope) (h.blobs.erase key) + tally (reservation scope) h.uploads +
      weightAt (blobCharge scope) h.blobs key := by
    rw [charged, add_right_comm, tally_erase]
  rw [husage scope _ ((hexact scope).trans hbefore), charged, hblobs, huploads]

end

theorem uploads_nextId (hformed : h.Formed env) : h.uploads[h.nextId]? = none := by
  cases hrow : h.uploads[h.nextId]? with
  | none => rfl
  | some rec => exact absurd (hformed.uploads h.nextId rec hrow).2 (Nat.lt_irrefl _)

/-! ### References -/

section
variable {scope : Scope} {roomId blobRef : String} {entry : BlobEntry} {x : Usage}

theorem usageAt_charge {add : Bool} : (h.charge roomId entry add).usageAt scope =
    (h.updateUsage roomId entry.chargedTo fun u =>
      if add then { u with bytes := u.bytes + entry.size, files := u.files + 1 }
      else { u with bytes := u.bytes - entry.size, files := u.files - 1 }).usageAt scope := by
  unfold charge usageAt
  rw [(quiet_recordActivity _ _ _ _).usage]

theorem usageAt_charge_add (hstate : entry.state = .committed) :
    (h.charge roomId entry true).usageAt scope = h.usageAt scope + blobCharge scope (roomId, blobRef) entry := by
  rw [usageAt_charge, blobCharge_committed hstate]
  refine usageAt_updateUsage_move (a := 0) (fun u => ?_) ?_
  · simp only [Usage.add_def, Usage.zero_def, Nat.add_zero, if_true]
  · rw [ite_self, add_zero]

theorem usageAt_charge_sub {charged : BlobEntry} (hstate : charged.state = .committed)
    (hchargedTo : entry.chargedTo = charged.chargedTo) (hsize : entry.size = charged.size)
    (hbefore : h.usageAt scope = x + blobCharge scope (roomId, blobRef) charged) :
    (h.charge roomId entry false).usageAt scope = x := by
  rw [blobCharge_committed hstate, ← hchargedTo, ← hsize] at hbefore
  rw [usageAt_charge]
  refine usageAt_updateUsage_take (fun u => ?_) hbefore
  simp only [Usage.add_def, Nat.add_zero, Nat.add_sub_cancel, Bool.false_eq_true, if_false]

end

theorem uploads_charge (roomId : String) (entry : BlobEntry) (add : Bool) :
    (h.charge roomId entry add).uploads = h.uploads := (quiet_recordActivity _ _ _ _).uploads

theorem frame_dropFromMigration (roomId blobRef : String) :
    (h.dropFromMigration roomId blobRef).usage = h.usage ∧
    (h.dropFromMigration roomId blobRef).uploads = h.uploads := by
  unfold dropFromMigration unreserve
  repeat' split
  all_goals exact ⟨rfl, rfl⟩

section
variable (hexact : h.UsageExact)
include hexact

theorem usageExact_dropFromMigration (roomId blobRef : String) :
    (h.dropFromMigration roomId blobRef).UsageExact :=
  hexact.frame (frame_dropFromMigration roomId blobRef).1 (blobs_dropFromMigration roomId blobRef)
    (frame_dropFromMigration roomId blobRef).2

section
variable {roomId blobRef : String} {entry entry' : BlobEntry} (hentry : h.blob roomId blobRef = some entry)
include hentry

theorem usageExact_putBlob (hstate : entry'.state = entry.state)
    (hchargedTo : entry'.chargedTo = entry.chargedTo) (hsize : entry'.size = entry.size) :
    (h.putBlob roomId blobRef entry').UsageExact := by
  refine hexact.putBlob rfl rfl fun scope x hbefore => ?_
  rw [weightAt_some hentry] at hbefore
  refine hbefore.trans ?_
  unfold blobCharge
  rw [hstate, hchargedTo, hsize]

/-- An orphan is charged to nobody; named again, it is charged to the writer's member. -/
theorem usageExact_recharged (horphaned : entry.state = .orphaned) (hcommitted : entry'.state = .committed) :
    ((h.charge roomId entry' true).putBlob roomId blobRef entry').UsageExact := by
  have hblobs : ((h.charge roomId entry' true).putBlob roomId blobRef entry').blobs =
      h.blobs.insert (roomId, blobRef) entry' := by
    rw [Host.putBlob, blobs_charge]
  refine hexact.putBlob hblobs (uploads_charge _ _ _) fun scope x hbefore => ?_
  rw [weightAt_some hentry, blobCharge_orphaned horphaned, add_zero] at hbefore
  rw [← hbefore]
  exact usageAt_charge_add hcommitted

/-- A blob whose last reference goes is no longer charged. -/
theorem usageExact_orphaned (hcommitted : entry.state = .committed)
    (horphaned : entry'.state = .orphaned) (hchargedTo : entry'.chargedTo = entry.chargedTo)
    (hsize : entry'.size = entry.size) :
    (((h.charge roomId entry' false).dropFromMigration roomId blobRef).putBlob roomId blobRef entry').UsageExact := by
  have hblobs :
    (((h.charge roomId entry' false).dropFromMigration roomId blobRef).putBlob roomId blobRef entry').blobs =
      h.blobs.insert (roomId, blobRef) entry' := by
    rw [Host.putBlob, blobs_dropFromMigration, blobs_charge]
  refine hexact.putBlob hblobs ?_ fun scope x hbefore => ?_
  · exact (frame_dropFromMigration roomId blobRef).2.trans (uploads_charge _ _ _)
  · rw [weightAt_some hentry] at hbefore
    rw [blobCharge_orphaned horphaned, add_zero, ← usageAt_charge_sub hcommitted hchargedTo hsize hbefore]
    exact congrArg (fun usage => usage[scope]?.getD {}) (frame_dropFromMigration roomId blobRef).1

end

theorem usageExact_adjustRefs (roomId blobRef : String) (delta : Int) (member : Option String) :
    (h.adjustRefs roomId blobRef delta member).UsageExact := by
  unfold adjustRefs
  split
  · exact hexact
  · rename_i entry hentry
    split
    · unfold reference
      split
      · rename_i horphaned
        exact usageExact_recharged hexact hentry horphaned rfl
      · exact usageExact_putBlob hexact hentry rfl rfl rfl
    · unfold dereference
      split
      · rename_i hlast
        exact usageExact_orphaned hexact hentry hlast.2 rfl rfl rfl
      · exact usageExact_putBlob hexact hentry rfl rfl rfl

theorem usageExact_collected {roomId blobRef : String} {entry : BlobEntry}
    (hentry : h.blob roomId blobRef = some entry) : (h.collected roomId blobRef entry).UsageExact := by
  have huploads : (h.collected roomId blobRef entry).uploads = h.uploads := by
    obtain ⟨usage, storage, hquiet⟩ := quiet_collected (h := h) roomId blobRef entry
    exact hquiet.uploads
  refine hexact.eraseBlob rfl huploads fun scope x hbefore => ?_
  rw [weightAt_some hentry] at hbefore
  unfold collected
  split
  · rename_i hcommitted
    exact usageAt_charge_sub (h := h.deleteObject entry.configId entry.backendRef) hcommitted rfl rfl hbefore
  · rename_i hcommitted
    have horphaned : entry.state = .orphaned := by
      cases hstate : entry.state with
      | committed => exact absurd hstate hcommitted
      | orphaned => rfl
    rw [blobCharge_orphaned horphaned, add_zero] at hbefore
    exact hbefore

theorem usageExact_stored {id : Nat} {rec : UploadRecord} {configId : String} {key : ObjectKey}
    (hrec : h.uploads[id]? = some rec) (hopen : rec.phase = .opened) (hnew : rec.alreadyCommitted = false)
    (habsent : h.blob rec.roomId rec.blobRef = none) : (h.storeBlob id rec configId key).UsageExact := by
  have hquiet := quiet_storeBlob (h := h) id rec configId key
  refine UsageExact.frame (fun scope => ?_) hquiet.usage hquiet.blobs hquiet.uploads
  have hbefore : h.charged scope = tally (blobCharge scope) h.blobs +
      tally (reservation scope) (h.uploads.erase id) + reservation scope id rec := by
    have hweight : weightAt (reservation scope) h.uploads id = reservation scope id rec := weightAt_some hrec
    rw [charged, ← hweight, add_assoc, tally_erase]
  have hblobs : tally (blobCharge scope) (h.blobs.erase (rec.roomId, rec.blobRef)) = tally (blobCharge scope) h.blobs :=
    tally_erase_of_weightAt (weightAt_none habsent)
  have hended : reservation scope id { rec with phase := .committed, finishedAt := some h.now } = 0 :=
    reservation_ended fun hphase => nomatch hphase
  have hafter := usageAt_convertReservation configId hopen hnew ((hexact scope).trans hbefore)
  refine hafter.trans ?_
  rw [charged, tally_insert_erase, tally_insert_erase, hblobs, hended, blobCharge_committed rfl, storedEntry]
  abel

end

end Host

theorem Effect.usageExact (heffect : Effect env allowed h h') (hformed : h.Formed env) (hexact : h.UsageExact) :
    h'.UsageExact := by
  cases heffect with
  | quiet hquiet => exact hexact.frame hquiet.usage hquiet.blobs hquiet.uploads
  | limited | reclaimed | duplicated | dropped | uncounted | kept => exact hexact.frame rfl rfl rfl
  | opened rec hphase =>
    have huploads : (h.hold rec).uploads.insert h.nextId rec = h.uploads.insert h.nextId rec := by rw [hold_eq]
    refine hexact.putUpload ?_ huploads fun scope x hbefore => ?_
    · rw [hold_eq]
      rfl
    · rw [weightAt_none (uploads_nextId hformed), add_zero] at hbefore
      rw [← hbefore]
      exact usageAt_hold hphase
  | rebound _ _ _ hrec hsame hphase =>
    refine hexact.putUpload rfl rfl fun scope x hbefore => ?_
    rw [weightAt_some hrec] at hbefore
    rw [reservation_same hsame hphase]
    exact hbefore
  | closed id rec rec' hrec hopen _ hphase =>
    have huploads : (h.letGo rec).uploads.insert id rec' = h.uploads.insert id rec' := by rw [letGo_eq]
    refine hexact.putUpload ?_ huploads fun scope x hbefore => ?_
    · rw [letGo_eq]
      rfl
    · rw [weightAt_some hrec] at hbefore
      rw [reservation_ended hphase, add_zero]
      exact usageAt_letGo hopen hbefore
  | stored _ rec configId key hrec hopen hnew habsent =>
    have hput : (h.putObject configId key rec.blobRef).UsageExact := hexact.frame rfl rfl rfl
    exact usageExact_stored hput hrec hopen hnew habsent
  | forgotten _ _ hdone => exact hexact.eraseUpload rfl rfl rfl fun stored hstored => (hdone stored hstored).2
  | wrote roomId _ _ member =>
    refine applyRefs_induction hexact (fun h b delta hexact => ?_) fun h recordBlobs hexact => hexact.frame rfl rfl rfl
    exact usageExact_adjustRefs hexact roomId b delta member
  | collected roomId blobRef =>
    rcases collectBlob_cases (h := h) roomId blobRef with heq | ⟨entry, hentry, -, heq⟩
    · rwa [heq]
    · rw [heq]
      exact usageExact_dropFromMigration (usageExact_collected hexact hentry) roomId blobRef

theorem Host.Begins.usageExact {req : MigrationRequest} (hbegins : h.Begins req h') (hexact : h.UsageExact) :
    h'.UsageExact := by
  rw [hbegins.2, beginMigration_eq]
  exact hexact.frame rfl rfl rfl

end TrustInfrastructure.Blobs
