import TrustInfrastructure.Blobs.Accounts

/-!
# What the storage counters and a migration's record count

The storage counters, the host's and each config's, are sums over the stored copies (a blob's, and the old copy of one
that was moved) and over what is reserved: by open uploads, and by migrations. A migration's record is a sum as well,
over its plan rows and its done rows (`Host.Planned`). The two go together: a blob that leaves a migration gives back
what its plan row reserved, and that it was reserved is what the record says.

A switch moves a plan row to the done rows. That it finds the plan row there is not what the code checks, so it stands
as a hypothesis here (`booked_moveTo`).
-/

namespace TrustInfrastructure.Blobs

open Lib Host
open Std (ExtTreeMap)

variable {id size : Nat} {at' : String × String} {entry' entry : BlobEntry} {roomId configId blobRef : String}
  {m' : Migration} {plan : ExtTreeMap (String × String) Nat}

/-! ### What is held on a config -/

def copyHeld (key : Option String) (_ : String × String) (entry : BlobEntry) : StorageUsage :=
  if covers key (some entry.configId) then { files := 1, bytes := entry.size } else 0

/-- A moved blob's old copy, until it is deleted. -/
def movedHeld (key : Option String) (_ : String × String × Nat) (row : MovedCopy) : StorageUsage :=
  if covers key (some row.configId) then { files := 1, bytes := row.size } else 0

def uploadHeld (key : Option String) (_ : Nat) (rec : UploadRecord) : StorageUsage :=
  if rec.reserves ∧ covers key rec.configId then { reservedBytes := rec.size } else 0

def migrationHeld (key : Option String) (_ : String) (m : Migration) : StorageUsage :=
  if covers key (some m.toConfig) then { reservedBytes := m.reservedBytes } else 0

/-- The copies stored and the bytes reserved on a config, or on all of them, added up. -/
def Host.held (h : Host) (key : Option String) : StorageUsage :=
  tally (copyHeld key) h.blobs + tally (movedHeld key) h.moved + tally (uploadHeld key) h.uploads +
    tally (migrationHeld key) h.migrations

def Host.StorageExact (h : Host) : Prop := ∀ key, h.counter key = h.held key

/-! ### What a migration's record adds up -/

/-- A plan or done row of the room: one file and its bytes. -/
def roomRows (roomId : String) (key : String × String) (size : Nat) : Nat × Nat :=
  if key.1 = roomId then (1, size) else 0

def Host.planRows (h : Host) (roomId : String) : Nat × Nat := tally (roomRows roomId) h.plan

def Host.doneRows (h : Host) (roomId : String) : Nat × Nat := tally (roomRows roomId) h.done

structure Migration.Adds (m : Migration) (planRows doneRows : Nat × Nat) : Prop where
  done : (m.doneFiles, m.doneBytes) = doneRows
  total : (m.totalFiles, m.totalBytes) = planRows + doneRows
  reserved : m.reservedBytes = planRows.2

/-- Every open migration's record adds up its rows, one that is closed reserves nothing, no blob is both planned and
done, and what this migration has moved it does not plan. -/
structure Host.Planned (h : Host) : Prop where
  adds : ∀ (roomId : String) (m : Migration), h.migrations[roomId]? = some m → m.state.isOpen = true →
    m.Adds (h.planRows roomId) (h.doneRows roomId)
  closed : ∀ (roomId : String) (m : Migration), h.migrations[roomId]? = some m → m.state.isOpen = false →
    m.reservedBytes = 0
  disjoint : ∀ (key : String × String) (size : Nat), h.plan[key]? = some size → h.done[key]? = none
  fresh : ∀ (roomId blobRef : String) (id : Nat) (row : MovedCopy), h.moved[(roomId, blobRef, id)]? = some row →
    ∀ m, h.migrations[roomId]? = some m → m.migrationId = id → h.plan[(roomId, blobRef)]? = none

/-- The storage counters are exact, and every migration's record is. -/
structure Host.Booked (h : Host) : Prop where
  storage : h.StorageExact
  planned : h.Planned

variable {env : Env} {allowed : Allowed} {h h' : Host}

namespace Host

theorem StorageExact.frame (hexact : h.StorageExact) (hstorage : h'.storage = h.storage) (hblobs : h'.blobs = h.blobs)
    (hmoved : h'.moved = h.moved) (huploads : h'.uploads = h.uploads) (hmigrations : h'.migrations = h.migrations) :
    h'.StorageExact := by
  intro key
  rw [counter, held, hstorage, hblobs, hmoved, huploads, hmigrations]
  exact hexact key

theorem Planned.frame (hplanned : h.Planned) (hmigrations : h'.migrations = h.migrations) (hplan : h'.plan = h.plan)
    (hdone : h'.done = h.done) (hmoved : h'.moved = h.moved) : h'.Planned := by
  obtain ⟨hadds, hclosed, hdisjoint, hfresh⟩ := hplanned
  refine ⟨?_, ?_, ?_, ?_⟩
  · rw [hmigrations]
    unfold planRows doneRows
    rw [hplan, hdone]
    exact hadds
  · rw [hmigrations]
    exact hclosed
  · rw [hplan, hdone]
    exact hdisjoint
  · rw [hmoved, hmigrations, hplan]
    exact hfresh

theorem Booked.frame (hbooked : h.Booked) (hstorage : h'.storage = h.storage) (hblobs : h'.blobs = h.blobs)
    (hmoved : h'.moved = h.moved) (huploads : h'.uploads = h.uploads) (hmigrations : h'.migrations = h.migrations)
    (hplan : h'.plan = h.plan) (hdone : h'.done = h.done) : h'.Booked :=
  ⟨hbooked.storage.frame hstorage hblobs hmoved huploads hmigrations,
    hbooked.planned.frame hmigrations hplan hdone hmoved⟩

/-! ### Tables changed one row at a time

What is held is what the other rows hold and what the row changed does. -/

section
variable {key : Option String}

theorem held_blobs (at' : String × String) :
    h.held key = { h with blobs := h.blobs.erase at' }.held key + weightAt (copyHeld key) h.blobs at' := by
  rw [held, held, ← tally_erase (m := h.blobs)]
  abel

theorem held_moved (at' : String × String × Nat) :
    h.held key = { h with moved := h.moved.erase at' }.held key + weightAt (movedHeld key) h.moved at' := by
  rw [held, held, ← tally_erase (m := h.moved)]
  abel

theorem held_uploads (id : Nat) :
    h.held key = { h with uploads := h.uploads.erase id }.held key + weightAt (uploadHeld key) h.uploads id := by
  rw [held, held, ← tally_erase (m := h.uploads)]
  abel

theorem held_migrations (roomId : String) :
    h.held key = { h with migrations := h.migrations.erase roomId }.held key +
      weightAt (migrationHeld key) h.migrations roomId := by
  rw [held, held, ← tally_erase (m := h.migrations)]
  abel

end

section
variable (hexact : h.StorageExact)
include hexact

theorem StorageExact.putUpload {rec' : UploadRecord}
    (hheld : ∀ key, h'.held key = { h with uploads := h.uploads.insert id rec' }.held key)
    (hstorage : ∀ key x, h.counter key = x + weightAt (uploadHeld key) h.uploads id →
      h'.counter key = x + uploadHeld key id rec') : h'.StorageExact := by
  intro key
  rw [hstorage key _ ((hexact key).trans (held_uploads id)), hheld, held, held, tally_insert_erase]
  abel

theorem StorageExact.eraseUpload (hheld : ∀ key, h'.held key = { h with uploads := h.uploads.erase id }.held key)
    (hstorage : ∀ key x, h.counter key = x + weightAt (uploadHeld key) h.uploads id → h'.counter key = x) :
    h'.StorageExact := by
  intro key
  rw [hstorage key _ ((hexact key).trans (held_uploads id)), hheld]

theorem StorageExact.putBlob (hheld : ∀ key, h'.held key = { h with blobs := h.blobs.insert at' entry' }.held key)
    (hstorage : ∀ key x, h.counter key = x + weightAt (copyHeld key) h.blobs at' →
      h'.counter key = x + copyHeld key at' entry') : h'.StorageExact := by
  intro key
  rw [hstorage key _ ((hexact key).trans (held_blobs at')), hheld, held, held, tally_insert_erase]
  abel

theorem StorageExact.eraseBlob (hheld : ∀ key, h'.held key = { h with blobs := h.blobs.erase at' }.held key)
    (hstorage : ∀ key x, h.counter key = x + weightAt (copyHeld key) h.blobs at' → h'.counter key = x) :
    h'.StorageExact := by
  intro key
  rw [hstorage key _ ((hexact key).trans (held_blobs at')), hheld]

theorem StorageExact.eraseMoved {at' : String × String × Nat}
    (hheld : ∀ key, h'.held key = { h with moved := h.moved.erase at' }.held key)
    (hstorage : ∀ key x, h.counter key = x + weightAt (movedHeld key) h.moved at' → h'.counter key = x) :
    h'.StorageExact := by
  intro key
  rw [hstorage key _ ((hexact key).trans (held_moved at')), hheld]

theorem StorageExact.putMigration
    (hheld : ∀ key, h'.held key = { h with migrations := h.migrations.insert roomId m' }.held key)
    (hstorage : ∀ key x, h.counter key = x + weightAt (migrationHeld key) h.migrations roomId →
      h'.counter key = x + migrationHeld key roomId m') : h'.StorageExact := by
  intro key
  rw [hstorage key _ ((hexact key).trans (held_migrations roomId)), hheld, held, held, tally_insert_erase]
  abel

end

/-! ### What each change does to a counter -/

section
variable {key : Option String} {id : Nat} {rec rec' : UploadRecord} {x : StorageUsage}

theorem uploadHeld_same (hsame : rec.Same rec') (hphase : rec'.phase = rec.phase) :
    uploadHeld key id rec' = uploadHeld key id rec := by
  unfold uploadHeld UploadRecord.reserves
  rw [hphase, hsame.alreadyCommitted, hsame.configId, hsame.size]

theorem uploadHeld_ended (hphase : rec.phase ≠ .opened) : uploadHeld key id rec = 0 := by
  unfold uploadHeld UploadRecord.reserves
  rw [beq_eq_false_iff_ne.mpr hphase]
  simp

theorem uploadHeld_committed (hnew : rec.alreadyCommitted = true) : uploadHeld key id rec = 0 := by
  unfold uploadHeld UploadRecord.reserves
  rw [hnew]
  simp

section
variable (hopen : rec.phase = .opened)
include hopen

theorem uploadHeld_opened (hnew : rec.alreadyCommitted = false) :
    uploadHeld key id rec = if covers key rec.configId then { reservedBytes := rec.size } else 0 := by
  unfold uploadHeld UploadRecord.reserves
  rw [hopen, hnew]
  simp

theorem counter_hold : (h.hold rec).counter key = h.counter key + uploadHeld key id rec := by
  unfold hold
  split
  · rename_i hnew
    rw [uploadHeld_committed hnew, add_zero]
  · rename_i hnew
    rw [uploadHeld_opened hopen (Bool.eq_false_iff.mpr hnew)]
    refine counter_updateStorage_move (a := 0) (fun s => ?_) ?_
    · simp only [StorageUsage.add_def, StorageUsage.zero_def, Nat.add_zero]
    · rw [ite_self, add_zero]
      rfl

theorem counter_letGo (hbefore : h.counter key = x + uploadHeld key id rec) : (h.letGo rec).counter key = x := by
  unfold letGo
  split
  · rename_i hnew
    rw [hbefore, uploadHeld_committed hnew, add_zero]
  · rename_i hnew
    rw [uploadHeld_opened hopen (Bool.eq_false_iff.mpr hnew)] at hbefore
    refine counter_updateStorage_take (h := h.updateUsage _ _ _) (fun s => ?_) hbefore
    simp only [StorageUsage.add_def, Nat.add_zero, Nat.add_sub_cancel]

theorem counter_convertReservation (hnew : rec.alreadyCommitted = false) (hconfig : rec.configId = some configId)
    (hbefore : h.counter key = x + uploadHeld key id rec) :
    (h.convertReservation rec configId).counter key =
      x + if covers key (some configId) then { files := 1, bytes := rec.size } else 0 := by
  rw [uploadHeld_opened hopen hnew, hconfig] at hbefore
  unfold convertReservation
  rw [hconfig, Option.map_some]
  refine counter_updateStorage_move (a := 0) (fun s => ?_) ?_
  · simp only [StorageUsage.add_def, StorageUsage.zero_def, Nat.add_zero]
  · have hreleased : (((h.updateUsage rec.roomId rec.chargedTo fun u =>
        { reservedBytes := u.reservedBytes - rec.size, reservedFiles := u.reservedFiles - 1,
          bytes := u.bytes + rec.size,
          files := u.files + 1 }).updateStorage (some configId) fun s =>
        { s with reservedBytes := s.reservedBytes - rec.size }).counter key) =
          x + if covers key (some configId) then 0 else 0 := by
      refine counter_updateStorage_move (fun s => ?_) hbefore
      simp only [StorageUsage.add_def, StorageUsage.zero_def, Nat.add_zero, Nat.add_sub_cancel]
    exact hreleased

end

theorem counter_uncountCopy
    (hbefore : h.counter key = x + if covers key (some configId) then { files := 1, bytes := size } else 0) :
    (h.uncountCopy configId size).counter key = x := by
  refine counter_updateStorage_take (fun s => ?_) hbefore
  simp only [StorageUsage.add_def, Nat.add_zero, Nat.add_sub_cancel]

theorem counter_unreserve
    (hbefore : h.counter key = x + if covers key (some configId) then { reservedBytes := size } else 0) :
    (h.unreserve configId size).counter key = x := by
  unfold unreserve
  split
  · rename_i hzero
    rw [hbefore, hzero]
    exact (congrArg (x + ·) (ite_self _)).trans (add_zero x)
  · refine counter_updateStorage_take (fun s => ?_) hbefore
    simp only [StorageUsage.add_def, Nat.add_zero, Nat.add_sub_cancel]

end

/-! ### Rows of a migration -/

section
variable {roomId room blobRef : String} {rows : ExtTreeMap (String × String) Nat} {size : Nat}

theorem roomRows_other {key : String × String} (hroom : key.1 ≠ room) : roomRows room key size = 0 := if_neg hroom

theorem tally_rows_erase (hrow : rows[(roomId, blobRef)]? = some size) :
    tally (roomRows roomId) (rows.erase (roomId, blobRef)) + (1, size) = tally (roomRows roomId) rows := by
  have hweight : weightAt (roomRows roomId) rows (roomId, blobRef) = (1, size) :=
    (weightAt_some hrow).trans (if_pos rfl)
  rw [← hweight, tally_erase]

theorem tally_rows_insert (hrow : rows[(roomId, blobRef)]? = none) :
    tally (roomRows room) (rows.insert (roomId, blobRef) size) =
      tally (roomRows room) rows + roomRows room (roomId, blobRef) size := by
  rw [← tally_insert, weightAt_none hrow, add_zero]

theorem tally_rows_erase_other (hroom : roomId ≠ room) :
    tally (roomRows room) (rows.erase (roomId, blobRef)) = tally (roomRows room) rows := by
  refine tally_erase_of_weightAt ?_
  cases hrow : rows[(roomId, blobRef)]? with
  | none => exact weightAt_none hrow
  | some => exact (weightAt_some hrow).trans (roomRows_other hroom)

theorem tally_rows_filter_other (hroom : roomId ≠ room) :
    tally (roomRows room) (rows.filter fun key _ => key.1 ≠ roomId) = tally (roomRows room) rows := by
  refine tally_eq_of_weightAt fun key => ?_
  rw [weightAt, weightAt, getElem?_filter_eq]
  cases rows[key]? with
  | none => rfl
  | some =>
    rw [Option.filter_some]
    split
    · rfl
    · rename_i hkey
      have hkey : key.1 = roomId := by simpa using hkey
      rw [Option.elim_none, Option.elim_some, roomRows_other (hkey ▸ hroom)]

theorem tally_rows_filter : tally (roomRows roomId) (rows.filter fun key _ => key.1 ≠ roomId) = 0 := by
  refine tally_eq_zero fun key size hrow => roomRows_other ?_
  rw [getElem?_filter_eq] at hrow
  simpa using (Option.filter_eq_some_iff.mp hrow).2

end

/-- The row of the room's migration is written, and the plan and what is done change for that room only. -/
theorem Planned.put (hplanned : h.Planned) (hmigrations : h'.migrations = h.migrations.insert roomId m')
    (hplanRows : ∀ room, roomId ≠ room → h'.planRows room = h.planRows room)
    (hdoneRows : ∀ room, roomId ≠ room → h'.doneRows room = h.doneRows room)
    (hadds : m'.state.isOpen = true → m'.Adds (h'.planRows roomId) (h'.doneRows roomId))
    (hclosed : m'.state.isOpen = false → m'.reservedBytes = 0)
    (hdisjoint : ∀ (key : String × String) (size : Nat), h'.plan[key]? = some size → h'.done[key]? = none)
    (hfresh : ∀ (room blobRef : String) (id : Nat) (row : MovedCopy), h'.moved[(room, blobRef, id)]? = some row →
      ∀ m, (h.migrations.insert roomId m')[room]? = some m → m.migrationId = id → h'.plan[(room, blobRef)]? = none) :
    h'.Planned where
  adds room m hm hopen := by
    rcases insert_cases (hmigrations ▸ hm) with ⟨rfl, rfl⟩ | ⟨hne, hm⟩
    · exact hadds hopen
    · rw [hplanRows room hne, hdoneRows room hne]
      exact hplanned.adds room m hm hopen
  closed room m hm hopen := by
    rcases insert_cases (hmigrations ▸ hm) with ⟨rfl, rfl⟩ | ⟨-, hm⟩
    · exact hclosed hopen
    · exact hplanned.closed room m hm hopen
  disjoint := hdisjoint
  fresh room blobRef id row hrow m hm := hfresh room blobRef id row hrow m (hmigrations ▸ hm)

theorem Planned.shrink (hplanned : h.Planned) {m : Migration} (hm : h.migrations[roomId]? = some m)
    (hid : m'.migrationId = m.migrationId) (hmigrations : h'.migrations = h.migrations.insert roomId m')
    (hmoved : h'.moved = h.moved)
    (hplan : ∀ (key : String × String) (size : Nat), h'.plan[key]? = some size → h.plan[key]? = some size)
    (hdone : ∀ (key : String × String) (size : Nat), h'.done[key]? = some size → h.done[key]? = some size)
    (hplanRows : ∀ room, roomId ≠ room → h'.planRows room = h.planRows room)
    (hdoneRows : ∀ room, roomId ≠ room → h'.doneRows room = h.doneRows room)
    (hadds : m'.state.isOpen = true → m'.Adds (h'.planRows roomId) (h'.doneRows roomId))
    (hclosed : m'.state.isOpen = false → m'.reservedBytes = 0) : h'.Planned := by
  refine hplanned.put hmigrations hplanRows hdoneRows hadds hclosed (fun key size hsize => ?_)
    fun room blobRef id row hrow m'' hm'' hid' => ?_
  · exact absent_fewer (hdone key) (hplanned.disjoint key size (hplan key size hsize))
  · refine absent_fewer (hplan _) ?_
    rcases insert_cases hm'' with ⟨rfl, rfl⟩ | ⟨-, hm''⟩
    · exact hplanned.fresh roomId blobRef id row (hmoved ▸ hrow) m hm (hid.symm.trans hid')
    · exact hplanned.fresh room blobRef id row (hmoved ▸ hrow) m'' hm'' hid'

section
variable {roomId blobRef : String} {size : Nat} {m m' : Migration} (hbooked : h.Booked)
  (hm : h.migrations[roomId]? = some m) (hto : m'.toConfig = m.toConfig)

theorem migrationHeld_split {key : Option String} (hto : m'.toConfig = m.toConfig)
    (hreserved : m.reservedBytes = m'.reservedBytes + size) :
    migrationHeld key roomId m =
      migrationHeld key roomId m' + if covers key (some m.toConfig) then { reservedBytes := size } else 0 := by
  unfold migrationHeld
  rw [hto, hreserved]
  split
  · rfl
  · rw [add_zero]

include hbooked hm hto

/-- A migration gives back `size` of what it reserved. -/
theorem storageExact_unreserve {done : ExtTreeMap (String × String) Nat}
    (hreserved : m.reservedBytes = m'.reservedBytes + size) :
    StorageExact { h.unreserve m.toConfig size with plan, done, migrations := h.migrations.insert roomId m' } := by
  have hcounter (key : Option String) (x : StorageUsage)
      (hbefore : h.counter key = x + weightAt (migrationHeld key) h.migrations roomId) :
      (h.unreserve m.toConfig size).counter key = x + migrationHeld key roomId m' := by
    refine counter_unreserve ?_
    rw [hbefore, weightAt_some hm, migrationHeld_split hto hreserved, add_assoc]
  rw [unreserve_eq] at hcounter ⊢
  exact hbooked.storage.putMigration (fun _ => rfl) hcounter

variable (hid : m'.migrationId = m.migrationId)
include hid

theorem booked_unplan (hopen : m.state.isOpen = true) (hsize : h.plan[(roomId, blobRef)]? = some size)
    (hopen' : m'.state.isOpen = true) (hdone : (m'.doneFiles, m'.doneBytes) = (m.doneFiles, m.doneBytes))
    (htotal : (m'.totalFiles, m'.totalBytes) = (m.totalFiles - 1, m.totalBytes - size))
    (hreserved : m'.reservedBytes = m.reservedBytes - size) :
    Booked { h.unreserve m.toConfig size with
      plan := h.plan.erase (roomId, blobRef), migrations := h.migrations.insert roomId m' } := by
  have hrows : tally (roomRows roomId) (h.plan.erase (roomId, blobRef)) + (1, size) = h.planRows roomId :=
    tally_rows_erase hsize
  have hadds := hbooked.planned.adds roomId m hm hopen
  have hplan : m.reservedBytes = (tally (roomRows roomId) (h.plan.erase (roomId, blobRef))).2 + size := by
    rw [hadds.reserved, ← hrows, Prod.snd_add]
  have htotal' : (m'.totalFiles, m'.totalBytes) =
      tally (roomRows roomId) (h.plan.erase (roomId, blobRef)) + h.doneRows roomId := by
    have hall := hadds.total
    rw [← hrows, Prod.ext_iff] at hall
    simp only [Prod.fst_add, Prod.snd_add] at hall
    rw [htotal, Prod.ext_iff]
    simp only [Prod.fst_add, Prod.snd_add]
    omega
  have hstorage : StorageExact { h.unreserve m.toConfig size with
      plan := h.plan.erase (roomId, blobRef), done := h.done, migrations := h.migrations.insert roomId m' } :=
    storageExact_unreserve hbooked hm hto (by omega)
  rw [unreserve_eq] at hstorage ⊢
  refine ⟨hstorage, ?_⟩
  refine hbooked.planned.shrink hm hid rfl rfl (fun _ _ => erase_sub) (fun _ _ hrow => hrow)
    (fun room hroom => tally_rows_erase_other hroom) (fun _ _ => rfl)
    (fun _ => ⟨hdone.trans hadds.done, htotal', ?_⟩) (fun hclosed => nomatch hopen'.symm.trans hclosed)
  change m'.reservedBytes = (tally (roomRows roomId) (h.plan.erase (roomId, blobRef))).2
  omega

omit hid in
theorem storageExact_putMigration (hreserved : m'.reservedBytes = m.reservedBytes) :
    (h.putMigration roomId m').StorageExact := by
  refine hbooked.storage.putMigration (fun _ => rfl) fun key x hbefore => ?_
  rw [weightAt_some hm] at hbefore
  refine hbefore.trans ?_
  unfold migrationHeld
  rw [hto, hreserved]

theorem booked_undone (hopen : m.state.isOpen = true) (hsize : h.done[(roomId, blobRef)]? = some size)
    (hopen' : m'.state.isOpen = true)
    (hdone : (m'.doneFiles, m'.doneBytes) = (m.doneFiles - 1, m.doneBytes - size))
    (htotal : (m'.totalFiles, m'.totalBytes) = (m.totalFiles - 1, m.totalBytes - size))
    (hreserved : m'.reservedBytes = m.reservedBytes) :
    Booked { h with done := h.done.erase (roomId, blobRef), migrations := h.migrations.insert roomId m' } := by
  have hrows : tally (roomRows roomId) (h.done.erase (roomId, blobRef)) + (1, size) = h.doneRows roomId :=
    tally_rows_erase hsize
  have hadds := hbooked.planned.adds roomId m hm hopen
  have hall := hadds.total
  have hmoved := hadds.done
  rw [← hrows, Prod.ext_iff] at hall hmoved
  simp only [Prod.fst_add, Prod.snd_add] at hall hmoved
  refine ⟨storageExact_putMigration hbooked hm hto hreserved, ?_⟩
  · refine hbooked.planned.shrink hm hid rfl rfl (fun _ _ hrow => hrow) (fun _ _ => erase_sub) (fun _ _ => rfl)
      (fun room hroom => tally_rows_erase_other hroom) (fun _ => ⟨?_, ?_, hreserved.trans hadds.reserved⟩)
      (fun hclosed => nomatch hopen'.symm.trans hclosed)
    · change _ = tally (roomRows roomId) (h.done.erase (roomId, blobRef))
      rw [hdone, Prod.ext_iff]
      omega
    · change _ = h.planRows roomId + tally (roomRows roomId) (h.done.erase (roomId, blobRef))
      rw [htotal, Prod.ext_iff]
      simp only [Prod.fst_add, Prod.snd_add]
      omega

theorem booked_close (hclosed : m'.state.isOpen = false) (hreserved : m'.reservedBytes = 0)
    (hplan : ∀ (key : String × String) (size : Nat), plan[key]? = some size → h.plan[key]? = some size)
    (hplanRows : ∀ room, roomId ≠ room → tally (roomRows room) plan = h.planRows room) :
    Booked { h.unreserve m.toConfig m.reservedBytes with
      plan, done := h.done.filter fun key _ => key.1 ≠ roomId, migrations := h.migrations.insert roomId m' } := by
  have hstorage : StorageExact { h.unreserve m.toConfig m.reservedBytes with
      plan, done := h.done.filter fun key _ => key.1 ≠ roomId, migrations := h.migrations.insert roomId m' } :=
    storageExact_unreserve hbooked hm hto (by omega)
  rw [unreserve_eq] at hstorage ⊢
  refine ⟨hstorage, hbooked.planned.shrink hm hid rfl rfl hplan (fun _ _ => filter_sub) hplanRows
    (fun room hroom => tally_rows_filter_other hroom) (fun hopen => nomatch hclosed.symm.trans hopen)
    fun _ => hreserved⟩

/-- A migration's record changed in what is in flight, its state and its retries alone. -/
theorem booked_putMigration (hopen : m'.state.isOpen = m.state.isOpen)
    (hdone : (m'.doneFiles, m'.doneBytes) = (m.doneFiles, m.doneBytes))
    (htotal : (m'.totalFiles, m'.totalBytes) = (m.totalFiles, m.totalBytes))
    (hreserved : m'.reservedBytes = m.reservedBytes) : (h.putMigration roomId m').Booked := by
  refine ⟨storageExact_putMigration hbooked hm hto hreserved, ?_⟩
  · refine hbooked.planned.shrink hm hid rfl rfl (fun _ _ hrow => hrow) (fun _ _ hrow => hrow) (fun _ _ => rfl)
      (fun _ _ => rfl) (fun hopen' => ?_) fun hclosed => ?_
    · have hadds := hbooked.planned.adds roomId m hm (hopen.symm.trans hopen')
      exact ⟨hdone.trans hadds.done, htotal.trans hadds.total, hreserved.trans hadds.reserved⟩
    · exact hreserved.trans (hbooked.planned.closed roomId m hm (hopen.symm.trans hclosed))

end

/-! ### A blob leaves its room's migration -/

theorem booked_dropFromMigration (hbooked : h.Booked) (roomId blobRef : String) :
    (h.dropFromMigration roomId blobRef).Booked := by
  fun_cases h.dropFromMigration roomId blobRef with
  | case3 m hm hopen _ hsize =>
    have hopen : m.state.isOpen = true := by simpa using hopen
    exact booked_unplan hbooked hm rfl rfl hopen hsize hopen rfl rfl rfl
  | case4 m hm hopen _ _ hsize =>
    have hopen : m.state.isOpen = true := by simpa using hopen
    exact booked_undone hbooked hm rfl rfl hopen hsize hopen rfl rfl rfl
  | _ => exact hbooked

section
variable {run : Run} {m : Migration} (hbooked : h.Booked) (hm : h.running run = some m)
include hbooked hm

theorem booked_skip (hformed : h.Formed env) (hsize : size = (env.manifest blobRef).size) :
    (h.skip run blobRef size m).Booked := by
  obtain ⟨hstored, -, hrunning⟩ := running_eq_some hm
  have hopen : m.state.isOpen = true := by rw [hrunning]; rfl
  unfold skip
  generalize hcleared :
    (if m.inFlight.any fun f => f.blobRef == blobRef then { m with inFlight := none } else m) = cleared
  have hkept : cleared = { m with inFlight := cleared.inFlight } := by
    rw [← hcleared]
    split <;> rfl
  split
  · rename_i planned hplanned
    have hplannedSize : planned = size := (hformed.plan _ planned hplanned).trans hsize.symm
    rw [hplannedSize] at hplanned
    rw [hkept]
    exact booked_unplan hbooked hstored rfl rfl hopen hplanned hopen rfl rfl rfl
  · rw [hkept]
    exact booked_putMigration hbooked hstored rfl rfl rfl rfl rfl rfl

theorem booked_finish : (h.finish run m).Booked := by
  have hplan : (h.unreserve m.toConfig m.reservedBytes).plan = h.plan := by rw [unreserve_eq]
  exact booked_close hbooked (running_eq_some hm).1 rfl rfl rfl rfl (fun _ _ hrow => hplan ▸ hrow)
    fun _ _ => hplan ▸ rfl

theorem booked_fail : (h.fail run m).Booked :=
  booked_close hbooked (running_eq_some hm).1 rfl rfl rfl rfl (fun _ _ => filter_sub)
    fun _ hroom => tally_rows_filter_other hroom

theorem booked_recordFlight (flight : InFlight) :
    (h.putMigration run.roomId { m with inFlight := some flight }).Booked :=
  booked_putMigration hbooked (running_eq_some hm).1 rfl rfl rfl rfl rfl rfl

end

/-! ### The switch -/

section
variable {run : Run} {m : Migration} {flight : InFlight} {copy : ObjectKey} {entry : BlobEntry}

theorem storageExact_moveTo (hbooked : h.Booked) (hm : h.running run = some m)
    (hentry : h.blob run.roomId flight.blobRef = some entry) (hentrySize : entry.size = flight.size)
    (hsize : h.plan[(run.roomId, flight.blobRef)]? = some flight.size) :
    (h.moveTo run flight copy m entry).StorageExact := by
  obtain ⟨hstored, hid, hrunning⟩ := running_eq_some hm
  have hadds := hbooked.planned.adds run.roomId m hstored (by rw [hrunning]; rfl)
  have hplan := hadds.reserved
  rw [planRows, ← tally_rows_erase hsize, Prod.snd_add] at hplan
  have hunmoved : h.moved[(run.roomId, flight.blobRef, run.migrationId)]? = none := by
    refine Option.eq_none_iff_forall_ne_some.mpr fun row hrow => ?_
    exact nomatch hsize.symm.trans (hbooked.planned.fresh _ _ _ row hrow m hstored hid)
  intro key
  have hcopies : tally (copyHeld key) h.blobs =
      tally (copyHeld key) (h.blobs.erase (run.roomId, flight.blobRef)) +
        copyHeld key (run.roomId, flight.blobRef) entry := by
    rw [← tally_erase (m := h.blobs), weightAt_some hentry]
  have hmigration : tally (migrationHeld key) h.migrations =
      tally (migrationHeld key) (h.migrations.erase run.roomId) + migrationHeld key run.roomId m := by
    rw [← tally_erase (m := h.migrations), weightAt_some hstored]
  have hold : tally (movedHeld key) (h.moved.erase (run.roomId, flight.blobRef, run.migrationId)) =
      tally (movedHeld key) h.moved := tally_erase_of_weightAt (weightAt_none hunmoved)
  generalize hm' : ({ m with
    doneFiles := m.doneFiles + 1, doneBytes := m.doneBytes + flight.size,
    reservedBytes := m.reservedBytes - flight.size,
    inFlight := none, attempts := 0, nextAttemptAt := none } : Migration) = m'
  have hsplit : migrationHeld key run.roomId m = migrationHeld key run.roomId m' +
      if covers key (some m.toConfig) then { reservedBytes := flight.size } else 0 := by
    refine migrationHeld_split ?_ ?_
    · rw [← hm']
    · rw [← hm']
      dsimp only
      omega
  -- What the counter has beside the blob's bytes, which go from reserved to stored.
  obtain ⟨rest, hrest⟩ : ∃ rest, rest = tally (copyHeld key) (h.blobs.erase (run.roomId, flight.blobRef)) +
      copyHeld key (run.roomId, flight.blobRef) entry + tally (movedHeld key) h.moved +
        tally (uploadHeld key) h.uploads +
      tally (migrationHeld key) (h.migrations.erase run.roomId) + migrationHeld key run.roomId m' := ⟨_, rfl⟩
  have hbefore : h.counter key =
      rest + if covers key (some m.toConfig) then { reservedBytes := flight.size } else 0 := by
    rw [hrest, hbooked.storage key, held, hcopies, hmigration, hsplit]
    abel
  have hafter : (h.moveTo run flight copy m entry).counter key = rest +
      if covers key (some m.toConfig) then { files := 1, bytes := flight.size } else 0 := by
    refine counter_updateStorage_move (fun s => ?_) hbefore
    simp only [StorageUsage.add_def, Nat.add_zero, Nat.add_sub_cancel]
  have hheld : (h.moveTo run flight copy m entry).held key =
      tally (copyHeld key) (h.blobs.insert (run.roomId, flight.blobRef)
        { entry with configId := m.toConfig, backendRef := copy }) +
      tally (movedHeld key) (h.moved.insert (run.roomId, flight.blobRef, run.migrationId)
        ⟨entry.configId, entry.backendRef, entry.size, h.now⟩) +
      tally (uploadHeld key) h.uploads + tally (migrationHeld key) (h.migrations.insert run.roomId m') := by
    rw [← hm']
    rfl
  have hcopy : copyHeld key (run.roomId, flight.blobRef) { entry with configId := m.toConfig, backendRef := copy } =
      if covers key (some m.toConfig) then { files := 1, bytes := flight.size } else 0 := by
    rw [copyHeld, hentrySize]
  have hrow : movedHeld key (run.roomId, flight.blobRef, run.migrationId)
      ⟨entry.configId, entry.backendRef, entry.size, h.now⟩ = copyHeld key (run.roomId, flight.blobRef) entry := rfl
  rw [hafter, hheld, tally_insert_erase, tally_insert_erase, tally_insert_erase, hold, hcopy, hrow, hrest]
  abel

theorem planned_moveTo (hplanned : h.Planned) (hm : h.running run = some m)
    (hsize : h.plan[(run.roomId, flight.blobRef)]? = some flight.size) :
    (h.moveTo run flight copy m entry).Planned := by
  obtain ⟨hstored, hid, hrunning⟩ := running_eq_some hm
  have hopen : m.state.isOpen = true := by rw [hrunning]; rfl
  have hadds := hplanned.adds run.roomId m hstored hopen
  have hundone : h.done[(run.roomId, flight.blobRef)]? = none := hplanned.disjoint _ _ hsize
  have hplanRows : tally (roomRows run.roomId) (h.plan.erase (run.roomId, flight.blobRef)) + (1, flight.size) =
      h.planRows run.roomId := tally_rows_erase hsize
  have hdoneRows (room : String) : (h.moveTo run flight copy m entry).doneRows room =
      h.doneRows room + roomRows room (run.roomId, flight.blobRef) flight.size := tally_rows_insert hundone
  refine hplanned.put rfl (fun room hroom => tally_rows_erase_other hroom) (fun room hroom => ?_) (fun _ => ?_)
    (fun hclosed => nomatch hopen.symm.trans hclosed) (fun key size hrow => ?_)
    fun room blobRef id row hrow m'' hm'' hid'' => ?_
  · rw [hdoneRows, roomRows_other hroom, add_zero]
  · have htotal := hadds.total
    have hdone := hadds.done
    have hreserved := hadds.reserved
    rw [hdoneRows, roomRows, if_pos rfl]
    rw [← hplanRows] at htotal hreserved
    rw [Prod.ext_iff] at htotal hdone
    simp only [Prod.fst_add, Prod.snd_add] at htotal hdone hreserved
    refine ⟨?_, ?_, ?_⟩
    · rw [Prod.ext_iff]
      simp only [Prod.fst_add, Prod.snd_add]
      omega
    · change _ = tally (roomRows run.roomId) (h.plan.erase (run.roomId, flight.blobRef)) + _
      rw [Prod.ext_iff]
      simp only [Prod.fst_add, Prod.snd_add]
      omega
    · change m.reservedBytes - flight.size = (tally (roomRows run.roomId) (h.plan.erase (run.roomId, flight.blobRef))).2
      omega
  · obtain ⟨hkey, hrow⟩ := erase_cases hrow
    change (h.done.insert (run.roomId, flight.blobRef) flight.size)[key]? = _
    rw [getElem?_insert_eq, if_neg hkey]
    exact hplanned.disjoint key size hrow
  · refine Option.eq_none_iff_forall_ne_some.mpr fun size hplan => ?_
    obtain ⟨hkey, hplan⟩ := erase_cases hplan
    refine Option.eq_none_iff_forall_ne_some.mp ?_ size hplan
    rcases insert_cases hrow with ⟨heq, -⟩ | ⟨-, hrow⟩
    · cases heq
      exact absurd rfl hkey
    rcases insert_cases hm'' with ⟨rfl, rfl⟩ | ⟨-, hm''⟩
    · exact hplanned.fresh _ blobRef id row hrow m hstored hid''
    · exact hplanned.fresh room blobRef id row hrow m'' hm'' hid''

theorem booked_moveTo (hbooked : h.Booked) (hm : h.running run = some m)
    (hentry : h.blob run.roomId flight.blobRef = some entry) (hentrySize : entry.size = flight.size)
    (hsize : h.plan[(run.roomId, flight.blobRef)]? = some flight.size) : (h.moveTo run flight copy m entry).Booked :=
  ⟨storageExact_moveTo hbooked hm hentry hentrySize hsize, planned_moveTo hbooked.planned hm hsize⟩

end

/-! ### Effects keep the books -/

section
variable (hbooked : h.Booked)
include hbooked

theorem booked_charge (roomId : String) (entry : BlobEntry) (add : Bool) : (h.charge roomId entry add).Booked := by
  have hquiet : Quiet _ (h.charge roomId entry add) := quiet_recordActivity _ _ _ _
  exact hbooked.frame hquiet.storage hquiet.blobs hquiet.moved hquiet.uploads hquiet.migrations hquiet.plan hquiet.done

theorem booked_putBlob (hentry : h.blob roomId blobRef = some entry) (hsame : entry.SamePlace entry') :
    (h.putBlob roomId blobRef entry').Booked := by
  refine ⟨hbooked.storage.putBlob (fun _ => rfl) fun key x hbefore => ?_, hbooked.planned.frame rfl rfl rfl rfl⟩
  rw [weightAt_some hentry] at hbefore
  refine hbefore.trans ?_
  unfold copyHeld
  rw [hsame.configId, hsame.size]

theorem booked_adjustRefs (roomId blobRef : String) (delta : Int) (member : Option String) :
    (h.adjustRefs roomId blobRef delta member).Booked := by
  unfold adjustRefs
  split
  · exact hbooked
  · rename_i entry hentry
    split
    · unfold reference
      split
      · refine booked_putBlob (booked_charge hbooked _ _ _) (Eq.trans ?_ hentry) ⟨rfl, rfl, rfl⟩
        rw [blob, blob, blobs_charge]
      · exact booked_putBlob hbooked hentry ⟨rfl, rfl, rfl⟩
    · unfold dereference
      split
      · refine booked_putBlob (booked_dropFromMigration (booked_charge hbooked _ _ _) _ _) (Eq.trans ?_ hentry)
          ⟨rfl, rfl, rfl⟩
        rw [blob, blob, blobs_dropFromMigration, blobs_charge]
      · exact booked_putBlob hbooked hentry ⟨rfl, rfl, rfl⟩

theorem booked_collected (hentry : h.blob roomId blobRef = some entry) : (h.collected roomId blobRef entry).Booked := by
  unfold collected
  dsimp only
  generalize hcredited : (if entry.state = .committed then
    (h.deleteObject entry.configId entry.backendRef).charge roomId entry false
    else h.deleteObject entry.configId entry.backendRef) = credited
  have hdeleted : (h.deleteObject entry.configId entry.backendRef).Booked :=
    hbooked.frame rfl rfl rfl rfl rfl rfl rfl
  have hbooked' : credited.Booked ∧ credited.blobs = h.blobs := by
    rw [← hcredited]
    split
    · exact ⟨booked_charge hdeleted _ _ _, blobs_charge _ _ _⟩
    · exact ⟨hdeleted, rfl⟩
  rw [← hbooked'.2]
  refine ⟨hbooked'.1.storage.eraseBlob (fun _ => rfl) fun key x hbefore => ?_,
    hbooked'.1.planned.frame rfl rfl rfl rfl⟩
  rw [hbooked'.2, weightAt_some hentry] at hbefore
  exact counter_uncountCopy hbefore

theorem booked_stored {rec : UploadRecord} {key : ObjectKey}
    (hrec : h.uploads[id]? = some rec) (hopen : rec.phase = .opened) (hnew : rec.alreadyCommitted = false)
    (hconfig : rec.configId = some configId) (habsent : h.blob rec.roomId rec.blobRef = none) :
    (h.storeBlob id rec configId key).Booked := by
  have hquiet := quiet_storeBlob (h := h) id rec configId key
  refine ⟨StorageExact.frame (fun at' => ?_) hquiet.storage hquiet.blobs hquiet.moved hquiet.uploads hquiet.migrations,
    hbooked.planned.frame hquiet.migrations hquiet.plan hquiet.done hquiet.moved⟩
  obtain ⟨rest, hrest⟩ : ∃ rest, rest = tally (copyHeld at') h.blobs + tally (movedHeld at') h.moved +
      tally (uploadHeld at') (h.uploads.erase id) + tally (migrationHeld at') h.migrations := ⟨_, rfl⟩
  have hbefore : h.counter at' = rest + uploadHeld at' id rec := by
    have hweight : weightAt (uploadHeld at') h.uploads id = uploadHeld at' id rec := weightAt_some hrec
    rw [hrest, hbooked.storage at', held, ← tally_erase (m := h.uploads), hweight]
    abel
  have hblobs : tally (copyHeld at') (h.blobs.erase (rec.roomId, rec.blobRef)) = tally (copyHeld at') h.blobs :=
    tally_erase_of_weightAt (weightAt_none habsent)
  have hended : uploadHeld at' id { rec with phase := .committed, finishedAt := some h.now } = 0 :=
    uploadHeld_ended fun hphase => nomatch hphase
  refine (counter_convertReservation hopen hnew hconfig hbefore).trans ?_
  rw [held, tally_insert_erase, tally_insert_erase, hblobs, hended, copyHeld, storedEntry, hrest]
  dsimp only [convertReservation, updateUsage, updateStorage]
  abel

end

theorem sum_planItems (roomId toConfig : String) :
    tally (roomRows roomId) (h.planned roomId (h.planItems roomId toConfig)) =
      ((h.planItems roomId toConfig).length, ((h.planItems roomId toConfig).map Prod.snd).sum) := by
  have hblobs : tally (roomRows roomId) (h.planned roomId (h.planItems roomId toConfig)) =
      tally (fun key entry => if key.1 = roomId ∧ entry.state = .committed ∧ entry.configId ≠ toConfig then
        (1, entry.size) else 0) h.blobs := by
    refine tally_eq_of_weightAt fun key => ?_
    rw [weightAt, weightAt, getElem?_planned]
    by_cases hroom : key.1 = roomId
    · rw [if_pos hroom]
      cases h.blobs[key]? with
      | none => rfl
      | some entry =>
        have htoMove : toMove toConfig entry = decide (entry.state = .committed ∧ entry.configId ≠ toConfig) := rfl
        rw [Option.filter_some, Option.elim_some, htoMove]
        by_cases hmove : entry.state = .committed ∧ entry.configId ≠ toConfig
        · rw [if_pos (decide_eq_true hmove), if_pos ⟨hroom, hmove⟩, Option.map_some, Option.elim_some, roomRows,
            if_pos hroom]
        · rw [if_neg (fun htrue => hmove (of_decide_eq_true htrue)), if_neg (fun hboth => hmove hboth.2),
            Option.map_none, Option.elim_none]
    · rw [if_neg hroom]
      cases h.plan[key]? <;> cases h.blobs[key]? <;> simp [hroom, roomRows]
  rw [hblobs, tally]
  unfold planItems
  induction h.blobs.toList with
  | nil => rfl
  | cons row _ ih =>
    rw [List.map_cons, List.sum_cons, List.filterMap_cons, ih]
    by_cases hrow : row.1.1 = roomId ∧ row.2.state = .committed ∧ row.2.configId ≠ toConfig
    · rw [if_pos hrow, if_pos hrow]
      rw [List.length_cons, List.map_cons, List.sum_cons, Prod.mk_add_mk, Nat.add_comm 1]
    · rw [if_neg hrow, if_neg hrow, zero_add]

theorem counter_beginMigration (req : MigrationRequest) (items : List (String × Nat)) (key : Option String) :
    (h.beginMigration req items).counter key = h.counter key +
      if covers key (some req.toConfig) then { reservedBytes := (items.map Prod.snd).sum } else 0 := by
  unfold beginMigration
  dsimp only
  split
  · refine counter_updateStorage_move (a := 0) (fun s => ?_) ?_
    · simp only [StorageUsage.add_def, StorageUsage.zero_def, Nat.add_zero]
    · rw [ite_self, add_zero]
  · rename_i hzero
    have hzero : (items.map Prod.snd).sum = 0 := Nat.eq_zero_of_not_pos hzero
    rw [hzero]
    exact ((congrArg (h.counter key + ·) (ite_self _)).trans (add_zero _)).symm

theorem Begins.booked {req : MigrationRequest} (hbegins : h.Begins req h') (hbooked : h.Booked)
    (hformed : h.Formed env) : h'.Booked := by
  obtain ⟨hclosed, rfl⟩ := hbegins
  have hcounter := counter_beginMigration (h := h) req (h.planItems req.roomId req.toConfig)
  have hrows := sum_planItems (h := h) req.roomId req.toConfig
  have hweight (key : Option String) : weightAt (migrationHeld key) h.migrations req.roomId = 0 := by
    cases hm : h.migrations[req.roomId]? with
    | none => exact weightAt_none hm
    | some m =>
      rw [weightAt_some hm, migrationHeld, hbooked.planned.closed req.roomId m hm (hclosed m hm)]
      exact ite_self _
  rw [beginMigration_eq] at hcounter ⊢
  constructor
  · refine hbooked.storage.putMigration (fun _ => rfl) fun key x hbefore => ?_
    rw [hweight, add_zero] at hbefore
    rw [hcounter, hbefore]
    rfl
  · refine hbooked.planned.put rfl (fun room hroom => ?_) (fun room => tally_rows_filter_other)
      (fun _ => ⟨tally_rows_filter.symm, ?_, ?_⟩) (fun hclosed' => ?_) (fun key size hsize => ?_)
      fun room blobRef id row hrow m hm hid => ?_
    · refine tally_eq_of_weightAt fun key => ?_
      rw [weightAt, weightAt, getElem?_planned]
      split
      · rename_i hkey
        have hother : key.1 ≠ room := hkey ▸ hroom
        cases h.plan[key]? <;> cases h.blobs[key]?.filter (toMove req.toConfig) <;> simp [roomRows, hother]
      · rfl
    · change _ = tally (roomRows req.roomId) (h.planned req.roomId (h.planItems req.roomId req.toConfig)) +
        tally (roomRows req.roomId) (h.done.filter fun key _ => key.1 ≠ req.roomId)
      rw [hrows, tally_rows_filter, add_zero]
      rfl
    · change _ = (tally (roomRows req.roomId) (h.planned req.roomId (h.planItems req.roomId req.toConfig))).2
      rw [hrows]
      rfl
    · cases hitems : h.planItems req.roomId req.toConfig with
      | nil => rfl
      | cons =>
        rw [hitems] at hclosed'
        unfold newMigration at hclosed'
        dsimp only [List.isEmpty_cons] at hclosed'
        rw [if_neg Bool.false_ne_true] at hclosed'
        split at hclosed' <;> cases hclosed'
    · rw [getElem?_planned] at hsize
      rw [getElem?_filter_eq]
      split at hsize
      · rename_i hroom
        cases h.done[key]? <;> simp [hroom]
      · rw [hbooked.planned.disjoint key size hsize]
        rfl
    · rw [getElem?_planned]
      rcases insert_cases hm with ⟨rfl, rfl⟩ | ⟨hroom, hm⟩
      · exact absurd hid (hformed.moved _ row hrow).2.ne'
      · rw [if_neg (Ne.symm hroom)]
        exact hbooked.planned.fresh room blobRef id row hrow m hm hid

theorem booked_kept (hbooked : h.Booked) {migrations : ExtTreeMap String Migration}
    (hkept : ∀ roomId : String, Option.Rel Migration.Kept h.migrations[roomId]? migrations[roomId]?) :
    Booked { h with migrations } := by
  have hback {roomId : String} {m' : Migration} (hm' : migrations[roomId]? = some m') :
      ∃ m, h.migrations[roomId]? = some m ∧ m.Kept m' := by
    have hrel := hkept roomId
    rw [hm'] at hrel
    exact rel_some hrel
  constructor
  · intro key
    have htally : tally (migrationHeld key) h.migrations = tally (migrationHeld key) migrations := by
      refine tally_eq_of_weightAt fun roomId => ?_
      have hrel := hkept roomId
      rw [weightAt, weightAt]
      generalize h.migrations[roomId]? = before at hrel ⊢
      generalize migrations[roomId]? = after at hrel ⊢
      cases hrel with
      | none => rfl
      | some hsame =>
        rw [Option.elim_some, Option.elim_some, migrationHeld, migrationHeld, hsame.toConfig, hsame.reservedBytes]
    refine (hbooked.storage key).trans ?_
    rw [held, held, htally]
  · refine ⟨fun roomId m' hm' hopen => ?_, fun roomId m' hm' hclosed => ?_, hbooked.planned.disjoint,
      fun roomId blobRef id row hrow m' hm' hid => ?_⟩
    · obtain ⟨m, hm, hsame⟩ := hback hm'
      have hadds := hbooked.planned.adds roomId m hm (hsame.isOpen.symm.trans hopen)
      refine ⟨?_, ?_, hsame.reservedBytes.trans hadds.reserved⟩
      · rw [hsame.doneFiles, hsame.doneBytes]
        exact hadds.done
      · rw [hsame.totalFiles, hsame.totalBytes]
        exact hadds.total
    · obtain ⟨m, hm, hsame⟩ := hback hm'
      exact hsame.reservedBytes.trans (hbooked.planned.closed roomId m hm (hsame.isOpen.symm.trans hclosed))
    · obtain ⟨m, hm, hsame⟩ := hback hm'
      exact hbooked.planned.fresh roomId blobRef id row hrow m hm (hsame.migrationId.symm.trans hid)

theorem booked_uncounted (hbooked : h.Booked) {key : String × String × Nat} {row : MovedCopy}
    (hrow : h.moved[key]? = some row) :
    Booked { h.uncountCopy row.configId row.size with moved := h.moved.erase key } := by
  have hplanned := hbooked.planned
  have hcounter (at' : Option String) (x : StorageUsage)
      (hbefore : h.counter at' = x + weightAt (movedHeld at') h.moved key) :
      (h.uncountCopy row.configId row.size).counter at' = x := by
    rw [weightAt_some hrow] at hbefore
    exact counter_uncountCopy hbefore
  refine ⟨hbooked.storage.eraseMoved (fun _ => rfl) hcounter, hplanned.adds, hplanned.closed, hplanned.disjoint, ?_⟩
  exact fun roomId blobRef id row' hrow' => hplanned.fresh roomId blobRef id row' (erase_sub hrow')

end Host

theorem Effect.booked (heffect : Effect env allowed h h') (hformed : h.Formed env) (hbooked : h.Booked) :
    h'.Booked := by
  cases heffect with
  | quiet hquiet =>
    exact hbooked.frame hquiet.storage hquiet.blobs hquiet.moved hquiet.uploads hquiet.migrations
      hquiet.plan hquiet.done
  | limited | reclaimed | duplicated | dropped => exact hbooked.frame rfl rfl rfl rfl rfl rfl rfl
  | opened rec hphase =>
    have hcounter (key : Option String) : (h.hold rec).counter key = h.counter key + uploadHeld key h.nextId rec :=
      counter_hold hphase
    rw [hold_eq] at hcounter ⊢
    refine ⟨hbooked.storage.putUpload (fun _ => rfl) fun key x hbefore => ?_, hbooked.planned.frame rfl rfl rfl rfl⟩
    rw [weightAt_none (uploads_nextId hformed), add_zero] at hbefore
    rw [← hbefore]
    exact hcounter key
  | rebound _ _ _ hrec hsame hphase =>
    refine ⟨hbooked.storage.putUpload (fun _ => rfl) fun key x hbefore => ?_, hbooked.planned.frame rfl rfl rfl rfl⟩
    rw [weightAt_some hrec] at hbefore
    rw [uploadHeld_same hsame hphase]
    exact hbefore
  | closed id rec _ hrec hopen _ hphase =>
    have hcounter (key : Option String) (x : StorageUsage) (hbefore : h.counter key = x + uploadHeld key id rec) :
        (h.letGo rec).counter key = x := counter_letGo hopen hbefore
    rw [letGo_eq] at hcounter ⊢
    refine ⟨hbooked.storage.putUpload (fun _ => rfl) fun key x hbefore => ?_, hbooked.planned.frame rfl rfl rfl rfl⟩
    rw [weightAt_some hrec] at hbefore
    rw [uploadHeld_ended hphase, add_zero]
    exact hcounter key x hbefore
  | stored _ rec configId key hrec hopen hnew habsent hconfig =>
    have hput : (h.putObject configId key rec.blobRef).Booked := hbooked.frame rfl rfl rfl rfl rfl rfl rfl
    exact booked_stored hput hrec hopen hnew hconfig habsent
  | forgotten id _ hdone =>
    refine ⟨hbooked.storage.eraseUpload (fun _ => rfl) fun key x hbefore => ?_, hbooked.planned.frame rfl rfl rfl rfl⟩
    cases hrow : h.uploads[id]? with
    | none =>
      rw [weightAt_none hrow, add_zero] at hbefore
      exact hbefore
    | some stored =>
      rw [weightAt_some hrow, uploadHeld_ended (hdone stored hrow).2, add_zero] at hbefore
      exact hbefore
  | wrote roomId _ _ member =>
    refine applyRefs_induction hbooked (fun h b delta hbooked => booked_adjustRefs hbooked roomId b delta member)
      fun h recordBlobs hbooked => hbooked.frame rfl rfl rfl rfl rfl rfl rfl
  | collected roomId blobRef =>
    rcases collectBlob_cases (h := h) roomId blobRef with heq | ⟨entry, hentry, -, heq⟩
    · rwa [heq]
    · rw [heq]
      exact booked_dropFromMigration (booked_collected hbooked hentry) roomId blobRef
  | uncounted _ _ hrow => exact booked_uncounted hbooked hrow
  | kept _ hkept => exact booked_kept hbooked hkept

end TrustInfrastructure.Blobs
