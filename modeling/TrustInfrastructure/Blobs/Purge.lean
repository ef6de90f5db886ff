import TrustInfrastructure.Blobs.Exact

/-!
# Purging a room

`purge_room` goes through the room's rows kind by kind, and every row goes with its bytes: a store is asked to delete
the object first, and when it refuses, the row stays for the next try. Whatever is refused, a purge takes rows and
objects of the room away (`Takes`): it changes no row that is left (`Fewer`) and touches no other room (`OnlyRoom`).
That a row is the room's, and its object under a key of the room, is known of the host the row was read from.
-/

namespace TrustInfrastructure.Blobs

open Lib Host
open Std (ExtTreeMap)

variable {env : Env} {h h' h'' : Host} {roomId : String} {id : Nat} {rec : UploadRecord}

/-- The rows and objects of the other rooms are as they were. -/
structure Host.OnlyRoom (roomId : String) (h h' : Host) : Prop where
  blobs : ∀ key : String × String, key.1 ≠ roomId → h'.blobs[key]? = h.blobs[key]?
  recordBlobs : ∀ key : String × String, key.1 ≠ roomId → h'.recordBlobs[key]? = h.recordBlobs[key]?
  uploads : ∀ (id : Nat) (rec : UploadRecord), rec.roomId ≠ roomId →
    (h'.uploads[id]? = some rec ↔ h.uploads[id]? = some rec)
  uploadIndex : ∀ key : String × String × String, key.2.1 ≠ roomId → h'.uploadIndex[key]? = h.uploadIndex[key]?
  downloads : ∀ (id : Nat) (rec : DownloadRecord), rec.roomId ≠ roomId →
    (h'.downloads[id]? = some rec ↔ h.downloads[id]? = some rec)
  usage : ∀ scope : Scope, scope.1 ≠ roomId → h'.usage[scope]? = h.usage[scope]?
  lastUpload : ∀ scope : Scope, scope.1 ≠ roomId → h'.lastUpload[scope]? = h.lastUpload[scope]?
  days : ∀ key : Scope × Nat, key.1.1 ≠ roomId → h'.days[key]? = h.days[key]?
  roomOverrides : ∀ room : String, room ≠ roomId → h'.roomOverrides[room]? = h.roomOverrides[room]?
  memberOverrides : ∀ key : String × String, key.1 ≠ roomId → h'.memberOverrides[key]? = h.memberOverrides[key]?
  migrations : ∀ room : String, room ≠ roomId → h'.migrations[room]? = h.migrations[room]?
  plan : ∀ key : String × String, key.1 ≠ roomId → h'.plan[key]? = h.plan[key]?
  done : ∀ key : String × String, key.1 ≠ roomId → h'.done[key]? = h.done[key]?
  moved : ∀ key : String × String × Nat, key.1 ≠ roomId → h'.moved[key]? = h.moved[key]?
  objects : ∀ configId key, key.roomId ≠ roomId → h'.objects configId key = h.objects configId key

/-- Rows are as they were, or gone. -/
structure Host.Fewer (h h' : Host) : Prop where
  now : h'.now = h.now
  nextId : h'.nextId = h.nextId
  blobs : ∀ (key : String × String) (entry : BlobEntry), h'.blobs[key]? = some entry → h.blobs[key]? = some entry
  uploads : ∀ (id : Nat) (rec : UploadRecord), h'.uploads[id]? = some rec → h.uploads[id]? = some rec
  migrations : ∀ (room : String) (m : Migration), h'.migrations[room]? = some m → h.migrations[room]? = some m
  plan : ∀ (key : String × String) (size : Nat), h'.plan[key]? = some size → h.plan[key]? = some size
  moved : ∀ (key : String × String × Nat) (row : MovedCopy), h'.moved[key]? = some row → h.moved[key]? = some row

/-- The room loses rows and objects, and nothing else changes. -/
structure Host.Takes (roomId : String) (h h' : Host) : Prop where
  onlyRoom : h.OnlyRoom roomId h'
  fewer : h.Fewer h'

namespace Host

theorem OnlyRoom.refl (roomId : String) (h : Host) : h.OnlyRoom roomId h :=
  ⟨fun _ _ => rfl, fun _ _ => rfl, fun _ _ _ => .rfl, fun _ _ => rfl, fun _ _ _ => .rfl, fun _ _ => rfl, fun _ _ => rfl,
    fun _ _ => rfl, fun _ _ => rfl, fun _ _ => rfl, fun _ _ => rfl, fun _ _ => rfl, fun _ _ => rfl, fun _ _ => rfl,
    fun _ _ _ => rfl⟩

theorem OnlyRoom.trans (ho : h.OnlyRoom roomId h') (ho' : h'.OnlyRoom roomId h'') : h.OnlyRoom roomId h'' where
  blobs key hkey := (ho'.blobs key hkey).trans (ho.blobs key hkey)
  recordBlobs key hkey := (ho'.recordBlobs key hkey).trans (ho.recordBlobs key hkey)
  uploads id rec hrec := (ho'.uploads id rec hrec).trans (ho.uploads id rec hrec)
  uploadIndex key hkey := (ho'.uploadIndex key hkey).trans (ho.uploadIndex key hkey)
  downloads id rec hrec := (ho'.downloads id rec hrec).trans (ho.downloads id rec hrec)
  usage scope hscope := (ho'.usage scope hscope).trans (ho.usage scope hscope)
  lastUpload scope hscope := (ho'.lastUpload scope hscope).trans (ho.lastUpload scope hscope)
  days key hkey := (ho'.days key hkey).trans (ho.days key hkey)
  roomOverrides room hroom := (ho'.roomOverrides room hroom).trans (ho.roomOverrides room hroom)
  memberOverrides key hkey := (ho'.memberOverrides key hkey).trans (ho.memberOverrides key hkey)
  migrations room hroom := (ho'.migrations room hroom).trans (ho.migrations room hroom)
  plan key hkey := (ho'.plan key hkey).trans (ho.plan key hkey)
  done key hkey := (ho'.done key hkey).trans (ho.done key hkey)
  moved key hkey := (ho'.moved key hkey).trans (ho.moved key hkey)
  objects configId key hkey := (ho'.objects configId key hkey).trans (ho.objects configId key hkey)

theorem Fewer.refl (h : Host) : h.Fewer h :=
  ⟨rfl, rfl, fun _ _ => id, fun _ _ => id, fun _ _ => id, fun _ _ => id, fun _ _ => id⟩

theorem Fewer.trans (hf : h.Fewer h') (hf' : h'.Fewer h'') : h.Fewer h'' where
  now := hf'.now.trans hf.now
  nextId := hf'.nextId.trans hf.nextId
  blobs key entry hrow := hf.blobs key entry (hf'.blobs key entry hrow)
  uploads id rec hrow := hf.uploads id rec (hf'.uploads id rec hrow)
  migrations room m hrow := hf.migrations room m (hf'.migrations room m hrow)
  plan key size hrow := hf.plan key size (hf'.plan key size hrow)
  moved key row hrow := hf.moved key row (hf'.moved key row hrow)

theorem Fewer.formed (hf : h.Fewer h') (hformed : h.Formed env) : h'.Formed env := by
  refine hformed.sub hf.nextId.ge hf.uploads hf.blobs hf.plan hf.moved fun room m hm => ?_
  rw [hf.nextId]
  exact hformed.migrations room m (hf.migrations room m hm)

theorem Fewer.evolves (hf : h.Fewer h') : h.Evolves h' := .sub hf.now.ge hf.nextId.ge hf.uploads hf.migrations

theorem Takes.refl (roomId : String) (h : Host) : h.Takes roomId h := ⟨.refl roomId h, .refl h⟩

theorem Takes.trans (ht : h.Takes roomId h') (ht' : h'.Takes roomId h'') : h.Takes roomId h'' :=
  ⟨ht.onlyRoom.trans ht'.onlyRoom, ht.fewer.trans ht'.fewer⟩

/-! ### One row -/

theorem takes_storage (storage : ExtTreeMap (Option String) StorageUsage) : h.Takes roomId { h with storage } :=
  ⟨{ OnlyRoom.refl roomId h with }, { Fewer.refl h with }⟩

theorem takes_slots (slots : ExtTreeMap Nat Slot) : h.Takes roomId { h with slots } :=
  ⟨{ OnlyRoom.refl roomId h with }, { Fewer.refl h with }⟩

theorem takes_deleteObject {configId : String} {key : ObjectKey} (hroom : key.roomId = roomId) :
    h.Takes roomId (h.deleteObject configId key) where
  onlyRoom :=
    { OnlyRoom.refl roomId h with
      objects := fun configId' key' hkey => by
        rw [objects_deleteObject, if_neg]
        rintro ⟨-, rfl⟩
        exact hkey hroom }
  fewer := { Fewer.refl h with }

theorem takes_forgetUpload (hfound : ∀ found, h.uploads[id]? = some found → found.roomId = roomId)
    (hroom : rec.roomId = roomId) : h.Takes roomId (h.forgetUpload id rec) where
  onlyRoom :=
    { OnlyRoom.refl roomId h with
      uploads := by
        intro id' rec' hrec'
        change (h.uploads.erase id)[id']? = some rec' ↔ _
        rw [getElem?_erase_eq]
        split
        · rename_i heq
          subst heq
          exact ⟨fun hnone => (nomatch hnone), fun hsome => absurd (hfound rec' hsome) hrec'⟩
        · exact .rfl
      uploadIndex := by
        intro key hkey
        unfold forgetUpload
        dsimp only
        split
        · exact erase_other fun heq => hkey (by rw [← heq, hroom])
        · rfl }
  fewer := { Fewer.refl h with uploads := fun _ _ => erase_sub }

variable (fails : String → ObjectKey → Bool) {p : Purging}

theorem takes_purgeObject {configId : String} {key : ObjectKey} (hroom : key.roomId = roomId) :
    p.2.Takes roomId (purgeObject fails configId key p).2.2 := by
  unfold purgeObject
  split
  · exact .refl roomId p.2
  · exact takes_deleteObject hroom

section
variable (hformed : h.Formed env) (hfewer : h.Fewer p.2)
include hformed hfewer

theorem takes_purgeUpload (hrec : h.uploads[id]? = some rec) (hroom : rec.roomId = roomId) :
    p.2.Takes roomId (purgeUpload fails p (id, rec)).2 := by
  have hforgot {left : Host} (htakes : p.2.Takes roomId left) :
      p.2.Takes roomId ((if rec.reserves then left.updateStorage rec.configId fun s =>
        { s with reservedBytes := s.reservedBytes - rec.size } else left).forgetUpload id rec) := by
    have hreleased : ∃ storage, (if rec.reserves then left.updateStorage rec.configId fun s =>
        { s with reservedBytes := s.reservedBytes - rec.size } else left) = { left with storage } := by
      split <;> exact ⟨_, rfl⟩
    obtain ⟨storage, heq⟩ := hreleased
    rw [heq]
    refine (htakes.trans (takes_storage storage)).trans (takes_forgetUpload (fun found hfound => ?_) hroom)
    cases hrec.symm.trans ((hfewer.trans htakes.fewer).uploads id found hfound)
    exact hroom
  unfold purgeUpload
  dsimp only
  split
  · exact hforgot (.refl roomId p.2)
  · cases hdirect : rec.direct with
    | some d =>
      dsimp only
      split
      · exact .refl roomId p.2
      · have hkey := ((hformed.uploads id rec hrec).1.direct d.objectKey (by rw [hdirect]; rfl)).2
        have habort : p.2.Takes roomId (p.2.abortDirect rec) := by
          rw [abortDirect, hdirect]
          exact takes_deleteObject (by rw [hkey]; exact hroom)
        exact hforgot habort
    | none =>
      obtain ⟨slots, hstopped⟩ := abortSlot_eq (h := p.2) rec.opener id
      have hslots : p.2.Takes roomId (if rec.alreadyCommitted then p.2 else p.2.abortSlot rec.opener id) := by
        rw [hstopped]
        split
        · exact .refl roomId p.2
        · exact takes_slots slots
      exact hforgot hslots

theorem takes_purgeMigration : p.2.Takes roomId (purgeMigration fails roomId p).2 := by
  unfold purgeMigration
  extract_lets copy deleted left released
  have hdeleted : p.2.Takes roomId left := by
    dsimp only [left, deleted]
    cases hcopy : copy with
    | none => exact .refl roomId p.2
    | some =>
      -- the copy is one that the room's migration has recorded
      obtain ⟨m, hm, hcopy⟩ := Option.bind_eq_some_iff.mp hcopy
      obtain ⟨recorded, hflight, hcopy⟩ := Option.bind_eq_some_iff.mp hcopy
      obtain ⟨object, hobject, hcopy⟩ := Option.bind_eq_some_iff.mp hcopy
      have hkey := (((hfewer.formed hformed).migrations roomId m hm).2 recorded hflight).2 object hobject
      split at hcopy
      · cases hcopy
      · cases hcopy
        exact takes_purgeObject fails (by rw [hkey]; rfl)
  have hreleased : ∃ storage, released = { left with storage } := by
    dsimp only [released]
    split
    · exact ⟨_, unreserve_eq _ _⟩
    · exact ⟨_, rfl⟩
  obtain ⟨storage, heq⟩ := hreleased
  split
  · exact hdeleted
  · dsimp only
    rw [heq]
    exact hdeleted.trans ⟨
      { OnlyRoom.refl roomId left with
        migrations := fun _ hroom => erase_other hroom.symm
        plan := fun _ hkey => filter_other fun _ => decide_eq_true hkey
        done := fun _ hkey => filter_other fun _ => decide_eq_true hkey },
      { Fewer.refl left with
        migrations := fun _ _ => erase_sub
        plan := fun _ _ => filter_sub }⟩

omit hfewer in
theorem takes_purgeMoved {key : String × String × Nat} {copy : MovedCopy} (hrow : h.moved[key]? = some copy)
    (hroom : key.1 = roomId) : p.2.Takes roomId (purgeMoved fails p (key, copy)).2 := by
  have hkey : copy.backendRef.roomId = roomId := (hformed.moved key copy hrow).1.2.1.trans hroom
  have hdeleted : p.2.Takes roomId (if p.2.names key.1 key.2.1 copy.configId copy.backendRef then (true, p)
      else purgeObject fails copy.configId copy.backendRef p).2.2 := by
    split
    · exact .refl roomId p.2
    · exact takes_purgeObject fails hkey
  unfold purgeMoved
  dsimp only
  generalize (if p.2.names key.1 key.2.1 copy.configId copy.backendRef then (true, p)
    else purgeObject fails copy.configId copy.backendRef p) = deleted at hdeleted ⊢
  split
  · exact hdeleted
  · exact hdeleted.trans ⟨
      { OnlyRoom.refl roomId deleted.2.2 with
        moved := fun key' hkey' => erase_other fun heq => hkey' (heq ▸ hroom) },
      { Fewer.refl deleted.2.2 with moved := fun _ _ => erase_sub }⟩

omit hfewer in
theorem takes_purgeBlob {key : String × String} {entry : BlobEntry} (hrow : h.blobs[key]? = some entry)
    (hroom : key.1 = roomId) : p.2.Takes roomId (purgeBlob fails p (key, entry)).2 := by
  have hkey : entry.backendRef.roomId = roomId := (hformed.blobs key entry hrow).2.1.trans hroom
  have hdeleted : p.2.Takes roomId (purgeObject fails entry.configId entry.backendRef p).2.2 :=
    takes_purgeObject fails hkey
  unfold purgeBlob
  dsimp only
  generalize purgeObject fails entry.configId entry.backendRef p = deleted at hdeleted ⊢
  split
  · exact hdeleted
  · exact hdeleted.trans ⟨
      { OnlyRoom.refl roomId deleted.2.2 with
        blobs := fun key' hkey' => erase_other fun heq => hkey' (heq ▸ hroom) },
      { Fewer.refl deleted.2.2 with blobs := fun _ _ => erase_sub }⟩

end

/-! ### The room -/

theorem takes_bookkeeping : h.Takes roomId (h.purgeBookkeeping roomId) where
  onlyRoom :=
    { OnlyRoom.refl roomId h with
      recordBlobs := fun _ hkey => filter_other fun _ => decide_eq_true hkey
      usage := fun _ hscope => filter_other fun _ => decide_eq_true hscope
      days := fun _ hkey => filter_other fun _ => decide_eq_true hkey
      lastUpload := fun _ hscope => filter_other fun _ => decide_eq_true hscope
      roomOverrides := fun _ hroom => erase_other hroom.symm
      memberOverrides := fun _ hkey => filter_other fun _ => decide_eq_true hkey }
  fewer := { Fewer.refl h with }

theorem takes_served : h.Takes roomId { h with downloads := h.downloads.filter fun _ rec => rec.roomId ≠ roomId } where
  onlyRoom :=
    { OnlyRoom.refl roomId h with
      downloads := fun id rec hrec => by
        rw [getElem?_filter_eq, Option.filter_eq_some_iff]
        exact ⟨fun hsome => hsome.1, fun hsome => ⟨hsome, decide_eq_true hrec⟩⟩ }
  fewer := { Fewer.refl h with }

/-- The rows of one kind that were the room's. -/
theorem takes_rows {K V : Type} [Ord K] [Std.TransOrd K] [Std.LawfulEqOrd K] {table : ExtTreeMap K V}
    {q : K × V → Prop} [DecidablePred q] {f : Purging → K × V → Purging} (p : Purging)
    (hrow : ∀ left : Purging, p.2.Fewer left.2 → ∀ key v, table[key]? = some v → q (key, v) →
      left.2.Takes roomId (f left (key, v)).2) :
    p.2.Takes roomId ((table.toList.filter fun row => q row).foldl f p).2 := by
  have hfold : ∀ (rows : List (K × V)) (left : Purging), p.2.Takes roomId left.2 →
      (∀ row ∈ rows, table[row.1]? = some row.2 ∧ q row) → p.2.Takes roomId (rows.foldl f left).2 := by
    intro rows
    induction rows with
    | nil => exact fun left htakes _ => htakes
    | cons row rows ih =>
      intro left htakes hrows
      obtain ⟨hstored, hq⟩ := hrows row List.mem_cons_self
      refine ih (f left row) (htakes.trans (hrow left htakes.fewer row.1 row.2 hstored hq)) fun row' hrow' => ?_
      exact hrows row' (List.mem_cons_of_mem row hrow')
  refine hfold _ p (.refl roomId p.2) fun row hrow => ?_
  obtain ⟨hmem, hq⟩ := List.mem_filter.mp hrow
  exact ⟨ExtTreeMap.mem_toList_iff_getElem?_eq_some.mp hmem, of_decide_eq_true hq⟩

/-- A purge, complete or not, takes away from the room alone. -/
theorem takes_purgeRoom (roomId : String) (hformed : h.Formed env) : h.Takes roomId (h.purgeRoom fails roomId).2 := by
  unfold purgeRoom
  extract_lets served uploads migration moved blobs
  have hserved : h.Takes roomId served := takes_served
  have huploads : h.Takes roomId uploads.2 := hserved.trans <| takes_rows ({}, served) fun _ hfewer _ _ hrec hroom =>
    takes_purgeUpload fails (hserved.fewer.formed hformed) hfewer hrec hroom
  have hmigration : h.Takes roomId migration.2 :=
    huploads.trans (takes_purgeMigration fails (huploads.fewer.formed hformed) (.refl uploads.2))
  have hmoved : h.Takes roomId moved.2 := hmigration.trans <| takes_rows migration fun _ _ _ _ hrow hroom =>
    takes_purgeMoved fails (hmigration.fewer.formed hformed) hrow hroom
  have hblobs : h.Takes roomId blobs.2 := hmoved.trans <| takes_rows moved fun _ _ _ _ hrow hroom =>
    takes_purgeBlob fails (hmoved.fewer.formed hformed) hrow hroom
  split
  · exact hblobs.trans takes_bookkeeping
  · exact hblobs

end Host

end TrustInfrastructure.Blobs
