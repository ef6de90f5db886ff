import TrustInfrastructure.Blobs.Steps

/-!
# Rows that are well formed

Every row a host keeps is of the size its blob's manifest states and points at an object of that blob, and identifiers
are drawn before they are used (`Host.Formed`). Every effect keeps this (`Effect.formed`).

A change of references, and the part of a migration that goes with it, leaves stored bytes where they are: `Touches`
says what it can do, so that nothing below has to take a record write apart again.
-/

namespace TrustInfrastructure.Blobs

open Lib Host
open Std (ExtTreeMap)

variable {env : Env} {allowed : Allowed} {h h' h'' : Host}

/-! ### What reference changes leave alone -/

/-- The same stored bytes, whoever names or pays for them. -/
structure BlobEntry.SamePlace (entry entry' : BlobEntry) : Prop where
  size : entry'.size = entry.size
  configId : entry'.configId = entry.configId
  backendRef : entry'.backendRef = entry.backendRef

structure Migration.Same (m m' : Migration) : Prop where
  migrationId : m'.migrationId = m.migrationId
  toConfig : m'.toConfig = m.toConfig
  state : m'.state = m.state
  inFlight : m'.inFlight = m.inFlight

section
variable {α : Type} {R : α → α → Prop}

theorem rel_refl (hrefl : ∀ a, R a a) (a : Option α) : Option.Rel R a a := by
  cases a with
  | none => exact .none
  | some a => exact .some (hrefl a)

theorem rel_trans (htrans : ∀ a b c, R a b → R b c → R a c) {a b c : Option α}
    (hab : Option.Rel R a b) (hbc : Option.Rel R b c) : Option.Rel R a c := by
  cases hab with
  | none =>
    cases hbc
    exact .none
  | some hab =>
    cases hbc with
    | some hbc => exact .some (htrans _ _ _ hab hbc)

theorem rel_some {a : Option α} {b : α} (hrel : Option.Rel R a (some b)) : ∃ a', a = some a' ∧ R a' b := by
  cases hrel with
  | some hrel => exact ⟨_, rfl, hrel⟩

theorem rel_of_some {a : α} {b : Option α} (hrel : Option.Rel R (some a) b) : ∃ b', b = some b' ∧ R a b' := by
  cases hrel with
  | some hrel => exact ⟨_, rfl, hrel⟩

end

namespace Host

/-- A change of who names or pays for which blob, and of what a migration still has to move. -/
structure Touches (h h' : Host) : Prop where
  now : h'.now = h.now
  nextId : h'.nextId = h.nextId
  uploads : h'.uploads = h.uploads
  moved : h'.moved = h.moved
  objects : h'.objects = h.objects
  roomOverrides : h'.roomOverrides = h.roomOverrides
  memberOverrides : h'.memberOverrides = h.memberOverrides
  blobs : ∀ key : String × String, Option.Rel BlobEntry.SamePlace h.blobs[key]? h'.blobs[key]?
  plan : ∀ (key : String × String) (size : Nat), h'.plan[key]? = some size → h.plan[key]? = some size
  migrations : ∀ roomId : String, Option.Rel Migration.Same h.migrations[roomId]? h'.migrations[roomId]?

theorem Touches.refl (h : Host) : h.Touches h :=
  ⟨rfl, rfl, rfl, rfl, rfl, rfl, rfl, fun _ => rel_refl (fun _ => ⟨rfl, rfl, rfl⟩) _, fun _ _ hsize => hsize,
    fun _ => rel_refl (fun _ => ⟨rfl, rfl, rfl, rfl⟩) _⟩

theorem Touches.trans (ht : h.Touches h') (ht' : h'.Touches h'') : h.Touches h'' where
  now := ht'.now.trans ht.now
  nextId := ht'.nextId.trans ht.nextId
  uploads := ht'.uploads.trans ht.uploads
  moved := ht'.moved.trans ht.moved
  objects := ht'.objects.trans ht.objects
  roomOverrides := ht'.roomOverrides.trans ht.roomOverrides
  memberOverrides := ht'.memberOverrides.trans ht.memberOverrides
  blobs key := by
    refine rel_trans (fun _ _ _ h h' => ?_) (ht.blobs key) (ht'.blobs key)
    exact ⟨h'.size.trans h.size, h'.configId.trans h.configId, h'.backendRef.trans h.backendRef⟩
  plan key size hsize := ht.plan key size (ht'.plan key size hsize)
  migrations roomId := by
    refine rel_trans (fun _ _ _ h h' => ?_) (ht.migrations roomId) (ht'.migrations roomId)
    exact ⟨h'.migrationId.trans h.migrationId, h'.toConfig.trans h.toConfig, h'.state.trans h.state,
      h'.inFlight.trans h.inFlight⟩

theorem Quiet.touches (hquiet : h.Quiet h') (hnow : h'.now = h.now) (hnextId : h'.nextId = h.nextId) : h.Touches h' :=
  { Touches.refl h with
    now := hnow, nextId := hnextId, uploads := hquiet.uploads, moved := hquiet.moved, objects := hquiet.objects
    roomOverrides := hquiet.roomOverrides, memberOverrides := hquiet.memberOverrides
    blobs := by rw [hquiet.blobs]; exact (Touches.refl h).blobs
    plan := by rw [hquiet.plan]; exact (Touches.refl h).plan
    migrations := by rw [hquiet.migrations]; exact (Touches.refl h).migrations }

theorem now_touch (scope : Scope) (a : Activity) (uploadedAt : Option Nat) :
    (h.touch scope a uploadedAt).now = h.now ∧ (h.touch scope a uploadedAt).nextId = h.nextId := by
  unfold touch
  dsimp only
  split <;> exact ⟨rfl, rfl⟩

theorem uploadIndex_touch (scope : Scope) (a : Activity) (uploadedAt : Option Nat) :
    (h.touch scope a uploadedAt).uploadIndex = h.uploadIndex := by
  unfold touch
  dsimp only
  split <;> rfl

section
variable (roomId : String) (member : Option String) (a : Activity) (uploadedAt : Option Nat)

theorem uploadIndex_recordActivity : (h.recordActivity roomId member a uploadedAt).uploadIndex = h.uploadIndex := by
  unfold recordActivity
  split
  · exact uploadIndex_touch _ a none
  · exact (uploadIndex_touch _ a uploadedAt).trans (uploadIndex_touch _ a none)

theorem touches_recordActivity : h.Touches (h.recordActivity roomId member a uploadedAt) := by
  have hboth : (h.recordActivity roomId member a uploadedAt).now = h.now ∧
      (h.recordActivity roomId member a uploadedAt).nextId = h.nextId := by
    unfold recordActivity
    split
    · exact now_touch _ a none
    · rw [(now_touch _ a uploadedAt).1, (now_touch _ a uploadedAt).2]
      exact now_touch _ a none
  exact (quiet_recordActivity roomId member a uploadedAt).touches hboth.1 hboth.2

end

theorem touches_charge (roomId : String) (entry : BlobEntry) (add : Bool) : h.Touches (h.charge roomId entry add) := by
  refine Touches.trans ?_ (touches_recordActivity _ _ _ _)
  exact { Touches.refl h with }

theorem touches_putBlob {roomId blobRef : String} {entry entry' : BlobEntry}
    (hentry : h.blob roomId blobRef = some entry)
    (hsame : entry.SamePlace entry') : h.Touches (h.putBlob roomId blobRef entry') :=
  { Touches.refl h with
    blobs key := by
      change Option.Rel _ _ (h.blobs.insert (roomId, blobRef) entry')[key]?
      rw [getElem?_insert_eq]
      split
      · rename_i hkey
        rw [← hkey, ← blob, hentry]
        exact .some hsame
      · exact (Touches.refl h).blobs key }

theorem unreserve_eq (configId : String) (size : Nat) :
    h.unreserve configId size = { h with storage := (h.unreserve configId size).storage } := by
  unfold unreserve
  split <;> rfl

theorem touches_migrations {roomId : String} {m m' : Migration} {storage : ExtTreeMap (Option String) StorageUsage}
    {plan done : ExtTreeMap (String × String) Nat} (hm : h.migrations[roomId]? = some m) (hsame : m.Same m')
    (hplan : ∀ (key : String × String) (size : Nat), plan[key]? = some size → h.plan[key]? = some size) :
    h.Touches { h with storage, plan, done, migrations := h.migrations.insert roomId m' } :=
  { Touches.refl h with
    plan := hplan
    migrations roomId' := by
      rw [getElem?_insert_eq]
      split
      · rename_i hroom
        rw [← hroom, hm]
        exact .some hsame
      · exact (Touches.refl h).migrations roomId' }

theorem touches_dropFromMigration (roomId blobRef : String) : h.Touches (h.dropFromMigration roomId blobRef) := by
  fun_cases h.dropFromMigration roomId blobRef with
  | case3 _ hm _ _ _ unreserved =>
    rw [show unreserved = _ from unreserve_eq _ _]
    exact touches_migrations hm ⟨rfl, rfl, rfl, rfl⟩ fun _ _ => erase_sub
  | case4 _ hm => exact touches_migrations hm ⟨rfl, rfl, rfl, rfl⟩ fun _ _ => id
  | _ => exact .refl h

theorem blobs_charge (roomId : String) (entry : BlobEntry) (add : Bool) :
    (h.charge roomId entry add).blobs = h.blobs := (quiet_recordActivity _ _ _ _).blobs

theorem blobs_dropFromMigration (roomId blobRef : String) : (h.dropFromMigration roomId blobRef).blobs = h.blobs := by
  unfold dropFromMigration unreserve
  repeat' split
  all_goals rfl

theorem touches_adjustRefs (roomId blobRef : String) (delta : Int) (member : Option String) :
    h.Touches (h.adjustRefs roomId blobRef delta member) := by
  unfold adjustRefs
  split
  · exact .refl h
  · rename_i entry hentry
    split
    · unfold reference
      split
      · refine (touches_charge roomId _ true).trans (touches_putBlob (Eq.trans ?_ hentry) ⟨rfl, rfl, rfl⟩)
        rw [blob, blob, blobs_charge]
      · exact touches_putBlob hentry ⟨rfl, rfl, rfl⟩
    · unfold dereference
      split
      · refine ((touches_charge roomId _ false).trans (touches_dropFromMigration roomId blobRef)).trans
          (touches_putBlob (Eq.trans ?_ hentry) ⟨rfl, rfl, rfl⟩)
        rw [blob, blob, blobs_dropFromMigration, blobs_charge]
      · exact touches_putBlob hentry ⟨rfl, rfl, rfl⟩

/-- What every reference change keeps, and what does not read the record's list, the whole write keeps. -/
theorem applyRefs_induction {P : Host → Prop} {roomId recordKey : String} {previous blobs : List String}
    {member : Option String} (hstart : P h)
    (hadjust : ∀ h blobRef delta, P h → P (h.adjustRefs roomId blobRef delta member))
    (hrecord : ∀ h recordBlobs, P h → P { h with recordBlobs }) :
    P (h.applyRefs roomId recordKey previous blobs member) := by
  have hfold (delta : Int) : ∀ (refs : List String) (h : Host), P h →
      P (refs.foldl (fun h b => h.adjustRefs roomId b delta member) h) := by
    intro refs
    induction refs with
    | nil => exact fun h hP => hP
    | cons b _ ih => exact fun h hP => ih _ (hadjust h b delta hP)
  unfold applyRefs
  split
  · exact hstart
  · exact hrecord _ _ (hfold (-1) _ _ (hfold 1 _ _ hstart))

theorem touches_applyRefs (roomId recordKey : String) (previous blobs : List String) (member : Option String) :
    h.Touches (h.applyRefs roomId recordKey previous blobs member) := by
  refine applyRefs_induction (P := h.Touches) (.refl h) (fun h' b delta ht => ?_) fun h' recordBlobs ht => ?_
  · exact ht.trans (touches_adjustRefs roomId b delta member)
  · exact ht.trans { Touches.refl h' with }

/-! ### Formed hosts -/

theorem formed_empty (now : Nat) : (Host.empty now).Formed env := by
  refine ⟨?_, ?_, ?_, ?_, ?_⟩ <;> intro key row hrow <;> simp [Host.empty] at hrow

/-- Rows that are the same, or fewer, under identifiers no smaller. -/
theorem Formed.sub (hformed : h.Formed env) (hnextId : h.nextId ≤ h'.nextId)
    (huploads : ∀ (id : Nat) (rec : UploadRecord), h'.uploads[id]? = some rec → h.uploads[id]? = some rec)
    (hblobs : ∀ (key : String × String) (entry : BlobEntry), h'.blobs[key]? = some entry →
      h.blobs[key]? = some entry)
    (hplan : ∀ (key : String × String) (size : Nat), h'.plan[key]? = some size → h.plan[key]? = some size)
    (hmoved : ∀ (key : String × String × Nat) (row : MovedCopy), h'.moved[key]? = some row → h.moved[key]? = some row)
    (hmigrations : ∀ (roomId : String) (m : Migration), h'.migrations[roomId]? = some m →
      m.migrationId < h'.nextId ∧ ∀ flight, m.inFlight = some flight → flight.Formed env roomId) : h'.Formed env where
  uploads id rec hrec :=
    ⟨(hformed.uploads id rec (huploads id rec hrec)).1,
      (hformed.uploads id rec (huploads id rec hrec)).2.trans_le hnextId⟩
  blobs key entry hentry := hformed.blobs key entry (hblobs key entry hentry)
  plan key size hsize := hformed.plan key size (hplan key size hsize)
  moved key row hrow :=
    ⟨(hformed.moved key row (hmoved key row hrow)).1, (hformed.moved key row (hmoved key row hrow)).2.trans_le hnextId⟩
  migrations := hmigrations

theorem Touches.formed (ht : h.Touches h') (hformed : h.Formed env) : h'.Formed env where
  uploads := by
    rw [ht.uploads, ht.nextId]
    exact hformed.uploads
  blobs key entry hentry := by
    have hrel := ht.blobs key
    rw [hentry] at hrel
    obtain ⟨old, hold, hsame⟩ := rel_some hrel
    rw [hsame.size, hsame.backendRef]
    exact hformed.blobs key old hold
  plan key size hsize := hformed.plan key size (ht.plan key size hsize)
  moved := by
    rw [ht.moved, ht.nextId]
    exact hformed.moved
  migrations roomId m hm := by
    have hrel := ht.migrations roomId
    rw [hm] at hrel
    obtain ⟨old, hold, hsame⟩ := rel_some hrel
    rw [ht.nextId, hsame.migrationId, hsame.inFlight]
    exact hformed.migrations roomId old hold

/-! ### The plan of a new migration -/

theorem getElem?_foldl_insert {roomId : String} {key : String × String} (items : List (String × Nat))
    (hitems : (items.map Prod.fst).Nodup) (plan : ExtTreeMap (String × String) Nat) :
    (items.foldl (fun plan item => plan.insert (roomId, item.1) item.2) plan)[key]? =
      if key.1 = roomId then (items.find? fun item => item.1 = key.2).elim plan[key]? fun item => some item.2
      else plan[key]? := by
  induction items generalizing plan with
  | nil => simp
  | cons item items ih =>
    rw [List.map_cons, List.nodup_cons] at hitems
    rw [List.foldl_cons, ih hitems.2, getElem?_insert_eq, List.find?_cons]
    rcases key with ⟨room, ref⟩
    by_cases hroom : room = roomId
    · subst hroom
      by_cases href : item.1 = ref
      · subst href
        have hnone : items.find? (fun item' => item'.1 = item.1) = none := by
          refine List.find?_eq_none.mpr fun item' hmem heq => hitems.1 ?_
          rw [← of_decide_eq_true heq]
          exact List.mem_map_of_mem hmem
        simp [hnone]
      · simp [href, Prod.ext_iff]
    · simp [hroom, Ne.symm hroom, Prod.ext_iff]

/-- The blobs a migration to `toConfig` has to move. -/
def toMove (toConfig : String) (entry : BlobEntry) : Bool := entry.state = .committed ∧ entry.configId ≠ toConfig

theorem mem_planItems {roomId toConfig : String} {item : String × Nat} :
    item ∈ h.planItems roomId toConfig ↔
      ∃ entry, h.blobs[(roomId, item.1)]? = some entry ∧ toMove toConfig entry = true ∧ item.2 = entry.size := by
  unfold planItems toMove
  rw [List.mem_filterMap]
  constructor
  · rintro ⟨⟨⟨room, ref⟩, entry⟩, hmem, hitem⟩
    rw [ExtTreeMap.mem_toList_iff_getElem?_eq_some] at hmem
    split at hitem
    · rename_i hboth
      cases hitem
      obtain ⟨rfl, hboth⟩ := hboth
      exact ⟨entry, hmem, decide_eq_true hboth, rfl⟩
    · cases hitem
  · rintro ⟨entry, hentry, hboth, hsize⟩
    refine ⟨((roomId, item.1), entry), ExtTreeMap.mem_toList_iff_getElem?_eq_some.mpr hentry, ?_⟩
    rw [if_pos ⟨rfl, of_decide_eq_true hboth⟩, ← hsize]

theorem nodup_planItems (roomId toConfig : String) : ((h.planItems roomId toConfig).map Prod.fst).Nodup := by
  have hkeys : (h.blobs.toList.map Prod.fst).Nodup := by
    rw [ExtTreeMap.map_fst_toList_eq_keys]
    exact ExtTreeMap.nodup_keys
  have hsub : ((h.planItems roomId toConfig).map fun item => (roomId, item.1)).Sublist
    (h.blobs.toList.map Prod.fst) := by
    unfold planItems
    induction h.blobs.toList with
    | nil => exact List.Sublist.slnil
    | cons row _ ih =>
      rw [List.filterMap_cons]
      split
      · exact ih.trans (List.sublist_cons_self _ _)
      · rename_i item hitem
        split at hitem
        · rename_i hrow
          cases hitem
          have hkey : (roomId, row.1.2) = row.1 := Prod.ext hrow.1.symm rfl
          rw [List.map_cons, List.map_cons, hkey]
          exact ih.cons_cons _
        · cases hitem
  have hnodup : (((h.planItems roomId toConfig).map Prod.fst).map fun ref => (roomId, ref)).Nodup := by
    rw [List.map_map]
    exact hkeys.sublist hsub
  exact hnodup.of_map _

theorem getElem?_planned (roomId toConfig : String) (key : String × String) :
    (h.planned roomId (h.planItems roomId toConfig))[key]? =
      if key.1 = roomId then (h.blobs[key]?.filter (toMove toConfig)).map (·.size) else h.plan[key]? := by
  rcases key with ⟨room, ref⟩
  unfold planned
  rw [getElem?_foldl_insert _ (nodup_planItems roomId toConfig), getElem?_filter_eq]
  by_cases hroom : room = roomId
  · subst hroom
    have hrest : h.plan[(room, ref)]?.filter (fun _ => decide (room ≠ room)) = none := by
      simp
    rw [if_pos rfl, if_pos rfl, hrest]
    cases hfind : (h.planItems room toConfig).find? fun item => item.1 = ref with
    | none =>
      symm
      rw [Option.elim_none, Option.map_eq_none_iff, Option.filter_eq_none_iff]
      intro entry hentry hmove
      refine List.find?_eq_none.mp hfind (ref, entry.size) (mem_planItems.mpr ⟨entry, hentry, hmove, rfl⟩) ?_
      exact decide_eq_true rfl
    | some =>
      obtain ⟨entry, hentry, hmove, hsize⟩ := mem_planItems.mp (List.mem_of_find?_eq_some hfind)
      have href := List.find?_some hfind
      rw [decide_eq_true_eq] at href
      rw [href] at hentry
      rw [hentry, Option.elim_some, Option.filter_some, if_pos hmove, Option.map_some, hsize]
  · rw [if_neg hroom, if_neg hroom]
    cases h.plan[(room, ref)]? <;> simp [hroom]

/-! ### Effects keep hosts formed -/

section
variable (id : Nat) (rec : UploadRecord) (configId : String) (key : ObjectKey)

def storedEntry (h : Host) (rec : UploadRecord) (configId : String) (key : ObjectKey) : BlobEntry :=
  ⟨rec.size, configId, key, .committed, 0, rec.chargedTo, h.now, none⟩

theorem quiet_storeBlob :
    Quiet
      { h.convertReservation rec configId with
        blobs := h.blobs.insert (rec.roomId, rec.blobRef) (h.storedEntry rec configId key)
        uploads := h.uploads.insert id { rec with phase := .committed, finishedAt := some h.now } }
      (h.storeBlob id rec configId key) := by
  have hquiet := quiet_recordActivity (h := convertReservation
    { h with blobs := h.blobs.insert (rec.roomId, rec.blobRef) (h.storedEntry rec configId key) } rec configId)
    rec.roomId rec.chargedTo { uploads := 1 } (some h.now)
  have ht := touches_recordActivity (h := convertReservation
    { h with blobs := h.blobs.insert (rec.roomId, rec.blobRef) (h.storedEntry rec configId key) } rec configId)
    rec.roomId rec.chargedTo { uploads := 1 } (some h.now)
  have hindex : (h.storeBlob id rec configId key).uploadIndex = h.uploadIndex := uploadIndex_recordActivity _ _ _ _
  refine { hquiet with uploads := ?_, uploadIndex := fun _ _ hid => .inl (hindex ▸ hid) }
  have hnow := ht.now
  have huploads := ht.uploads
  unfold storeBlob finishUpload putUpload
  dsimp only [storedEntry] at hnow huploads ⊢
  rw [hnow, huploads]
  rfl

theorem convertReservation_eq : ∃ usage storage, h.convertReservation rec configId = { h with usage, storage } :=
  ⟨_, _, rfl⟩

/-- The same for the blob's object and row together, whatever the counters become. -/
theorem quiet_stored :
    ∃ usage storage, Quiet
      { h.putObject configId key rec.blobRef with
        blobs := h.blobs.insert (rec.roomId, rec.blobRef) (h.storedEntry rec configId key)
        uploads := h.uploads.insert id { rec with phase := .committed, finishedAt := some h.now }
        usage
        storage }
      ((h.putObject configId key rec.blobRef).storeBlob id rec configId key) := by
  obtain ⟨usage, storage, heq⟩ := convertReservation_eq (h := h.putObject configId key rec.blobRef) rec configId
  have hquiet := quiet_storeBlob (h := h.putObject configId key rec.blobRef) id rec configId key
  rw [heq] at hquiet
  exact ⟨usage, storage, hquiet⟩

end

theorem quiet_collected (roomId blobRef : String) (entry : BlobEntry) :
    ∃ usage storage, Quiet
      { h.deleteObject entry.configId entry.backendRef with
        blobs := h.blobs.erase (roomId, blobRef)
        usage
        storage }
      (h.collected roomId blobRef entry) := by
  unfold collected
  split
  · have hquiet := quiet_recordActivity
      (h := (h.deleteObject entry.configId entry.backendRef).updateUsage roomId entry.chargedTo fun u =>
        if false then { u with bytes := u.bytes + entry.size, files := u.files + 1 }
        else { u with bytes := u.bytes - entry.size, files := u.files - 1 })
      roomId entry.chargedTo {} none
    exact ⟨_, _, { hquiet with blobs := rfl, storage := rfl }⟩
  · exact ⟨_, _, .refl _⟩

theorem collectBlob_cases (roomId blobRef : String) :
    h.collectBlob roomId blobRef = h ∨ ∃ entry, h.blob roomId blobRef = some entry ∧ entry.refs = 0 ∧
      h.collectBlob roomId blobRef = (h.collected roomId blobRef entry).dropFromMigration roomId blobRef := by
  fun_cases h.collectBlob roomId blobRef with
  | case3 entry hentry hrefs => exact .inr ⟨entry, hentry, Nat.eq_zero_of_not_pos hrefs, rfl⟩
  | _ => exact .inl rfl

theorem objects_putObject (configId configId' blobRef : String) (key key' : ObjectKey) :
    (h.putObject configId key blobRef).objects configId' key' =
      if configId' = configId ∧ key' = key then some blobRef else h.objects configId' key' := by
  unfold putObject
  by_cases hconfig : configId' = configId
  · subst hconfig
    by_cases hkey : key' = key
    · subst hkey
      simp
    · simp [hkey]
  · simp [hconfig]

theorem objects_deleteObject (configId configId' : String) (key key' : ObjectKey) :
    (h.deleteObject configId key).objects configId' key' =
      if configId' = configId ∧ key' = key then none else h.objects configId' key' := by
  unfold deleteObject
  by_cases hconfig : configId' = configId
  · subst hconfig
    by_cases hkey : key' = key
    · subst hkey
      simp
    · simp [hkey]
  · simp [hconfig]

theorem hold_eq (rec : UploadRecord) :
    h.hold rec = { h with usage := (h.hold rec).usage, storage := (h.hold rec).storage } := by
  unfold hold
  split <;> rfl

theorem letGo_eq (rec : UploadRecord) :
    h.letGo rec = { h with usage := (h.letGo rec).usage, storage := (h.letGo rec).storage } := by
  unfold letGo
  split <;> rfl

theorem Formed.putUpload {id : Nat} {rec : UploadRecord} (hformed : h.Formed env) (hrec : rec.Formed env id)
    (hid : id < h'.nextId) (hnextId : h.nextId ≤ h'.nextId) (huploads : h'.uploads = h.uploads.insert id rec)
    (hblobs : h'.blobs = h.blobs) (hplan : h'.plan = h.plan) (hmoved : h'.moved = h.moved)
    (hmigrations : h'.migrations = h.migrations) : h'.Formed env where
  uploads id' rec' hrec' := by
    rw [huploads, getElem?_insert_eq] at hrec'
    split at hrec'
    · rename_i heq
      cases hrec'
      exact heq ▸ ⟨hrec, hid⟩
    · have hold := hformed.uploads id' rec' hrec'
      exact ⟨hold.1, hold.2.trans_le hnextId⟩
  blobs := hblobs ▸ hformed.blobs
  plan := hplan ▸ hformed.plan
  moved key row hrow := by
    rw [hmoved] at hrow
    have hold := hformed.moved key row hrow
    exact ⟨hold.1, hold.2.trans_le hnextId⟩
  migrations roomId m hm := by
    rw [hmigrations] at hm
    have hold := hformed.migrations roomId m hm
    exact ⟨hold.1.trans_le hnextId, hold.2⟩

theorem Formed.objects (hformed : h.Formed env) (objects : String → ObjectKey → Option String) :
    { h with objects }.Formed env := ⟨hformed.1, hformed.2, hformed.3, hformed.4, hformed.5⟩

theorem Quiet.formed (hquiet : h.Quiet h') (hformed : h.Formed env) : h'.Formed env := by
  refine hformed.sub hquiet.nextId ?_ ?_ ?_ ?_ fun roomId m hm => ?_
  · exact hquiet.uploads ▸ fun _ _ hrow => hrow
  · exact hquiet.blobs ▸ fun _ _ hrow => hrow
  · exact hquiet.plan ▸ fun _ _ hrow => hrow
  · exact hquiet.moved ▸ fun _ _ hrow => hrow
  · rw [hquiet.migrations] at hm
    have hold := hformed.migrations roomId m hm
    exact ⟨hold.1.trans_le hquiet.nextId, hold.2⟩

theorem beginMigration_eq (req : MigrationRequest) (items : List (String × Nat)) :
    h.beginMigration req items =
      { h with
        storage := (h.beginMigration req items).storage
        nextId := h.nextId + 1
        plan := h.planned req.roomId items
        done := h.done.filter fun key _ => key.1 ≠ req.roomId
        migrations := h.migrations.insert req.roomId (h.newMigration req items) } := by
  unfold beginMigration
  dsimp only
  split <;> rfl

theorem formed_beginMigration (hformed : h.Formed env) (req : MigrationRequest) :
    (h.beginMigration req (h.planItems req.roomId req.toConfig)).Formed env := by
  rw [beginMigration_eq]
  refine ⟨fun id rec hrec => ?_, hformed.blobs, fun key size hsize => ?_, fun key row hrow => ?_,
    fun roomId m hm => ?_⟩
  · exact ⟨(hformed.uploads id rec hrec).1, (hformed.uploads id rec hrec).2.trans (Nat.lt_succ_self _)⟩
  · rw [getElem?_planned] at hsize
    split at hsize
    · obtain ⟨entry, hentry, rfl⟩ := Option.map_eq_some_iff.mp hsize
      exact (hformed.blobs key entry (Option.filter_eq_some_iff.mp hentry).1).1
    · exact hformed.plan key size hsize
  · exact ⟨(hformed.moved key row hrow).1, (hformed.moved key row hrow).2.trans (Nat.lt_succ_self _)⟩
  · rw [getElem?_insert_eq] at hm
    split at hm
    · cases hm
      exact ⟨Nat.lt_succ_self _, fun flight hflight => nomatch hflight⟩
    · exact ⟨(hformed.migrations roomId m hm).1.trans (Nat.lt_succ_self _), (hformed.migrations roomId m hm).2⟩

end Host

open Host

theorem Effect.formed (heffect : Effect env allowed h h') (hformed : h.Formed env) : h'.Formed env := by
  cases heffect with
  | quiet hquiet => exact hquiet.formed hformed
  | limited => exact ⟨hformed.1, hformed.2, hformed.3, hformed.4, hformed.5⟩
  | opened _ _ hrec =>
    rw [hold_eq]
    exact hformed.putUpload hrec (Nat.lt_succ_self _) (Nat.le_succ _) rfl rfl rfl rfl rfl
  | rebound id rec _ hrec hsame =>
    have hold := hformed.uploads id rec hrec
    exact hformed.putUpload (hold.1.same hsame) hold.2 le_rfl rfl rfl rfl rfl rfl
  | closed id rec _ hrec _ hsame =>
    have hold := hformed.uploads id rec hrec
    rw [letGo_eq]
    exact hformed.putUpload (hold.1.same hsame) hold.2 le_rfl rfl rfl rfl rfl rfl
  | reclaimed | duplicated | dropped => exact hformed.objects _
  | stored id rec configId key hrec _ _ _ _ hkey =>
    have hold := hformed.uploads id rec hrec
    obtain ⟨usage, storage, hquiet⟩ := quiet_stored (h := h) id rec configId key
    refine hquiet.formed ?_
    have huploads : (h.finishUpload id rec .committed).Formed env :=
      hformed.putUpload (hold.1.same (same_with_end rec _ _)) hold.2 le_rfl rfl rfl rfl rfl rfl
    refine ⟨huploads.uploads, fun key' entry hentry => ?_, huploads.plan, huploads.moved, huploads.migrations⟩
    rw [getElem?_insert_eq] at hentry
    split at hentry
    · rename_i heq
      cases hentry
      rw [← heq]
      refine ⟨hold.1.size, ?_⟩
      rcases hkey with rfl | ⟨d, hdirect, rfl⟩
      · exact ⟨rfl, rfl⟩
      · have hobject : d.objectKey = _ := (hold.1.direct d.objectKey (by rw [hdirect]; rfl)).2
        rw [storedEntry, hobject]
        exact ⟨rfl, rfl⟩
    · exact hformed.blobs key' entry hentry
  | forgotten =>
    exact hformed.sub le_rfl (fun _ _ => erase_sub) (fun _ _ hrow => hrow) (fun _ _ hrow => hrow)
      (fun _ _ hrow => hrow) hformed.migrations
  | wrote => exact (touches_applyRefs _ _ _ _ _).formed hformed
  | collected roomId blobRef =>
    rcases collectBlob_cases (h := h) roomId blobRef with heq | ⟨entry, -, -, heq⟩
    · rwa [heq]
    · rw [heq]
      obtain ⟨usage, storage, hquiet⟩ := quiet_collected (h := h) roomId blobRef entry
      refine (touches_dropFromMigration roomId blobRef).formed (hquiet.formed ?_)
      exact hformed.sub le_rfl (fun _ _ hrow => hrow) (fun _ _ => erase_sub) (fun _ _ hrow => hrow)
        (fun _ _ hrow => hrow) hformed.migrations
  | uncounted _ _ hrow =>
    exact hformed.sub le_rfl (fun _ _ hrow => hrow) (fun _ _ hrow => hrow) (fun _ _ hrow => hrow)
      (fun _ _ => erase_sub) hformed.migrations
  | kept _ hkept =>
    refine hformed.sub le_rfl (fun _ _ hrow => hrow) (fun _ _ hrow => hrow) (fun _ _ hrow => hrow)
      (fun _ _ hrow => hrow) fun roomId m hm => ?_
    have hrel := hkept roomId
    rw [hm] at hrel
    obtain ⟨old, hold, hsame⟩ := rel_some hrel
    rw [hsame.migrationId, hsame.inFlight]
    exact hformed.migrations roomId old hold

end TrustInfrastructure.Blobs
