import TrustInfrastructure.Blobs.Worlds

/-!
# References and the orphans' grace

A blob's row counts the records of its room that name it. The count is kept by differences: a write references what the
record gained and releases what it dropped, so it is exact as long as the lists written have no duplicates, which makes
every list stored free of them and every decrement one of a count that is not zero.

The row also carries the moment since which nothing names the blob: when it was orphaned, or when it was committed if no
record has named it yet. That moment is what the collection pass compares with the grace, but on the row as it read it;
when it comes to delete the blob it only looks whether a record names it now. A blob that was named and released again
in between is deleted with no grace at all (`collected_at_once`). Where none that the pass has yet to come to is
released, the rows it read as due stay due or are named (`World.Reading`), and what it deletes nothing has named for the
whole of the grace.
-/

namespace TrustInfrastructure.Blobs

open Lib Host
open Std (ExtTreeMap)

variable {env : Env} {allowed : Allowed} {h h' h'' : Host}
variable {entry : BlobEntry} {previous blobs : List String} {key : String × String}

/-! ### The row a reference leaves -/

/-- The moment since which a blob that no record names has not been named. -/
def BlobEntry.idleSince (entry : BlobEntry) : Nat :=
  match entry.state with
  | .orphaned => entry.orphanedAt.getD 0
  | .committed => entry.committedAt

theorem BlobEntry.due_iff {grace now : Nat} (hrefs : entry.refs = 0) (hfits : entry.idleSince + grace < 2 ^ 64) :
    entry.due grace now = true ↔ entry.idleSince + grace ≤ now := by
  have hsum : wrappingAdd entry.idleSince grace = entry.idleSince + grace := Nat.mod_eq_of_lt hfits
  unfold idleSince at hsum ⊢
  unfold due
  cases hstate : entry.state with
  | orphaned =>
    rw [hstate] at hsum
    simp [hsum]
  | committed =>
    rw [hstate] at hsum
    simp [hrefs, hsum]

/-- The row after one record more, or one fewer, names the blob. -/
def BlobEntry.adjusted (entry : BlobEntry) (now : Nat) (delta : Int) (member : Option String) : BlobEntry :=
  if 0 < delta then
    if entry.state = .orphaned then
      { entry with refs := entry.refs + 1, state := .committed, orphanedAt := none, chargedTo := member }
    else { entry with refs := entry.refs + 1 }
  else if entry.refs - 1 = 0 ∧ entry.state = .committed then
    { entry with refs := entry.refs - 1, state := .orphaned, orphanedAt := some now }
  else { entry with refs := entry.refs - 1 }

namespace BlobEntry

variable {entry : BlobEntry} {now : Nat} {member : Option String}

theorem refs_adjusted_one : (entry.adjusted now 1 member).refs = entry.refs + 1 := by
  unfold adjusted
  rw [if_pos Int.one_pos]
  split <;> rfl

theorem refs_adjusted_neg : (entry.adjusted now (-1) member).refs = entry.refs - 1 := by
  unfold adjusted
  rw [if_neg (by decide)]
  split <;> rfl

theorem state_adjusted_one : (entry.adjusted now 1 member).state = .committed := by
  unfold adjusted
  rw [if_pos Int.one_pos]
  split
  · rfl
  · rename_i hstate
    revert hstate
    cases entry.state <;> decide

/-- A row is an orphan's only if nothing names it. -/
def OrphanIdle (entry : BlobEntry) : Prop := entry.state = .orphaned → entry.refs = 0

theorem orphanIdle_adjusted_neg (hidle : entry.OrphanIdle) : (entry.adjusted now (-1) member).OrphanIdle := by
  unfold OrphanIdle
  rw [refs_adjusted_neg]
  unfold adjusted
  rw [if_neg (by decide)]
  split
  · rename_i hlast
    exact fun _ => hlast.1
  · intro horphan
    rw [hidle horphan]

/-- A row that a release leaves unnamed was released now, or was unnamed before. -/
theorem idleSince_adjusted_neg (hidle : entry.OrphanIdle) (hrefs : (entry.adjusted now (-1) member).refs = 0) :
    (entry.adjusted now (-1) member).idleSince = now ∨
      entry.refs = 0 ∧ entry.idleSince = (entry.adjusted now (-1) member).idleSince := by
  rw [refs_adjusted_neg] at hrefs
  unfold adjusted
  rw [if_neg (by decide)]
  split
  · exact .inl rfl
  · rename_i hother
    refine .inr ⟨?_, rfl⟩
    refine hidle ?_
    cases hstate : entry.state with
    | orphaned => rfl
    | committed => exact absurd ⟨hrefs, hstate⟩ hother

end BlobEntry

namespace Host

/-! ### What a write does to the rows -/

theorem recordBlobs_charge (roomId : String) (entry : BlobEntry) (add : Bool) :
    (h.charge roomId entry add).recordBlobs = h.recordBlobs := (quiet_recordActivity _ _ _ _).recordBlobs

theorem recordBlobs_dropFromMigration (roomId blobRef : String) :
    (h.dropFromMigration roomId blobRef).recordBlobs = h.recordBlobs := by
  unfold dropFromMigration unreserve
  repeat' split
  all_goals rfl

variable {roomId recordKey : String} {member : Option String}

theorem recordBlobs_adjustRefs (b : String) (delta : Int) :
    (h.adjustRefs roomId b delta member).recordBlobs = h.recordBlobs := by
  unfold adjustRefs reference dereference
  split
  · rfl
  · split <;> split
    · exact recordBlobs_charge _ _ _
    · rfl
    · exact (recordBlobs_dropFromMigration _ _).trans (recordBlobs_charge _ _ _)
    · rfl

theorem getElem?_adjustRefs (b : String) (delta : Int) (key : String × String) :
    (h.adjustRefs roomId b delta member).blobs[key]? =
      if (roomId, b) = key then h.blobs[key]?.map fun entry => entry.adjusted h.now delta member
      else h.blobs[key]? := by
  unfold adjustRefs reference dereference
  split
  · rename_i hnone
    split
    · rename_i hkey
      subst hkey
      change h.blobs[(roomId, b)]? = none at hnone
      rw [hnone]
      rfl
    · rfl
  · rename_i entry hentry
    change h.blobs[(roomId, b)]? = some entry at hentry
    have hinsert (row : BlobEntry) (hrow : entry.adjusted h.now delta member = row) :
        (h.blobs.insert (roomId, b) row)[key]? =
          if (roomId, b) = key then h.blobs[key]?.map fun entry => entry.adjusted h.now delta member
          else h.blobs[key]? := by
      rw [getElem?_insert_eq]
      split
      · rename_i hkey
        subst hkey
        rw [hentry, Option.map_some, hrow]
      · rfl
    split <;> split
    all_goals
      rename_i hdelta hstate
      dsimp only [putBlob]
      try simp only [blobs_dropFromMigration, blobs_charge]
      refine hinsert _ ?_
      unfold BlobEntry.adjusted
      simp only [hdelta, hstate, if_true, if_false, and_self]

theorem now_adjustRefs (b : String) (delta : Int) : (h.adjustRefs roomId b delta member).now = h.now :=
  (touches_adjustRefs roomId b delta member).now

theorem foldl_adjustRefs (roomId : String) (member : Option String) (delta : Int) :
    ∀ {refs : List String} {h : Host}, refs.Nodup →
    (refs.foldl (fun h b => h.adjustRefs roomId b delta member) h).now = h.now ∧
      (refs.foldl (fun h b => h.adjustRefs roomId b delta member) h).recordBlobs = h.recordBlobs ∧
      ∀ key : String × String, (refs.foldl (fun h b => h.adjustRefs roomId b delta member) h).blobs[key]? =
        if key.1 = roomId ∧ key.2 ∈ refs then h.blobs[key]?.map fun entry => entry.adjusted h.now delta member
        else h.blobs[key]?
  | [], h, _ => by simp
  | b :: refs, h, hnodup => by
    obtain ⟨hb, hrefs⟩ := List.nodup_cons.mp hnodup
    obtain ⟨hnow, hrecords, hblobs⟩ := foldl_adjustRefs roomId member delta
      (h := h.adjustRefs roomId b delta member) hrefs
    refine ⟨hnow.trans (now_adjustRefs b delta), hrecords.trans (recordBlobs_adjustRefs b delta), fun key => ?_⟩
    rw [List.foldl_cons, hblobs key, getElem?_adjustRefs, now_adjustRefs]
    obtain ⟨room, ref⟩ := key
    by_cases hroom : room = roomId
    · subst hroom
      by_cases href : ref = b
      · subst href
        simp [hb]
      · have hne : ¬ b = ref := fun heq => href heq.symm
        simp [href, hne]
    · have hne : ¬ roomId = room := fun heq => hroom heq.symm
      simp [hroom, hne]

/-- The row of a blob after a record of the room went from naming `previous` to naming `blobs`. -/
def renamed (h : Host) (roomId : String) (previous blobs : List String) (member : Option String) (key : String × String)
    (entry : BlobEntry) : BlobEntry :=
  if key.1 = roomId ∧ key.2 ∈ blobs ∧ key.2 ∉ previous then entry.adjusted h.now 1 member
  else if key.1 = roomId ∧ key.2 ∈ previous ∧ key.2 ∉ blobs then entry.adjusted h.now (-1) member
  else entry

theorem applyRefs_rows (roomId recordKey : String) (member : Option String)
    (hprevious : previous.Nodup) (hblobs : blobs.Nodup) :
    (h.applyRefs roomId recordKey previous blobs member).now = h.now ∧
      ∀ key : String × String, (h.applyRefs roomId recordKey previous blobs member).blobs[key]? =
        h.blobs[key]?.map (h.renamed roomId previous blobs member key) := by
  unfold applyRefs
  split
  · rename_i hnil
    obtain ⟨hprevious, hblobs⟩ := Bool.and_eq_true_iff.mp hnil
    rw [List.isEmpty_iff] at hprevious hblobs
    subst hprevious hblobs
    refine ⟨rfl, fun key => ?_⟩
    have hid : h.renamed roomId [] [] member key = id := by
      funext entry
      simp [renamed]
    rw [hid, Option.map_id]
    rfl
  · obtain ⟨hnow, -, hgained⟩ := foldl_adjustRefs roomId member 1 (h := h)
      (hblobs.filter fun b => !previous.contains b)
    generalize List.foldl (fun h b => h.adjustRefs roomId b 1 member) h _ = gained at hnow hgained ⊢
    obtain ⟨hnow', -, hdropped⟩ := foldl_adjustRefs roomId member (-1) (h := gained)
      (hprevious.filter fun b => !blobs.contains b)
    refine ⟨hnow'.trans hnow, fun key => ?_⟩
    rw [hdropped key, hgained key, hnow]
    -- a blob is gained, or dropped, or neither: what is gained was not named before, what is dropped was
    by_cases hroom : key.1 = roomId <;> by_cases hin : key.2 ∈ blobs <;> by_cases hwas : key.2 ∈ previous <;>
      cases h.blobs[key]? <;> simp [hroom, hin, hwas, renamed]

def namings (h : Host) (key : String × String) : Nat :=
  tally
    (fun (at' : String × String) (list : List String) => if at'.1 = key.1 ∧ key.2 ∈ list then 1 else 0)
    h.recordBlobs

theorem weightAt_recordBlobs (key : String × String) :
    weightAt (fun (at' : String × String) (list : List String) => if at'.1 = key.1 ∧ key.2 ∈ list then 1 else 0)
      h.recordBlobs (roomId, recordKey) = if roomId = key.1 ∧ key.2 ∈ h.blobsOf roomId recordKey then 1 else 0 := by
  unfold weightAt blobsOf
  cases h.recordBlobs[(roomId, recordKey)]? with
  | none => simp
  | some => rfl

theorem recordBlobs_applyRefs (previous blobs : List String) :
    (h.applyRefs roomId recordKey previous blobs member).recordBlobs =
      if previous.isEmpty && blobs.isEmpty then h.recordBlobs
      else if blobs.isEmpty then h.recordBlobs.erase (roomId, recordKey)
      else h.recordBlobs.insert (roomId, recordKey) blobs := by
  have hfold (delta : Int) : ∀ (refs : List String) (h : Host),
      (refs.foldl (fun h b => h.adjustRefs roomId b delta member) h).recordBlobs = h.recordBlobs := by
    intro refs
    induction refs with
    | nil => exact fun h => rfl
    | cons b _ ih => exact fun h => (ih _).trans (recordBlobs_adjustRefs b delta)
  unfold applyRefs
  split
  · rfl
  · dsimp only
    rw [hfold, hfold]

theorem namings_applyRefs (roomId recordKey : String) (member : Option String) (blobs : List String)
    (key : String × String) :
    (h.applyRefs roomId recordKey (h.blobsOf roomId recordKey) blobs member).namings key +
        (if roomId = key.1 ∧ key.2 ∈ h.blobsOf roomId recordKey then 1 else 0) =
      h.namings key + if roomId = key.1 ∧ key.2 ∈ blobs then 1 else 0 := by
  unfold namings
  rw [recordBlobs_applyRefs]
  split
  · rename_i hnil
    obtain ⟨hprevious, hblobs⟩ := Bool.and_eq_true_iff.mp hnil
    rw [List.isEmpty_iff.mp hprevious, List.isEmpty_iff.mp hblobs]
  · rw [← weightAt_recordBlobs]
    split
    · rename_i hnil
      rw [tally_erase, List.isEmpty_iff.mp hnil]
      simp
    · exact tally_insert

theorem getElem?_recordBlobs_applyRefs {list : List String} {at' : String × String}
    (hlist : (h.applyRefs roomId recordKey previous blobs member).recordBlobs[at']? = some list) :
    at'.1 = roomId ∧ list = blobs ∨ h.recordBlobs[at']? = some list := by
  rw [recordBlobs_applyRefs] at hlist
  split at hlist
  · exact .inr hlist
  · split at hlist
    · exact .inr (erase_sub hlist)
    · rw [getElem?_insert_eq] at hlist
      split at hlist
      · rename_i hat
        cases hlist
        exact .inl ⟨hat ▸ rfl, rfl⟩
      · exact .inr hlist

/-! ### The counts are exact -/

/-- Every list of blobs stored for a record is free of duplicates, every row counts the records that name its blob, and
only a blob that none names is an orphan. -/
structure Counted (h : Host) : Prop where
  nodup : ∀ (at' : String × String) (list : List String), h.recordBlobs[at']? = some list → list.Nodup
  refs : ∀ (key : String × String) (entry : BlobEntry), h.blobs[key]? = some entry → entry.refs = h.namings key
  orphaned : ∀ (key : String × String) (entry : BlobEntry), h.blobs[key]? = some entry → entry.OrphanIdle

/-- And no record names a blob that is not there. -/
structure RefsExact (h : Host) : Prop extends h.Counted where
  present : ∀ (at' : String × String) (list : List String), h.recordBlobs[at']? = some list →
    ∀ b ∈ list, (h.blob at'.1 b).isSome

theorem namings_eq_zero :
    h.namings key = 0 ↔ ∀ (at' : String × String) (list : List String), h.recordBlobs[at']? = some list →
      at'.1 = key.1 → key.2 ∉ list := by
  refine ⟨fun hzero at' list hlist hroom hmem => ?_, fun hnone => tally_eq_zero fun at' list hlist => if_neg ?_⟩
  · have hle : weightAt _ h.recordBlobs at' ≤ h.namings key := weightAt_le_tally
    rw [weightAt_some hlist, if_pos ⟨hroom, hmem⟩] at hle
    exact absurd hzero (Nat.ne_of_gt hle)
  · exact fun hnames => hnone at' list hlist hnames.1 hnames.2

theorem Counted.nodup_blobsOf (hcounted : h.Counted) (roomId recordKey : String) :
    (h.blobsOf roomId recordKey).Nodup := by
  unfold blobsOf
  cases hlist : h.recordBlobs[(roomId, recordKey)]? with
  | none => exact List.nodup_nil
  | some list => exact hcounted.nodup _ list hlist

theorem RefsExact.frame (hexact : h.RefsExact) (hblobs : h'.blobs = h.blobs)
    (hrecords : h'.recordBlobs = h.recordBlobs) : h'.RefsExact := by
  refine ⟨⟨?_, ?_, ?_⟩, ?_⟩
  · rw [hrecords]
    exact hexact.nodup
  · unfold namings
    rw [hrecords, hblobs]
    exact hexact.refs
  · rw [hblobs]
    exact hexact.orphaned
  · unfold blob
    rw [hrecords, hblobs]
    exact hexact.present

/-- The rows that are unnamed: each was so before, since the same moment, or has become so since. -/
structure Idles (h h' : Host) : Prop where
  now : h.now ≤ h'.now
  since : ∀ (key : String × String) (entry : BlobEntry), h'.blobs[key]? = some entry → entry.refs = 0 →
    (∃ old, h.blobs[key]? = some old ∧ old.refs = 0 ∧ old.idleSince = entry.idleSince) ∨
      h.now ≤ entry.idleSince ∧ entry.idleSince ≤ h'.now

theorem Idles.trans (hidles : h.Idles h') (hidles' : h'.Idles h'') : h.Idles h'' where
  now := hidles.now.trans hidles'.now
  since key entry hentry hrefs := by
    rcases hidles'.since key entry hentry hrefs with ⟨old, hold, hrefs', hsince⟩ | ⟨hafter, hbefore⟩
    · rw [← hsince]
      exact (hidles.since key old hold hrefs').imp_right fun hbetween => ⟨hbetween.1, hbetween.2.trans hidles'.now⟩
    · exact .inr ⟨hidles.now.trans hafter, hbefore⟩

/-- Rows that are the same, or fewer, leave the rest idle as it was. -/
theorem Idles.sub (hnow : h.now ≤ h'.now)
    (hblobs : ∀ (key : String × String) (entry : BlobEntry), h'.blobs[key]? = some entry → h.blobs[key]? = some entry) :
    h.Idles h' :=
  ⟨hnow, fun key entry hentry hrefs => .inl ⟨entry, hblobs key entry hentry, hrefs, rfl⟩⟩

theorem Idles.frame (hnow : h.now ≤ h'.now) (hblobs : h'.blobs = h.blobs) : h.Idles h' :=
  .sub hnow fun _ _ hentry => hblobs ▸ hentry

theorem one_le_namings (hmem : key.2 ∈ h.blobsOf key.1 recordKey) : 1 ≤ h.namings key := by
  have hle : weightAt _ h.recordBlobs (key.1, recordKey) ≤ h.namings key := weightAt_le_tally
  rwa [weightAt_recordBlobs, if_pos ⟨rfl, hmem⟩] at hle

section
variable {previous blobs : List String} {key : String × String} {entry : BlobEntry}

/-- A record that names the blob before or after the write is counted before or after it. -/
theorem refs_renamed (member : Option String) (blobs : List String)
    (hcounted : roomId = key.1 ∧ key.2 ∈ previous → 1 ≤ entry.refs) :
    (h.renamed roomId previous blobs member key entry).refs + (if roomId = key.1 ∧ key.2 ∈ previous then 1 else 0) =
      entry.refs + if roomId = key.1 ∧ key.2 ∈ blobs then 1 else 0 := by
  unfold renamed
  by_cases hroom : key.1 = roomId
  · subst hroom
    by_cases hin : key.2 ∈ blobs <;> by_cases hwas : key.2 ∈ previous
    · simp [hin, hwas]
    · simp [hin, hwas, BlobEntry.refs_adjusted_one]
    · have hone := hcounted ⟨rfl, hwas⟩
      simp only [hin, hwas, BlobEntry.refs_adjusted_neg, not_true, not_false_iff, and_self, and_false, if_true,
        if_false]
      omega
    · simp [hin, hwas]
  · have hne : ¬ roomId = key.1 := fun heq => hroom heq.symm
    simp [hroom, hne]

theorem orphanIdle_renamed (hidle : entry.OrphanIdle) :
    (h.renamed roomId previous blobs member key entry).OrphanIdle := by
  unfold renamed
  split
  · intro horphan
    rw [BlobEntry.state_adjusted_one] at horphan
    cases horphan
  · split
    · exact BlobEntry.orphanIdle_adjusted_neg hidle
    · exact hidle

theorem idleSince_renamed (hidle : entry.OrphanIdle)
    (hrefs : (h.renamed roomId previous blobs member key entry).refs = 0) :
    entry.refs = 0 ∧ entry.idleSince = (h.renamed roomId previous blobs member key entry).idleSince ∨
      (h.renamed roomId previous blobs member key entry).idleSince = h.now := by
  unfold renamed at hrefs ⊢
  split
  · rename_i hgained
    rw [if_pos hgained, BlobEntry.refs_adjusted_one] at hrefs
    cases hrefs
  · rename_i hgained
    rw [if_neg hgained] at hrefs
    split
    · rename_i hdropped
      rw [if_pos hdropped] at hrefs
      exact (BlobEntry.idleSince_adjusted_neg hidle hrefs).symm
    · rename_i hdropped
      rw [if_neg hdropped] at hrefs
      exact .inl ⟨hrefs, rfl⟩

end

theorem counted_applyRefs (hexact : h.Counted) (recordKey : String) (hblobs : blobs.Nodup) (member : Option String) :
    (h.applyRefs roomId recordKey (h.blobsOf roomId recordKey) blobs member).Counted ∧
      h.Idles (h.applyRefs roomId recordKey (h.blobsOf roomId recordKey) blobs member) := by
  obtain ⟨hnow, hrows⟩ := applyRefs_rows (h := h) roomId recordKey member (hexact.nodup_blobsOf roomId recordKey) hblobs
  refine ⟨⟨fun at' list hlist => ?_, fun key entry hentry => ?_, fun key entry hentry => ?_⟩, hnow.ge,
    fun key entry hentry hrefs => ?_⟩
  · rcases getElem?_recordBlobs_applyRefs hlist with ⟨-, rfl⟩ | hold
    · exact hblobs
    · exact hexact.nodup at' list hold
  · rw [hrows] at hentry
    obtain ⟨old, hold, rfl⟩ := Option.map_eq_some_iff.mp hentry
    have hcount := namings_applyRefs (h := h) roomId recordKey member blobs key
    have hrefs := hexact.refs key old hold
    have hcounted : roomId = key.1 ∧ key.2 ∈ h.blobsOf roomId recordKey → 1 ≤ old.refs := by
      rintro ⟨rfl, hwas⟩
      rw [hrefs]
      exact one_le_namings hwas
    have hrow := refs_renamed (h := h) member blobs hcounted
    omega
  · rw [hrows] at hentry
    obtain ⟨old, hold, rfl⟩ := Option.map_eq_some_iff.mp hentry
    exact orphanIdle_renamed (hexact.orphaned key old hold)
  · rw [hrows] at hentry
    obtain ⟨old, hold, rfl⟩ := Option.map_eq_some_iff.mp hentry
    rcases idleSince_renamed (hexact.orphaned key old hold) hrefs with hsame | hreleased
    · exact .inl ⟨old, hold, hsame⟩
    · exact .inr ⟨hreleased.ge, (hreleased.trans hnow.symm).le⟩

theorem refsExact_applyRefs (hexact : h.RefsExact) (hblobs : blobs.Nodup)
    (hpresent : ∀ b ∈ blobs, (h.blob roomId b).isSome) :
    (h.applyRefs roomId recordKey (h.blobsOf roomId recordKey) blobs member).RefsExact ∧
      h.Idles (h.applyRefs roomId recordKey (h.blobsOf roomId recordKey) blobs member) := by
  obtain ⟨-, hrows⟩ := applyRefs_rows (h := h) roomId recordKey member (hexact.nodup_blobsOf roomId recordKey) hblobs
  obtain ⟨hcounted, hidles⟩ := counted_applyRefs hexact.toCounted recordKey hblobs member
  refine ⟨⟨hcounted, fun at' list hlist b hb => ?_⟩, hidles⟩
  unfold blob
  rw [hrows, Option.isSome_map]
  rcases getElem?_recordBlobs_applyRefs hlist with ⟨hroom, rfl⟩ | hold
  · rw [hroom]
    exact hpresent b hb
  · exact hexact.present at' list hold b hb

theorem refsExact_stored (hexact : h.RefsExact)
    (habsent : h.blobs[key]? = none) (hrefs : entry.refs = 0) (hstate : entry.state = .committed)
    (hsince : entry.idleSince = h.now) (hnow : h.now ≤ h'.now) (hblobs : h'.blobs = h.blobs.insert key entry)
    (hrecords : h'.recordBlobs = h.recordBlobs) : h'.RefsExact ∧ h.Idles h' := by
  have hnamings (key' : String × String) : h'.namings key' = h.namings key' := by
    unfold namings
    rw [hrecords]
  have hpresent (at' : String × String) (list : List String) (hlist : h'.recordBlobs[at']? = some list) (b : String)
      (hb : b ∈ list) : (h'.blob at'.1 b).isSome := by
    rw [hrecords] at hlist
    unfold blob
    rw [hblobs, getElem?_insert_eq]
    split
    · rfl
    · exact hexact.present at' list hlist b hb
  refine ⟨⟨⟨?_, fun key' entry' hentry => ?_, fun key' entry' hentry => ?_⟩, hpresent⟩, hnow,
    fun key' entry' hentry hrefs' => ?_⟩
  · rw [hrecords]
    exact hexact.nodup
  all_goals rw [hblobs, getElem?_insert_eq] at hentry; split at hentry
  · rename_i hkey
    subst hkey
    cases hentry
    rw [hrefs, hnamings, eq_comm, namings_eq_zero]
    intro at' list hlist hroom hmem
    have hsome := hexact.present at' list hlist _ hmem
    rw [blob, hroom, habsent] at hsome
    cases hsome
  · rw [hnamings]
    exact hexact.refs key' entry' hentry
  · cases hentry
    intro horphan
    rw [hstate] at horphan
    cases horphan
  · exact hexact.orphaned key' entry' hentry
  · cases hentry
    exact .inr ⟨hsince.ge, hsince.le.trans hnow⟩
  · exact .inl ⟨entry', hentry, hrefs', rfl⟩

theorem refsExact_erased (hexact : h.RefsExact)
    (hentry : h.blobs[key]? = some entry) (hrefs : entry.refs = 0) (hblobs : h'.blobs = h.blobs.erase key)
    (hrecords : h'.recordBlobs = h.recordBlobs) : h'.RefsExact := by
  refine ⟨⟨?_, fun key' entry' hentry' => ?_, fun key' entry' hentry' => ?_⟩, fun at' list hlist b hb => ?_⟩
  · rw [hrecords]
    exact hexact.nodup
  · rw [hblobs] at hentry'
    unfold namings
    rw [hrecords]
    exact hexact.refs key' entry' (erase_sub hentry')
  · rw [hblobs] at hentry'
    exact hexact.orphaned key' entry' (erase_sub hentry')
  · rw [hrecords] at hlist
    unfold blob
    rw [hblobs, getElem?_erase_eq, if_neg]
    · exact hexact.present at' list hlist b hb
    · rintro rfl
      have hzero := (hexact.refs _ entry hentry).symm.trans hrefs
      exact namings_eq_zero.mp hzero at' list hlist rfl hb

/-- A row that a move has pointed elsewhere counts and stamps what it did. -/
theorem rows_moveTo {run : Run} {flight : InFlight} (copy : ObjectKey) (m : Migration) {moved : BlobEntry}
    (hmoved : h.blobs[(run.roomId, flight.blobRef)]? = some moved) (key : String × String) :
    Option.Rel (fun old row : BlobEntry => row.refs = old.refs ∧ row.state = old.state ∧ old.idleSince = row.idleSince)
      h.blobs[key]? (h.moveTo run flight copy m moved).blobs[key]? := by
  change Option.Rel _ _ (h.blobs.insert _ _)[key]?
  rw [getElem?_insert_eq]
  split
  · rename_i hkey
    rw [← hkey, hmoved]
    exact .some ⟨rfl, rfl, rfl⟩
  · exact rel_refl (fun _ => ⟨rfl, rfl, rfl⟩) _

end Host

/-! ### Steps -/

def noDuplicates : Allowed := { lists := List.Nodup }

theorem Effect.refsExact (heffect : Effect env noDuplicates h h') (hexact : h.RefsExact) :
    h'.RefsExact ∧ h.Idles h' := by
  have hframe {h' : Host} (hnow : h.now ≤ h'.now) (hblobs : h'.blobs = h.blobs)
      (hrecords : h'.recordBlobs = h.recordBlobs) : h'.RefsExact ∧ h.Idles h' :=
    ⟨hexact.frame hblobs hrecords, .frame hnow hblobs⟩
  cases heffect with
  | quiet hquiet => exact hframe hquiet.now hquiet.blobs hquiet.recordBlobs
  | limited | rebound | reclaimed | duplicated | forgotten | dropped | uncounted | kept => exact hframe le_rfl rfl rfl
  | opened =>
    rw [hold_eq]
    exact hframe le_rfl rfl rfl
  | closed =>
    rw [letGo_eq]
    exact hframe le_rfl rfl rfl
  | stored id rec configId key _ _ _ habsent =>
    obtain ⟨usage, storage, hquiet⟩ := quiet_stored (h := h) id rec configId key
    exact refsExact_stored hexact habsent rfl rfl rfl hquiet.now hquiet.blobs hquiet.recordBlobs
  | wrote _ _ _ _ hlist hpresent => exact refsExact_applyRefs hexact hlist hpresent
  | collected roomId blobRef =>
    rcases collectBlob_cases (h := h) roomId blobRef with heq | ⟨entry, hentry, hrefs, heq⟩
    · rw [heq]
      exact hframe le_rfl rfl rfl
    · obtain ⟨usage, storage, hquiet⟩ := quiet_collected (h := h) roomId blobRef entry
      have hblobs := (blobs_dropFromMigration (h := h.collected roomId blobRef entry) roomId blobRef).trans hquiet.blobs
      have hrecords := (recordBlobs_dropFromMigration (h := h.collected roomId blobRef entry) roomId blobRef).trans
        hquiet.recordBlobs
      rw [heq]
      refine ⟨refsExact_erased hexact hentry hrefs hblobs hrecords, .sub ?_ fun key row hrow => ?_⟩
      · exact hquiet.now.trans (touches_dropFromMigration roomId blobRef).now.ge
      · rw [hblobs] at hrow
        exact erase_sub hrow

theorem Effects.refsExact (heffects : Effects env noDuplicates h h') (hexact : h.RefsExact) :
    h'.RefsExact ∧ h.Idles h' := by
  induction heffects with
  | refl => exact ⟨hexact, .frame le_rfl rfl⟩
  | tail _ heffect ih => exact ⟨(heffect.refsExact ih.1).1, ih.2.trans (heffect.refsExact ih.1).2⟩

theorem Host.advance_refsExact {run : Run} {stage : Stage} (hadvance : Advance env h run stage h')
    (hexact : h.RefsExact) : h'.RefsExact ∧ h.Idles h' := by
  have hframe {h' : Host} (hnow : h'.now = h.now) (hblobs : h'.blobs = h.blobs)
      (hrecords : h'.recordBlobs = h.recordBlobs) : h'.RefsExact ∧ h.Idles h' :=
    ⟨hexact.frame hblobs hrecords, .frame hnow.ge hblobs⟩
  have hsettles {m : Migration} {h' : Host} (hsettles : h.Settles run m h') : h'.RefsExact ∧ h.Idles h' := by
    obtain ⟨_, _, _, _, rfl, -⟩ := hsettles
    exact hframe rfl rfl rfl
  cases hadvance with
  | effects _ heffects => exact (heffects noDuplicates fun _ _ _ => trivial).refsExact hexact
  | recorded | put | deleted => exact hframe rfl rfl rfl
  | switched flight copy m entry _ hentry =>
    have hstored : h.blobs[(run.roomId, flight.blobRef)]? = some entry := (Option.filter_eq_some_iff.mp hentry).1
    have hrows (key : String × String) (row : BlobEntry)
        (hrow : (h.moveTo run flight copy m entry).blobs[key]? = some row) :=
      rel_some (hrow ▸ rows_moveTo _ _ hstored key)
    have hpresent (at' : String × String) (list : List String) (hlist : h.recordBlobs[at']? = some list) (b : String)
        (hb : b ∈ list) : ((h.moveTo run flight copy m entry).blob at'.1 b).isSome := by
      change ((h.blobs.insert _ _)[(at'.1, b)]?).isSome
      rw [getElem?_insert_eq]
      split
      · rfl
      · exact hexact.present at' list hlist b hb
    refine ⟨⟨⟨hexact.nodup, fun key row hrow => ?_, fun key row hrow => ?_⟩, hpresent⟩, le_rfl,
      fun key row hrow hrefs => ?_⟩
    · obtain ⟨old, hold, hrefs, -⟩ := hrows key row hrow
      exact hrefs.trans (hexact.refs key old hold)
    · obtain ⟨old, hold, hrefs, hstate, -⟩ := hrows key row hrow
      unfold BlobEntry.OrphanIdle
      rw [hrefs, hstate]
      exact hexact.orphaned key old hold
    · obtain ⟨old, hold, hrefs', -, hsince⟩ := hrows key row hrow
      exact .inl ⟨old, hold, hrefs' ▸ hrefs, hsince⟩
  | skipped blobRef size => exact hsettles (settles_skip blobRef size)
  | failed => exact hsettles settles_fail
  | finished => exact hsettles settles_finish

namespace World

variable {w : World} {a : Action}

theorem refsExact_start (now : Nat) (roomOverrides : ExtTreeMap String RoomOverride)
    (memberOverrides : ExtTreeMap (String × String) ScopeLimits) :
    (World.start now roomOverrides memberOverrides).host.RefsExact := by
  refine ⟨⟨?_, ?_, ?_⟩, ?_⟩ <;> intro at' row hrow <;> simp [World.start, Host.empty] at hrow

theorem refsExact_step (hw : w.Formed env) (ha : ∀ roomId fails, a ≠ .purge roomId fails)
    (hallowed : a.IsAllowed noDuplicates w.host) (hexact : w.host.RefsExact) :
    (w.step env a).host.RefsExact ∧ w.host.Idles (w.step env a).host := by
  rcases step_cases hw ha hallowed (fun _ _ _ _ => trivial) (fun _ _ _ _ _ _ => trivial) with
    hstep | ⟨req, -, hstep⟩ | ⟨chance, run, stage, rfl, hrunner, hstep⟩ |
    ⟨now, row, rows, rfl, hpass, heq⟩
  · exact hstep.refsExact hexact
  · rw [hstep, beginMigration_eq]
    exact ⟨hexact.frame rfl rfl, .frame le_rfl rfl⟩
  · exact advance_refsExact hstep hexact
  · obtain ⟨_, _, _, _, _, _, heq', -⟩ := sweepUpload_eq (h := w.host) now row.1 row.2
    rw [heq, heq']
    exact ⟨hexact.frame rfl rfl, .frame le_rfl rfl⟩

end World

/-! ### What leaves a row as it is -/

namespace Host

/-- The blob's row stays, and is unnamed only if it was, since the same moment. -/
def Stays (h h' : Host) (key : String × String) : Prop :=
  ∀ entry, h.blobs[key]? = some entry → ∃ entry', h'.blobs[key]? = some entry' ∧
    (entry'.refs = 0 → entry.refs = 0 ∧ entry.idleSince = entry'.idleSince)

theorem Stays.frame (hblobs : h'.blobs[key]? = h.blobs[key]?) : h.Stays h' key :=
  fun entry hentry => ⟨entry, hblobs.trans hentry, fun hrefs => ⟨hrefs, rfl⟩⟩

theorem Stays.trans (hstays : h.Stays h' key) (hstays' : h'.Stays h'' key) : h.Stays h'' key := by
  intro entry hentry
  obtain ⟨entry', hentry', hsince⟩ := hstays entry hentry
  obtain ⟨entry'', hentry'', hsince'⟩ := hstays' entry' hentry'
  refine ⟨entry'', hentry'', fun hrefs => ?_⟩
  obtain ⟨hrefs', heq'⟩ := hsince' hrefs
  obtain ⟨hrefs, heq⟩ := hsince hrefs'
  exact ⟨hrefs, heq.trans heq'⟩

/-- Whether a record that is written with these blobs no longer names the one it named. -/
def drops (h : Host) (roomId recordKey : String) (blobs : List String) (key : String × String) : Bool :=
  key.1 == roomId && (h.blobsOf roomId recordKey).contains key.2 && !blobs.contains key.2

variable {roomId recordKey : String} {member : Option String}

theorem stays_applyRefs (hcounted : h.Counted) (hblobs : blobs.Nodup)
    (hkeeps : h.drops roomId recordKey blobs key = false) :
    h.Stays (h.applyRefs roomId recordKey (h.blobsOf roomId recordKey) blobs member) key := by
  obtain ⟨-, hrows⟩ := applyRefs_rows (h := h) roomId recordKey member (hcounted.nodup_blobsOf roomId recordKey) hblobs
  intro entry hentry
  refine ⟨_, by rw [hrows, hentry, Option.map_some], fun hrefs => ?_⟩
  unfold renamed at hrefs ⊢
  split
  · rename_i hgained
    rw [if_pos hgained, BlobEntry.refs_adjusted_one] at hrefs
    cases hrefs
  · rename_i hgained
    rw [if_neg hgained] at hrefs
    split
    · rename_i hdropped
      simp [drops, hdropped] at hkeeps
    · rename_i hdropped
      rw [if_neg hdropped] at hrefs
      exact ⟨hrefs, rfl⟩

theorem blobsOf_releaseRecord (k other : String) :
    (h.releaseRecord roomId k).blobsOf roomId other = if k = other then [] else h.blobsOf roomId other := by
  unfold releaseRecord blobsOf
  rw [recordBlobs_applyRefs]
  split
  · rename_i hnil
    split
    · rename_i hk
      exact hk ▸ List.isEmpty_iff.mp (Bool.and_eq_true_iff.mp hnil).1
    · rfl
  · rw [if_pos List.isEmpty_nil, getElem?_erase_eq]
    simp only [Prod.mk.injEq, true_and]
    split <;> rfl

theorem stays_releaseRecords (roomId : String) {recordKeys : List String} (hcounted : h.Counted)
    (hkeeps : ∀ k ∈ recordKeys, h.drops roomId k [] key = false) :
    h.Stays (h.releaseRecords roomId recordKeys) key := by
  induction recordKeys generalizing h with
  | nil => exact .frame rfl
  | cons k recordKeys ih =>
    have hfirst : h.Stays (h.releaseRecord roomId k) key :=
      stays_applyRefs hcounted List.nodup_nil (hkeeps k List.mem_cons_self)
    refine hfirst.trans (ih (counted_applyRefs hcounted _ List.nodup_nil _).1 fun other hother => ?_)
    have hother := hkeeps other (List.mem_cons_of_mem k hother)
    unfold drops at hother ⊢
    rw [blobsOf_releaseRecord]
    split
    · simp
    · exact hother

end Host

/-- Everything but record writes and the collection of the blob. -/
def sparing (key : String × String) : Allowed :=
  { lists := fun _ => False, collects := fun _ roomId blobRef => (roomId, blobRef) ≠ key }

theorem Effect.stays (heffect : Effect env (sparing key) h h') : h.Stays h' key := by
  cases heffect with
  | quiet hquiet => exact .frame (by rw [hquiet.blobs])
  | limited | rebound | reclaimed | duplicated | forgotten | dropped | uncounted | kept => exact .frame rfl
  | opened =>
    rw [hold_eq]
    exact .frame rfl
  | closed =>
    rw [letGo_eq]
    exact .frame rfl
  | stored id rec configId object _ _ _ habsent =>
    obtain ⟨usage, storage, hquiet⟩ := quiet_stored (h := h) id rec configId object
    intro entry hentry
    have hother : (rec.roomId, rec.blobRef) ≠ key := by
      rintro rfl
      cases habsent.symm.trans hentry
    have hstays : h.Stays _ key := .frame (by rw [hquiet.blobs, getElem?_insert_eq, if_neg hother])
    exact hstays entry hentry
  | wrote _ _ _ _ hlist => exact hlist.elim
  | collected roomId blobRef hne =>
    rcases collectBlob_cases (h := h) roomId blobRef with heq | ⟨entry, -, -, heq⟩
    · rw [heq]
      exact .frame rfl
    · obtain ⟨usage, storage, hquiet⟩ := quiet_collected (h := h) roomId blobRef entry
      refine .frame ?_
      rw [heq, blobs_dropFromMigration, hquiet.blobs, getElem?_erase_eq, if_neg hne]

theorem Effects.stays (heffects : Effects env (sparing key) h h') : h.Stays h' key := by
  induction heffects with
  | refl => exact .frame rfl
  | tail _ heffect ih => exact ih.trans heffect.stays

theorem Host.advance_stays {run : Run} {stage : Stage} (hadvance : Advance env h run stage h') : h.Stays h' key := by
  have hsettles {m : Migration} {h' : Host} (hsettles : h.Settles run m h') : h.Stays h' key := by
    obtain ⟨_, _, _, _, rfl, -⟩ := hsettles
    exact .frame rfl
  cases hadvance with
  | effects _ heffects => exact (heffects (sparing key) fun _ _ _ => trivial).stays
  | recorded | put | deleted => exact .frame rfl
  | switched flight copy m moved _ hmoved =>
    intro entry hentry
    have hrows := rows_moveTo copy m (Option.filter_eq_some_iff.mp hmoved).1 key
    rw [hentry] at hrows
    obtain ⟨row, hrow, hrefs, -, hsince⟩ := rel_of_some hrows
    exact ⟨row, hrow, fun hzero => ⟨hrefs.symm.trans hzero, hsince⟩⟩
  | skipped blobRef size => exact hsettles (settles_skip blobRef size)
  | failed => exact hsettles settles_fail
  | finished => exact hsettles settles_finish

/-- Whether a record stops naming the blob. -/
def Action.releases (h : Host) (key : String × String) : Action → Bool
  | .writeRecord room _ recordKey blobs => h.drops room.roomId recordKey blobs key
  | .retract roomId recordKey => h.drops roomId recordKey [] key
  | .prune roomId recordKeys => recordKeys.any fun recordKey => h.drops roomId recordKey [] key
  | _ => false

namespace World

variable {w : World} {a : Action}

theorem stays_step (hw : w.Formed env) (ha : ∀ roomId fails, a ≠ .purge roomId fails)
    (hallowed : a.IsAllowed noDuplicates w.host) (hcounted : w.host.Counted) (hreleases : a.releases w.host key = false)
    (hcollects : a = .sweepNext → ∀ now row rows, w.pass = .blobs now (row :: rows) → row.1 ≠ key) :
    w.host.Stays (w.step env a).host key := by
  have hother (hsparing : a.IsAllowed (sparing key) w.host) : w.host.Stays (w.step env a).host key := by
    rcases step_cases hw ha hsparing (fun _ _ _ _ => trivial) fun heq now row rows hpass _ =>
      hcollects heq now row rows hpass with
      hstep | ⟨req, -, hstep⟩ | ⟨chance, run, stage, rfl, hrunner, hstep⟩ | ⟨now, row, rows, rfl, hpass, heq⟩
    · exact hstep.stays
    · rw [hstep, beginMigration_eq]
      exact .frame rfl
    · exact advance_stays hstep
    · obtain ⟨_, _, _, _, _, _, heq', -⟩ := sweepUpload_eq (h := w.host) now row.1 row.2
      rw [heq, heq']
      exact .frame rfl
  cases a with
  | writeRecord room member recordKey blobs =>
    change w.host.Stays (w.host.writeRecord env room member recordKey blobs).2 key
    unfold writeRecord
    split
    · exact .frame rfl
    · exact stays_applyRefs hcounted hallowed hreleases
  | retract roomId recordKey => exact stays_applyRefs hcounted List.nodup_nil hreleases
  | prune roomId recordKeys =>
    refine stays_releaseRecords roomId hcounted fun k hk => ?_
    exact Bool.eq_false_iff.mpr fun hdrops => List.any_eq_false.mp hreleases k hk hdrops
  | commit => exact hother fun _ _ => trivial
  | _ => exact hother trivial

/-! ### The grace -/

/-- The blobs that the pass under way read as due and has yet to come to. -/
def toCome (env : Env) (w : World) : List (String × String) :=
  match w.pass with
  | .blobs now rows => (rows.filter fun row => row.2.due env.limits.orphanGraceSecs now).map Prod.fst
  | _ => []

def Idle (w : World) (key : String × String) : Prop := w.host.blobs[key]?.isSome ∧ w.host.namings key = 0

end World

/-- A row of the pass leaves the blobs alone, or collects one that no record names. -/
theorem Host.blobs_nextRow (pass : Pass) :
    (h.nextRow env pass).1.blobs = h.blobs ∨ ∃ now key row rows entry, pass = .blobs now ((key, row) :: rows) ∧
      row.due env.limits.orphanGraceSecs now = true ∧ h.blobs[key]? = some entry ∧ entry.refs = 0 ∧
      (h.nextRow env pass).1.blobs = h.blobs.erase key := by
  unfold nextRow
  split
  · exact .inl rfl
  · exact .inl rfl
  · rename_i now row rows
    split
    · rename_i hdue
      rcases collectBlob_cases (h := h) row.1.1 row.1.2 with heq | ⟨entry, hentry, hrefs, heq⟩
      · rw [heq]
        exact .inl rfl
      · obtain ⟨usage, storage, hquiet⟩ := quiet_collected (h := h) row.1.1 row.1.2 entry
        rw [heq, blobs_dropFromMigration, hquiet.blobs]
        exact .inr ⟨now, row.1, row.2, rows, entry, rfl, hdue, hentry, hrefs, rfl⟩
    · exact .inl rfl
  · exact .inl rfl
  · refine .inl ?_
    dsimp only [sweepMoved]
    repeat' split
    all_goals rfl
  · exact .inl rfl
  · rename_i now row rows
    obtain ⟨_, _, _, _, _, _, heq, -⟩ := sweepUpload_eq (h := h) now row.1 row.2
    rw [heq]
    exact .inl rfl
  · exact .inl quiet_rollDays.blobs
  · split <;> exact .inl rfl

namespace World

/-- What the pass under way read: each blob once, and one it read as due is still there, and unnamed for the whole of
the grace where no record names it. -/
def Reading (env : Env) (w : World) : Prop :=
  ∀ now rows, w.pass = .blobs now rows → now ≤ w.host.now ∧ (rows.map Prod.fst).Nodup ∧
    ∀ row ∈ rows, row.2.due env.limits.orphanGraceSecs now = true →
      ∃ entry, w.host.blobs[row.1]? = some entry ∧ (entry.refs = 0 → entry.idleSince + env.limits.orphanGraceSecs ≤ now)

variable {w : World} {a : Action}

theorem Reading.next {w' : World} (hread : w.Reading env) (hnow : w.host.now ≤ w'.host.now)
    (hpass : ∀ now rows, w'.pass = .blobs now rows → ∃ passed, w.pass = .blobs now (passed ++ rows))
    (hstays : ∀ now rows, w'.pass = .blobs now rows → ∀ row ∈ rows,
      row.2.due env.limits.orphanGraceSecs now = true → w.host.Stays w'.host row.1) : w'.Reading env := by
  intro now rows hrows
  obtain ⟨passed, hpassed⟩ := hpass now rows hrows
  obtain ⟨hbefore, hnodup, hdue⟩ := hread now _ hpassed
  rw [List.map_append] at hnodup
  refine ⟨hbefore.trans hnow, hnodup.of_append_right, fun row hrow hrowDue => ?_⟩
  obtain ⟨entry, hentry, hidle⟩ := hdue row (List.mem_append_right passed hrow) hrowDue
  obtain ⟨entry', hentry', hsame⟩ := hstays now rows hrows row hrow hrowDue entry hentry
  refine ⟨entry', hentry', fun hrefs => ?_⟩
  rw [← (hsame hrefs).2]
  exact hidle (hsame hrefs).1

theorem mem_toCome {now : Nat} {rows : List ((String × String) × BlobEntry)} {row : (String × String) × BlobEntry}
    (hpass : w.pass = .blobs now rows) (hrow : row ∈ rows) (hdue : row.2.due env.limits.orphanGraceSecs now = true) :
    row.1 ∈ w.toCome env := by
  unfold toCome
  rw [hpass]
  exact List.mem_map_of_mem (List.mem_filter.mpr ⟨hrow, hdue⟩)

section
variable (hw : w.Formed env) (ha : ∀ roomId fails, a ≠ .purge roomId fails)
  (hallowed : a.IsAllowed noDuplicates w.host) (hexact : w.host.RefsExact)
  (hstamped : ∀ (key : String × String) (entry : BlobEntry), w.host.blobs[key]? = some entry → entry.refs = 0 →
    entry.idleSince ≤ w.host.now)
  (hroom : w.host.now + env.limits.orphanGraceSecs < 2 ^ 64)
  (hkeeps : ∀ key ∈ w.toCome env, a.releases w.host key = false)
  (hread : w.Reading env)
include hw ha hallowed hexact hstamped hroom hkeeps hread

theorem reading_step : (w.step env a).Reading env := by
  have hnow := (refsExact_step hw ha hallowed hexact).2.now
  have hsame (hpass : (w.step env a).pass = w.pass) (hnext : a ≠ .sweepNext) : (w.step env a).Reading env := by
    refine hread.next hnow (fun now rows hrows => ⟨[], hpass.symm.trans hrows⟩) fun now rows hrows row hrow hdue => ?_
    refine stays_step hw ha hallowed hexact.toCounted (hkeeps _ ?_) fun heq => absurd heq hnext
    exact mem_toCome (hpass.symm.trans hrows) hrow hdue
  cases a with
  | sweep =>
    unfold World.step
    dsimp only
    split
    · -- the pass reads the rows, and what is due now has been unnamed for the grace
      rintro now rows ⟨⟩
      refine ⟨le_rfl, ?_, fun row hrow hdue => ?_⟩
      · rw [ExtTreeMap.map_fst_toList_eq_keys]
        exact ExtTreeMap.nodup_keys
      · have hentry : w.host.blobs[row.1]? = some row.2 := ExtTreeMap.mem_toList_iff_getElem?_eq_some.mp hrow
        refine ⟨row.2, hentry, fun hrefs => ?_⟩
        have hstamp := hstamped row.1 row.2 hentry hrefs
        exact (BlobEntry.due_iff hrefs (by omega)).mp hdue
    · exact hread
  | sweepNext =>
    -- the next row goes, and those after it are of other blobs
    have hpassed (now : Nat) (rows : List ((String × String) × BlobEntry))
        (hrows : (w.step env .sweepNext).pass = .blobs now rows) : ∃ row, w.pass = .blobs now (row :: rows) := by
      change (w.host.nextRow env w.pass).2 = _ at hrows
      unfold nextRow at hrows
      split at hrows <;> cases hrows
      rename_i row hpass
      exact ⟨row, hpass⟩
    refine hread.next hnow (fun now rows hrows => ?_) fun now rows hrows row hrow hdue => ?_
    · obtain ⟨first, hpass⟩ := hpassed now rows hrows
      exact ⟨[first], hpass⟩
    · obtain ⟨first, hpass⟩ := hpassed now rows hrows
      refine stays_step hw ha hallowed hexact.toCounted rfl fun _ now' row' rows' hpass' heq => ?_
      cases hpass.symm.trans hpass'
      exact (List.nodup_cons.mp (hread now _ hpass).2.1).1 (heq ▸ List.mem_map_of_mem hrow)
  | migrate =>
    refine hsame ?_ nofun
    unfold World.step
    dsimp only
    split <;> rfl
  | migrateNext =>
    refine hsame ?_ nofun
    unfold World.step
    dsimp only
    split <;> rfl
  | _ => exact hsame rfl nofun

end

section
variable {start : World} {actions : List Action} (hstart : start.Formed env) (hexact : start.host.RefsExact)
  (hempty : start.host.blobs = ∅) (hpurge : ∀ a ∈ actions, ∀ roomId fails, a ≠ .purge roomId fails)
  (hallowed : ∀ a ∈ actions, ∀ h, a.IsAllowed noDuplicates h)
include hstart hexact hempty hpurge hallowed

/-- Along a run a blob that no record names has not been named since the moment its row carries. -/
theorem idle_since :
    (run (World.step env) start actions).Formed env ∧ (run (World.step env) start actions).host.RefsExact ∧
      ∀ (key : String × String) (entry : BlobEntry),
        (run (World.step env) start actions).host.blobs[key]? = some entry → entry.refs = 0 →
        entry.idleSince ≤ (run (World.step env) start actions).host.now ∧
        Since (World.step env) (fun w => w.host.now ≤ entry.idleSince) (fun w => w.Idle key) start actions := by
  induction actions using List.reverseRecOn with
  | nil =>
    refine ⟨hstart, hexact, fun key entry hentry => ?_⟩
    rw [run_nil, hempty, ExtTreeMap.getElem?_empty] at hentry
    cases hentry
  | append_singleton actions a ih =>
    obtain ⟨hw, hexact, hsince⟩ := ih (fun b hb => hpurge b (List.mem_append_left _ hb))
      fun b hb => hallowed b (List.mem_append_left _ hb)
    have hmem : a ∈ actions ++ [a] := List.mem_append_right _ List.mem_cons_self
    obtain ⟨hexact', hidles⟩ := refsExact_step hw (hpurge a hmem) (hallowed a hmem _) hexact
    rw [run_concat]
    refine ⟨formed_step hw (hpurge a hmem), hexact', fun key entry hentry hrefs => ?_⟩
    have hidle : World.Idle ((run (World.step env) start actions).step env a) key :=
      ⟨by rw [hentry]; rfl, (hexact'.refs key entry hentry).symm.trans hrefs⟩
    rcases hidles.since key entry hentry hrefs with ⟨old, hold, hrefs', heq⟩ | ⟨hafter, hbefore⟩
    · obtain ⟨hstamp, hsince⟩ := hsince key old hold hrefs'
      rw [← heq]
      exact ⟨hstamp.trans hidles.now, hsince.concat hidle⟩
    · exact ⟨hbefore, since_last hafter hidle⟩

theorem reading_run (hpass : start.pass = .idle)
    (halong : Along (World.step env) (fun w a => w.host.now + env.limits.orphanGraceSecs < 2 ^ 64 ∧
      ∀ key ∈ w.toCome env, a.releases w.host key = false) start actions) :
    (run (World.step env) start actions).Reading env := by
  induction actions using List.reverseRecOn with
  | nil =>
    intro now rows hrows
    rw [run_nil, hpass] at hrows
    cases hrows
  | append_singleton actions a ih =>
    have hpurge' : ∀ b ∈ actions, ∀ roomId fails, b ≠ .purge roomId fails :=
      fun b hb => hpurge b (List.mem_append_left _ hb)
    have hallowed' : ∀ b ∈ actions, ∀ h, b.IsAllowed noDuplicates h :=
      fun b hb => hallowed b (List.mem_append_left _ hb)
    have hmem : a ∈ actions ++ [a] := List.mem_append_right _ List.mem_cons_self
    obtain ⟨halong, hroom, hkeeps⟩ := halong.concat
    obtain ⟨hw, hexact, hsince⟩ := idle_since hstart hexact hempty hpurge' hallowed'
    rw [run_concat]
    exact reading_step hw (hpurge a hmem) (hallowed a hmem _) hexact
      (fun key entry hentry hrefs => (hsince key entry hentry hrefs).1) hroom hkeeps (ih hpurge' hallowed' halong)

end

/-- A blob is committed, named by a record and released, and the grace passes; then a collection pass starts. -/
def releasedRun : List Action :=
  [beginFile "did:a" "small", .putChunk (.v1 "did:a") 0 0, .commit oneDisk (.v1 "did:a") 0,
    .writeRecord library none "note" ["small"], .retract "library" "note", .wait 3600, .sweep]

/-- A record names the blob again after the pass has read its row, and before the pass comes to it. -/
def namedDuringSweep : List Action := releasedRun ++ [.writeRecord library none "note" ["small"]]

end World

end TrustInfrastructure.Blobs
