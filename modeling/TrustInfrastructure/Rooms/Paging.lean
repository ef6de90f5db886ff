import TrustInfrastructure.Lib.Ordered
import TrustInfrastructure.Lib.Text
import TrustInfrastructure.Rooms.Versions

/-!
# Listing a room, page by page

`list_records`, `list_records_page` and its cursor. A page is the next records above a floor in version
order; its cursor is the version of the last record on it, and only an absent cursor ends a listing.

`listing` is the whole answer above a floor: strictly ascending in version (`listing_ascending`), and exactly
the matching rows (`mem_listing`). Serving a page and going on from its cursor splits that list
(`listing_above_last`): what is above the last version served is what the page left. So a walk over an
unchanging room serves the list piece by piece (`walk_unchanged`), and on a changing one each record that
stays in place is served when the floor passes its version, once (`walk_serves_once`).
-/

namespace TrustInfrastructure.Rooms

open Lib (Along Program along_of_forall eq_of_ascending parseU64 parseU64_toString)

variable {n version : Nat} {floor : Option Nat} {record last : Record} {l : List Record}
  {seen : String → Record → Prop}

/-! ### The listing -/

/-- List a room's records by version, optionally those of a key prefix, above a watermark. Tombstones are
listed too. -/
def listRecords (roomId : String) (keyPrefix : Option String) (sinceVersion : Option Nat) :
    HostProgram (List Record) := do
  let scanPrefix := match keyPrefix with
    | some p => recordScope roomId ++ p
    | none => recordScope roomId
  let rows ← Program.perform (I := hostInterface) (.scanRecords scanPrefix)
  let kept := (rows.map Prod.snd).filter fun record =>
    match sinceVersion with
    | some since => since < record.version
    | none => true
  return kept.insertionSort fun a b => a.version ≤ b.version

/-- The largest page a host serves, however much a caller asks for. -/
def maxPage : Nat := 500

structure Page where
  records : List Record
  /-- Present when more records remain; its absence is the only end-of-listing signal. -/
  cursor : Option String

def encodeCursor (version : Nat) : String := "v" ++ toString version

def decodeCursor (cursor : String) : Except AppError Nat :=
  let version := match cursor.toList with
    | 'v' :: rest => parseU64 rest
    | _ => none
  match version with
  | some n => .ok n
  | none => .error (.validation
      (s!"`{cursor}` is not a cursor this host issued; " ++
        "continue a listing with the `cursor` from its previous page, or start again without one"))

def pageFloor (sinceVersion : Option Nat) (cursor : Option String) : Except AppError (Option Nat) :=
  match cursor with
  | some c => (decodeCursor c).map fun n => some (max n (sinceVersion.getD 0))
  | none => .ok sinceVersion

/-- `limit` clamped to what a host serves. -/
def pageSize (limit : Option Nat) : Nat := max 1 (min maxPage (limit.getD maxPage))

/-- The page of `all`, and the cursor when more remain. -/
def cutPage (all : List Record) (limit : Option Nat) : Page where
  records := all.take (pageSize limit)
  cursor :=
    if pageSize limit < all.length then
      ((all.take (pageSize limit)).getLast?).map fun last => encodeCursor last.version
    else none

def listRecordsPage (roomId : String) (keyPrefix : Option String) (sinceVersion : Option Nat)
    (cursor : Option String) (limit : Option Nat) : HostProgram Page := do
  let floor ← Program.lift (pageFloor sinceVersion cursor)
  let all ← listRecords roomId keyPrefix floor
  return cutPage all limit

/-! ### What a listing answers -/

/-- Key `key` is one the prefix selects. -/
def matchesPrefix (keyPrefix : Option String) (key : String) : Bool :=
  inScope (keyPrefix.getD "") key

/-- `version` is above the floor, if there is one. -/
def aboveFloor (floor : Option Nat) (version : Nat) : Prop := ∀ since, floor = some since → since < version

def DistinctVersions (roomId : String) (s : HostStore) : Prop :=
  ∀ key₁ key₂ record₁ record₂, s.record roomId key₁ = some record₁ → s.record roomId key₂ = some record₂ →
    record₁.version = record₂.version → key₁ = key₂

/-- The records a listing above `floor` answers. -/
def listing (s : HostStore) (roomId : String) (keyPrefix : Option String) (floor : Option Nat) : List Record :=
  (((s.records.toList.filter fun row => inScope (recordScope roomId ++ keyPrefix.getD "") row.1).map Prod.snd).filter
    fun record => match floor with
      | some since => since < record.version
      | none => true).insertionSort fun a b => a.version ≤ b.version

section
variable (s : HostStore) (roomId : String) (keyPrefix : Option String)

theorem exec_listRecords (floor : Option Nat) :
    (listRecords roomId keyPrefix floor).exec s = ([], .ok (listing s roomId keyPrefix floor)) := by
  cases keyPrefix with
  | some => rfl
  | none =>
    simp only [listing, Option.getD_none, String.append_empty]
    rfl

theorem result_listRecordsPage (sinceVersion : Option Nat) (cursor : Option String) (limit : Option Nat) :
    (listRecordsPage roomId keyPrefix sinceVersion cursor limit).result s =
      (pageFloor sinceVersion cursor).map fun floor => cutPage (listing s roomId keyPrefix floor) limit := by
  unfold listRecordsPage Program.result
  cases pageFloor sinceVersion cursor with
  | error => rfl
  | ok =>
    simp only [Program.bind_eq, Program.lift_ok, Program.bind_ok, Program.exec_bind, Program.result,
      exec_listRecords]
    rfl

end

theorem decodeCursor_encodeCursor (hn : n < 2 ^ 64) : decodeCursor (encodeCursor n) = .ok n := by
  have htext : (encodeCursor n).toList = 'v' :: (toString n).toList := by
    simp [encodeCursor, String.toList_append]
  simp only [decodeCursor, htext, parseU64_toString, if_pos hn]

section
variable {s : HostStore} {roomId : String} {keyPrefix : Option String}

theorem mem_scan {row : String × Record} :
    (row ∈ s.records.toList.filter fun row => inScope (recordScope roomId ++ keyPrefix.getD "") row.1) ↔
      ∃ key, row.1 = recordKey roomId key ∧ s.record roomId key = some row.2 ∧
        matchesPrefix keyPrefix key = true := by
  rw [List.mem_filter, Std.ExtTreeMap.mem_toList_iff_getElem?_eq_some, inScope_iff]
  constructor
  · rintro ⟨hrow, rest, hkey⟩
    refine ⟨keyPrefix.getD "" ++ rest, ?_, ?_, inScope_append _ _⟩
    · rw [hkey, recordKey, String.append_assoc]
    · rw [HostStore.record, recordKey, ← String.append_assoc, ← hkey]
      exact hrow
  · rintro ⟨key, hkey, hrecord, hmatches⟩
    obtain ⟨rest, rfl⟩ := inScope_iff.mp hmatches
    refine ⟨?_, rest, ?_⟩
    · rw [hkey]
      exact hrecord
    · rw [hkey, recordKey, String.append_assoc]

theorem floor_filter_iff :
    (match floor with
      | some since => decide (since < record.version)
      | none => true) = true ↔ aboveFloor floor record.version := by
  cases floor with
  | none | some => simp [aboveFloor]

theorem mem_listing :
    record ∈ listing s roomId keyPrefix floor ↔
      ∃ key, s.record roomId key = some record ∧ matchesPrefix keyPrefix key = true ∧
        aboveFloor floor record.version := by
  rw [listing, (List.perm_insertionSort _ _).mem_iff, List.mem_filter, floor_filter_iff, List.mem_map]
  constructor
  · rintro ⟨⟨row, hrow, rfl⟩, habove⟩
    obtain ⟨key, -, hrecord, hmatches⟩ := mem_scan.mp hrow
    exact ⟨key, hrecord, hmatches, habove⟩
  · rintro ⟨key, hrecord, hmatches, habove⟩
    exact ⟨⟨(recordKey roomId key, record), mem_scan.mpr ⟨key, rfl, hrecord, hmatches⟩, rfl⟩, habove⟩

theorem scan_versions_ne (hdistinct : DistinctVersions roomId s) :
    ((s.records.toList.filter fun row => inScope (recordScope roomId ++ keyPrefix.getD "") row.1).map
      Prod.snd).Pairwise fun a b => a.version ≠ b.version := by
  rw [List.pairwise_map]
  have hkeys : (s.records.toList.filter fun row =>
      inScope (recordScope roomId ++ keyPrefix.getD "") row.1).Pairwise fun a b => a.1 ≠ b.1 := by
    refine (Std.ExtTreeMap.distinct_keys_toList.imp ?_).filter _
    intro a b hab heq
    exact hab (by rw [heq]; exact Std.ReflCmp.compare_self)
  refine hkeys.imp_of_mem ?_
  intro a b ha hb hne heq
  obtain ⟨key₁, hkey₁, hrecord₁, -⟩ := mem_scan.mp ha
  obtain ⟨key₂, hkey₂, hrecord₂, -⟩ := mem_scan.mp hb
  have hkey := hdistinct key₁ key₂ a.2 b.2 hrecord₁ hrecord₂ heq
  exact hne (by rw [hkey₁, hkey₂, hkey])

theorem listing_ascending (hdistinct : DistinctVersions roomId s) (floor : Option Nat) :
    (listing s roomId keyPrefix floor).Pairwise fun a b => a.version < b.version := by
  have htotal : Std.Total fun a b : Record => a.version ≤ b.version := ⟨fun a b => Nat.le_total _ _⟩
  have htrans : IsTrans Record fun a b => a.version ≤ b.version := ⟨fun a b c hab hbc => le_trans hab hbc⟩
  have hsorted : (listing s roomId keyPrefix floor).Pairwise fun a b => a.version ≤ b.version :=
    List.pairwise_insertionSort _ _
  have hne : (listing s roomId keyPrefix floor).Pairwise fun a b => a.version ≠ b.version :=
    (List.perm_insertionSort _ _).symm.pairwise ((scan_versions_ne hdistinct).filter _) fun h => Ne.symm h
  exact hsorted.imp₂ (fun a b hle hne => lt_of_le_of_ne hle hne) hne

instance asymmVersion : Std.Asymm fun a b : Record => a.version < b.version := ⟨fun _ _ => Nat.lt_asymm⟩

theorem le_last_of_ascending
    (h : l.Pairwise fun a b => a.version < b.version) (hlast : l.getLast? = some last) (hrecord : record ∈ l) :
    record.version ≤ last.version := by
  obtain ⟨before, rfl⟩ := List.getLast?_eq_some_iff.mp hlast
  rcases List.mem_append.mp hrecord with hearlier | heq
  · exact ((List.pairwise_append.mp h).2.2 record hearlier last (List.mem_singleton.mpr rfl)).le
  · rw [List.mem_singleton.mp heq]

/-- **Going on from a page.** What a listing answers above the last version of its first `n` records is what
those `n` records left. -/
theorem listing_above_last (hdistinct : DistinctVersions roomId s)
    (hlast : ((listing s roomId keyPrefix floor).take n).getLast? = some last) :
    listing s roomId keyPrefix (some last.version) = (listing s roomId keyPrefix floor).drop n := by
  have hasc : (listing s roomId keyPrefix floor).Pairwise fun a b => a.version < b.version :=
    listing_ascending hdistinct floor
  have hsplit := List.take_append_drop n (listing s roomId keyPrefix floor)
  rw [← hsplit] at hasc
  obtain ⟨htake, hdrop, hcross⟩ := List.pairwise_append.mp hasc
  have hlastMem : last ∈ (listing s roomId keyPrefix floor).take n := List.mem_of_getLast? hlast
  have hlastAbove : aboveFloor floor last.version := by
    obtain ⟨key, -, -, habove⟩ := mem_listing.mp (List.mem_of_mem_take hlastMem)
    exact habove
  refine eq_of_ascending (listing_ascending hdistinct _) hdrop fun record => ?_
  constructor
  · intro hrecord
    obtain ⟨key, hrow, hmatches, habove⟩ := mem_listing.mp hrecord
    have hgt := habove last.version rfl
    have hlisted : record ∈ listing s roomId keyPrefix floor :=
      mem_listing.mpr ⟨key, hrow, hmatches, fun since hsince => (hlastAbove since hsince).trans hgt⟩
    rw [← hsplit] at hlisted
    rcases List.mem_append.mp hlisted with htaken | hleft
    · -- everything on the page is at or below its last version
      exact absurd (le_last_of_ascending htake hlast htaken) (Nat.not_le.mpr hgt)
    · exact hleft
  · intro hrecord
    obtain ⟨key, hrow, hmatches, -⟩ := mem_listing.mp (List.mem_of_mem_drop hrecord)
    refine mem_listing.mpr ⟨key, hrow, hmatches, fun since hsince => ?_⟩
    obtain rfl := Option.some.inj hsince
    exact hcross last hlastMem record hrecord

end

/-! ### Walking a listing to its end -/

/-- Ask for page after page with the same filters and the cursor of the page before, each page from the store
and with the limit given for it, until no cursor comes back. Answers what was served, and whether the
listing ended. -/
def walk (roomId : String) (keyPrefix : Option String) (sinceVersion : Option Nat) :
    List (HostStore × Option Nat) → Option String → Except AppError (List Record × Bool)
  | [], _ => .ok ([], false)
  | (s, limit) :: calls, cursor => do
    let page ← (listRecordsPage roomId keyPrefix sinceVersion cursor limit).result s
    match page.cursor with
    | none => return (page.records, true)
    | some next =>
      let (records, ended) ← walk roomId keyPrefix sinceVersion calls (some next)
      return (page.records ++ records, ended)

/-- The versions are `u64`s, as the source's field is. -/
def U64Versions (roomId : String) (s : HostStore) : Prop :=
  ∀ key record, s.record roomId key = some record → record.version < 2 ^ 64

/-- A cursor the walk reached, and the floor it stands for. -/
inductive CursorAt (sinceVersion : Option Nat) : Option String → Option Nat → Prop where
  | first : CursorAt sinceVersion none sinceVersion
  | after (n : Nat) (hn : n < 2 ^ 64) (hsince : sinceVersion.getD 0 ≤ n) :
    CursorAt sinceVersion (some (encodeCursor n)) (some n)

section
variable {roomId : String} {keyPrefix : Option String} {sinceVersion : Option Nat} {s : HostStore}
  {cursor : Option String} {floor : Option Nat}

theorem CursorAt.pageFloor_eq (h : CursorAt sinceVersion cursor floor) : pageFloor sinceVersion cursor = .ok floor := by
  cases h with
  | first => rfl
  | after _ hn hsince =>
    rw [pageFloor, decodeCursor_encodeCursor hn]
    exact congrArg (Except.ok ∘ some) (max_eq_left hsince)

theorem CursorAt.since_le (h : CursorAt sinceVersion cursor floor) (habove : aboveFloor floor version) :
    sinceVersion.getD 0 ≤ version := by
  cases h with
  | first =>
    cases sinceVersion with
    | none => exact Nat.zero_le _
    | some since => exact (habove since rfl).le
  | after n _ hsince => exact hsince.trans (habove n rfl).le

/-- One page of a walk: the whole rest of the listing, and the walk ends; or the first records of it, and the
walk goes on above the last of them. -/
theorem walk_cons (hcursor : CursorAt sinceVersion cursor floor) (hu64 : U64Versions roomId s)
    (limit : Option Nat) (calls : List (HostStore × Option Nat)) :
    ((listing s roomId keyPrefix floor).length ≤ pageSize limit ∧
      walk roomId keyPrefix sinceVersion ((s, limit) :: calls) cursor =
        .ok (listing s roomId keyPrefix floor, true)) ∨
    ∃ last, pageSize limit < (listing s roomId keyPrefix floor).length ∧
      ((listing s roomId keyPrefix floor).take (pageSize limit)).getLast? = some last ∧
      CursorAt sinceVersion (some (encodeCursor last.version)) (some last.version) ∧
      walk roomId keyPrefix sinceVersion ((s, limit) :: calls) cursor =
        (walk roomId keyPrefix sinceVersion calls (some (encodeCursor last.version))).map fun rest =>
          ((listing s roomId keyPrefix floor).take (pageSize limit) ++ rest.1, rest.2) := by
  have hpage : (listRecordsPage roomId keyPrefix sinceVersion cursor limit).result s =
      .ok (cutPage (listing s roomId keyPrefix floor) limit) := by
    rw [result_listRecordsPage, hcursor.pageFloor_eq]
    rfl
  by_cases hmore : pageSize limit < (listing s roomId keyPrefix floor).length
  · have hne : (listing s roomId keyPrefix floor).take (pageSize limit) ≠ [] := by
      intro hnil
      rw [List.take_eq_nil_iff] at hnil
      rcases hnil with hzero | hnil
      · simp [pageSize] at hzero
      · simp [hnil] at hmore
    obtain ⟨last, hlast⟩ : ∃ last, ((listing s roomId keyPrefix floor).take (pageSize limit)).getLast? = some last :=
      ⟨_, List.getLast?_eq_some_getLast hne⟩
    obtain ⟨key, hrow, -, habove⟩ := mem_listing.mp (List.mem_of_mem_take (List.mem_of_getLast? hlast))
    refine Or.inr ⟨last, hmore, hlast, .after _ (hu64 key last hrow) (hcursor.since_le habove), ?_⟩
    simp only [walk, hpage, cutPage, if_pos hmore, hlast, Option.map_some]
    change (walk roomId keyPrefix sinceVersion calls (some (encodeCursor last.version)) >>= fun rest =>
      pure ((listing s roomId keyPrefix floor).take (pageSize limit) ++ rest.1, rest.2)) = _
    cases walk roomId keyPrefix sinceVersion calls (some (encodeCursor last.version)) <;> rfl
  · refine Or.inl ⟨Nat.le_of_not_lt hmore, ?_⟩
    simp only [walk, hpage, cutPage, if_neg hmore, List.take_of_length_le (Nat.le_of_not_lt hmore)]
    rfl

theorem walk_unchanged (hdistinct : DistinctVersions roomId s) (hu64 : U64Versions roomId s)
    (limits : List (Option Nat)) (hcursor : CursorAt sinceVersion cursor floor)
    (hcalls : (listing s roomId keyPrefix floor).length < limits.length) :
    walk roomId keyPrefix sinceVersion (limits.map fun limit => (s, limit)) cursor =
      .ok (listing s roomId keyPrefix floor, true) := by
  induction limits generalizing cursor floor with
  | nil => simp at hcalls
  | cons limit limits ih =>
    rw [List.map_cons]
    rcases walk_cons hcursor hu64 limit (limits.map fun limit => (s, limit)) with
      ⟨-, hwalk⟩ | ⟨last, hmore, hlast, hnext, hwalk⟩
    · exact hwalk
    · have hrest := listing_above_last hdistinct hlast
      have hshort : (listing s roomId keyPrefix (some last.version)).length < limits.length := by
        rw [hrest, List.length_drop]
        have hsize : 1 ≤ pageSize limit := le_max_left _ _
        rw [List.length_cons] at hcalls
        omega
      rw [hwalk, ih hnext hshort, hrest]
      exact congrArg (fun records => Except.ok (records, true)) (List.take_append_drop _ _)

def leastAbove : Option Nat → Nat
  | none => 0
  | some since => since + 1

theorem aboveFloor_iff : aboveFloor floor version ↔ leastAbove floor ≤ version := by
  cases floor with
  | none | some => simp [aboveFloor, leastAbove]

/-- A walk over a changing room serves a record that stays in place once: before the floor passes its
version it is still to come, and it has come when the walk ends or the floor must have passed. -/
theorem walk_serves_once {key : String} (hmatches : matchesPrefix keyPrefix key = true)
    (calls : List (HostStore × Option Nat))
    (hcalls : ∀ call ∈ calls, DistinctVersions roomId call.1 ∧ U64Versions roomId call.1 ∧
      call.1.record roomId key = some record)
    (hcursor : CursorAt sinceVersion cursor floor) :
    ∃ records ended, walk roomId keyPrefix sinceVersion calls cursor = .ok (records, ended) ∧
      (¬ aboveFloor floor record.version → record ∉ records) ∧
      (aboveFloor floor record.version → ended = true ∨ record.version < calls.length + leastAbove floor →
        records.count record = 1) := by
  induction calls generalizing cursor floor with
  | nil =>
    refine ⟨[], false, rfl, fun _ => List.not_mem_nil, fun habove hend => ?_⟩
    rw [aboveFloor_iff] at habove
    rcases hend with hend | hend
    · cases hend
    · rw [List.length_nil] at hend
      omega
  | cons call calls ih =>
    obtain ⟨s, limit⟩ := call
    obtain ⟨hdistinct, hu64, hrow⟩ := hcalls (s, limit) List.mem_cons_self
    have hnodup : (listing s roomId keyPrefix floor).Nodup := (listing_ascending hdistinct floor).nodup
    have hnot : ¬ aboveFloor floor record.version → record ∉ listing s roomId keyPrefix floor := fun hbelow hmem =>
      hbelow (mem_listing.mp hmem).choose_spec.2.2
    have hmem : aboveFloor floor record.version → record ∈ listing s roomId keyPrefix floor := fun habove =>
      mem_listing.mpr ⟨key, hrow, hmatches, habove⟩
    rcases walk_cons hcursor hu64 limit calls with ⟨-, hwalk⟩ | ⟨last, hmore, hlast, hnext, hwalk⟩
    · exact ⟨_, true, hwalk, hnot, fun habove _ => List.count_eq_one_of_mem hnodup (hmem habove)⟩
    · obtain ⟨rest, ended, hrest, hpassed, hahead⟩ := ih (fun c hc => hcalls c (List.mem_cons_of_mem _ hc)) hnext
      have hlastAbove : aboveFloor floor last.version :=
        (mem_listing.mp (List.mem_of_mem_take (List.mem_of_getLast? hlast))).choose_spec.2.2
      rw [hrest] at hwalk
      refine ⟨_, ended, hwalk, fun hbelow => ?_, fun habove hend => ?_⟩
      · -- below this floor, so below the next one too
        have hlt : ¬ aboveFloor (some last.version) record.version := by
          rw [aboveFloor_iff] at hbelow hlastAbove ⊢
          simp only [leastAbove]
          omega
        exact fun h => (List.mem_append.mp h).elim (fun h => hnot hbelow (List.mem_of_mem_take h)) (hpassed hlt)
      · by_cases hserved : record ∈ (listing s roomId keyPrefix floor).take (pageSize limit)
        · -- on this page: the next floor is at or above its version
          have hle : ¬ aboveFloor (some last.version) record.version := by
            intro habove'
            have hlisted := mem_listing.mpr ⟨key, hrow, hmatches, habove'⟩
            rw [listing_above_last hdistinct hlast] at hlisted
            rw [← List.take_append_drop (pageSize limit) (listing s roomId keyPrefix floor)] at hnodup
            exact (List.nodup_append.mp hnodup).2.2 record hserved record hlisted rfl
          rw [List.count_append, List.count_eq_zero_of_not_mem (hpassed hle)]
          exact List.count_eq_one_of_mem (hnodup.sublist (List.take_sublist _ _)) hserved
        · -- not on this page: it is among what the page left, above the next floor
          have habove' : aboveFloor (some last.version) record.version := by
            have hleft : record ∈ (listing s roomId keyPrefix floor).drop (pageSize limit) := by
              have hlisted := hmem habove
              rw [← List.take_append_drop (pageSize limit) (listing s roomId keyPrefix floor)] at hlisted
              exact (List.mem_append.mp hlisted).resolve_left hserved
            rw [← listing_above_last hdistinct hlast] at hleft
            exact (mem_listing.mp hleft).choose_spec.2.2
          rw [List.count_append, List.count_eq_zero_of_not_mem hserved, Nat.zero_add]
          refine hahead habove' (hend.imp_right fun hlen => ?_)
          rw [aboveFloor_iff] at hlastAbove
          rw [List.length_cons] at hlen
          change record.version < calls.length + (last.version + 1)
          omega

end

/-! ### Paging is exact -/

/-- The store before page `i`, when the calls of `changes j` run between pages `j` and `j + 1`. -/
def storeAt (roomId : String) (s : HostStore) (changes : Nat → List RecordStep) : Nat → HostStore
  | 0 => s
  | i + 1 => reach roomId (storeAt roomId s changes i) (changes i)

/-- Paging the room from `s` with these filters is exact. -/
structure PagingExact (roomId : String) (keyPrefix : Option String) (sinceVersion : Option Nat)
    (s : HostStore) : Prop where
  /-- While nothing changes, every sequence of limits comes to an end and has then served the records that
  match, ascending in version, each once. -/
  unchanged : ∀ limits : Nat → Option Nat, ∃ n records,
    walk roomId keyPrefix sinceVersion ((List.range n).map fun i => (s, limits i)) none = .ok (records, true) ∧
      (records.Pairwise fun a b => a.version < b.version) ∧
      ∀ record, record ∈ records ↔ ∃ key, s.record roomId key = some record ∧
        matchesPrefix keyPrefix key = true ∧ aboveFloor sinceVersion record.version
  /-- While puts and curations, each moving the counter on, run between the pages, a record that matches and
  stays as it is is served once: by the time the walk ends, and at the latest on the page its version counts. -/
  changing : (∀ room, s.room roomId = some room → ∀ key record, s.record roomId key = some record →
      record.version < room.nextVersion) →
    ∀ (changes : Nat → List RecordStep), (∀ i, ∀ step ∈ changes i, step.call.writesRecord = true ∧ step.writes = none) →
    (∀ i, Along (RecordStep.leaves roomId) (fun s _ => CounterFits roomId s) (storeAt roomId s changes i) (changes i)) →
    ∀ (limits : Nat → Option Nat) (n : Nat), (∀ i < n, U64Versions roomId (storeAt roomId s changes i)) →
    ∀ key record, matchesPrefix keyPrefix key = true → aboveFloor sinceVersion record.version →
    (∀ i < n, (storeAt roomId s changes i).record roomId key = some record) →
    ∃ records ended,
      walk roomId keyPrefix sinceVersion ((List.range n).map fun i => (storeAt roomId s changes i, limits i)) none =
        .ok (records, ended) ∧
      (ended = true ∨ record.version < n → records.count record = 1)

section
variable {roomId : String} {s : HostStore}

theorem DistinctVersions.ledger (hdistinct : DistinctVersions roomId s)
    (hbelow : ∀ room, s.room roomId = some room → ∀ key record, s.record roomId key = some record →
      record.version < room.nextVersion) :
    Ledger roomId (fun key record => s.record roomId key = some record) s where
  covers _ _ h := h
  below := hbelow
  distinct key₁ key₂ record₁ record₂ h₁ h₂ heq := by
    obtain rfl := hdistinct key₁ key₂ record₁ record₂ h₁ h₂ heq
    exact ⟨rfl, Option.some.inj (h₁.symm.trans h₂)⟩

theorem Ledger.distinctVersions (h : Ledger roomId seen s) :
    DistinctVersions roomId s := fun key₁ key₂ record₁ record₂ h₁ h₂ heq =>
  (h.distinct key₁ key₂ record₁ record₂ (h.covers _ _ h₁) (h.covers _ _ h₂) heq).1

/-- Whole puts and curations keep a ledger. -/
theorem storeAt_ledger (h : Ledger roomId seen s) {changes : Nat → List RecordStep}
    (hchanges : ∀ i, ∀ step ∈ changes i, step.call.writesRecord = true ∧ step.writes = none)
    (hfits : ∀ i, Along (RecordStep.leaves roomId) (fun s _ => CounterFits roomId s) (storeAt roomId s changes i)
      (changes i)) (i : Nat) :
    ∃ seen', Ledger roomId seen' (storeAt roomId s changes i) := by
  induction i with
  | zero => exact ⟨seen, h⟩
  | succ i ih =>
    obtain ⟨seen', h'⟩ := ih
    have huntorn : Along (RecordStep.leaves roomId) (fun _ step => step.torn = false) (storeAt roomId s changes i)
        (changes i) := along_of_forall fun step hstep _ => by simp [RecordStep.torn, (hchanges i step hstep).2]
    obtain ⟨seen'', -, hreach, -⟩ := run_ledger (changes i) h' (huntorn.and (hfits i))
    exact ⟨seen'', hreach⟩

end

/-- **Paging a room is exact.** -/
theorem paging_exact (roomId : String) (keyPrefix : Option String) (sinceVersion : Option Nat) (s : HostStore)
    (hdistinct : DistinctVersions roomId s) (hu64 : U64Versions roomId s) :
    PagingExact roomId keyPrefix sinceVersion s where
  unchanged limits := by
    refine ⟨(listing s roomId keyPrefix sinceVersion).length + 1, listing s roomId keyPrefix sinceVersion, ?_,
      listing_ascending hdistinct _, fun record => mem_listing⟩
    have hcalls : (listing s roomId keyPrefix sinceVersion).length <
        ((List.range ((listing s roomId keyPrefix sinceVersion).length + 1)).map limits).length := by simp
    have hwalk := walk_unchanged hdistinct hu64 _ (.first : CursorAt sinceVersion none sinceVersion) hcalls
    rwa [List.map_map] at hwalk
  changing hbelow changes hchanges hfits limits n hversions key record hmatches habove hrows := by
    obtain ⟨records, ended, hwalk, -, hserved⟩ := walk_serves_once hmatches
      ((List.range n).map fun i => (storeAt roomId s changes i, limits i)) (fun call hcall => by
        obtain ⟨i, hi, rfl⟩ := List.mem_map.mp hcall
        have hin := List.mem_range.mp hi
        obtain ⟨seen, hledger⟩ := storeAt_ledger (hdistinct.ledger hbelow) hchanges hfits i
        exact ⟨hledger.distinctVersions, hversions i hin, hrows i hin⟩) (.first : CursorAt sinceVersion _ _)
    refine ⟨records, ended, hwalk, fun hend => hserved habove (hend.imp_right fun hlt => ?_)⟩
    rw [List.length_map, List.length_range]
    omega

def twoNotes : HostStore :=
  reach "did:webvh:room" sampleStore
    [⟨.put (sampleNote "a" "first") none 101, none⟩, ⟨.put (sampleNote "b" "second") none 102, none⟩]

theorem twoNotes_ledger : ∃ seen, Ledger "did:webvh:room" seen twoNotes := by
  obtain ⟨seen, -, hledger, -⟩ := run_ledger
    [⟨.put (sampleNote "a" "first") none 101, none⟩, ⟨.put (sampleNote "b" "second") none 102, none⟩]
    sampleStore_noRecords.ledger (by decide)
  exact ⟨seen, hledger⟩

theorem twoNotes_u64 : U64Versions "did:webvh:room" twoNotes := by
  intro key record hrow
  obtain ⟨seen, hledger⟩ := twoNotes_ledger
  have hcounter : (twoNotes.room "did:webvh:room").map Room.nextVersion = some 3 := by decide
  obtain ⟨room, hroom, hnext⟩ := Option.map_eq_some_iff.mp hcounter
  have hlt := hledger.below room hroom key record (hledger.covers key record hrow)
  omega

/-- Paging the two notes from the first version on is exact, and the room holds both. -/
theorem paging_exact_twoNotes :
    PagingExact "did:webvh:room" none (some 0) twoNotes ∧
      (twoNotes.record "did:webvh:room" "a").map Record.version = some 1 ∧
      (twoNotes.record "did:webvh:room" "b").map Record.version = some 2 :=
  ⟨paging_exact _ _ _ _ twoNotes_ledger.choose_spec.distinctVersions twoNotes_u64, by decide, by decide⟩

end TrustInfrastructure.Rooms
