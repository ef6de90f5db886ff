import TrustInfrastructure.Rooms.Mirror

/-!
# What a mirror holds

A pull lists a snapshot and fetches each body later, at whatever version it then has; the watermark follows
the fetched version, and what is at or below it is skipped from then on. So a record rewritten between the
listing and its own fetch carries the watermark past records that are still to be fetched, and they are lost
(`raced_pull_loses_record`). The rest of this module is about runs in which no fetch is raced
(`MirrorSystem.Unraced`).

`Synced` is what holds between the two hosts at every moment of such a run: whatever the primary has at or
below the mirror's watermark, the mirror holds at that version, and whatever the mirror holds is a copy of a
version the primary's record had. `PullPhase` is where the pull under way stands; `PhaseInv` says what it has
yet to bring: every record of the primary above the watermark and below `covered`, the primary's counter when
the listing ended, is among the rows still to be fetched. Later writes take versions from `covered` on, which
is why neither is disturbed by them (`Later`).
-/

namespace TrustInfrastructure.Rooms

open Lib (Program along_append parseU64 parseU64_toString run_append run_cons run_induction)

variable {room : Room} {record : Record} {since floor covered : Nat} {cursor : Option String}
  {rows pending : List ListedRecord} {sides : Sides} {outcome : PullOutcome} {s' : HostStore}
  {actions : List MirrorAction} {key : String}

section
variable (roomId : String)

def counter (s : HostStore) : Nat := (s.room roomId).elim 0 Room.nextVersion

/-- The highest version a mirror has copied. -/
def mark (s : HostStore) : Nat := (s.room roomId).elim 0 Room.watermark

/-! ### How a primary changes -/

/-- The primary after puts and curations: rows it had stay or are replaced at new versions, and new rows take
new versions. -/
structure Later (s s' : HostStore) : Prop where
  counter_le : counter roomId s ≤ counter roomId s'
  visibility : ∀ room', s'.room roomId = some room' →
    ∃ room, s.room roomId = some room ∧ room.visibility = room'.visibility
  old_or_new : ∀ key record', s'.record roomId key = some record' →
    s.record roomId key = some record' ∨ counter roomId s ≤ record'.version
  kept : ∀ key record, s.record roomId key = some record → ∃ record', s'.record roomId key = some record' ∧
    (record' = record ∨ counter roomId s ≤ record'.version)

structure Numbered (s : HostStore) : Prop where
  below : ∀ key record, s.record roomId key = some record → record.version < counter roomId s
  positive : ∀ key record, s.record roomId key = some record → 0 < record.version
  distinct : DistinctVersions roomId s
  keyed : ∀ key record, s.record roomId key = some record → record.key = key
  counter_pos : 0 < counter roomId s
  counter_lt : counter roomId s < 2 ^ 64

/-- One write of a put or a curation: a row at the counter's version, then the counter moved on. -/
inductive Write (s : HostStore) : HostStore → Prop where
  | refused : Write s s
  | wrote (room : Room) (key : String) (record : Record) (now : Nat) (hroom : s.room roomId = some room)
    (hfits : room.nextVersion + 1 < 2 ^ 64) (hversion : record.version = room.nextVersion)
    (hkey : record.key = key ∨ ∃ old, s.record roomId key = some old ∧ record.key = old.key) :
    Write s ((s.withRecord roomId key record).withRoom roomId (takeVersion room now))

variable {roomId}

theorem putRecord_write {s : HostStore} (hfits : CounterFits roomId s) (record : Record)
    (expectedVersion : Option Nat) (now : Nat) :
    Write roomId s ((putRecord roomId record expectedVersion now).final s) := by
  unfold Program.final Program.trace
  rcases putRecord_cases s roomId record expectedVersion now with ⟨e, h⟩ | ⟨room, hroom, _, _, h⟩
  · rw [h]
    exact .refused
  · rw [h]
    exact .wrote room record.key _ now hroom (hfits room hroom) rfl (Or.inl rfl)

theorem stampCuration_key (room : Room) (record : Record) (curation : Curation) (now : Nat) :
    (stampCuration room record curation now).key = record.key := by
  rcases curation with ⟨_ | status, _ | pinned, _⟩ <;> try cases status
  all_goals rfl

theorem curateRecord_write {s : HostStore} (hfits : CounterFits roomId s) (key : String) (curation : Curation)
    (now : Nat) : Write roomId s ((curateRecord roomId key curation now).final s) := by
  unfold Program.final Program.trace
  rcases curateRecord_cases s roomId key curation now with ⟨e, h⟩ | ⟨record, room, hrecord, hroom, _, h⟩
  · rw [h]
    exact .refused
  · rw [h]
    exact .wrote room key _ now hroom (hfits room hroom) rfl
      (Or.inr ⟨record, hrecord, stampCuration_key room record curation now⟩)

variable {s s' : HostStore}

theorem counter_withRoom (room : Room) : counter roomId (s.withRoom roomId room) = room.nextVersion := by
  rw [counter, HostStore.room_withRoom]
  rfl

theorem counter_of_room (hroom : s.room roomId = some room) : counter roomId s = room.nextVersion := by
  rw [counter, hroom]
  rfl

theorem Write.later (h : Write roomId s s') : Later roomId s s' := by
  cases h with
  | refused => exact ⟨le_rfl, fun room' h => ⟨room', h, rfl⟩, fun _ _ h => Or.inl h,
      fun _ record h => ⟨record, h, Or.inl rfl⟩⟩
  | wrote room _ record now hroom hfits hversion =>
    have hnew : counter roomId s ≤ record.version := by rw [counter_of_room hroom, hversion]
    constructor
    · rw [counter_withRoom, counter_of_room hroom, nextVersion_takeVersion hfits]
      exact Nat.le_succ _
    · intro room' hroom'
      rw [HostStore.room_withRoom] at hroom'
      obtain rfl := Option.some.inj hroom'
      exact ⟨room, hroom, rfl⟩
    · intro key' record' hrow
      rw [HostStore.record_withRoom, HostStore.record_withRecord] at hrow
      split at hrow
      · obtain rfl := Option.some.inj hrow
        exact Or.inr hnew
      · exact Or.inl hrow
    · intro key' record' hrow
      rw [HostStore.record_withRoom, HostStore.record_withRecord]
      split
      · exact ⟨record, rfl, Or.inr hnew⟩
      · exact ⟨record', hrow, Or.inl rfl⟩

theorem Write.numbered (h : Write roomId s s') (hs : Numbered roomId s) : Numbered roomId s' := by
  cases h with
  | refused => exact hs
  | wrote room key record now hroom hfits _ hkey =>
    have hcounter := counter_of_room hroom
    have hnext : counter roomId ((s.withRecord roomId key record).withRoom roomId (takeVersion room now)) =
        counter roomId s + 1 := by rw [counter_withRoom, hcounter, nextVersion_takeVersion hfits]
    have hrows : ∀ key' record', ((s.withRecord roomId key record).withRoom roomId (takeVersion room now)).record
        roomId key' = some record' →
        (key' = key ∧ record' = record) ∨ (key' ≠ key ∧ s.record roomId key' = some record') := by
      intro key' record' hrow
      rw [HostStore.record_withRoom, HostStore.record_withRecord] at hrow
      split at hrow
      · rename_i heq
        exact Or.inl ⟨heq.symm, (Option.some.inj hrow).symm⟩
      · rename_i hne
        exact Or.inr ⟨Ne.symm hne, hrow⟩
    constructor
    · intro key' record' hrow
      rw [hnext]
      rcases hrows key' record' hrow with ⟨-, rfl⟩ | ⟨-, hrow⟩
      · omega
      · have := hs.below key' record' hrow
        omega
    · intro key' record' hrow
      rcases hrows key' record' hrow with ⟨-, rfl⟩ | ⟨-, hrow⟩
      · have := hs.counter_pos
        omega
      · exact hs.positive key' record' hrow
    · intro key₁ key₂ record₁ record₂ hrow₁ hrow₂ heq
      -- the new row is at the counter's version and the others are below it
      rcases hrows key₁ record₁ hrow₁ with ⟨hkey₁, hnew₁⟩ | ⟨-, hold₁⟩ <;>
        rcases hrows key₂ record₂ hrow₂ with ⟨hkey₂, hnew₂⟩ | ⟨-, hold₂⟩
      · exact hkey₁.trans hkey₂.symm
      · have := hs.below key₂ record₂ hold₂
        rw [hnew₁] at heq
        omega
      · have := hs.below key₁ record₁ hold₁
        rw [hnew₂] at heq
        omega
      · exact hs.distinct key₁ key₂ record₁ record₂ hold₁ hold₂ heq
    · intro key' record' hrow
      rcases hrows key' record' hrow with ⟨rfl, rfl⟩ | ⟨-, hrow⟩
      · rcases hkey with hkey | ⟨old, hold, hkey⟩
        · exact hkey
        · exact hkey.trans (hs.keyed _ old hold)
      · exact hs.keyed key' record' hrow
    · rw [hnext]
      exact Nat.succ_pos _
    · rw [hnext, hcounter]
      exact hfits

/-! ### The calls of a pull -/

/-- Storing a copy refuses and writes nothing, skips what the mirror is past, or writes the copy and moves the
watermark to its version. -/
theorem storeMirroredRecord_cases (s : HostStore) (record : Record) (now : Nat) :
    (∃ e, (storeMirroredRecord roomId record now).exec s = ([], .error e) ∧
      ((∃ message, e = .conflict message) → record.version ≤ mark roomId s)) ∨
    ∃ room : Room, (storeMirroredRecord roomId record now).exec s =
      ([s.withRecord roomId record.key record,
        (s.withRecord roomId record.key record).withRoom roomId
          { room with nextVersion := (record.version + 1) % 2 ^ 64, updatedAt := now }], .ok record) := by
  simp only [storeMirroredRecord, Program.bind_eq]
  rw [exec_getRoom_bind]
  cases hroom : s.room roomId with
  | none => exact Or.inl ⟨_, rfl, fun ⟨_, h⟩ => nomatch h⟩
  | some room =>
    dsimp only
    rw [exec_lift_bind]
    unfold checkMirrored
    split
    · exact Or.inr ⟨room, rfl⟩
    · rename_i e hcheck
      refine Or.inl ⟨e, rfl, fun ⟨message, he⟩ => ?_⟩
      rw [he] at hcheck
      split at hcheck
      · cases hcheck
      · split at hcheck
        · rename_i hpast
          rw [mark, hroom]
          exact hpast.1
        · cases hcheck

/-- The copies a store writes, in one step. -/
theorem mark_stored {now : Nat} (hfits : record.version + 1 < 2 ^ 64) :
    mark roomId ((s.withRecord roomId record.key record).withRoom roomId
      { room with nextVersion := (record.version + 1) % 2 ^ 64, updatedAt := now }) = record.version := by
  rw [mark, HostStore.room_withRoom, Nat.mod_eq_of_lt hfits]
  exact Nat.add_sub_cancel ..

theorem result_serveRecord (chrono : Chrono) (s : HostStore) (key : String) :
    (∃ e, (serveRecord chrono roomId key).result s = .error e) ∨
    ∃ room record, s.room roomId = some room ∧ s.record roomId key = some record ∧
      (serveRecord chrono roomId key).result s = .ok (getRecordResponse chrono room.visibility record) := by
  simp only [serveRecord, Program.bind_eq, Program.result]
  rw [exec_getRoom_bind]
  cases hroom : s.room roomId with
  | none => exact Or.inl ⟨_, rfl⟩
  | some room =>
    dsimp only
    rw [exec_getRecord_bind]
    cases hrecord : s.record roomId key with
    | none => exact Or.inl ⟨_, rfl⟩
    | some record => exact Or.inr ⟨room, record, rfl, rfl, rfl⟩

/-- Where a listing that began above `since` has come to. -/
inductive ListedUpTo (since : Nat) : Option String → Nat → Prop where
  | first : ListedUpTo since none since
  | after (floor : Nat) (hsince : since ≤ floor) : ListedUpTo since (some (encodeCursor floor)) floor

theorem ListedUpTo.since_le (h : ListedUpTo since cursor floor) : since ≤ floor := by
  cases h with
  | first => exact le_rfl
  | after _ hsince => exact hsince

theorem ListedUpTo.pageFloor (h : ListedUpTo since cursor floor) :
    (∃ e, pageFloor (some since) cursor = .error e) ∨ pageFloor (some since) cursor = .ok (some floor) := by
  cases h with
  | first => exact Or.inr rfl
  | after floor hsince =>
    by_cases hfloor : floor < 2 ^ 64
    · refine Or.inr ?_
      rw [Rooms.pageFloor, decodeCursor_encodeCursor hfloor]
      exact congrArg (Except.ok ∘ some) (max_eq_left hsince)
    · refine Or.inl ?_
      have htext : (encodeCursor floor).toList = 'v' :: (toString floor).toList := by
        simp [encodeCursor, String.toList_append]
      simp only [Rooms.pageFloor, decodeCursor, htext, parseU64_toString, if_neg hfloor]
      exact ⟨_, rfl⟩

/-- A page above `floor` is the first records of the listing there, and the rest of it where there is no
cursor. -/
theorem result_servePage (roomId : String) (s : HostStore) (h : ListedUpTo since cursor floor) :
    (∃ e, (servePage roomId since cursor).result s = .error e) ∨
    (servePage roomId since cursor).result s = .ok ((listing s roomId none (some floor)).map Record.listed, none) ∨
    ∃ n last, ((listing s roomId none (some floor)).take n).getLast? = some last ∧
      (servePage roomId since cursor).result s =
        .ok (((listing s roomId none (some floor)).take n).map Record.listed, some (encodeCursor last.version)) := by
  simp only [servePage, Program.bind_eq, Program.result]
  rw [exec_getRoom_bind]
  cases s.room roomId with
  | none => exact Or.inl ⟨_, rfl⟩
  | some =>
    rw [Program.exec_bind, result_listRecordsPage]
    rcases h.pageFloor with ⟨e, hfloor⟩ | hfloor
    · rw [hfloor]
      exact Or.inl ⟨e, rfl⟩
    · rw [hfloor]
      refine Or.inr ?_
      simp only [Except.map, cutPage]
      by_cases hmore : pageSize none < (listing s roomId none (some floor)).length
      · obtain ⟨last, hlast⟩ : ∃ last, ((listing s roomId none (some floor)).take (pageSize none)).getLast? =
          some last := by
          cases hlist : (listing s roomId none (some floor)).take (pageSize none) with
          | nil =>
            rw [List.take_eq_nil_iff] at hlist
            rcases hlist with hzero | hnil
            · exact absurd hzero (by decide)
            · rw [hnil] at hmore
              exact absurd hmore (Nat.not_lt_zero _)
          | cons first rest => exact ⟨_, List.getLast?_eq_some_getLast (List.cons_ne_nil first rest)⟩
        refine Or.inr ⟨pageSize none, last, hlast, ?_⟩
        simp only [if_pos hmore, hlast, Option.map_some]
        rfl
      · refine Or.inl ?_
        simp only [if_neg hmore, List.take_of_length_le (Nat.le_of_not_lt hmore)]
        rfl

end

/-! ### What holds between the hosts -/

/-- What the primary has at or below the mirror's watermark, the mirror holds at that version; what the mirror
holds is a copy of a version the primary's record had. -/
structure Synced (chrono : Chrono) (roomId : String) (visibility : Visibility) (sides : Sides) : Prop where
  numbered : Numbered roomId sides.primary
  visible : ∀ room, sides.primary.room roomId = some room → room.visibility = visibility
  mark_lt : mark roomId sides.mirror < counter roomId sides.primary
  held : ∀ key record, sides.primary.record roomId key = some record → record.version ≤ mark roomId sides.mirror →
    ∃ copy, sides.mirror.record roomId key = some copy ∧ copy.version = record.version
  copied : ∀ key copy, sides.mirror.record roomId key = some copy →
    ∃ record, sides.primary.record roomId key = some record ∧ copy.version ≤ record.version ∧
      (copy.version = record.version → mirrorCopy chrono visibility record = .ok copy)

/-- `rows` is every record of the primary above `above` and below `covered`, in version order; some of its
rows may have been rewritten since. -/
structure Remaining (roomId : String) (s : HostStore) (above : Nat) (rows : List ListedRecord)
    (covered : Nat) : Prop where
  covered_le : covered ≤ counter roomId s
  ascending : rows.Pairwise fun a b => a.version < b.version
  range : ∀ row ∈ rows, above < row.version ∧ row.version < covered
  complete : ∀ key record, s.record roomId key = some record → above < record.version →
    record.version < covered → ⟨key, record.version⟩ ∈ rows

/-- `record`, fetched but not yet stored, is the next copy, with `rows` to follow. -/
structure Storing (chrono : Chrono) (roomId : String) (visibility : Visibility) (sides : Sides) (record : Record)
    (rows : List ListedRecord) (covered : Nat) : Prop where
  above : mark roomId sides.mirror < record.version
  covered_gt : record.version < covered
  rest : Remaining roomId sides.primary record.version rows covered
  next : ∀ key other, sides.primary.record roomId key = some other → mark roomId sides.mirror < other.version →
    other.version ≤ record.version → key = record.key ∧ other.version = record.version
  source : ∃ current, sides.primary.record roomId record.key = some current ∧ record.version ≤ current.version ∧
    (record.version = current.version → mirrorCopy chrono visibility current = .ok record)

section
variable {chrono : Chrono} {roomId : String} {visibility : Visibility} {s s' : HostStore}

theorem Remaining.later {above : Nat} (h : Remaining roomId s above rows covered)
    (hlater : Later roomId s s') : Remaining roomId s' above rows covered where
  covered_le := h.covered_le.trans hlater.counter_le
  ascending := h.ascending
  range := h.range
  complete key record' hrow habove hcovered := by
    rcases hlater.old_or_new key record' hrow with hold | hnew
    · exact h.complete key record' hold habove hcovered
    · have := h.covered_le
      omega

theorem Synced.later (h : Synced chrono roomId visibility sides)
    (hnumbered : Numbered roomId s') (hlater : Later roomId sides.primary s') :
    Synced chrono roomId visibility { sides with primary := s' } where
  numbered := hnumbered
  visible room' hroom' := by
    obtain ⟨room, hroom, hvisibility⟩ := hlater.visibility room' hroom'
    exact hvisibility.symm.trans (h.visible room hroom)
  mark_lt := h.mark_lt.trans_le hlater.counter_le
  held key record' hrow hle := by
    rcases hlater.old_or_new key record' hrow with hold | hnew
    · exact h.held key record' hold hle
    · have hle' : record'.version ≤ mark roomId sides.mirror := hle
      have := h.mark_lt
      omega
  copied key copy hcopy := by
    obtain ⟨record, hrow, hle, hsame⟩ := h.copied key copy hcopy
    obtain ⟨record', hrow', hrecord'⟩ := hlater.kept key record hrow
    refine ⟨record', hrow', ?_⟩
    rcases hrecord' with rfl | hnew
    · exact ⟨hle, hsame⟩
    · have := h.numbered.below key record hrow
      exact ⟨by omega, fun heq => absurd heq (by omega)⟩

theorem Storing.later
    (h : Storing chrono roomId visibility sides record rows covered) (hnumbered : Numbered roomId sides.primary)
    (hlater : Later roomId sides.primary s') :
    Storing chrono roomId visibility { sides with primary := s' } record rows covered where
  above := h.above
  covered_gt := h.covered_gt
  rest := h.rest.later hlater
  next key other' hrow habove hle := by
    rcases hlater.old_or_new key other' hrow with hold | hnew
    · exact h.next key other' hold habove hle
    · have := h.rest.covered_le
      have := h.covered_gt
      omega
  source := by
    obtain ⟨current, hrow, hle, hsame⟩ := h.source
    obtain ⟨current', hrow', hcurrent'⟩ := hlater.kept record.key current hrow
    refine ⟨current', hrow', ?_⟩
    rcases hcurrent' with rfl | hnew
    · exact ⟨hle, hsame⟩
    · have := hnumbered.below record.key current hrow
      exact ⟨by omega, fun heq => absurd heq (by omega)⟩

end

/-! ### Where a pull stands -/

/-- Where a pull stands. `covered` is the primary's counter when the listing ended; the program does not know
it. -/
inductive PullPhase where
  | start
  | listing (since pages : Nat) (cursor : Option String) (pending : List ListedRecord)
  | copying (rows : List ListedRecord) (outcome : PullOutcome) (covered : Nat)
  | storing (record : Record) (rows : List ListedRecord) (outcome : PullOutcome) (covered : Nat)
  | failed (e : PullError)

variable {phase : PullPhase}

section
variable (chrono : Chrono) (roomId : String) (visibility : Visibility)

def PullPhase.program : PullPhase → PullProgram chrono roomId PullOutcome
  | .start => pullOnce chrono roomId
  | .listing since pages cursor pending =>
    (listToEnd chrono roomId since pages cursor pending).bind (copyListed chrono roomId since)
  | .copying rows outcome _ => copyAll chrono roomId rows outcome
  | .storing record rows outcome _ => storeCopy chrono roomId record outcome (copyAll chrono roomId rows)
  | .failed e => .ret (.error e)

/-- What the pull has yet to bring. -/
def PhaseInv (sides : Sides) : PullPhase → Prop
  | .start => True
  | .listing since _ cursor pending =>
    since = mark roomId sides.mirror ∧
      ∃ floor, ListedUpTo since cursor floor ∧ Remaining roomId sides.primary since pending (floor + 1)
  | .copying rows _ covered => Remaining roomId sides.primary (mark roomId sides.mirror) rows covered
  | .storing record rows _ covered => Storing chrono roomId visibility sides record rows covered
  | .failed _ => True

/-- Nothing was written at the primary since the listing ended. -/
def UpToDate (sides : Sides) : PullPhase → Prop
  | .copying _ _ covered => covered = counter roomId sides.primary
  | .storing _ _ _ covered => covered = counter roomId sides.primary
  | _ => True

end

section
variable {chrono : Chrono} {roomId : String} {visibility : Visibility} {s : HostStore}

/-- A page extends what has been listed: `page` is every record of the listing below `top`. -/
theorem Remaining.extend {top : Nat} {page : List Record}
    (h : Remaining roomId s since pending (floor + 1)) (hs : Numbered roomId s) (hsince : since ≤ floor)
    (hasc : page.Pairwise fun a b => a.version < b.version)
    (hpage : ∀ record ∈ page, record ∈ listing s roomId none (some floor) ∧ record.version < top)
    (hall : ∀ record ∈ listing s roomId none (some floor), record.version < top → record ∈ page)
    (htop : top ≤ counter roomId s) (hfloor : floor < top) :
    Remaining roomId s since (pending ++ page.map Record.listed) top where
  covered_le := htop
  ascending := by
    refine List.pairwise_append.mpr ⟨h.ascending, List.pairwise_map.mpr hasc, ?_⟩
    intro row hrow listed hlisted
    obtain ⟨record, hrecord, rfl⟩ := List.mem_map.mp hlisted
    obtain ⟨key, -, -, habove⟩ := mem_listing.mp (hpage record hrecord).1
    have hgt : floor < record.version := habove floor rfl
    have hle := (h.range row hrow).2
    change row.version < record.version
    omega
  range row hrow := by
    rcases List.mem_append.mp hrow with hold | hlisted
    · have := h.range row hold
      omega
    · obtain ⟨record, hrecord, rfl⟩ := List.mem_map.mp hlisted
      obtain ⟨key, -, -, habove⟩ := mem_listing.mp (hpage record hrecord).1
      have hgt : floor < record.version := habove floor rfl
      exact ⟨hsince.trans_lt hgt, (hpage record hrecord).2⟩
  complete key record hrow habove htop' := by
    by_cases hle : record.version < floor + 1
    · exact List.mem_append_left _ (h.complete key record hrow habove hle)
    · refine List.mem_append_right _ (List.mem_map.mpr ⟨record, hall record ?_ htop', ?_⟩)
      · refine mem_listing.mpr ⟨key, hrow, inScope_iff.mpr ⟨key, (String.empty_append).symm⟩, fun since' heq => ?_⟩
        obtain rfl := Option.some.inj heq
        omega
      · rw [Record.listed, hs.keyed key record hrow]

theorem Remaining.page {n : Nat} {last : Record}
    (h : Remaining roomId s since pending (floor + 1)) (hs : Numbered roomId s) (hsince : since ≤ floor)
    (hlast : ((listing s roomId none (some floor)).take n).getLast? = some last) :
    since ≤ last.version ∧
      Remaining roomId s since (pending ++ ((listing s roomId none (some floor)).take n).map Record.listed)
        (last.version + 1) := by
  have hasc : (listing s roomId none (some floor)).Pairwise fun a b => a.version < b.version :=
    listing_ascending hs.distinct _
  have htake := hasc.sublist (List.take_sublist n _)
  obtain ⟨key, hrow, -, habove⟩ := mem_listing.mp (List.mem_of_mem_take (List.mem_of_getLast? hlast))
  have hgt : floor < last.version := habove floor rfl
  have hbelow := hs.below key last hrow
  refine ⟨by omega, h.extend hs hsince htake ?_ ?_ (by omega) (by omega)⟩
  · intro record hrecord
    have := le_last_of_ascending htake hlast hrecord
    exact ⟨List.mem_of_mem_take hrecord, by omega⟩
  · intro record hrecord hlt
    rw [← List.take_append_drop n (listing s roomId none (some floor)),
      ← listing_above_last hs.distinct hlast] at hrecord
    refine (List.mem_append.mp hrecord).resolve_right fun hleft => ?_
    obtain ⟨_, -, -, hafter⟩ := mem_listing.mp hleft
    have := hafter last.version rfl
    omega

theorem Remaining.lastPage
    (h : Remaining roomId s since pending (floor + 1)) (hs : Numbered roomId s) (hsince : since ≤ floor) :
    Remaining roomId s since (pending ++ (listing s roomId none (some floor)).map Record.listed)
      (counter roomId s) := by
  refine h.extend hs hsince (listing_ascending hs.distinct _) ?_ (fun record hrecord _ => hrecord) le_rfl h.covered_le
  intro record hrecord
  obtain ⟨key, hrow, -, -⟩ := mem_listing.mp hrecord
  exact ⟨hrecord, hs.below key record hrow⟩

/-- Rows listed in order are left in that order. -/
theorem Remaining.sorted (h : Remaining roomId s since pending covered) :
    (pending.insertionSort fun a b => a.version ≤ b.version) = pending :=
  (h.ascending.imp fun hlt => hlt.le).insertionSort_eq

theorem Remaining.fetch {listed : ListedRecord} {copy : Record}
    (h : Remaining roomId sides.primary (mark roomId sides.mirror) (listed :: rows) covered)
    (hs : Numbered roomId sides.primary) (hrow : sides.primary.record roomId listed.key = some record)
    (hversion : record.version = listed.version) (hcopy : mirrorCopy chrono visibility record = .ok copy) :
    Storing chrono roomId visibility sides copy rows covered := by
  obtain ⟨hkey, hsame, -⟩ := mirrorCopy_eq_ok hcopy
  obtain ⟨hfirst, hrest⟩ := List.pairwise_cons.mp h.ascending
  obtain ⟨habove, hcovered⟩ := h.range listed List.mem_cons_self
  have hcopyKey : copy.key = listed.key := hkey.trans (hs.keyed listed.key record hrow)
  constructor
  · omega
  · omega
  · refine ⟨h.covered_le, hrest, fun row hmem => ?_, fun key other hother hgt hlt => ?_⟩
    · have := hfirst row hmem
      exact ⟨by omega, (h.range row (List.mem_cons_of_mem _ hmem)).2⟩
    · have hlisted := h.complete key other hother (by omega) hlt
      refine (List.mem_cons.mp hlisted).resolve_left fun heq => ?_
      have := congrArg ListedRecord.version heq
      change other.version = listed.version at this
      omega
  · intro key other hother hgt hle
    -- among the rows, only the first is at or below the version fetched
    rcases List.mem_cons.mp (h.complete key other hother hgt (by omega)) with heq | hmem
    · have hk := congrArg ListedRecord.key heq
      have hv := congrArg ListedRecord.version heq
      change key = listed.key at hk
      change other.version = listed.version at hv
      exact ⟨by rw [hcopyKey, hk], by omega⟩
    · have := hfirst _ hmem
      change listed.version < other.version at this
      omega
  · exact ⟨record, hcopyKey ▸ hrow, by omega, fun _ => hcopy⟩

/-- Storing the copy keeps the hosts in step, and leaves the rows after it. -/
theorem Storing.stored
    (h : Storing chrono roomId visibility sides record rows covered) (hs : Synced chrono roomId visibility sides)
    (room : Room) (now : Nat) :
    let mirror := (sides.mirror.withRecord roomId record.key record).withRoom roomId
      { room with nextVersion := (record.version + 1) % 2 ^ 64, updatedAt := now }
    Synced chrono roomId visibility { sides with mirror := mirror } ∧
      Remaining roomId sides.primary (mark roomId mirror) rows covered := by
  intro mirror
  have hmark : mark roomId mirror = record.version := mark_stored (by
    have := h.covered_gt
    have := h.rest.covered_le
    have := hs.numbered.counter_lt
    omega)
  have hrows : ∀ key, mirror.record roomId key =
      if record.key = key then some record else sides.mirror.record roomId key := fun key => by
    rw [HostStore.record_withRoom, HostStore.record_withRecord]
  refine ⟨⟨hs.numbered, hs.visible, ?_, ?_, ?_⟩, hmark ▸ h.rest⟩
  · change mark roomId mirror < counter roomId sides.primary
    have := h.covered_gt
    have := h.rest.covered_le
    omega
  · intro key other hother hle
    change other.version ≤ mark roomId mirror at hle
    rw [hrows]
    by_cases hold : other.version ≤ mark roomId sides.mirror
    · -- held before, and not the record just stored: that one was above the watermark
      have hne : record.key ≠ key := by
        rintro rfl
        obtain ⟨current, hcurrent, hge, -⟩ := h.source
        obtain rfl := Option.some.inj (hcurrent.symm.trans hother)
        have := h.above
        omega
      rw [if_neg hne]
      exact hs.held key other hother hold
    · obtain ⟨rfl, hversion⟩ := h.next key other hother (by omega) (by omega)
      exact ⟨record, if_pos rfl, hversion.symm⟩
  · intro key copy hcopy
    rw [hrows] at hcopy
    split at hcopy
    · rename_i hkey
      subst hkey
      obtain rfl := Option.some.inj hcopy
      exact h.source
    · exact hs.copied key copy hcopy

/-! ### One call of a pull -/

/-- What one call of the pull leaves: the hosts in step, the primary as it was, and the pull in a phase that
still brings what it must. -/
structure Advanced (chrono : Chrono) (roomId : String) (visibility : Visibility) (sides : Sides) (phase : PullPhase)
    (sides' : Sides) (pull' : PullProgram chrono roomId PullOutcome) (phase' : PullPhase) : Prop where
  program : pull' = phase'.program chrono roomId
  synced : Synced chrono roomId visibility sides'
  inv : PhaseInv chrono roomId visibility sides' phase'
  upToDate : UpToDate roomId sides phase → UpToDate roomId sides' phase'
  primary : sides'.primary = sides.primary

variable {sides : Sides}

/-- A call that only reads, after which the pull is in `phase'`. -/
theorem Advanced.read {phase' : PullPhase} {pull' : PullProgram chrono roomId PullOutcome}
    (hs : Synced chrono roomId visibility sides) (hprogram : pull' = phase'.program chrono roomId)
    (hinv : PhaseInv chrono roomId visibility sides phase')
    (hdate : UpToDate roomId sides phase → UpToDate roomId sides phase') :
    Advanced chrono roomId visibility sides phase sides pull' phase' :=
  ⟨hprogram, hs, hinv, hdate, rfl⟩

theorem result_getRoom (s : HostStore) : (getRoom roomId).result s = match s.room roomId with
    | some room => .ok room
    | none => .error (.notFound s!"room `{roomId}` not found") := by
  change (match s.room roomId with | some room => _ | none => _ : HostProgram Room).result _ = _
  cases s.room roomId <;> rfl

theorem callNext_start (hs : Synced chrono roomId visibility sides) :
    ∃ phase', Advanced chrono roomId visibility sides .start
      (callNext chrono roomId (pullOnce chrono roomId) sides).1
      (callNext chrono roomId (pullOnce chrono roomId) sides).2 phase' := by
  simp only [callNext, pullOnce, PullOp.exec, result_getRoom]
  cases hmirror : sides.mirror.room roomId with
  | none => exact ⟨.failed _, .read hs rfl trivial fun _ => trivial⟩
  | some room =>
    by_cases hkind : room.isMirror = true
    · have hmark : mark roomId sides.mirror = room.watermark := by rw [mark, hmirror]; rfl
      refine ⟨.listing room.watermark maxPages none [], .read hs ?_ ⟨hmark.symm, room.watermark, .first, ?_⟩
        fun _ => trivial⟩
      · simp [hkind, PullPhase.program]
      · have := hs.mark_lt
        refine ⟨by omega, List.Pairwise.nil, fun row hrow => absurd hrow List.not_mem_nil,
          fun key record _ hgt hlt => ?_⟩
        exact absurd hgt (by omega)
    · refine ⟨.failed (.notMirror roomId), .read hs ?_ trivial fun _ => trivial⟩
      simp [hkind, PullPhase.program]

theorem callNext_page (since pages : Nat) (cursor : Option String) (pending : List ListedRecord) :
    callNext chrono roomId ((PullPhase.listing since (pages + 1) cursor pending).program chrono roomId) sides =
      (sides, match (servePage roomId since cursor).result sides.primary with
        | .error e => .ret (.error (.primary e))
        | .ok (rows, some next) => (PullPhase.listing since pages (some next) (pending ++ rows)).program chrono roomId
        | .ok (rows, none) => copyListed chrono roomId since (pending ++ rows)) := by
  change (sides, Program.bind (match (servePage roomId since cursor).result sides.primary with
    | .error e => .ret (.error (.primary e))
    | .ok (rows, some next) => listToEnd chrono roomId since pages (some next) (pending ++ rows)
    | .ok (rows, none) => .ret (.ok (pending ++ rows))) (copyListed chrono roomId since)) = _
  rcases (servePage roomId since cursor).result sides.primary with e | ⟨rows, _ | next⟩ <;> rfl

theorem callNext_listing {pages : Nat} (hs : Synced chrono roomId visibility sides)
    (h : PhaseInv chrono roomId visibility sides (.listing since pages cursor pending)) :
    ∃ phase', Advanced chrono roomId visibility sides (.listing since pages cursor pending)
      (callNext chrono roomId ((PullPhase.listing since pages cursor pending).program chrono roomId) sides).1
      (callNext chrono roomId ((PullPhase.listing since pages cursor pending).program chrono roomId)
        sides).2 phase' := by
  obtain ⟨hmark, floor, hfloor, hlisted⟩ := h
  cases pages with
  | zero => exact ⟨.failed (.endless roomId), .read hs rfl trivial fun _ => trivial⟩
  | succ pages =>
    rw [callNext_page]
    rcases result_servePage roomId sides.primary hfloor with ⟨e, hreply⟩ | hreply | ⟨n, last, hlast, hreply⟩
    · rw [hreply]
      exact ⟨.failed (.primary e), .read hs rfl trivial fun _ => trivial⟩
    · rw [hreply]
      have hdone := hlisted.lastPage hs.numbered hfloor.since_le
      refine ⟨.copying _ ⟨0, since⟩ (counter roomId sides.primary), .read hs rfl ?_ fun _ => rfl⟩
      change Remaining roomId sides.primary (mark roomId sides.mirror) _ _
      rw [hdone.sorted, ← hmark]
      exact hdone
    · rw [hreply]
      obtain ⟨hsince, hpage⟩ := hlisted.page hs.numbered hfloor.since_le hlast
      exact ⟨.listing since pages (some (encodeCursor last.version)) _, .read hs rfl
        ⟨hmark, last.version, .after _ hsince, hpage⟩ fun _ => trivial⟩

theorem callNext_copying (hs : Synced chrono roomId visibility sides)
    (h : PhaseInv chrono roomId visibility sides (.copying rows outcome covered))
    (hfetch : ∀ listed ∈ rows.head?, ∀ record ∈ sides.primary.record roomId listed.key,
      record.version = listed.version) :
    ∃ phase', Advanced chrono roomId visibility sides (.copying rows outcome covered)
      (callNext chrono roomId (copyAll chrono roomId rows outcome) sides).1
      (callNext chrono roomId (copyAll chrono roomId rows outcome) sides).2 phase' := by
  cases rows with
  | nil => exact ⟨.copying [] outcome covered, .read hs rfl h id⟩
  | cons listed rows =>
    simp only [copyAll, callNext, PullOp.exec]
    rcases result_serveRecord chrono sides.primary listed.key with ⟨e, hreply⟩ | ⟨room, record, hroom, hrow, hreply⟩
    · rw [hreply]
      exact ⟨.failed (.primary e), .read hs rfl trivial fun _ => trivial⟩
    · rw [hreply, hs.visible room hroom]
      dsimp only
      cases hcopy : mirroredRecord chrono (getRecordResponse chrono visibility record) with
      | error e => exact ⟨.failed (.wire e), .read hs rfl trivial fun _ => trivial⟩
      | ok copy =>
        have hversion := hfetch listed rfl record hrow
        exact ⟨.storing copy rows outcome covered, .read hs rfl (h.fetch hs.numbered hrow hversion hcopy) id⟩

theorem callNext_storing (hs : Synced chrono roomId visibility sides)
    (h : PhaseInv chrono roomId visibility sides (.storing record rows outcome covered)) :
    ∃ phase', Advanced chrono roomId visibility sides (.storing record rows outcome covered)
      (callNext chrono roomId (storeCopy chrono roomId record outcome (copyAll chrono roomId rows)) sides).1
      (callNext chrono roomId (storeCopy chrono roomId record outcome (copyAll chrono roomId rows))
        sides).2 phase' := by
  simp only [storeCopy, callNext, PullOp.exec, Program.result, Program.final, Program.trace]
  rcases storeMirroredRecord_cases sides.mirror record sides.now with ⟨e, hexec, hpast⟩ | ⟨room, hexec⟩
  · rw [hexec]
    cases e with
    | conflict message =>
      -- the copy is above the watermark, so the mirror does not skip it
      have := hpast ⟨message, rfl⟩
      have := h.above
      omega
    | _ => exact ⟨.failed (.host _), .read hs rfl trivial fun _ => trivial⟩
  · rw [hexec]
    obtain ⟨hsynced, hrest⟩ := h.stored hs room sides.now
    exact ⟨.copying rows _ covered, rfl, hsynced, hrest, id, rfl⟩

end

/-! ### Runs -/

/-- The hosts are in step, and the pull under way, if there is one, is in a phase that brings what it must. -/
structure SystemInv {chrono : Chrono} {roomId : String} (visibility : Visibility)
    (sys : MirrorSystem chrono roomId) : Prop where
  synced : Synced chrono roomId visibility sys.sides
  phase : ∀ pull, sys.pull = some pull →
    ∃ phase, pull = PullPhase.program chrono roomId phase ∧ PhaseInv chrono roomId visibility sys.sides phase

/-- The pull under way was started after the last write at the primary. -/
def SystemUpToDate {chrono : Chrono} {roomId : String} (visibility : Visibility)
    (sys : MirrorSystem chrono roomId) : Prop :=
  ∃ phase, sys.pull = some (PullPhase.program chrono roomId phase) ∧
    PhaseInv chrono roomId visibility sys.sides phase ∧ UpToDate roomId sys.sides phase

section
variable {chrono : Chrono} {roomId : String} {visibility : Visibility} {sys : MirrorSystem chrono roomId}

theorem PhaseInv.later (h : PhaseInv chrono roomId visibility sides phase) (hs : Numbered roomId sides.primary)
    (hlater : Later roomId sides.primary s') :
    PhaseInv chrono roomId visibility { sides with primary := s' } phase := by
  cases phase with
  | start | failed => trivial
  | listing =>
    obtain ⟨hmark, floor, hfloor, hlisted⟩ := h
    exact ⟨hmark, floor, hfloor, hlisted.later hlater⟩
  | copying => exact Remaining.later h hlater
  | storing => exact Storing.later h hs hlater

/-- No phase depends on the mirror's clock. -/
theorem PhaseInv.tick (h : PhaseInv chrono roomId visibility sides phase)
    (now : Nat) : PhaseInv chrono roomId visibility { sides with now := now } phase := by
  cases phase with
  | storing =>
    obtain ⟨habove, hcovered, hrest, hnext, hsource⟩ := h
    exact ⟨habove, hcovered, hrest, hnext, hsource⟩
  | _ => exact h

/-- A put or a curation at the primary. -/
theorem SystemInv.setPrimary (h : SystemInv visibility sys)
    (hwrite : Write roomId sys.sides.primary s') : SystemInv visibility (sys.setPrimary s') where
  synced := h.synced.later (hwrite.numbered h.synced.numbered) hwrite.later
  phase pull hpull := by
    obtain ⟨phase, hprogram, hinv⟩ := h.phase pull hpull
    exact ⟨phase, hprogram, hinv.later h.synced.numbered hwrite.later⟩

theorem SystemInv.callNext (hs : Synced chrono roomId visibility sys.sides)
    (hpull : sys.pull = some (phase.program chrono roomId))
    (hinv : PhaseInv chrono roomId visibility sys.sides phase) (hfetch : sys.Undisturbed .stepPull) :
    ∃ phase', Advanced chrono roomId visibility sys.sides phase
      (callNext chrono roomId (phase.program chrono roomId) sys.sides).1
      (callNext chrono roomId (phase.program chrono roomId) sys.sides).2 phase' := by
  cases phase with
  | start => exact callNext_start hs
  | listing => exact callNext_listing hs hinv
  | copying rows =>
    refine callNext_copying hs hinv fun listed hlisted => ?_
    cases rows with
    | nil => cases hlisted
    | cons row =>
      obtain rfl := Option.some.inj hlisted
      refine hfetch row ?_
      rw [hpull]
      rfl
  | storing => exact callNext_storing hs hinv
  | failed e => exact ⟨.failed e, .read hs rfl trivial id⟩

/-- **One action keeps the hosts in step**, if the fetch it makes, when it makes one, is not raced. -/
theorem SystemInv.step (h : SystemInv visibility sys) (action : MirrorAction) (hfetch : sys.Undisturbed action) :
    SystemInv visibility (sys.step action) := by
  cases action with
  | put record expectedVersion now => exact h.setPrimary (putRecord_write hfetch record expectedVersion now)
  | curate key curation now => exact h.setPrimary (curateRecord_write hfetch key curation now)
  | tick now =>
    refine ⟨⟨h.synced.numbered, h.synced.visible, h.synced.mark_lt, h.synced.held, h.synced.copied⟩,
      fun pull hpull => ?_⟩
    obtain ⟨phase, hprogram, hinv⟩ := h.phase pull hpull
    exact ⟨phase, hprogram, hinv.tick now⟩
  | startPull =>
    refine ⟨h.synced, fun pull hpull => ⟨.start, (Option.some.inj hpull).symm, trivial⟩⟩
  | stepPull =>
    cases hpull : sys.pull with
    | none => simpa only [MirrorSystem.step, hpull] using h
    | some pull =>
      obtain ⟨phase, rfl, hinv⟩ := h.phase pull hpull
      obtain ⟨phase', hnext⟩ := SystemInv.callNext h.synced hpull hinv hfetch
      simp only [MirrorSystem.step, hpull]
      exact ⟨hnext.synced, fun pull' hpull' => ⟨phase', (Option.some.inj hpull').symm.trans hnext.program, hnext.inv⟩⟩

/-- While the primary does not change, a pull started after its last write stays up to date. -/
theorem SystemUpToDate.step (hup : SystemUpToDate visibility sys) (h : SystemInv visibility sys)
    {action : MirrorAction} (hquiet : action.quiet = true) (hfetch : sys.Undisturbed action) :
    SystemUpToDate visibility (sys.step action) := by
  obtain ⟨phase, hpull, hinv, hdate⟩ := hup
  cases action with
  | put | curate => cases hquiet
  | tick now =>
    refine ⟨phase, hpull, hinv.tick now, ?_⟩
    cases phase <;> exact hdate
  | startPull => exact ⟨.start, rfl, trivial, trivial⟩
  | stepPull =>
    obtain ⟨phase', hnext⟩ := SystemInv.callNext h.synced hpull hinv hfetch
    simp only [MirrorSystem.step, hpull]
    exact ⟨phase', congrArg some hnext.program, hnext.inv, hnext.upToDate hdate⟩

theorem SystemInv.run (h : SystemInv visibility sys) (hraced : sys.Unraced actions) :
    SystemInv visibility (sys.run actions) :=
  run_induction h hraced fun _ action hs hfetch => hs.step action hfetch

theorem SystemUpToDate.run (hup : SystemUpToDate visibility sys)
    (h : SystemInv visibility sys) (hraced : sys.Unraced actions) (hquiet : ∀ action ∈ actions, action.quiet = true) :
    SystemUpToDate visibility (sys.run actions) := by
  induction actions generalizing sys with
  | nil => exact hup
  | cons action _ ih =>
    exact ih (hup.step h (hquiet action List.mem_cons_self) hraced.1) (h.step action hraced.1) hraced.2
      fun a ha => hquiet a (List.mem_cons_of_mem _ ha)

theorem PullPhase.eq_copied
    (h : phase.program chrono roomId = .ret (.ok outcome)) : ∃ covered, phase = .copying [] outcome covered := by
  cases phase with
  | start | storing | failed => cases h
  | listing _ pages => cases pages <;> cases h
  | copying rows _ covered =>
    cases rows with
    | nil =>
      obtain rfl := Except.ok.inj (Program.ret.inj h)
      exact ⟨covered, rfl⟩
    | cons => cases h

theorem SystemUpToDate.le_mark (hup : SystemUpToDate visibility sys)
    (h : SystemInv visibility sys) (hok : sys.pull = some (.ret (.ok outcome)))
    (hrow : sys.sides.primary.record roomId key = some record) : record.version ≤ mark roomId sys.sides.mirror := by
  obtain ⟨phase, hpull, hinv, hdate⟩ := hup
  obtain ⟨covered, rfl⟩ := PullPhase.eq_copied (Option.some.inj (hpull.symm.trans hok))
  by_contra hgt
  have hbelow := h.synced.numbered.below key record hrow
  have hcovered : covered = counter roomId sys.sides.primary := hdate
  have hmem := Remaining.complete hinv key record hrow (Nat.lt_of_not_le hgt) (by omega)
  exact List.not_mem_nil hmem

/-- What the primary has at most at version `watermark`, the mirror has a copy of. -/
theorem Synced.copy_of (h : Synced chrono roomId visibility sides)
    (hrow : sides.primary.record roomId key = some record) (hle : record.version ≤ mark roomId sides.mirror) :
    ∃ copy, sides.mirror.record roomId key = some copy ∧ copy.version = record.version ∧
      mirrorCopy chrono visibility record = .ok copy := by
  obtain ⟨copy, hcopy, hversion⟩ := h.held key record hrow hle
  obtain ⟨record', hrow', -, hsame⟩ := h.copied key copy hcopy
  obtain rfl := Option.some.inj (hrow.symm.trans hrow')
  exact ⟨copy, hcopy, hversion, hsame hversion⟩

end

/-! ### No record is lost -/

/-- A system as it starts: the room registered at the primary and, as its mirror, at the mirror, with no
record at either, and no pull under way. -/
structure MirrorStart {chrono : Chrono} {roomId : String} (sys : MirrorSystem chrono roomId) (room : Room) : Prop where
  registered : sys.sides.primary.room roomId = some room
  unused : room.nextVersion = 1
  noRecords : NoRecords roomId sys.sides.primary
  mirrorRoom : ∀ mirrorRoom, sys.sides.mirror.room roomId = some mirrorRoom → mirrorRoom.nextVersion = 1
  mirrorEmpty : NoRecords roomId sys.sides.mirror
  idle : sys.pull = none

structure LosesNoRecord {chrono : Chrono} {roomId : String} (sys : MirrorSystem chrono roomId)
    (actions : List MirrorAction) : Prop where
  /-- When a pull has returned Ok, the mirror holds at exactly its version every record the primary has at or
  below the mirror's watermark. -/
  held : ∀ outcome mirrorRoom, (sys.run actions).pull = some (.ret (.ok outcome)) →
    (sys.run actions).sides.mirror.room roomId = some mirrorRoom →
    ∀ key record, (sys.run actions).sides.primary.record roomId key = some record →
      record.version ≤ mirrorRoom.watermark →
      ∃ copy, (sys.run actions).sides.mirror.record roomId key = some copy ∧ copy.version = record.version
  /-- When a pull started after the primary's last write has returned Ok, the mirror's records are the copies
  of the primary's. -/
  converges : ∀ before pull outcome room, actions = before ++ .startPull :: pull →
    (∀ action ∈ pull, action.quiet = true) → (sys.run actions).pull = some (.ret (.ok outcome)) →
    (sys.run actions).sides.primary.room roomId = some room →
    ∀ key, match (sys.run actions).sides.primary.record roomId key with
      | none => (sys.run actions).sides.mirror.record roomId key = none
      | some record => ∃ copy, (sys.run actions).sides.mirror.record roomId key = some copy ∧
          copy.version = record.version ∧ mirrorCopy chrono room.visibility record = .ok copy

section
variable {chrono : Chrono} {roomId : String} {sys : MirrorSystem chrono roomId} {room : Room}

theorem MirrorStart.inv (h : MirrorStart sys room) : SystemInv room.visibility sys where
  synced := by
    have hcounter : counter roomId sys.sides.primary = 1 := (counter_of_room h.registered).trans h.unused
    have hmark : mark roomId sys.sides.mirror = 0 := by
      unfold mark
      cases hroom : sys.sides.mirror.room roomId with
      | none => rfl
      | some mirrorRoom =>
        change mirrorRoom.nextVersion - 1 = 0
        rw [h.mirrorRoom mirrorRoom hroom]
    have hnone : ∀ key record, sys.sides.primary.record roomId key ≠ some record := fun key record hrow =>
      absurd ((h.noRecords key).symm.trans hrow) (by simp)
    refine ⟨⟨?_, ?_, ?_, ?_, by omega, by omega⟩, ?_, by omega, ?_, ?_⟩
    · exact fun key record hrow => absurd hrow (hnone key record)
    · exact fun key record hrow => absurd hrow (hnone key record)
    · exact fun key₁ _ record₁ _ hrow => absurd hrow (hnone key₁ record₁)
    · exact fun key record hrow => absurd hrow (hnone key record)
    · intro room' hroom'
      obtain rfl := Option.some.inj (h.registered.symm.trans hroom')
      rfl
    · exact fun key record hrow => absurd hrow (hnone key record)
    · exact fun key copy hcopy => absurd ((h.mirrorEmpty key).symm.trans hcopy) (by simp)
  phase pull hpull := by
    rw [h.idle] at hpull
    cases hpull

end

/-- **An unraced mirror loses no record.** In every run in which each fetch of a listed record finds it at the version
listed and each write of the primary moves its counter on, whatever the primary does in between and wherever pulls fail,
the mirror holds what the primary has up to its watermark, and a pull of a primary that has stopped changing makes it a
full copy. -/
theorem unraced_mirror_loses_no_record (chrono : Chrono) (roomId : String) (sys : MirrorSystem chrono roomId)
    (room : Room) (hstart : MirrorStart sys room) (actions : List MirrorAction) (hraced : sys.Unraced actions) :
    LosesNoRecord sys actions where
  held outcome mirrorRoom _ hmirror key record hrow hle := by
    have hsynced := (hstart.inv.run hraced).synced
    refine hsynced.held key record hrow ?_
    rw [mark, hmirror]
    exact hle
  converges before pull outcome room' hactions hquiet hok hroom' key := by
    have hinv := hstart.inv.run hraced
    have hvisible := hinv.synced.visible room' hroom'
    rw [hactions, MirrorSystem.Unraced, along_append] at hraced
    obtain ⟨hbefore, -, hpull⟩ := hraced
    have hstarted : SystemInv room.visibility (((sys.run before).step .startPull)) :=
      (hstart.inv.run hbefore).step .startPull trivial
    have hup : SystemUpToDate room.visibility (sys.run actions) := by
      rw [hactions, MirrorSystem.run, run_append, run_cons]
      exact SystemUpToDate.run ⟨.start, rfl, trivial, trivial⟩ hstarted hpull hquiet
    cases hrow : (sys.run actions).sides.primary.record roomId key with
    | some =>
      rw [hvisible]
      exact hinv.synced.copy_of hrow (hup.le_mark hinv hok hrow)
    | none =>
      -- a row at the mirror would be a copy of one at the primary
      cases hcopy : (sys.run actions).sides.mirror.record roomId key with
      | none => rfl
      | some copy =>
        obtain ⟨record, hrow', -⟩ := hinv.synced.copied key copy hcopy
        exact absurd (hrow.symm.trans hrow') (by simp)

/-! ### A raced pull -/

section
variable {chrono : Chrono} {roomId : String}

def returned : Option (PullProgram chrono roomId PullOutcome) → Option PullOutcome
  | some (.ret (.ok outcome)) => some outcome
  | _ => none

theorem returned_eq_some {pull : Option (PullProgram chrono roomId PullOutcome)}
    (h : returned pull = some outcome) : pull = some (.ret (.ok outcome)) := by
  unfold returned at h
  split at h
  · rw [Option.some.inj h]
  · cases h

end

/-- Times on the wire as decimal seconds. -/
def plainChrono : Chrono where
  rfc3339 := toString
  timestamp text := (parseU64 text.toList).map Int.ofNat

def sampleMirror : MirrorSystem plainChrono "did:webvh:room" where
  sides :=
    { primary := sampleStore
      mirror := HostStore.empty.withRoom "did:webvh:room"
        { sampleRoom with mirrorOf := some "https://primary.example.org" }
      now := 200 }
  pull := none

theorem sampleMirror_start : MirrorStart sampleMirror sampleRoom where
  registered := by simp [sampleMirror, sampleStore]
  unused := rfl
  noRecords := sampleStore_noRecords
  mirrorRoom room hroom := by
    simp only [sampleMirror, HostStore.room_withRoom, Option.some.injEq] at hroom
    rw [← hroom]
    rfl
  mirrorEmpty key := by simp [sampleMirror, HostStore.record, HostStore.withRoom, HostStore.empty]
  idle := rfl

def unracedRun : List MirrorAction :=
  [.put (sampleNote "a" "first") none 101, .put (sampleNote "b" "second") none 102, .startPull, .stepPull, .stepPull,
    .put (sampleNote "c" "third") none 103, .stepPull, .stepPull, .stepPull, .stepPull]

theorem unraced_mirror_loses_no_record_sample :
    sampleMirror.Unraced unracedRun ∧ LosesNoRecord sampleMirror unracedRun :=
  ⟨by decide, unraced_mirror_loses_no_record _ _ _ _ sampleMirror_start _ (by decide)⟩

/-- Two notes are listed; `a` is written again before it is fetched. -/
def racedRun : List MirrorAction :=
  [.put (sampleNote "a" "first") none 101, .put (sampleNote "b" "second") none 102, .startPull, .stepPull, .stepPull,
    .put (sampleNote "a" "again") none 103, .stepPull, .stepPull, .stepPull, .stepPull]

/-- `a` comes at version 3 and carries the watermark past `b`, which is skipped as a conflict: the pull returns
Ok with `b` at version 2, below the watermark, and not at the mirror. -/
theorem raced_pull_loses_record : MirrorStart sampleMirror sampleRoom ∧ ¬ LosesNoRecord sampleMirror racedRun := by
  refine ⟨sampleMirror_start, fun h => ?_⟩
  have hok : returned (sampleMirror.run racedRun).pull = some ⟨1, 3⟩ := by decide
  have hmark : ((sampleMirror.run racedRun).sides.mirror.room "did:webvh:room").map Room.watermark = some 3 := by decide
  have hb : ((sampleMirror.run racedRun).sides.primary.record "did:webvh:room" "b").map Record.version = some 2 := by
    decide
  have hlost : (sampleMirror.run racedRun).sides.mirror.record "did:webvh:room" "b" = none := by decide
  obtain ⟨mirrorRoom, hmirror, hwatermark⟩ := Option.map_eq_some_iff.mp hmark
  obtain ⟨record, hrow, hversion⟩ := Option.map_eq_some_iff.mp hb
  obtain ⟨copy, hcopy, -⟩ := h.held ⟨1, 3⟩ mirrorRoom (returned_eq_some hok) hmirror "b" record hrow (by omega)
  rw [hlost] at hcopy
  cases hcopy

end TrustInfrastructure.Rooms
