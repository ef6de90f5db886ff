import TrustInfrastructure.Rooms.Revocation

/-!
# The next revocation list

The list a key holder builds over the one the room holds (`nextUnsigned`), and whether a host takes it.

What is built should be accepted. An entry goes through the wire on the way, which reads back `revokedAt`
exactly and `untilAt` only to the second (`Entry.rounded`), while acceptance asks for every live entry of the
held list unchanged. `next_accepted_iff` says exactly when the two meet.
-/

namespace TrustInfrastructure.Rooms

open Lib

variable {entry : Entry} {times : Calendar} {index : Nat} {raw : Value} {list : RevocationList} {now : DateTime}

/-! ### The next list -/

def keptEntries (times : Calendar) (held : Option RevocationList) (now : DateTime) : List Entry :=
  ((held.map RevocationList.entries).getD []).filter fun entry => ∀ u ∈ entry.untilAt, now ≤ times.addDay u

/-- The sequence of the next list, a `u64` sum. -/
def nextSequence (held : Option RevocationList) : Nat :=
  (held.map fun list => (list.sequence + 1) % 2 ^ 64).getD 1

/-- The next list a key holder signs, without its proof. -/
def nextUnsigned (times : Calendar) (roomId : String) (held : Option RevocationList) (added : List Entry)
    (now : DateTime) : Value :=
  .object [("roomId", .string roomId), ("sequence", .number (.posInt (nextSequence held))),
    ("issuedAt", .string (times.secs now)),
    ("entries", .array ((keptEntries times held now ++ added).map (Entry.toWire times)))]

def attachProof (proof : List (String × Value)) : Value → Value
  | .object members => .object (members ++ [("proof", .object proof)])
  | value => value

/-! ### An entry through the wire -/

namespace Entry

def withTimes (revokedAt : DateTime) (untilAt : Option DateTime) : Entry → Entry
  | .credential credentialId _ _ => .credential credentialId revokedAt untilAt
  | .subject party _ _ => .subject party revokedAt untilAt
  | .room _ _ => .room revokedAt untilAt

def rounded (times : Calendar) (entry : Entry) : Entry :=
  entry.withTimes entry.revokedAt (entry.untilAt.map times.wholeSeconds)

def WellNamed : Entry → Prop
  | .credential credentialId _ _ => credentialId ≠ ""
  | .subject party _ _ => isDid party = true
  | .room _ _ => True

/-- The entry's times lie in the years the wire has. -/
def Expressible (entry : Entry) : Prop :=
  entry.revokedAt.InYears ∧ ∀ u ∈ entry.untilAt, u.InYears

def EndsWhole (entry : Entry) : Prop := ∀ u ∈ entry.untilAt, u.IsWhole

instance (entry : Entry) : Decidable entry.WellNamed :=
  match entry with
  | .credential credentialId _ _ => inferInstanceAs (Decidable (credentialId ≠ ""))
  | .subject party _ _ => inferInstanceAs (Decidable (isDid party = true))
  | .room _ _ => .isTrue trivial

instance (entry : Entry) : Decidable entry.Expressible :=
  inferInstanceAs (Decidable (entry.revokedAt.InYears ∧ ∀ u ∈ entry.untilAt, u.InYears))

instance (entry : Entry) : Decidable entry.EndsWhole :=
  inferInstanceAs (Decidable (∀ u ∈ entry.untilAt, u.IsWhole))

theorem untilAt_rounded (entry : Entry) : (entry.rounded times).untilAt = entry.untilAt.map times.wholeSeconds := by
  cases entry <;> rfl

theorem namesRoom_rounded (roomId : String) (entry : Entry) :
    RevocationList.namesRoom roomId (entry.rounded times) = RevocationList.namesRoom roomId entry := by
  cases entry <;> rfl

theorem rounded_eq_self (hlawful : times.Lawful) (h : entry.EndsWhole) : entry.rounded times = entry := by
  have huntil : entry.untilAt.map times.wholeSeconds = entry.untilAt := by
    cases hu : entry.untilAt with
    | none => rfl
    | some u => rw [Option.map_some, hlawful.wholeSeconds_eq_self u (h u hu)]
  rw [rounded, huntil]
  cases entry <;> rfl

theorem endsWhole_rounded (hlawful : times.Lawful) (entry : Entry) : (entry.rounded times).EndsWhole := by
  intro u hu
  rw [untilAt_rounded] at hu
  obtain ⟨v, -, rfl⟩ := Option.map_eq_some_iff.mp hu
  exact hlawful.isWhole_wholeSeconds v

theorem requiredTime_wire (hlawful : times.Lawful) (index : Nat) (entry : Entry) (time : DateTime) :
    requiredTime index times (entry.wireMembers times) "revokedAt" = .ok time ↔
      entry.revokedAt.InYears ∧ entry.revokedAt = time := by
  have hmember : member (entry.wireMembers times) "revokedAt" = some (.string (times.auto entry.revokedAt)) := rfl
  rw [requiredTime, memberTime, hmember]
  dsimp only
  rw [hlawful.parse_auto]
  by_cases h : entry.revokedAt.InYears
  · rw [if_pos h]
    simp [h]
  · rw [if_neg h]
    simp [h]

theorem memberTime_wire (hlawful : times.Lawful) (index : Nat) (entry : Entry) (time : Option DateTime) :
    memberTime index times (entry.wireMembers times) "until" = .ok time ↔
      (∀ u ∈ entry.untilAt, u.InYears) ∧ entry.untilAt.map times.wholeSeconds = time := by
  have hmember : member (entry.wireMembers times) "until" =
      entry.untilAt.map fun u => .string (times.secs u) := by
    rcases entry with ⟨_, _, _ | _⟩ | ⟨_, _, _ | _⟩ | ⟨_, _ | _⟩ <;> rfl
  rw [memberTime, hmember]
  cases entry.untilAt with
  | none => simp
  | some u =>
    dsimp only [Option.map_some]
    rw [hlawful.parse_secs]
    by_cases h : u.InYears
    · rw [if_pos h]
      simp [h]
    · rw [if_neg h]
      simp [h]

theorem entryKind_wire (index : Nat) (entry : Entry) :
    entryKind index (entry.wireMembers times) = .ok entry.kind := by
  rcases entry with ⟨_, _, _ | _⟩ | ⟨_, _, _ | _⟩ | ⟨_, _ | _⟩ <;> rfl

theorem isDid_ne_empty {text : String} (h : isDid text = true) : text ≠ "" := by
  rintro rfl
  exact absurd h (by decide)

theorem namedEntry_wire (index : Nat) (entry : Entry) (revokedAt : DateTime) (untilAt : Option DateTime)
    (read : Entry) :
    namedEntry index (entry.wireMembers times) revokedAt untilAt entry.kind = .ok read ↔
      entry.WellNamed ∧ entry.withTimes revokedAt untilAt = read := by
  cases entry with
  | credential credentialId revokedAt' untilAt' =>
    have hmember : memberString index ((credential credentialId revokedAt' untilAt').wireMembers times)
        "credentialId" = if credentialId ≠ "" then .ok credentialId
          else .error (invalidEntry index "carries no `credentialId`") := rfl
    rw [kind, namedEntry, bind_eq_ok, hmember]
    constructor
    · rintro ⟨text, htext, hread⟩
      split at htext
      · cases htext
        cases hread
        exact ⟨‹_›, rfl⟩
      · cases htext
    · rintro ⟨hnamed, rfl⟩
      exact ⟨credentialId, if_pos hnamed, rfl⟩
  | subject party revokedAt' untilAt' =>
    have hmember : memberString index ((subject party revokedAt' untilAt').wireMembers times) "subject" =
        if party ≠ "" then .ok party else .error (invalidEntry index "carries no `subject`") := rfl
    rw [kind, namedEntry, bind_eq_ok, hmember]
    constructor
    · rintro ⟨text, htext, hread⟩
      split at htext
      · cases htext
        split at hread
        · cases hread
          exact ⟨‹_›, rfl⟩
        · cases hread
      · cases htext
    · rintro ⟨hdid, rfl⟩
      exact ⟨party, if_pos (isDid_ne_empty hdid), if_pos hdid⟩
  | room =>
    exact ⟨fun hread => ⟨trivial, Except.ok.inj hread⟩, fun hread => congrArg Except.ok hread.2⟩

/-- **An entry read back.** It is read back when it is named and its times are expressible, with its end cut to
the second. -/
theorem parse_toWire (hlawful : times.Lawful) (index : Nat) (entry read : Entry) :
    Entry.parse index times (entry.toWire times) = .ok read ↔
      (entry.Expressible ∧ entry.WellNamed) ∧ entry.rounded times = read := by
  rw [Entry.parse, toWire]
  dsimp only [Value.asObject]
  rw [bind_eq_ok]
  constructor
  · rintro ⟨revokedAt, hrevoked, hread⟩
    obtain ⟨hyears, rfl⟩ := (requiredTime_wire hlawful index entry revokedAt).mp hrevoked
    obtain ⟨untilAt, huntil, hread⟩ := bind_eq_ok.mp hread
    obtain ⟨hends, rfl⟩ := (memberTime_wire hlawful index entry untilAt).mp huntil
    rw [entryKind_wire] at hread
    obtain ⟨hnamed, hrounded⟩ := (namedEntry_wire index entry _ _ read).mp hread
    exact ⟨⟨⟨hyears, hends⟩, hnamed⟩, hrounded⟩
  · rintro ⟨⟨⟨hyears, hends⟩, hnamed⟩, hrounded⟩
    refine ⟨_, (requiredTime_wire hlawful index entry _).mpr ⟨hyears, rfl⟩, bind_eq_ok.mpr ⟨_,
      (memberTime_wire hlawful index entry _).mpr ⟨hends, rfl⟩, ?_⟩⟩
    rw [entryKind_wire]
    exact (namedEntry_wire index entry _ _ read).mpr ⟨hnamed, hrounded⟩

end Entry

theorem wellNamed_of_parse (h : Entry.parse index times raw = .ok entry) : entry.WellNamed := by
  rw [Entry.parse] at h
  split at h
  · cases h
  obtain ⟨revokedAt, -, h⟩ := bind_eq_ok.mp h
  obtain ⟨untilAt, -, h⟩ := bind_eq_ok.mp h
  obtain ⟨kind, -, h⟩ := bind_eq_ok.mp h
  cases kind with
  | credential =>
    obtain ⟨credentialId, hid, h⟩ := bind_eq_ok.mp h
    cases h
    rw [memberString] at hid
    split at hid
    · split at hid
      · cases hid
        exact ‹_›
      · cases hid
    · cases hid
  | subject =>
    obtain ⟨party, -, h⟩ := bind_eq_ok.mp h
    split at h
    · rename_i hdid
      cases h
      exact hdid
    · cases h
  | room =>
    cases h
    trivial

theorem wellNamed_of_parseEntries {raws : List Value} {entries : List Entry}
    (h : parseEntries times index raws = .ok entries) : ∀ entry ∈ entries, entry.WellNamed := by
  induction raws generalizing index entries with
  | nil =>
    cases h
    exact fun _ hmem => nomatch hmem
  | cons _ _ ih =>
    obtain ⟨first, hfirst, h⟩ := bind_eq_ok.mp h
    obtain ⟨rest, hrest, h⟩ := bind_eq_ok.mp h
    cases h
    intro entry hentry
    rcases List.mem_cons.mp hentry with rfl | hentry
    · exact wellNamed_of_parse hfirst
    · exact ih hrest entry hentry

theorem parseEntries_toWire (hlawful : times.Lawful) (index : Nat) (entries read : List Entry) :
    parseEntries times index (entries.map (Entry.toWire times)) = .ok read ↔
      (∀ entry ∈ entries, entry.Expressible ∧ entry.WellNamed) ∧ entries.map (Entry.rounded times) = read := by
  induction entries generalizing index read with
  | nil => simp [parseEntries]
  | cons entry _ ih =>
    rw [List.map_cons, parseEntries, bind_eq_ok, List.forall_mem_cons]
    constructor
    · rintro ⟨first, hfirst, h⟩
      obtain ⟨rest, hrest, h⟩ := bind_eq_ok.mp h
      cases h
      obtain ⟨hentry, rfl⟩ := (Entry.parse_toWire hlawful index entry first).mp hfirst
      obtain ⟨hentries, rfl⟩ := (ih (index + 1) rest).mp hrest
      exact ⟨⟨hentry, hentries⟩, rfl⟩
    · rintro ⟨⟨hentry, hentries⟩, rfl⟩
      exact ⟨_, (Entry.parse_toWire hlawful index entry _).mpr ⟨hentry, rfl⟩,
        bind_eq_ok.mpr ⟨_, (ih (index + 1) _).mpr ⟨hentries, rfl⟩, rfl⟩⟩

/-! ### A list through the wire -/

theorem entries_of_parse {roomId : String} (h : RevocationList.parse times raw roomId = .ok list) :
    ∀ entry ∈ list.entries, entry.WellNamed ∧ RevocationList.namesRoom roomId entry = false := by
  rw [RevocationList.parse] at h
  split at h
  · cases h
  split at h
  · cases h
  obtain ⟨-, -, h⟩ := bind_eq_ok.mp h
  obtain ⟨sequence, -, h⟩ := bind_eq_ok.mp h
  obtain ⟨-, -, h⟩ := bind_eq_ok.mp h
  obtain ⟨-, -, h⟩ := bind_eq_ok.mp h
  obtain ⟨entries, hentries, h⟩ := bind_eq_ok.mp h
  split at h
  · cases h
  rename_i hroom
  cases h
  intro entry hentry
  refine ⟨?_, ?_⟩
  · rw [RevocationList.readEntries] at hentries
    split at hentries
    · cases hentries
    split at hentries
    · cases hentries
    exact wellNamed_of_parseEntries hentries entry hentry
  · by_contra hnames
    exact hroom (List.any_eq_true.mpr ⟨entry, hentry, Bool.eq_true_of_not_eq_false hnames⟩)

section
variable {times : Calendar} {roomId : String} {held : Option RevocationList} {added : List Entry} {now : DateTime}

/-- The list a host reads off what the key holder built. -/
def builtList (times : Calendar) (roomId : String) (held : Option RevocationList) (added : List Entry)
    (now : DateTime) (proof : List (String × Value)) : RevocationList where
  raw := attachProof proof (nextUnsigned times roomId held added now)
  roomId := roomId
  sequence := nextSequence held
  entries := (keptEntries times held now ++ added).map (Entry.rounded times)

def nextMembers (times : Calendar) (roomId : String) (held : Option RevocationList) (added : List Entry)
    (now : DateTime) (proof : List (String × Value)) : List (String × Value) :=
  [("roomId", .string roomId), ("sequence", .number (.posInt (nextSequence held))),
    ("issuedAt", .string (times.secs now)),
    ("entries", .array ((keptEntries times held now ++ added).map (Entry.toWire times))), ("proof", .object proof)]

theorem readEntries_next (hlawful : times.Lawful) (htotal : (keptEntries times held now ++ added).length ≤ maxEntries)
    (proof : List (String × Value)) (read : List Entry) :
    RevocationList.readEntries times (nextMembers times roomId held added now proof) = .ok read ↔
      (∀ entry ∈ keptEntries times held now ++ added, entry.Expressible ∧ entry.WellNamed) ∧
        (keptEntries times held now ++ added).map (Entry.rounded times) = read := by
  have hmember : (member (nextMembers times roomId held added now proof) "entries").bind Value.asArray =
      some ((keptEntries times held now ++ added).map (Entry.toWire times)) := rfl
  rw [RevocationList.readEntries, hmember]
  dsimp only
  rw [if_neg (by rw [List.length_map]; omega), parseEntries_toWire hlawful]

theorem checkIssued_next (hlawful : times.Lawful) (proof : List (String × Value)) :
    RevocationList.checkIssued times (nextMembers times roomId held added now proof) = .ok () ↔ now.InYears := by
  have hmember : ((member (nextMembers times roomId held added now proof) "issuedAt").bind Value.asStr).bind
      times.parse = if now.InYears then some (times.wholeSeconds now) else none := hlawful.parse_secs now
  rw [RevocationList.checkIssued, hmember]
  by_cases h : now.InYears
  · simp [h]
  · simp [h]

theorem readSequence_next (proof : List (String × Value)) (read : Nat) :
    RevocationList.readSequence (nextMembers times roomId held added now proof) = .ok read ↔
      1 ≤ nextSequence held ∧ nextSequence held = read := by
  have hmember : (member (nextMembers times roomId held added now proof) "sequence").bind Value.asU64 =
      some (nextSequence held) := rfl
  rw [RevocationList.readSequence, hmember, Option.filter_some]
  by_cases h : 1 ≤ nextSequence held
  · rw [if_pos (decide_eq_true h)]
    simp [h]
  · rw [if_neg (by simpa using h)]
    simp [h]

/-- **A list read back.** -/
theorem parse_next (hlawful : times.Lawful) (htotal : (keptEntries times held now ++ added).length ≤ maxEntries)
    (hparties : ∀ entry ∈ keptEntries times held now ++ added, RevocationList.namesRoom roomId entry = false)
    (proof : List (String × Value)) (list : RevocationList) :
    RevocationList.parse times (attachProof proof (nextUnsigned times roomId held added now)) roomId = .ok list ↔
      (1 ≤ nextSequence held ∧ now.InYears ∧
        ∀ entry ∈ keptEntries times held now ++ added, entry.Expressible ∧ entry.WellNamed) ∧
      builtList times roomId held added now proof = list := by
  have hextra : ((nextMembers times roomId held added now proof).map Prod.fst).find?
      (fun name => !RevocationList.listMembers.contains name) = none := rfl
  have hroom : RevocationList.checkRoom (nextMembers times roomId held added now proof) roomId = .ok () :=
    if_neg (not_not.mpr rfl)
  have hproof : RevocationList.checkProof (nextMembers times roomId held added now proof) = .ok () := rfl
  have hother : ((keptEntries times held now ++ added).map (Entry.rounded times)).any
    (RevocationList.namesRoom roomId) = false := by
    rw [List.any_map, List.any_eq_false]
    intro entry hentry
    rw [Function.comp_apply, Entry.namesRoom_rounded, hparties entry hentry]
    exact Bool.false_ne_true
  change RevocationList.parse times (.object (nextMembers times roomId held added now proof)) roomId = _ ↔ _
  rw [RevocationList.parse]
  dsimp only [Value.asObject]
  rw [hextra, hroom]
  constructor
  · intro h
    obtain ⟨-, -, h⟩ := bind_eq_ok.mp h
    obtain ⟨sequence, hsequence, h⟩ := bind_eq_ok.mp h
    obtain ⟨hpositive, rfl⟩ := (readSequence_next proof sequence).mp hsequence
    obtain ⟨⟨⟩, hissued, h⟩ := bind_eq_ok.mp h
    obtain ⟨-, -, h⟩ := bind_eq_ok.mp h
    obtain ⟨entries, hentries, h⟩ := bind_eq_ok.mp h
    obtain ⟨hwire, rfl⟩ := (readEntries_next hlawful htotal proof entries).mp hentries
    rw [hother] at h
    cases h
    exact ⟨⟨hpositive, (checkIssued_next hlawful proof).mp hissued, hwire⟩, rfl⟩
  · rintro ⟨⟨hpositive, hissued, hwire⟩, rfl⟩
    refine bind_eq_ok.mpr ⟨(), rfl, bind_eq_ok.mpr ⟨_, (readSequence_next proof _).mpr ⟨hpositive, rfl⟩,
      bind_eq_ok.mpr ⟨(), (checkIssued_next hlawful proof).mpr hissued, bind_eq_ok.mpr ⟨(), hproof,
        bind_eq_ok.mpr ⟨_, (readEntries_next hlawful htotal proof _).mpr ⟨hwire, rfl⟩, ?_⟩⟩⟩⟩⟩
    rw [hother]
    rfl

end

/-! ### What is built and what is accepted -/

/-- The next list fits: when a host at time `t` accepts what the key holder built at `now`. -/
structure NextFits (times : Calendar) (held : Option RevocationList) (added : List Entry) (now t : DateTime) :
    Prop where
  /-- There is a sequence after the held one. -/
  sequence : ∀ list ∈ held, list.sequence + 1 < 2 ^ 64
  /-- The times written lie in the years the wire has. -/
  issued : now.InYears
  expressible : ∀ entry ∈ keptEntries times held now ++ added, entry.Expressible
  /-- A credential withdrawn has an id. -/
  named : ∀ entry ∈ added, entry.WellNamed
  /-- What is live ends on a whole second. If that is a leap second, it is not lost to the margin, or another
  entry says the same. -/
  unchanged : ∀ list ∈ held, ∀ entry ∈ list.entries, entry.liveAt t → entry.EndsWhole ∧
    ((∀ u ∈ entry.untilAt, u.IsLeap → now ≤ times.addDay u) ∨
      ∃ other ∈ keptEntries times held now ++ added, other.rounded times = entry)

theorem mem_keptEntries {held : Option RevocationList} :
    entry ∈ keptEntries times held now ↔
      ∃ list ∈ held, entry ∈ list.entries ∧ ∀ u ∈ entry.untilAt, now ≤ times.addDay u := by
  rw [keptEntries, List.mem_filter, decide_eq_true_eq]
  cases held with
  | none | some => simp

theorem lt_nextSequence : list.sequence < nextSequence (some list) ↔ list.sequence + 1 < 2 ^ 64 := by
  change list.sequence < (list.sequence + 1) % 2 ^ 64 ↔ _
  omega

/-- The margin: an entry live at a host is kept by a key holder whose clock is at most a day ahead, but for
leap seconds. -/
theorem kept_of_live {t : DateTime} (hlawful : times.Lawful) (hclock : times.subDay now ≤ t) (hlive : entry.liveAt t)
    (hleap : ∀ u ∈ entry.untilAt, u.IsLeap → now ≤ times.addDay u) : ∀ u ∈ entry.untilAt, now ≤ times.addDay u := by
  intro u hu
  by_cases h : u.IsLeap
  · exact hleap u hu h
  · exact hlawful.le_addDay now u h (DateTime.le_trans hclock (hlive u hu))

/-- **What a key holder builds, and when a host accepts it.** For a held list that parses and added entries
whose parties are DIDs other than the room, at a host that is at most a day behind: the next list parses with
a proof attached and is accepted as new exactly when it fits. -/
theorem next_accepted_iff (times : Calendar) (hlawful : times.Lawful) (digest : Value → String) (roomId : String)
    (held : Option RevocationList)
    (hheld : ∀ list ∈ held, ∃ raw, RevocationList.parse times raw roomId = .ok list)
    (added : List Entry)
    (hadded : ∀ party revokedAt untilAt, Entry.subject party revokedAt untilAt ∈ added →
      isDid party = true ∧ party ≠ roomId)
    (now t : DateTime) (hclock : times.subDay now ≤ t)
    (htotal : (keptEntries times held now ++ added).length ≤ maxEntries)
    (visibility : Visibility) (hvisibility : visibility ≠ .privateRoom) (proof : List (String × Value)) :
    (∃ list, RevocationList.parse times (attachProof proof (nextUnsigned times roomId held added now)) roomId =
        .ok list ∧ list.accept digest visibility held t = .ok .new) ↔
      NextFits times held added now t := by
  have hkept : ∀ entry ∈ keptEntries times held now,
      entry.WellNamed ∧ RevocationList.namesRoom roomId entry = false := by
    intro entry hentry
    obtain ⟨list, hlist, hin, -⟩ := mem_keptEntries.mp hentry
    obtain ⟨raw, hparsed⟩ := hheld list hlist
    exact entries_of_parse hparsed entry hin
  have hparties : ∀ entry ∈ keptEntries times held now ++ added, RevocationList.namesRoom roomId entry = false := by
    intro entry hentry
    rcases List.mem_append.mp hentry with hin | hin
    · exact (hkept entry hin).2
    · cases entry with
      | subject => exact decide_eq_false (hadded _ _ _ hin).2
      | credential | room => rfl
  constructor
  · rintro ⟨list, hparse, haccept⟩
    obtain ⟨⟨-, hissued, hwire⟩, rfl⟩ := (parse_next hlawful htotal hparties proof list).mp hparse
    have haccepted := (RevocationList.accept_new_iff.mp haccept).2
    refine ⟨fun h hh => ?_, hissued, fun entry hentry => (hwire entry hentry).1,
      fun entry hentry => (hwire entry (List.mem_append_right _ hentry)).2, fun h hh entry hentry hlive => ?_⟩
    · cases hh
      exact lt_nextSequence.mp (haccepted h rfl).1
    · obtain ⟨other, hother, hrounded⟩ := List.mem_map.mp ((haccepted h hh).2 entry hentry hlive)
      exact ⟨hrounded ▸ other.endsWhole_rounded hlawful, .inr ⟨other, hother, hrounded⟩⟩
  · intro hfits
    have hwire : ∀ entry ∈ keptEntries times held now ++ added, entry.Expressible ∧ entry.WellNamed := by
      intro entry hentry
      refine ⟨hfits.expressible entry hentry, ?_⟩
      rcases List.mem_append.mp hentry with hin | hin
      · exact (hkept entry hin).1
      · exact hfits.named entry hin
    have hpositive : 1 ≤ nextSequence held := by
      cases held with
      | none => exact Nat.le_refl 1
      | some list =>
        have hlater := lt_nextSequence.mpr (hfits.sequence list rfl)
        omega
    refine ⟨_, (parse_next hlawful htotal hparties proof _).mpr ⟨⟨hpositive, hfits.issued, hwire⟩, rfl⟩,
      RevocationList.accept_new_iff.mpr ⟨fun h => hvisibility h.1, fun list hlist =>
        ⟨?_, fun entry hentry hlive => ?_⟩⟩⟩
    · cases hlist
      exact lt_nextSequence.mpr (hfits.sequence list rfl)
    · obtain ⟨hwhole, hstays | ⟨other, hother, hrounded⟩⟩ := hfits.unchanged list hlist entry hentry hlive
      · refine List.mem_map.mpr ⟨entry, List.mem_append_left _ ?_, Entry.rounded_eq_self hlawful hwhole⟩
        exact mem_keptEntries.mpr ⟨list, hlist, hentry, kept_of_live hlawful hclock hlive hstays⟩
      · exact List.mem_map.mpr ⟨other, hother, hrounded⟩

/-! ### Two held lists -/

/-- A list another key holder signed, whose one entry ends `nanos` past a second. -/
def foreignRaw (nanos : Nat) (hnanos : nanos < 10 ^ 9) : Value :=
  .object [("roomId", .string "did:webvh:room"), ("sequence", .number (.posInt 3)),
    ("issuedAt", .string (plainText (instant 100))),
    ("entries", .array [.object [("kind", .string "credential"), ("credentialId", .string "urn:uuid:1"),
      ("revokedAt", .string (plainText (instant 100))),
      ("until", .string (plainText ⟨200, nanos, .inl hnanos⟩))]]),
    ("proof", .object [])]

/-- The list as a host reads it. -/
def foreignList (nanos : Nat) (hnanos : nanos < 10 ^ 9) : RevocationList where
  raw := foreignRaw nanos hnanos
  roomId := "did:webvh:room"
  sequence := 3
  entries := [.credential "urn:uuid:1" (instant 100) (some ⟨200, nanos, .inl hnanos⟩)]

theorem foreignList_parsed_whole :
    RevocationList.parse plainTimes (foreignRaw 0 (by decide)) "did:webvh:room" =
      .ok (foreignList 0 (by decide)) := by
  decide +kernel

theorem foreignList_parsed_half :
    RevocationList.parse plainTimes (foreignRaw 500000000 (by decide)) "did:webvh:room" =
      .ok (foreignList 500000000 (by decide)) := by
  decide +kernel

/-- The next list over one that ends on a second, with a party withdrawn, at a host whose clock is behind. -/
theorem next_accepted_iff_foreign :
    ∃ list, RevocationList.parse plainTimes (attachProof [] (nextUnsigned plainTimes "did:webvh:room"
        (some (foreignList 0 (by decide))) [.subject "did:key:zB" (instant 150) none] (instant 150)))
        "did:webvh:room" = .ok list ∧
      list.accept (fun _ => "") .openRoom (some (foreignList 0 (by decide))) (instant 120) = .ok .new := by
  refine (next_accepted_iff plainTimes plainTimes_lawful (fun _ => "") "did:webvh:room" _ ?_
    [.subject "did:key:zB" (instant 150) none] ?_ (instant 150) (instant 120) (by decide) (by decide) .openRoom
    (by decide) []).mpr ⟨?_, by decide, ?_, ?_, ?_⟩
  · rintro list ⟨⟩
    exact ⟨_, foreignList_parsed_whole⟩
  · intro party revokedAt untilAt hin
    cases List.mem_singleton.mp hin
    exact ⟨by decide, by decide⟩
  · rintro list ⟨⟩
    decide
  · decide
  · decide
  · rintro list ⟨⟩ entry hentry -
    cases List.mem_singleton.mp hentry
    exact ⟨by decide, .inl (by decide)⟩

/-- **A fraction of a second is refused.** A list that parses, with an entry that ends half a second past one:
the next list, built and read at the same instant with nothing added, is refused as not append-only. -/
theorem fractional_end_refused :
    RevocationList.parse plainTimes (foreignRaw 500000000 (by decide)) "did:webvh:room" =
        .ok (foreignList 500000000 (by decide)) ∧
      ∃ list, RevocationList.parse plainTimes (attachProof [] (nextUnsigned plainTimes "did:webvh:room"
          (some (foreignList 500000000 (by decide))) [] (instant 150))) "did:webvh:room" = .ok list ∧
        list.accept (fun _ => "") .openRoom (some (foreignList 500000000 (by decide))) (instant 150) =
          .error .notAppendOnly := by
  refine ⟨foreignList_parsed_half, builtList plainTimes "did:webvh:room"
    (some (foreignList 500000000 (by decide))) [] (instant 150) [], ?_, ?_⟩
  · decide +kernel
  · decide +kernel

end TrustInfrastructure.Rooms
