import TrustInfrastructure.Blobs.Refs

/-!
# What a prune releases

The dry run counts at once the blobs that only the records to be removed name; the release gives the references back
record by record.
-/

namespace TrustInfrastructure.Blobs

open Lib

namespace Host

variable {h : Host} {roomId : String}

/-- `RecordsLock::released_by`. -/
def releasedBy (h : Host) (roomId : String) (keys : List String) : Nat :=
  let named := keys.flatMap (h.blobsOf roomId)
  (named.toFinset.filter fun b => (h.blob roomId b).any fun entry => entry.refs ≤ named.count b).card

/-- The blobs that were committed and are now orphans. -/
def orphanedBy (h h' : Host) : Set (String × String) :=
  { key | ∃ entry entry', h.blobs[key]? = some entry ∧ h'.blobs[key]? = some entry' ∧ entry.state = .committed ∧
    entry'.state = .orphaned }

/-- How often the records name the blob. -/
def named (h : Host) (roomId : String) (keys : List String) (key : String × String) : Nat :=
  if key.1 = roomId then (keys.flatMap (h.blobsOf roomId)).count key.2 else 0

/-- A released record gives back one reference to each blob it names, and the last one orphans the blob. -/
theorem releaseRecord_row (hexact : h.Counted) (roomId k : String) {key : String × String} {entry : BlobEntry}
    (hentry : h.blobs[key]? = some entry) :
    ∃ entry', (h.releaseRecord roomId k).blobs[key]? = some entry' ∧
      entry'.refs + h.named roomId [k] key = entry.refs ∧
      (entry'.state = .orphaned ↔ entry.state = .orphaned ∨ 0 < h.named roomId [k] key ∧ entry'.refs = 0) := by
  obtain ⟨-, hrows⟩ := applyRefs_rows (h := h) roomId k none (hexact.nodup_blobsOf roomId k) List.nodup_nil
  refine ⟨_, (hrows key).trans (by rw [hentry, Option.map_some]), ?_⟩
  have hidle := hexact.orphaned key entry hentry
  have hcount := (hexact.nodup_blobsOf roomId k).count (a := key.2)
  by_cases hnames : key.1 = roomId ∧ key.2 ∈ h.blobsOf roomId k
  · obtain ⟨rfl, hmem⟩ := hnames
    have hone : 1 ≤ entry.refs := hexact.refs key entry hentry ▸ one_le_namings hmem
    have hcommitted : entry.state = .committed := by
      cases hstate : entry.state with
      | committed => rfl
      | orphaned => exact absurd (hidle hstate) (by omega)
    have hrow : h.renamed key.1 (h.blobsOf key.1 k) [] none key entry = entry.adjusted h.now (-1) none := by
      simp [renamed, hmem]
    have hnamed : h.named key.1 [k] key = 1 := by simp [named, hcount, hmem]
    rw [hrow, hnamed, BlobEntry.refs_adjusted_neg]
    refine ⟨by omega, ?_⟩
    by_cases hlast : entry.refs - 1 = 0 <;> simp [BlobEntry.adjusted, hcommitted, hlast]
  · have hrow : h.renamed roomId (h.blobsOf roomId k) [] none key entry = entry := by
      simp only [renamed]
      grind
    have hnamed : h.named roomId [k] key = 0 := by
      simp only [named]
      grind
    simp [hrow, hnamed]

/-- The references given back add up over the records, whose lists are apart from each other. -/
theorem releaseRecords_row {keys : List String} (hexact : h.Counted) (roomId : String) (hkeys : keys.Nodup)
    {key : String × String} {entry : BlobEntry} (hentry : h.blobs[key]? = some entry) :
    ∃ entry', (h.releaseRecords roomId keys).blobs[key]? = some entry' ∧
      entry'.refs + h.named roomId keys key = entry.refs ∧
      (entry'.state = .orphaned ↔ entry.state = .orphaned ∨ 0 < h.named roomId keys key ∧ entry'.refs = 0) := by
  induction keys generalizing h entry with
  | nil => exact ⟨entry, hentry, by simp [named], by simp [named]⟩
  | cons k keys ih =>
    obtain ⟨hk, hkeys⟩ := List.nodup_cons.mp hkeys
    obtain ⟨entry₁, hentry₁, hrefs₁, hstate₁⟩ := releaseRecord_row hexact roomId k hentry
    have hexact₁ : (h.releaseRecord roomId k).Counted := (counted_applyRefs hexact _ List.nodup_nil _).1
    obtain ⟨entry', hentry', hrefs, hstate⟩ := ih hexact₁ hkeys hentry₁
    have hrest : (h.releaseRecord roomId k).named roomId keys key = h.named roomId keys key := by
      unfold named
      rw [List.flatMap_congr fun other hother =>
        (blobsOf_releaseRecord k other).trans (if_neg (ne_of_mem_of_not_mem hother hk).symm)]
    have hcons : h.named roomId (k :: keys) key = h.named roomId [k] key + h.named roomId keys key := by
      unfold named
      split <;> simp
    rw [hrest] at hrefs hstate
    exact ⟨entry', hentry', by omega, by rw [hstate, hstate₁]; grind⟩

/-- A prune's dry run tells the truth: it counts the committed blobs that the release then orphans. -/
theorem releasedBy_eq_orphaned (h : Host) (hexact : h.Counted) (roomId : String) (keys : List String)
    (hkeys : keys.Nodup) : h.releasedBy roomId keys = (h.orphanedBy (h.releaseRecords roomId keys)).ncard := by
  unfold releasedBy
  rw [← Set.ncard_coe_finset, ← Set.ncard_image_of_injective _ (Prod.mk_right_injective roomId)]
  congr 1
  ext ⟨room, b⟩
  simp only [Set.mem_image, Finset.mem_coe, Finset.mem_filter, List.mem_toFinset, Option.any_eq_true, decide_eq_true_eq]
  constructor
  · rintro ⟨b, ⟨hmem, entry, hentry, hrefs⟩, ⟨⟩⟩
    obtain ⟨entry', hentry', hrefs', hstate⟩ := releaseRecords_row hexact roomId hkeys hentry
    have hnamed : h.named roomId keys (roomId, b) = (keys.flatMap (h.blobsOf roomId)).count b := if_pos rfl
    have hpos := List.count_pos_iff.mpr hmem
    refine ⟨entry, entry', hentry, hentry', ?_, hstate.mpr (.inr ⟨by omega, by omega⟩)⟩
    cases hentry : entry.state with
    | committed => rfl
    | orphaned => exact absurd (hexact.orphaned _ _ ‹_› hentry) (by omega)
  · rintro ⟨entry, entry', hentry, hentry', hcommitted, horphaned⟩
    obtain ⟨found, hfound, hrefs, hstate⟩ := releaseRecords_row hexact roomId hkeys hentry
    cases hentry'.symm.trans hfound
    rw [hcommitted] at hstate
    obtain ⟨hpos, hzero⟩ := (hstate.mp horphaned).resolve_left nofun
    unfold named at hpos hrefs
    dsimp only at hpos hrefs
    split at hpos
    · next hroom =>
      rw [if_pos hroom] at hrefs
      exact ⟨b, ⟨List.count_pos_iff.mp hpos, entry, hroom ▸ hentry, by omega⟩, by rw [hroom]⟩
    · cases hpos

end Host

namespace World

/-- Two records name the one blob of the room. -/
def sharedBlob : List Action :=
  releasedRun.take 4 ++ [.writeRecord library none "copy" ["small"]]

theorem releasedBy_eq_orphaned_sharedBlob :
    (reached smallHost 0 ∅ ∅ sharedBlob).host.releasedBy "library" ["note"] = 0 ∧
      ∃ h : Host, h.releasedBy "library" ["note", "copy"] = 1 ∧
        (h.orphanedBy (h.releaseRecords "library" ["note", "copy"])).ncard = 1 := by
  have hcount : (reached smallHost 0 ∅ ∅ sharedBlob).host.releasedBy "library" ["note", "copy"] = 1 := by
    decide +kernel
  have hexact : (reached smallHost 0 ∅ ∅ sharedBlob).host.Counted := by
    refine (idle_since (formed_start 0 ∅ ∅) (refsExact_start 0 ∅ ∅) rfl ?_ ?_).2.1.toCounted
    · simp [sharedBlob, releasedRun, beginFile]
    · simp [sharedBlob, releasedRun, beginFile, Action.IsAllowed, noDuplicates]
  exact ⟨by decide +kernel, _, hcount,
    (Host.releasedBy_eq_orphaned _ hexact "library" ["note", "copy"] (by decide)).symm.trans hcount⟩

end World
end TrustInfrastructure.Blobs
