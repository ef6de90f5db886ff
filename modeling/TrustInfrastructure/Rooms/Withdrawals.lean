import TrustInfrastructure.Rooms.Revocation

/-!
# Withdrawals last

A host holds at most one revocation list for a room, and replaces it exactly when an offered one is accepted as
new. It never asks for every entry it ever held: a new list must carry those that are live when it is accepted,
and may skip sequences. That a withdrawal is still never undone by leaving it out is a fact about whole
histories.

`Follows t` relates a list to one held later. It says no more than one acceptance before `t` gives
(`follows_receive`), since an entry that is live at `t` was live at every reading before, and it composes
(`Follows.trans`). So it holds between any two lists of one history (`follows_heldAfter`), and what a list
withdraws is read off it.
-/

namespace TrustInfrastructure.Rooms

open Lib

/-- A list offered to the host of a room, and the host's clock then. -/
structure Offer where
  list : RevocationList
  visibility : Visibility
  now : DateTime

section
variable (digest : Value → String)

/-- What the host holds after an offer. -/
def receive (held : Option RevocationList) (offer : Offer) : Option RevocationList :=
  match offer.list.accept digest offer.visibility held offer.now with
  | .ok .new => some offer.list
  | _ => held

/-- What the host holds after a run of offers. -/
def heldAfter (held : Option RevocationList) (offers : List Offer) : Option RevocationList :=
  offers.foldl (receive digest) held

end

/-- `later` may be held after `earlier`, up to `t`: it is the same list, or one of a later sequence that carries
every entry still live at `t`. -/
structure Follows (t : DateTime) (earlier later : RevocationList) : Prop where
  sequence : later = earlier ∨ earlier.sequence < later.sequence
  entries : ∀ entry ∈ earlier.entries, entry.liveAt t → entry ∈ later.entries

namespace Follows

variable {t : DateTime} {first second third : RevocationList}

theorem refl (t : DateTime) (list : RevocationList) : Follows t list list := ⟨.inl rfl, fun _ hentry _ => hentry⟩

theorem trans (h : Follows t first second) (h' : Follows t second third) : Follows t first third := by
  refine ⟨?_, fun entry hentry hlive => h'.entries entry (h.entries entry hentry hlive) hlive⟩
  rcases h'.sequence with rfl | hlater
  · exact h.sequence
  rcases h.sequence with rfl | hlater'
  · exact .inr hlater
  · exact .inr (Nat.lt_trans hlater' hlater)

theorem sequence_le (h : Follows t first second) : first.sequence ≤ second.sequence := by
  rcases h.sequence with rfl | hlater
  · exact Nat.le_refl _
  · exact Nat.le_of_lt hlater

theorem eq_of_sequence_eq (h : Follows t first second) (hsame : first.sequence = second.sequence) :
    first = second := by
  rcases h.sequence with rfl | hlater
  · rfl
  · omega

end Follows

variable (digest : Value → String)

theorem heldAfter_append (held : Option RevocationList) (earlier later : List Offer) :
    heldAfter digest held (earlier ++ later) = heldAfter digest (heldAfter digest held earlier) later :=
  List.foldl_append

/-- One offer, before `t`: a held list stays or is followed. -/
theorem follows_receive (list : RevocationList) {offer : Offer} {t : DateTime} (hclock : offer.now ≤ t) :
    ∃ list', receive digest (some list) offer = some list' ∧ Follows t list list' := by
  unfold receive
  split
  · rename_i hnew
    obtain ⟨-, hfollows⟩ := RevocationList.accept_new_iff.mp hnew
    obtain ⟨hlater, hkept⟩ := hfollows list rfl
    exact ⟨offer.list, rfl, .inr hlater,
      fun entry hentry hlive => hkept entry hentry (Entry.liveAt_of_le hclock hlive)⟩
  · exact ⟨list, rfl, .refl t list⟩

/-- A run of offers before `t`. -/
theorem follows_heldAfter {t : DateTime} (offers : List Offer) (hclock : ∀ offer ∈ offers, offer.now ≤ t)
    (list : RevocationList) :
    ∃ list', heldAfter digest (some list) offers = some list' ∧ Follows t list list' := by
  induction offers generalizing list with
  | nil => exact ⟨list, rfl, .refl t list⟩
  | cons offer _ ih =>
    obtain ⟨next, hnext, hfollows⟩ := follows_receive digest list (hclock offer List.mem_cons_self)
    obtain ⟨last, hlast, hfollows'⟩ := ih (fun o ho => hclock o (List.mem_cons_of_mem _ ho)) next
    refine ⟨last, ?_, hfollows.trans hfollows'⟩
    rw [heldAfter, List.foldl_cons, hnext]
    exact hlast

/-- **A withdrawal is never undone by omission.** A host is offered any lists, at clock readings that do not
decrease up to `t`, starting with any list or none. A list held at some point is followed by the one held at `t`:
the sequence has not gone down, the list is the same if its sequence is, and each of its entries that is live at
`t` is still there, so the credentials it matches are still revoked and every presentation carrying one is
withdrawn. -/
theorem withdrawals_last (digest : Value → String) (held : Option RevocationList) (earlier later : List Offer)
    (t : DateTime) (hclock : ((earlier ++ later).map Offer.now ++ [t]).Pairwise (· ≤ ·))
    (list : RevocationList) (hheld : heldAfter digest held earlier = some list) :
    ∃ list', heldAfter digest held (earlier ++ later) = some list' ∧
      list.sequence ≤ list'.sequence ∧
      (list.sequence = list'.sequence → list = list') ∧
      ∀ entry ∈ list.entries, entry.liveAt t → entry ∈ list'.entries ∧
        ∀ facts, entry.matchesCredential facts = true → list'.revokes facts = true ∧
          ∀ visibility presented, facts ∈ presented.all → list'.withdraws visibility presented t = true := by
  have hbefore : ∀ offer ∈ later, offer.now ≤ t := by
    intro offer hoffer
    refine (List.pairwise_append.mp hclock).2.2 offer.now ?_ t List.mem_cons_self
    exact List.mem_map_of_mem (List.mem_append_right _ hoffer)
  obtain ⟨list', hlist', hfollows⟩ := follows_heldAfter digest later hbefore list
  refine ⟨list', ?_, hfollows.sequence_le, hfollows.eq_of_sequence_eq, fun entry hentry hlive => ?_⟩
  · rw [heldAfter_append, hheld, hlist']
  · have hkept := hfollows.entries entry hentry hlive
    refine ⟨hkept, fun facts hmatches => ?_⟩
    have hrevokes := RevocationList.revokes_of_mem hkept hmatches
    exact ⟨hrevokes, fun visibility presented hcarried =>
      RevocationList.withdraws_of_revokes hrevokes hcarried visibility t⟩

/-! ### A history -/

/-- The room withdraws a credential until second 300, then also a party, then sends a list that leaves the
credential out while it still counts. -/
def offeredLists : List Offer :=
  let credential : Entry := .credential "urn:uuid:1" (instant 100) (some (instant 300))
  let party : Entry := .subject "did:key:zB" (instant 150) none
  [⟨⟨.string "one", "did:webvh:room", 1, [credential]⟩, .openRoom, instant 110⟩,
    ⟨⟨.string "four", "did:webvh:room", 4, [credential, party]⟩, .openRoom, instant 160⟩,
    ⟨⟨.string "five", "did:webvh:room", 5, [party]⟩, .openRoom, instant 200⟩]

/-- The credential of the first list is still revoked at second 250. -/
theorem withdrawals_last_offered :
    ∃ list, heldAfter (fun raw => raw.asStr.getD "") none offeredLists = some list ∧
      list.revokes ⟨some "urn:uuid:1", "did:key:zA", "did:webvh:room", none⟩ = true := by
  obtain ⟨list, hlist, -, -, hkept⟩ := withdrawals_last (fun raw => raw.asStr.getD "") none
    (offeredLists.take 1) (offeredLists.drop 1) (instant 250) (by decide) _ rfl
  obtain ⟨-, hrevoked⟩ := hkept (.credential "urn:uuid:1" (instant 100) (some (instant 300)))
    List.mem_cons_self (by decide)
  exact ⟨list, hlist, (hrevoked _ (by decide)).1⟩

end TrustInfrastructure.Rooms
