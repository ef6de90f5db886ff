import TrustInfrastructure.Lib.Run
import TrustInfrastructure.Rooms.EpochLinks
import TrustInfrastructure.Rooms.Storage
import Mathlib.Order.Bounds.Basic

/-!
# The epoch key chain

A holder of a room's current key walks the links back (`EpochKeyChain.keyFor`), remembering the keys it
passes, down to the room's epoch floor and no further. Links come from anywhere, in any order; the anchor
moves with every commit; a floor, once learnt, purges what lies below it.

Every search leaves keys behind for the next one. What a search can find is said without them: `Derives` are the keys
that can be walked out of what a chain holds, and a chain that was searched further (`Searched`) finds these and no
others. The invariants of every run are `ChainInv`, a remembered key is the true one and a held link is filed under its
own epoch, and `Anchored`, the anchor's key is remembered unless the floor has passed it. `ChainSound` is what follows.
-/

namespace TrustInfrastructure.Rooms

open Std
open Lib (Along along_append along_of_forall run_append run_cons run_induction run_invariant)

/-! ### The chain -/

structure EpochKeyChain where
  roomId : String
  anchorEpoch : Nat
  links : ExtTreeMap Nat EpochLink
  resolved : ExtTreeMap Nat StorageKey
  floor : Nat

namespace EpochKeyChain

def new (roomId : String) : EpochKeyChain := ⟨roomId, 0, ∅, ∅, 0⟩

/-- Forget everything below the floor, unless it is no higher than the one held. -/
def applyFloor (floor : Nat) (chain : EpochKeyChain) : EpochKeyChain :=
  if floor ≤ chain.floor then chain
  else { chain with
    floor
    links := chain.links.filter fun epoch _ => floor < epoch
    resolved := chain.resolved.filter fun epoch _ => floor ≤ epoch }

def reanchor (epoch : Nat) (key : StorageKey) (chain : EpochKeyChain) : EpochKeyChain :=
  { chain with resolved := chain.resolved.insert epoch key, anchorEpoch := epoch }

/-- Add the links a host or an owner served; those at or below the floor are dropped. -/
def addLinks (links : List EpochLink) (chain : EpochKeyChain) : EpochKeyChain :=
  links.foldl (fun chain link =>
    if link.epoch ≤ chain.floor then chain else { chain with links := chain.links.insert link.epoch link }) chain

variable (crypto : LinkCrypto)

/-- Walk the links from epoch `epoch + steps` down to `epoch`. -/
def walkDown (epoch : Nat) : Nat → EpochKeyChain → Except RoomKeyError Unit × EpochKeyChain
  | 0, chain => (.ok (), chain)
  | steps + 1, chain =>
    let cursor := epoch + (steps + 1)
    match chain.resolved[cursor]? with
    | none => (.error (.panic "the cursor only ever names a resolved epoch"), chain)
    | some key =>
      match chain.links[cursor]? with
      | none => (.error (.epochUnreachable epoch cursor), chain)
      | some link =>
        match openLink crypto chain.roomId link key with
        | .error e => (.error e, chain)
        | .ok previous =>
          walkDown epoch steps { chain with resolved := chain.resolved.insert (cursor - 1) previous }

/-- The storage key of `epoch`, walking the chain if it is not already resolved. -/
def keyFor (epoch : Nat) (chain : EpochKeyChain) : Except RoomKeyError StorageKey × EpochKeyChain :=
  if epoch < chain.floor then (.error (.epochUnreachable epoch (max chain.floor 1)), chain)
  else
    match chain.resolved[epoch]? with
    | some key => (.ok key, chain)
    | none =>
      if epoch > chain.anchorEpoch then (.error (.epochAhead epoch chain.anchorEpoch), chain)
      else
        -- the lowest resolved epoch at or above the target
        match chain.resolved.keys.find? (epoch ≤ ·) with
        | none => (.error (.epochUnreachable epoch epoch), chain)
        | some cursor =>
          match walkDown crypto epoch (cursor - epoch) chain with
          | (.error e, chain) => (.error e, chain)
          | (.ok _, chain) =>
            match chain.resolved[epoch]? with
            | some key => (.ok key, chain)
            | none => (.error (.panic "the walk ends with the target resolved"), chain)

/-- The earliest epoch reachable from `epoch` down, one epoch at a time. -/
def earliestFrom : Nat → EpochKeyChain → Nat × EpochKeyChain
  | 0, chain => (0, chain)
  | below + 1, chain =>
    if below + 1 > 1 ∧ below + 1 > chain.floor then
      match keyFor crypto below chain with
      | (.ok _, chain) => earliestFrom below chain
      | (.error _, chain) => (below + 1, chain)
    else (below + 1, chain)

def earliestReachable (chain : EpochKeyChain) : Nat × EpochKeyChain :=
  earliestFrom crypto chain.anchorEpoch chain

end EpochKeyChain

/-! ### What each operation keeps -/

theorem getElem?_insert_nat {β : Type} (m : ExtTreeMap Nat β) (at' a : Nat) (b : β) :
    (m.insert at' b)[a]? = if at' = a then some b else m[a]? := by
  rw [ExtTreeMap.getElem?_insert]
  simp only [Std.compare_eq_iff_eq]

theorem getElem?_filter_nat {β : Type} (m : ExtTreeMap Nat β) (p : Nat → Bool) (a : Nat) :
    (m.filter fun key _ => p key)[a]? = if p a then m[a]? else none := by
  rw [ExtTreeMap.getElem?_filter]
  simp only [ExtTreeMap.getKey_eq, Option.pfilter_eq_filter]
  cases m[a]? with
  | none => simp
  | some => by_cases hp : p a <;> simp [hp]

theorem lowest_spec {β : Type} {m : ExtTreeMap Nat β} {epoch cursor : Nat}
    (h : m.keys.find? (epoch ≤ ·) = some cursor) :
    epoch ≤ cursor ∧ (∃ b, m[cursor]? = some b) ∧ ∀ (a : Nat) b, m[a]? = some b → epoch ≤ a → cursor ≤ a := by
  obtain ⟨hle, before, after, hkeys, hbefore⟩ := List.find?_eq_some_iff_append.mp h
  refine ⟨of_decide_eq_true hle, ?_, fun a b ha hepoch => ?_⟩
  · have hmem : cursor ∈ m.keys := by rw [hkeys]; exact List.mem_append_right _ List.mem_cons_self
    exact Option.isSome_iff_exists.mp (ExtTreeMap.mem_iff_isSome_getElem?.mp (ExtTreeMap.mem_keys.mp hmem))
  · have hmem : a ∈ m.keys := ExtTreeMap.mem_keys.mpr (ExtTreeMap.mem_iff_isSome_getElem?.mpr (by rw [ha]; rfl))
    have hordered := ExtTreeMap.ordered_keys (t := m)
    rw [hkeys] at hmem hordered
    rcases List.mem_append.mp hmem with hin | hin
    · exact absurd (decide_eq_true hepoch) (by simpa using hbefore a hin)
    · rcases List.mem_cons.mp hin with rfl | hin
      · exact Nat.le_refl _
      · have hlt := (List.pairwise_cons.mp (List.pairwise_append.mp hordered).2.1).1 a hin
        exact Nat.le_of_lt (Nat.compare_eq_lt.mp hlt)

theorem lowest_none {β : Type} {m : ExtTreeMap Nat β} {epoch a : Nat} {b : β}
    (h : m.keys.find? (epoch ≤ ·) = none) (ha : m[a]? = some b) : ¬ epoch ≤ a := by
  have hmem : a ∈ m.keys := ExtTreeMap.mem_keys.mpr (ExtTreeMap.mem_iff_isSome_getElem?.mpr (by rw [ha]; rfl))
  simpa using List.find?_eq_none.mp h a hmem

/-! ### What a search finds -/

/-- The keys that can be walked out of what `chain` holds. -/
inductive Derives (crypto : LinkCrypto) (chain : EpochKeyChain) : Nat → StorageKey → Prop
  | held {epoch : Nat} {key : StorageKey} (hheld : chain.resolved[epoch]? = some key) : Derives crypto chain epoch key
  | opened {epoch : Nat} {key previous : StorageKey} {link : EpochLink} (hfree : chain.resolved[epoch]? = none)
      (habove : Derives crypto chain (epoch + 1) key) (hlink : chain.links[epoch + 1]? = some link)
      (hopen : openLink crypto chain.roomId link key = .ok previous) : Derives crypto chain epoch previous

def Finds (crypto : LinkCrypto) (chain : EpochKeyChain) (epoch : Nat) : Prop :=
  chain.floor ≤ epoch ∧ ∃ key, Derives crypto chain epoch key

/-- `after` is `before` with some of its keys walked out. -/
structure Searched (crypto : LinkCrypto) (before after : EpochKeyChain) : Prop where
  room : after.roomId = before.roomId
  anchor : after.anchorEpoch = before.anchorEpoch
  floor : after.floor = before.floor
  links : after.links = before.links
  kept : ∀ (epoch : Nat) key, before.resolved[epoch]? = some key → after.resolved[epoch]? = some key
  sound : ∀ (epoch : Nat) key, after.resolved[epoch]? = some key → Derives crypto before epoch key

section
variable {crypto : LinkCrypto} {chain before after : EpochKeyChain} {epoch : Nat} {key : StorageKey}

theorem Derives.unique {key' : StorageKey} (h : Derives crypto chain epoch key)
    (h' : Derives crypto chain epoch key') : key = key' := by
  induction h generalizing key' with
  | held hheld =>
    cases h' with
    | held hheld' => exact Option.some.inj (hheld.symm.trans hheld')
    | opened hfree => cases hheld.symm.trans hfree
  | opened hfree _ hlink hopen ih =>
    cases h' with
    | held hheld => cases hheld.symm.trans hfree
    | opened _ habove hlink' hopen' =>
      cases hlink.symm.trans hlink'
      cases ih habove
      exact Except.ok.inj (hopen.symm.trans hopen')

theorem Derives.held_above (h : Derives crypto chain epoch key) :
    ∃ i key', epoch ≤ i ∧ chain.resolved[i]? = some key' := by
  induction h with
  | held hheld => exact ⟨_, _, Nat.le_refl _, hheld⟩
  | opened _ _ _ _ ih =>
    obtain ⟨i, key', hle, hheld⟩ := ih
    exact ⟨i, key', by omega, hheld⟩

/-- Where nothing is held between, a derived key was reached over every link between. -/
theorem Derives.link_above (steps : Nat) (h : Derives crypto chain epoch key)
    (hfree : ∀ i, epoch ≤ i → i ≤ epoch + steps → chain.resolved[i]? = none) :
    ∃ key' link previous, Derives crypto chain (epoch + steps + 1) key' ∧
      chain.links[epoch + steps + 1]? = some link ∧ openLink crypto chain.roomId link key' = .ok previous := by
  induction steps generalizing epoch key with
  | zero =>
    cases h with
    | held hheld => cases hheld.symm.trans (hfree epoch (by omega) (by omega))
    | opened _ habove hlink hopen => exact ⟨_, _, _, habove, hlink, hopen⟩
  | succ steps ih =>
    cases h with
    | held hheld => cases hheld.symm.trans (hfree epoch (by omega) (by omega))
    | opened _ habove =>
      have hindex : epoch + (steps + 1) = epoch + 1 + steps := by omega
      rw [hindex]
      exact ih habove fun i hlow hhigh => hfree i (by omega) (by omega)

namespace Searched

theorem refl (crypto : LinkCrypto) (chain : EpochKeyChain) : Searched crypto chain chain :=
  ⟨rfl, rfl, rfl, rfl, fun _ _ h => h, fun _ _ h => .held h⟩

variable (h : Searched crypto before after)
include h

theorem free (hfree : after.resolved[epoch]? = none) :
    before.resolved[epoch]? = none := by
  cases hbefore : before.resolved[epoch]? with
  | none => rfl
  | some key => exact absurd (h.kept epoch key hbefore) (by simp [hfree])

theorem insert (hfree : after.resolved[epoch]? = none)
    (hderives : Derives crypto before epoch key) :
    Searched crypto before { after with resolved := after.resolved.insert epoch key } := by
  refine ⟨h.room, h.anchor, h.floor, h.links, fun i key' hheld => ?_, fun i key' hheld => ?_⟩
  · rw [getElem?_insert_nat, if_neg]
    · exact h.kept i key' hheld
    · rintro rfl
      cases hheld.symm.trans (h.free hfree)
  · rw [getElem?_insert_nat] at hheld
    split at hheld
    · cases hheld
      subst i
      exact hderives
    · exact h.sound i key' hheld

/-- A walk from a resolved epoch over unresolved ones does not panic, and reaches its target just when the target
derives. -/
theorem walkDown (epoch steps : Nat)
    (hfree : ∀ i, epoch ≤ i → i < epoch + steps → after.resolved[i]? = none)
    (hstart : ∃ key, after.resolved[epoch + steps]? = some key) :
    Searched crypto before (EpochKeyChain.walkDown crypto epoch steps after).2 ∧
      (∀ message, (EpochKeyChain.walkDown crypto epoch steps after).1 ≠ .error (.panic message)) ∧
      ((EpochKeyChain.walkDown crypto epoch steps after).1 = .ok () →
        ∃ key, (EpochKeyChain.walkDown crypto epoch steps after).2.resolved[epoch]? = some key) ∧
      ∀ target, Derives crypto before epoch target →
        (EpochKeyChain.walkDown crypto epoch steps after).1 = .ok () := by
  induction steps generalizing after with
  | zero => exact ⟨h, nofun, fun _ => hstart, fun _ _ => rfl⟩
  | succ steps ih =>
    obtain ⟨key, hkey⟩ := hstart
    -- a target that derives is reached over the link this step needs, opened by the key it holds
    have hneeds : ∀ target, Derives crypto before epoch target → ∃ link previous,
        after.links[epoch + (steps + 1)]? = some link ∧ openLink crypto after.roomId link key = .ok previous := by
      intro target htarget
      obtain ⟨key', link, previous, habove, hlink, hopen⟩ :=
        htarget.link_above steps fun i hlow hhigh => h.free (hfree i hlow (by omega))
      rw [h.links, h.room, (h.sound _ key hkey).unique habove]
      exact ⟨link, previous, hlink, hopen⟩
    rw [EpochKeyChain.walkDown, hkey]
    dsimp only
    split
    · rename_i hnone
      refine ⟨h, nofun, nofun, fun target htarget => ?_⟩
      obtain ⟨link, _, hlink, _⟩ := hneeds target htarget
      cases hnone.symm.trans hlink
    rename_i link hlink
    split
    · rename_i hopen
      refine ⟨h, fun message hpanic => ?_, nofun, fun target htarget => ?_⟩
      · cases hpanic
        exact openLink_ne_panic crypto after.roomId link key message hopen
      · obtain ⟨_, previous, hlink', hopens⟩ := hneeds target htarget
        cases hlink.symm.trans hlink'
        cases hopen.symm.trans hopens
    · rename_i previous hopen
      have hbelow : epoch + (steps + 1) - 1 = epoch + steps := by omega
      rw [hbelow]
      have hunset := hfree (epoch + steps) (by omega) (by omega)
      rw [h.links] at hlink
      rw [h.room] at hopen
      refine ih (h.insert hunset (.opened (h.free hunset) (h.sound _ key hkey) hlink hopen)) ?_ ?_
      · intro i hlow hhigh
        rw [getElem?_insert_nat, if_neg (by omega)]
        exact hfree i hlow (by omega)
      · exact ⟨previous, by rw [getElem?_insert_nat, if_pos rfl]⟩

/-- A key search: no `expect` of it fails, a key it answers derives, and one that derives is answered. -/
theorem keyFor (epoch : Nat) :
    Searched crypto before (after.keyFor crypto epoch).2 ∧
      (∀ message, (after.keyFor crypto epoch).1 ≠ .error (.panic message)) ∧
      (∀ key, (after.keyFor crypto epoch).1 = .ok key → before.floor ≤ epoch ∧ Derives crypto before epoch key) ∧
      (Finds crypto before epoch → epoch ≤ before.anchorEpoch → ∃ key, (after.keyFor crypto epoch).1 = .ok key) := by
  rw [EpochKeyChain.keyFor, Finds, h.floor, h.anchor]
  split
  · exact ⟨h, nofun, nofun, fun hfinds => by omega⟩
  rename_i hfloor
  split
  · rename_i key hkey
    refine ⟨h, nofun, fun key' hok => ⟨Nat.le_of_not_lt hfloor, h.sound epoch key' ?_⟩, fun _ _ => ⟨key, rfl⟩⟩
    cases hok
    exact hkey
  split
  · exact ⟨h, nofun, nofun, fun _ _ => by omega⟩
  split
  · rename_i hlowest
    refine ⟨h, nofun, nofun, fun ⟨_, _, hderives⟩ _ => ?_⟩
    obtain ⟨i, key', hle, hheld⟩ := hderives.held_above
    exact absurd hle (lowest_none hlowest (h.kept i key' hheld))
  rename_i cursor hlowest
  obtain ⟨hle, hcursor, hleast⟩ := lowest_spec hlowest
  have hbetween : ∀ i, epoch ≤ i → i < epoch + (cursor - epoch) → after.resolved[i]? = none := by
    intro i hlow hhigh
    cases hi : after.resolved[i]? with
    | none => rfl
    | some key => exact absurd (hleast i key hi hlow) (by omega)
  obtain ⟨hsearched, hpanic, hends, hreaches⟩ :=
    h.walkDown epoch (cursor - epoch) hbetween (by rw [Nat.add_sub_cancel' hle]; exact hcursor)
  split
  · rename_i hwalk
    rw [hwalk] at hsearched hpanic hreaches
    refine ⟨hsearched, fun message hfails => ?_, nofun, fun ⟨_, target, hderives⟩ => ?_⟩
    · cases hfails
      exact hpanic message rfl
    · cases hreaches target hderives
  · rename_i hwalk
    rw [hwalk] at hsearched hends
    obtain ⟨key, hkey⟩ := hends rfl
    rw [hkey]
    refine ⟨hsearched, nofun, fun key' hok => ⟨Nat.le_of_not_lt hfloor, hsearched.sound epoch key' ?_⟩,
      fun _ _ => ⟨key, rfl⟩⟩
    cases hok
    exact hkey

theorem keyFor_iff (hanchor : epoch ≤ before.anchorEpoch) :
    (∃ key, (after.keyFor crypto epoch).1 = .ok key) ↔ Finds crypto before epoch := by
  obtain ⟨-, -, hanswers, hfinds⟩ := h.keyFor epoch
  refine ⟨fun ⟨key, hok⟩ => ?_, fun hfound => hfinds hfound hanchor⟩
  obtain ⟨hfloor, hderives⟩ := hanswers key hok
  exact ⟨hfloor, key, hderives⟩

/-- The descent from `start`: it finds every epoch it passes, and not the one below where it stops. -/
theorem earliestFrom {start : Nat} (hanchor : start ≤ before.anchorEpoch) :
    Searched crypto before (EpochKeyChain.earliestFrom crypto start after).2 ∧
      (EpochKeyChain.earliestFrom crypto start after).1 ≤ start ∧
      (max 1 before.floor ≤ start → max 1 before.floor ≤ (EpochKeyChain.earliestFrom crypto start after).1) ∧
      (∀ e, (EpochKeyChain.earliestFrom crypto start after).1 ≤ e → e < start → Finds crypto before e) ∧
      (1 < (EpochKeyChain.earliestFrom crypto start after).1 →
        ¬ Finds crypto before ((EpochKeyChain.earliestFrom crypto start after).1 - 1)) := by
  induction start generalizing after with
  | zero => exact ⟨h, Nat.le_refl _, id, by omega, by simp [EpochKeyChain.earliestFrom]⟩
  | succ below ih =>
    rw [EpochKeyChain.earliestFrom, h.floor]
    split
    · have hsearched := (h.keyFor below).1
      have hfinds : _ ↔ Finds crypto before below := h.keyFor_iff (by omega)
      split
      · rename_i key chain hkey
        rw [hkey] at hsearched hfinds
        dsimp only at hsearched
        obtain ⟨hlater, hle, hlow, hall, hleast⟩ := ih hsearched (by omega)
        refine ⟨hlater, by omega, fun _ => hlow (by omega), fun e hfrom hto => ?_, hleast⟩
        rcases Nat.lt_succ_iff_lt_or_eq.mp hto with hlt | rfl
        · exact hall e hfrom hlt
        · exact hfinds.mp ⟨key, rfl⟩
      · rename_i hkey
        rw [hkey] at hsearched hfinds
        refine ⟨hsearched, Nat.le_refl _, id, by omega, fun _ hfound => ?_⟩
        obtain ⟨key, hok⟩ := hfinds.mpr hfound
        cases hok
    · refine ⟨h, Nat.le_refl _, id, by omega, fun hone hfound => ?_⟩
      have := hfound.1
      omega

/-- The answer, in the terms of the chain as it was before it was searched. -/
theorem earliestReachable (hone : 1 ≤ before.anchorEpoch)
    (hheld : Finds crypto before before.anchorEpoch) :
    IsLeast { low | max 1 before.floor ≤ low ∧ ∀ e, low ≤ e → e ≤ before.anchorEpoch → Finds crypto before e }
      (after.earliestReachable crypto).1 := by
  rw [EpochKeyChain.earliestReachable, h.anchor]
  obtain ⟨-, hle, hlow, hall, hleast⟩ := h.earliestFrom (Nat.le_refl before.anchorEpoch)
  refine ⟨⟨hlow (max_le hone hheld.1), fun e hfrom hto => ?_⟩, fun low ⟨hmax, hlowest⟩ => ?_⟩
  · rcases Nat.lt_or_eq_of_le hto with hlt | rfl
    · exact hall e hfrom hlt
    · exact hheld
  · by_contra hlt
    exact hleast (by omega) (hlowest _ (by omega) (by omega))

/-- Two chains walked out of one answer alike. -/
theorem earliestFrom_eq {other : EpochKeyChain} (hother : Searched crypto before other) {start : Nat}
    (hanchor : start ≤ before.anchorEpoch) :
    (EpochKeyChain.earliestFrom crypto start after).1 = (EpochKeyChain.earliestFrom crypto start other).1 := by
  induction start generalizing after other with
  | zero => rfl
  | succ below ih =>
    have hfinds := (h.keyFor_iff (by omega : below ≤ _)).trans (hother.keyFor_iff (by omega : below ≤ _)).symm
    have hafter := (h.keyFor below).1
    have hother' := (hother.keyFor below).1
    rw [EpochKeyChain.earliestFrom, EpochKeyChain.earliestFrom, h.floor, hother.floor]
    split
    · rcases hkey : after.keyFor crypto below with ⟨_ | key, chain⟩
      · rcases hkey' : other.keyFor crypto below with ⟨_ | key', chain'⟩
        · rfl
        · rw [hkey, hkey'] at hfinds
          obtain ⟨_, hok⟩ := hfinds.mpr ⟨key', rfl⟩
          cases hok
      · rcases hkey' : other.keyFor crypto below with ⟨_ | key', chain'⟩
        · rw [hkey, hkey'] at hfinds
          obtain ⟨_, hok⟩ := hfinds.mp ⟨key, rfl⟩
          cases hok
        · rw [hkey] at hafter
          rw [hkey'] at hother'
          exact ih hafter hother' (by omega)
    · rfl

end Searched

/-! ### What keeps a derivation -/

/-- A derivation uses nothing below its own epoch. -/
theorem Derives.applyFloor {floor : Nat} (h : Derives crypto chain epoch key) (hfloor : floor ≤ epoch) :
    Derives crypto (chain.applyFloor floor) epoch key := by
  rw [EpochKeyChain.applyFloor]
  split
  · exact h
  induction h with
  | held hheld => exact .held (by rw [getElem?_filter_nat, if_pos (decide_eq_true hfloor)]; exact hheld)
  | opened hfree _ hlink hopen ih =>
    refine .opened ?_ (ih (by omega)) ?_ hopen
    · rw [getElem?_filter_nat, hfree, ite_self]
    · rw [getElem?_filter_nat, if_pos (decide_eq_true (by omega))]
      exact hlink

theorem Derives.mono {chain' : EpochKeyChain} (h : Derives crypto chain epoch key)
    (hroom : chain'.roomId = chain.roomId) (hresolved : chain'.resolved = chain.resolved)
    (hlinks : ∀ (i : Nat) link, chain.links[i]? = some link → chain'.links[i]? = some link) :
    Derives crypto chain' epoch key := by
  induction h with
  | held hheld => exact .held (hresolved ▸ hheld)
  | opened hfree _ hlink hopen ih => exact .opened (hresolved ▸ hfree) ih (hlinks _ _ hlink) (hroom ▸ hopen)

/-- Adding links changes the links, in a way that depends on the floor and the links held. -/
theorem addLinks_eq (links : List EpochLink) (chain : EpochKeyChain) :
    chain.addLinks links = { chain with links := (chain.addLinks links).links } ∧
      ∀ chain' : EpochKeyChain, chain'.floor = chain.floor → chain'.links = chain.links →
        (chain'.addLinks links).links = (chain.addLinks links).links := by
  induction links generalizing chain with
  | nil => exact ⟨rfl, fun _ _ hlinks => hlinks⟩
  | cons link links ih =>
    simp only [EpochKeyChain.addLinks, List.foldl_cons] at ih ⊢
    by_cases hlow : link.epoch ≤ chain.floor
    · simp only [if_pos hlow]
      refine ⟨(ih chain).1, fun chain' hfloor hlinks => ?_⟩
      rw [if_pos (hfloor ▸ hlow)]
      exact (ih chain).2 chain' hfloor hlinks
    · simp only [if_neg hlow]
      refine ⟨(ih { chain with links := chain.links.insert link.epoch link }).1, fun chain' hfloor hlinks => ?_⟩
      rw [if_neg (hfloor ▸ hlow)]
      exact (ih { chain with links := chain.links.insert link.epoch link }).2
        { chain' with links := chain'.links.insert link.epoch link } hfloor
        (congrArg (fun links => links.insert link.epoch link) hlinks)

theorem Searched.applyFloor (h : Searched crypto before after) (floor : Nat) :
    Searched crypto (before.applyFloor floor) (after.applyFloor floor) := by
  by_cases hlow : floor ≤ before.floor
  · rwa [EpochKeyChain.applyFloor, EpochKeyChain.applyFloor, h.floor, if_pos hlow, if_pos hlow]
  · have hderives : ∀ i key, Derives crypto before i key → floor ≤ i →
        Derives crypto (before.applyFloor floor) i key := fun _ _ hkey => hkey.applyFloor
    rw [EpochKeyChain.applyFloor, if_neg hlow] at hderives
    rw [EpochKeyChain.applyFloor, EpochKeyChain.applyFloor, h.floor, if_neg hlow, if_neg hlow]
    refine ⟨h.room, h.anchor, rfl, by rw [h.links], fun i key hheld => ?_, fun i key hheld => ?_⟩ <;>
      rw [getElem?_filter_nat] at hheld <;> split at hheld
    · rw [getElem?_filter_nat, if_pos ‹_›]
      exact h.kept i key hheld
    · cases hheld
    · exact hderives i key (h.sound i key hheld) (of_decide_eq_true ‹_›)
    · cases hheld

theorem Searched.addLinks (h : Searched crypto before after) (links : List EpochLink)
    (hkeeps : ∀ (i : Nat) link, before.links[i]? = some link → (before.addLinks links).links[i]? = some link) :
    Searched crypto (before.addLinks links) (after.addLinks links) := by
  have hlinks := (addLinks_eq links before).2 after h.floor h.links
  obtain ⟨hbefore, -⟩ := addLinks_eq links before
  obtain ⟨hafter, -⟩ := addLinks_eq links after
  rw [hafter, hbefore, hlinks]
  exact ⟨h.room, h.anchor, h.floor, rfl, h.kept, fun i key hheld => (h.sound i key hheld).mono rfl rfl hkeeps⟩

/-! ### The anchor's key -/

/-- The anchor is resolved unless it lies below the floor. -/
def Anchored (chain : EpochKeyChain) : Prop :=
  1 ≤ chain.anchorEpoch → chain.floor ≤ chain.anchorEpoch → ∃ key, chain.resolved[chain.anchorEpoch]? = some key

namespace Anchored

theorem new (roomId : String) : Anchored (EpochKeyChain.new roomId) := fun h => absurd h (Nat.not_succ_le_zero 0)

theorem searched (h : Anchored before) (hsearched : Searched crypto before after) : Anchored after := by
  intro hone hfloor
  rw [hsearched.anchor] at hone hfloor ⊢
  rw [hsearched.floor] at hfloor
  obtain ⟨key, hkey⟩ := h hone hfloor
  exact ⟨key, hsearched.kept _ key hkey⟩

theorem applyFloor (h : Anchored chain) (floor : Nat) : Anchored (chain.applyFloor floor) := by
  rw [EpochKeyChain.applyFloor]
  split
  · exact h
  intro hone hfloor
  dsimp only at hone hfloor ⊢
  obtain ⟨key, hkey⟩ := h hone (by omega)
  exact ⟨key, by rw [getElem?_filter_nat, if_pos (decide_eq_true hfloor)]; exact hkey⟩

theorem reanchor (chain : EpochKeyChain) (epoch : Nat) (key : StorageKey) : Anchored (chain.reanchor epoch key) :=
  fun _ _ => ⟨key, by rw [EpochKeyChain.reanchor, getElem?_insert_nat, if_pos rfl]⟩

theorem addLinks (h : Anchored chain) (links : List EpochLink) : Anchored (chain.addLinks links) := by
  induction links generalizing chain with
  | nil => exact h
  | cons _ _ ih =>
    rw [EpochKeyChain.addLinks, List.foldl_cons]
    refine ih ?_
    split
    · exact h
    · exact h

end Anchored

end

/-! ### The true keys -/

/-- Every remembered key is the true one, and every held link is filed under its epoch and was added. -/
structure ChainInv (roomId : String) (keys : Nat → StorageKey) (added : List EpochLink) (chain : EpochKeyChain) :
    Prop where
  room : chain.roomId = roomId
  resolved : ∀ epoch key, chain.resolved[epoch]? = some key → key = keys epoch
  links : ∀ epoch link, chain.links[epoch]? = some link → link.epoch = epoch ∧ link ∈ added

namespace ChainInv

variable {crypto : LinkCrypto} {roomId : String} {keys : Nat → StorageKey} {added : List EpochLink}
  {chain after : EpochKeyChain} {epoch : Nat} {key : StorageKey}

theorem new (roomId : String) (keys : Nat → StorageKey) (added : List EpochLink) :
    ChainInv roomId keys added (EpochKeyChain.new roomId) where
  room := rfl
  resolved := fun epoch key h => by simp [EpochKeyChain.new] at h
  links := fun epoch link h => by simp [EpochKeyChain.new] at h

section
variable (h : ChainInv roomId keys added chain)
include h

theorem applyFloor (floor : Nat) : ChainInv roomId keys added (chain.applyFloor floor) := by
  rw [EpochKeyChain.applyFloor]
  split
  · exact h
  · refine ⟨h.room, fun epoch key hkey => ?_, fun epoch link hlink => ?_⟩
    · rw [getElem?_filter_nat] at hkey
      split at hkey
      · exact h.resolved epoch key hkey
      · cases hkey
    · rw [getElem?_filter_nat] at hlink
      split at hlink
      · exact h.links epoch link hlink
      · cases hlink

theorem reanchor (epoch : Nat) : ChainInv roomId keys added (chain.reanchor epoch (keys epoch)) := by
  refine ⟨h.room, fun other key hkey => ?_, h.links⟩
  rw [EpochKeyChain.reanchor, getElem?_insert_nat] at hkey
  split at hkey
  · cases hkey
    subst epoch
    rfl
  · exact h.resolved other key hkey

theorem addLinks (links : List EpochLink)
    (hadded : ∀ link ∈ links, link ∈ added) : ChainInv roomId keys added (chain.addLinks links) := by
  induction links generalizing chain with
  | nil => exact h
  | cons link links ih =>
    have hrest : ∀ link ∈ links, link ∈ added := fun other hother => hadded other (List.mem_cons_of_mem _ hother)
    rw [EpochKeyChain.addLinks, List.foldl_cons]
    refine ih ?_ hrest
    split
    · exact h
    · refine ⟨h.room, h.resolved, fun epoch found hfound => ?_⟩
      rw [getElem?_insert_nat] at hfound
      split at hfound
      · cases hfound
        exact ⟨‹_›, hadded link List.mem_cons_self⟩
      · exact h.links epoch found hfound

end

variable (h : ChainInv roomId keys added chain) (hideal : IdealLinks crypto roomId keys added)
include h hideal

theorem derives (hderives : Derives crypto chain epoch key) : key = keys epoch := by
  induction hderives with
  | held hheld => exact h.resolved _ _ hheld
  | @opened epoch _ _ link _ _ hlink hopen =>
    obtain ⟨hepoch, hadded⟩ := h.links (epoch + 1) link hlink
    by_cases hgenuine : Genuine crypto roomId keys link
    · obtain ⟨-, -, hprevious⟩ := (hideal.genuine link hadded hgenuine _ _ _).mp hopen
      rw [hprevious, hepoch, Nat.add_sub_cancel]
    · exact absurd hopen (hideal.other link hadded hgenuine _ _ _)

theorem searched (hsearched : Searched crypto chain after) : ChainInv roomId keys added after where
  room := hsearched.room.trans h.room
  resolved := fun epoch key hkey => h.derives hideal (hsearched.sound epoch key hkey)
  links := by rw [hsearched.links]; exact h.links

theorem keyFor_ok (hok : (chain.keyFor crypto epoch).1 = .ok key) : chain.floor ≤ epoch ∧ key = keys epoch := by
  obtain ⟨hfloor, hderives⟩ := ((Searched.refl crypto chain).keyFor epoch).2.2.1 key hok
  exact ⟨hfloor, h.derives hideal hderives⟩

theorem keyFor_complete (hheld : Anchored chain) (hone : 1 ≤ epoch) (hfloor : chain.floor ≤ epoch)
    (hanchor : epoch ≤ chain.anchorEpoch)
    (hlinks : ∀ i, epoch < i → i ≤ chain.anchorEpoch →
      ∃ link, chain.links[i]? = some link ∧ Genuine crypto roomId keys link) :
    ∃ key, (chain.keyFor crypto epoch).1 = .ok key := by
  have hreach : ∀ i, epoch ≤ i → i ≤ chain.anchorEpoch → ∃ key, Derives crypto chain i key := by
    intro i hlow hhigh
    induction hhigh using Nat.decreasingInduction with
    | self =>
      obtain ⟨key, hkey⟩ := hheld (hone.trans hanchor) (hfloor.trans hanchor)
      exact ⟨key, .held hkey⟩
    | of_succ i hlt ih =>
      obtain ⟨key, habove⟩ := ih (by omega)
      obtain ⟨link, hlink, hsealed⟩ := hlinks (i + 1) (by omega) hlt
      obtain ⟨hepoch, hadded⟩ := h.links _ link hlink
      cases hfree : chain.resolved[i]? with
      | some key' => exact ⟨key', .held hfree⟩
      | none =>
        refine ⟨_, .opened hfree habove hlink ((hideal.genuine link hadded hsealed _ _ _).mpr ⟨h.room, ?_, rfl⟩)⟩
        rw [h.derives hideal habove, hepoch]
  exact ((Searched.refl crypto chain).keyFor_iff hanchor).mpr ⟨hfloor, hreach epoch (Nat.le_refl _) hanchor⟩

end ChainInv

/-! ### Runs -/

inductive ChainCall where
  | reanchor (epoch : Nat)
  | addLinks (links : List EpochLink)
  | applyFloor (floor : Nat)
  | keyFor (epoch : Nat)
  | earliestReachable

section
variable (crypto : LinkCrypto) (keys : Nat → StorageKey)

def ChainCall.after (chain : EpochKeyChain) : ChainCall → EpochKeyChain
  | .reanchor epoch => chain.reanchor epoch (keys epoch)
  | .addLinks links => chain.addLinks links
  | .applyFloor floor => chain.applyFloor floor
  | .keyFor epoch => (chain.keyFor crypto epoch).2
  | .earliestReachable => (chain.earliestReachable crypto).2

abbrev EpochKeyChain.run : EpochKeyChain → List ChainCall → EpochKeyChain := Lib.run (ChainCall.after crypto keys)

end

def ChainCall.links : ChainCall → List EpochLink
  | .addLinks links => links
  | _ => []

section
variable {crypto : LinkCrypto} {roomId : String} {keys : Nat → StorageKey} {added : List EpochLink}
  {chain : EpochKeyChain}

/-- A call that only asks leaves the chain searched. -/
theorem after_searched (call : ChainCall) (h : (∃ epoch, call = .keyFor epoch) ∨ call = .earliestReachable) :
    Searched crypto chain (call.after crypto keys chain) := by
  rcases h with ⟨epoch, rfl⟩ | rfl
  · exact ((Searched.refl crypto chain).keyFor epoch).1
  · exact ((Searched.refl crypto chain).earliestFrom (Nat.le_refl _)).1

theorem step_chainInv (call : ChainCall) (h : ChainInv roomId keys added chain)
    (hideal : IdealLinks crypto roomId keys added) (hadded : ∀ link ∈ call.links, link ∈ added) :
    ChainInv roomId keys added (call.after crypto keys chain) := by
  cases call with
  | reanchor epoch => exact h.reanchor epoch
  | addLinks links => exact h.addLinks links hadded
  | applyFloor floor => exact h.applyFloor floor
  | keyFor epoch => exact h.searched hideal (after_searched _ (.inl ⟨epoch, rfl⟩))
  | earliestReachable => exact h.searched hideal (after_searched _ (.inr rfl))

theorem step_anchored (call : ChainCall) (h : Anchored chain) : Anchored (call.after crypto keys chain) := by
  cases call with
  | reanchor epoch => exact Anchored.reanchor chain epoch _
  | addLinks links => exact h.addLinks links
  | applyFloor floor => exact h.applyFloor floor
  | keyFor epoch => exact h.searched (after_searched _ (.inl ⟨epoch, rfl⟩))
  | earliestReachable => exact h.searched (after_searched _ (.inr rfl))

theorem floor_addLinks (links : List EpochLink) (chain : EpochKeyChain) :
    (chain.addLinks links).floor = chain.floor := by
  induction links generalizing chain with
  | nil => rfl
  | cons _ _ ih =>
    rw [EpochKeyChain.addLinks, List.foldl_cons, ← EpochKeyChain.addLinks, ih]
    split <;> rfl

theorem le_floor_applyFloor (floor : Nat) (chain : EpochKeyChain) :
    floor ≤ (chain.applyFloor floor).floor ∧ chain.floor ≤ (chain.applyFloor floor).floor := by
  rw [EpochKeyChain.applyFloor]
  split
  · exact ⟨‹_›, Nat.le_refl _⟩
  · exact ⟨Nat.le_refl _, Nat.le_of_not_le ‹_›⟩

theorem step_floor (call : ChainCall) : chain.floor ≤ (call.after crypto keys chain).floor := by
  cases call with
  | reanchor => exact Nat.le_refl _
  | addLinks links => exact Nat.le_of_eq (floor_addLinks links chain).symm
  | applyFloor floor => exact (le_floor_applyFloor floor chain).2
  | keyFor epoch => exact Nat.le_of_eq (after_searched _ (.inl ⟨epoch, rfl⟩)).floor.symm
  | earliestReachable => exact Nat.le_of_eq (after_searched _ (.inr rfl)).floor.symm

theorem run_chainInv (calls : List ChainCall) (h : ChainInv roomId keys added chain)
    (hideal : IdealLinks crypto roomId keys added)
    (hadded : ∀ call ∈ calls, ∀ link ∈ call.links, link ∈ added) :
    ChainInv roomId keys added (chain.run crypto keys calls) :=
  run_induction h (along_of_forall fun call hcall _ => hadded call hcall) fun _ call hs hlinks =>
    step_chainInv call hs hideal hlinks

theorem run_anchored (calls : List ChainCall) (h : Anchored chain) : Anchored (chain.run crypto keys calls) :=
  run_invariant h fun _ call hs => step_anchored call hs

theorem run_floor (calls : List ChainCall) : chain.floor ≤ (chain.run crypto keys calls).floor :=
  run_invariant (I := fun after : EpochKeyChain => chain.floor ≤ after.floor) (Nat.le_refl _) fun _ call hle =>
    hle.trans (step_floor call)

theorem asked_searched {before after : EpochKeyChain} (h : Searched crypto before after) (asked : List Nat) :
    Searched crypto before (after.run crypto keys (asked.map .keyFor)) := by
  induction asked generalizing after with
  | nil => exact h
  | cons epoch _ ih => exact ih (h.keyFor epoch).1

end

/-! ### Searches do not matter -/

def ChainCall.asks : ChainCall → Bool
  | .keyFor _ | .earliestReachable => true
  | _ => false

/-- The call anchors the chain at `anchor` only, and replaces no link it holds by a different one. -/
def ChainCall.Steady (anchor : Nat) (chain : EpochKeyChain) : ChainCall → Prop
  | .reanchor epoch => epoch = anchor
  | .addLinks links => ∀ (epoch : Nat) link, chain.links[epoch]? = some link →
      (chain.addLinks links).links[epoch]? = some link
  | _ => True

/-- `asked` is `plain`, which remembers the anchor's key and no other, searched further. -/
structure Replayed (crypto : LinkCrypto) (keys : Nat → StorageKey) (anchor : Nat) (plain asked : EpochKeyChain) :
    Prop where
  searched : Searched crypto plain asked
  rooted : ∀ (epoch : Nat) key, plain.resolved[epoch]? = some key → epoch = anchor ∧ key = keys anchor

section
variable {crypto : LinkCrypto} {keys : Nat → StorageKey} {anchor : Nat} {plain asked : EpochKeyChain}

theorem Replayed.reanchor (h : Replayed crypto keys anchor plain asked) :
    Replayed crypto keys anchor (plain.reanchor anchor (keys anchor)) (asked.reanchor anchor (keys anchor)) := by
  have hinsert : ∀ (m : ExtTreeMap Nat StorageKey) (i : Nat), (m.insert anchor (keys anchor))[i]? =
      if anchor = i then some (keys anchor) else m[i]? := fun m i => getElem?_insert_nat m anchor i _
  -- whatever was walked out came from the anchor's key, which is remembered as before
  have hderives : ∀ i key, Derives crypto plain i key → Derives crypto (plain.reanchor anchor (keys anchor)) i key := by
    intro i key hkey
    induction hkey with
    | held hheld =>
      obtain ⟨rfl, rfl⟩ := h.rooted _ _ hheld
      exact .held ((hinsert _ _).trans (if_pos rfl))
    | @opened epoch _ _ _ hfree habove hlink hopen ih =>
      obtain ⟨i, key', hle, hheld⟩ := habove.held_above
      obtain ⟨rfl, -⟩ := h.rooted i key' hheld
      exact .opened ((hinsert _ _).trans ((if_neg (by omega)).trans hfree)) ih hlink hopen
  refine ⟨⟨h.searched.room, rfl, h.searched.floor, h.searched.links, fun i key hheld => ?_, fun i key hheld => ?_⟩,
    fun i key hheld => ?_⟩ <;> rw [EpochKeyChain.reanchor, hinsert] at hheld <;> split at hheld
  · exact (hinsert _ _).trans ((if_pos ‹_›).trans hheld)
  · exact (hinsert _ _).trans ((if_neg ‹_›).trans (h.searched.kept i key hheld))
  · exact .held ((hinsert _ _).trans ((if_pos ‹_›).trans hheld))
  · exact hderives i key (h.searched.sound i key hheld)
  · exact ⟨Eq.symm ‹_›, (Option.some.inj hheld).symm⟩
  · exact h.rooted i key hheld

theorem Replayed.step (h : Replayed crypto keys anchor plain asked) (call : ChainCall)
    (hsteady : call.Steady anchor asked) :
    Replayed crypto keys anchor (if call.asks then plain else call.after crypto keys plain)
      (call.after crypto keys asked) := by
  cases call with
  | reanchor epoch =>
    obtain rfl : epoch = anchor := hsteady
    exact h.reanchor
  | addLinks links =>
    refine ⟨h.searched.addLinks links fun i link hlink => ?_, fun i key hheld => h.rooted i key ?_⟩
    · rw [← (addLinks_eq links plain).2 asked h.searched.floor h.searched.links]
      exact hsteady i link (h.searched.links ▸ hlink)
    · change (plain.addLinks links).resolved[i]? = some key at hheld
      rwa [(addLinks_eq links plain).1] at hheld
  | applyFloor floor =>
    refine ⟨h.searched.applyFloor floor, fun i key hheld => h.rooted i key ?_⟩
    change (plain.applyFloor floor).resolved[i]? = some key at hheld
    rw [EpochKeyChain.applyFloor] at hheld
    split at hheld
    · exact hheld
    · rw [getElem?_filter_nat] at hheld
      split at hheld
      · exact hheld
      · cases hheld
  | keyFor epoch => exact ⟨(h.searched.keyFor epoch).1, h.rooted⟩
  | earliestReachable => exact ⟨(h.searched.earliestFrom (Nat.le_of_eq h.searched.anchor)).1, h.rooted⟩

theorem Replayed.run (h : Replayed crypto keys anchor plain asked) (calls : List ChainCall)
    (hsteady : Along (ChainCall.after crypto keys) (ChainCall.Steady anchor) asked calls) :
    Replayed crypto keys anchor (plain.run crypto keys (calls.filter fun call => !call.asks))
      (asked.run crypto keys calls) := by
  induction calls generalizing plain asked with
  | nil => exact h
  | cons call calls ih =>
    have hnext := h.step call hsteady.1
    rw [List.filter_cons]
    cases hasks : call.asks with
    | true => exact ih (by rwa [hasks] at hnext) hsteady.2
    | false => exact ih (by rwa [hasks] at hnext) hsteady.2

end

/-- What a holder of a chain can rely on after `calls` on a new chain. -/
structure ChainSound (crypto : LinkCrypto) (roomId : String) (keys : Nat → StorageKey) (calls : List ChainCall) :
    Prop where
  /-- A key answered is the true one. -/
  trueKey : ∀ epoch key, (((EpochKeyChain.new roomId).run crypto keys calls).keyFor crypto epoch).1 = .ok key →
    key = keys epoch
  /-- Below a floor that was applied no key is answered, whatever came after. -/
  forgotten : ∀ before floor after, calls = before ++ .applyFloor floor :: after → ∀ epoch < floor, ∀ key,
    (((EpochKeyChain.new roomId).run crypto keys calls).keyFor crypto epoch).1 ≠ .ok key
  /-- The floor never goes down. -/
  floorRises : ∀ before after, calls = before ++ after →
    ((EpochKeyChain.new roomId).run crypto keys before).floor ≤
      ((EpochKeyChain.new roomId).run crypto keys calls).floor
  /-- With genuine links held from the anchor down, a key from the floor up is answered. -/
  reached : ∀ epoch, 1 ≤ epoch → ((EpochKeyChain.new roomId).run crypto keys calls).floor ≤ epoch →
    epoch ≤ ((EpochKeyChain.new roomId).run crypto keys calls).anchorEpoch →
    (∀ i, epoch < i → i ≤ ((EpochKeyChain.new roomId).run crypto keys calls).anchorEpoch →
      ∃ link, ((EpochKeyChain.new roomId).run crypto keys calls).links[i]? = some link ∧
        Genuine crypto roomId keys link) →
    (((EpochKeyChain.new roomId).run crypto keys calls).keyFor crypto epoch).1 = .ok (keys epoch)

/-- **The key chain yields no wrong key and no forgotten one.** For every run of calls whose links the cipher
is ideal for, genuine or not and in any order. -/
theorem key_chain_sound (crypto : LinkCrypto) (roomId : String) (keys : Nat → StorageKey) (calls : List ChainCall)
    (hideal : IdealLinks crypto roomId keys (calls.flatMap ChainCall.links)) :
    ChainSound crypto roomId keys calls := by
  have hstart := ChainInv.new roomId keys (calls.flatMap ChainCall.links)
  have hadded : ∀ call ∈ calls, ∀ link ∈ call.links, link ∈ calls.flatMap ChainCall.links :=
    fun call hcall link hlink => List.mem_flatMap.mpr ⟨call, hcall, hlink⟩
  have hend := run_chainInv calls hstart hideal hadded
  have hheld : Anchored ((EpochKeyChain.new roomId).run crypto keys calls) := run_anchored calls (.new roomId)
  have hsplit : ∀ before after, calls = before ++ after →
      ((EpochKeyChain.new roomId).run crypto keys before).floor ≤
        ((EpochKeyChain.new roomId).run crypto keys calls).floor := by
    intro before after hcalls
    rw [hcalls, EpochKeyChain.run, run_append]
    exact run_floor after
  refine ⟨fun epoch key hok => (hend.keyFor_ok hideal hok).2, fun before floor after hcalls epoch hlt key hok => ?_,
    hsplit, fun epoch hone hfloor hanchor hlinks => ?_⟩
  · have happlied := hsplit (before ++ [.applyFloor floor]) after (by rw [hcalls, List.append_assoc]; rfl)
    rw [EpochKeyChain.run, run_append] at happlied
    have hraised := (le_floor_applyFloor floor ((EpochKeyChain.new roomId).run crypto keys before)).1
    have hheld := (hend.keyFor_ok hideal hok).1
    exact absurd hlt (Nat.not_lt.mpr (hraised.trans (happlied.trans hheld)))
  · obtain ⟨key, hok⟩ := hend.keyFor_complete hideal hheld hone hfloor hanchor hlinks
    rw [hok, (hend.keyFor_ok hideal hok).2]

/-- **How far back.** Of a chain anchored not below its floor `earliestReachable` gives the least epoch, of those
from the floor and from 1 up, such that every key from it to the anchor is answered; the key before it, unless it is
the first epoch's, is not; and searches made since the chain last changed do not move the answer. Of a chain anchored
at one epoch only, none of whose links was replaced by a different one, no search at all moves it, and the key before
it is not answered either where no link into epoch 1 is held. -/
theorem earliest_reachable_exact (crypto : LinkCrypto) (roomId : String) (keys : Nat → StorageKey)
    (calls : List ChainCall) :
    let chain := (EpochKeyChain.new roomId).run crypto keys calls
    let earliest := (chain.earliestReachable crypto).1
    1 ≤ chain.anchorEpoch → chain.floor ≤ chain.anchorEpoch →
    IsLeast { low | max 1 chain.floor ≤ low ∧ ∀ e, low ≤ e → e ≤ chain.anchorEpoch →
        ∃ key, (chain.keyFor crypto e).1 = .ok key } earliest ∧
      (1 < earliest → ¬ ∃ key, (chain.keyFor crypto (earliest - 1)).1 = .ok key) ∧
      (∀ asked : List Nat, ((chain.run crypto keys (asked.map .keyFor)).earliestReachable crypto).1 = earliest) ∧
      (Along (ChainCall.after crypto keys) (ChainCall.Steady chain.anchorEpoch) (.new roomId) calls →
        ((EpochKeyChain.new roomId).run crypto keys (calls.filter fun call => !call.asks) |>.earliestReachable
          crypto).1 = earliest ∧
        (chain.links[1]? = none → ¬ ∃ key, (chain.keyFor crypto (earliest - 1)).1 = .ok key)) := by
  intro chain earliest hone hfloor
  have hself := Searched.refl crypto chain
  obtain ⟨key, hkey⟩ := run_anchored calls (.new roomId) hone hfloor
  have hheld : Finds crypto chain chain.anchorEpoch := ⟨hfloor, key, .held hkey⟩
  have hleast := hself.earliestReachable hone hheld
  obtain ⟨-, hle, -, -, hstop⟩ := hself.earliestFrom (Nat.le_refl chain.anchorEpoch)
  have hbelow : 1 < earliest → ¬ ∃ key, (chain.keyFor crypto (earliest - 1)).1 = .ok key := fun hlt hfound =>
    hstop hlt ((hself.keyFor_iff (by omega)).mp hfound)
  refine ⟨?_, hbelow, fun asked => ?_, fun hsteady => ?_⟩
  · convert hleast using 5 with low
    exact forall_congr' fun _ => forall_congr' fun hto => hself.keyFor_iff hto
  · exact ((asked_searched hself asked).earliestReachable hone hheld).unique hleast
  · have hreplayed : Replayed crypto keys chain.anchorEpoch
        ((EpochKeyChain.new roomId).run crypto keys (calls.filter fun call => !call.asks)) chain :=
      Replayed.run ⟨Searched.refl crypto _, fun i key hheld => by simp [EpochKeyChain.new] at hheld⟩ calls hsteady
    have hsearched := hreplayed.searched
    refine ⟨?_, fun hnone hfound => ?_⟩
    · change (EpochKeyChain.earliestFrom crypto _ _).1 = (EpochKeyChain.earliestFrom crypto _ _).1
      rw [hsearched.anchor]
      exact (Searched.refl crypto _).earliestFrom_eq hsearched (Nat.le_refl _)
    · -- below epoch 1 a key would have to be the anchor's, or come over the link into epoch 1
      have hlow : 1 ≤ earliest := (le_max_left _ _).trans hleast.1.1
      obtain hfirst | hlt := Nat.eq_or_lt_of_le hlow
      · rw [← hfirst] at hfound
        obtain ⟨-, key, hderives⟩ := (hsearched.keyFor_iff (Nat.zero_le _)).mp hfound
        cases hderives with
        | held hheld =>
          have := (hreplayed.rooted _ _ hheld).1
          omega
        | opened _ _ hlink => cases hnone.symm.trans (hsearched.links ▸ hlink)
      · exact hbelow hlt hfound

/-! ### A sample chain -/

def sampleKeys (epoch : Nat) : StorageKey := Vector.replicate 32 (UInt8.ofNat epoch)

/-- The link into `epoch` as its committer sealed it. -/
def sampleLink (epoch : Nat) : EpochLink where
  epoch := epoch
  wrapped := plainCipher.encode ((sampleKeys (epoch - 1)).toList ++ ((sampleKeys epoch).toList ++
    ((Vector.replicate 12 0).toList ++ (linkAad "did:webvh:room" epoch).toByteArray.data.toList)))
  nonce := plainCipher.encode (Vector.replicate 12 (0 : UInt8)).toList

/-- A link nobody sealed. -/
def forgedLink : EpochLink := ⟨2, "", ""⟩

theorem sampleLink_genuine (epoch : Nat) (h : 2 ≤ epoch) :
    Genuine plainCipher "did:webvh:room" sampleKeys (sampleLink epoch) := by
  refine ⟨Vector.replicate 12 0, ?_⟩
  change sealLink plainCipher "did:webvh:room" epoch _ _ _ = _
  rw [sealLink, if_neg (Nat.not_lt.mpr h)]
  rfl

theorem sample_ideal {links : List EpochLink}
    (h : ∀ link ∈ links, link = forgedLink ∨ link = sampleLink 2 ∨ link = sampleLink 3) :
    IdealLinks plainCipher "did:webvh:room" sampleKeys links where
  genuine := by
    rintro link - ⟨nonce, hsealed⟩
    exact plainCipher_ideal.openLink_sealed hsealed
  other := by
    intro link hlink hother room current previous hopen
    rcases h link hlink with rfl | rfl | rfl
    · cases hopen
    · exact hother (sampleLink_genuine 2 (by decide))
    · exact hother (sampleLink_genuine 3 (by decide))

/-- Anchored at epoch 3, with a forged link and the two genuine ones. -/
def sampleCalls : List ChainCall :=
  [.reanchor 3, .addLinks [sampleLink 3, forgedLink, sampleLink 2]]

/-- A floor at epoch 2, and everything below it served again. -/
def flooredCalls : List ChainCall :=
  sampleCalls ++ [.keyFor 1, .applyFloor 2, .addLinks [sampleLink 2], .reanchor 1, .reanchor 3]

theorem key_chain_sound_sample :
    (((EpochKeyChain.new "did:webvh:room").run plainCipher sampleKeys sampleCalls).keyFor plainCipher 1).1 =
      .ok (sampleKeys 1) ∧
    ∀ key, (((EpochKeyChain.new "did:webvh:room").run plainCipher sampleKeys flooredCalls).keyFor plainCipher 1).1 ≠
      .ok key := by
  constructor
  · refine (key_chain_sound plainCipher "did:webvh:room" sampleKeys sampleCalls (sample_ideal ?_)).reached 1
      (Nat.le_refl 1) ?_ ?_ ?_
    · simp [sampleCalls, ChainCall.links]
    · exact Nat.zero_le 1
    · exact (by decide : 1 ≤ 3)
    · intro i hlow hhigh
      have hthree : i ≤ 3 := hhigh
      obtain rfl | rfl : i = 2 ∨ i = 3 := by omega
      · exact ⟨sampleLink 2, rfl, sampleLink_genuine 2 (by decide)⟩
      · exact ⟨sampleLink 3, rfl, sampleLink_genuine 3 (by decide)⟩
  · refine (key_chain_sound plainCipher "did:webvh:room" sampleKeys flooredCalls (sample_ideal ?_)).forgotten
      (sampleCalls ++ [.keyFor 1]) 2 [.addLinks [sampleLink 2], .reanchor 1, .reanchor 3] rfl 1 (by decide)
    simp [flooredCalls, sampleCalls, ChainCall.links]

/-- Anchored at epoch 3, asked for epoch 1 before the floor rises to epoch 2. -/
def askedCalls : List ChainCall := sampleCalls ++ [.keyFor 1, .applyFloor 2]

theorem earliest_reachable_exact_sample :
    let chain := (EpochKeyChain.new "did:webvh:room").run plainCipher sampleKeys
    let asked := chain askedCalls
    (IsLeast { low | max 1 asked.floor ≤ low ∧ ∀ e, low ≤ e → e ≤ asked.anchorEpoch →
      ∃ key, (asked.keyFor plainCipher e).1 = .ok key } (asked.earliestReachable plainCipher).1) ∧
      ((chain (sampleCalls ++ [.applyFloor 2])).earliestReachable plainCipher).1 =
        (asked.earliestReachable plainCipher).1 := by
  have hexact := earliest_reachable_exact plainCipher "did:webvh:room" sampleKeys askedCalls (by decide +kernel)
    (by decide +kernel)
  have hsteady : Along (ChainCall.after plainCipher sampleKeys) (ChainCall.Steady 3) (.new "did:webvh:room")
      askedCalls := by
    refine ⟨rfl, fun epoch link hlink => ?_, trivial, trivial, trivial⟩
    simp [EpochKeyChain.new, ChainCall.after, EpochKeyChain.reanchor] at hlink
  have hanchor : ((EpochKeyChain.new "did:webvh:room").run plainCipher sampleKeys askedCalls).anchorEpoch = 3 := by
    decide +kernel
  have hasked : askedCalls.filter (fun call => !call.asks) = sampleCalls ++ [.applyFloor 2] := rfl
  have hsame := (hexact.2.2.2 (by rw [hanchor]; exact hsteady)).1
  rw [hasked] at hsame
  exact ⟨hexact.1, hsame⟩

/-- Under a floor above its anchor a chain answers with the anchor; a link filed for the first epoch can open; and a
key walked out before its link is replaced is still answered. -/
theorem earliest_reachable_moved :
    let chain := (EpochKeyChain.new "did:webvh:room").run plainCipher sampleKeys
    ((chain [.reanchor 1, .applyFloor 5]).earliestReachable plainCipher).1 = 1 ∧
      ((chain [.reanchor 1, .addLinks [sampleLink 1]]).earliestReachable plainCipher).1 = 1 ∧
      ((chain [.reanchor 1, .addLinks [sampleLink 1]]).keyFor plainCipher 0).1 = .ok (sampleKeys 0) ∧
      ((chain [.reanchor 2, .addLinks [sampleLink 2], .keyFor 1, .addLinks [forgedLink]]).earliestReachable
        plainCipher).1 = 1 ∧
      ((chain [.reanchor 2, .addLinks [sampleLink 2], .addLinks [forgedLink]]).earliestReachable
        plainCipher).1 = 2 := by
  decide +kernel

end TrustInfrastructure.Rooms
