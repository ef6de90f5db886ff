import TrustInfrastructure.Lib.Text
import TrustInfrastructure.Rooms.Types

/-!
# Links between epoch keys

A room's storage key changes at every membership change. The committer of a change seals the outgoing key
under the incoming one (`sealLink`), so that a holder of the current key can recover the one before
(`openLink`).

The cipher and base64 are parameters (`LinkCrypto`). That a link opens only in the place it was sealed for
follows, for a cipher that binds its key and its associated data, from the latter naming that place: the room
and the epoch can be read back off it (`linkAad_injective`, `IdealCipher.openLink_sealed`).
-/

namespace TrustInfrastructure.Rooms

open Lib

abbrev StorageKey := Vector UInt8 32

/-- What can go wrong using a room's keys. `panic` is no error of the source: an `expect` that failed. -/
inductive RoomKeyError where
  | seal (message : String)
  | didNotOpen
  | epochAhead (sealedAt held : Nat)
  | epochUnreachable (sealedAt earliest : Nat)
  | panic (message : String)
  deriving DecidableEq

/-- What links use of other crates: ChaCha20-Poly1305 (key, nonce, associated data, message) and base64. -/
structure LinkCrypto where
  encrypt : StorageKey → List UInt8 → String → List UInt8 → Option (List UInt8)
  decrypt : StorageKey → List UInt8 → String → List UInt8 → Option (List UInt8)
  encode : List UInt8 → String
  decode : String → Except String (List UInt8)

/-! ### Links -/

/-- The associated data of a link: its room, its place in the chain and its direction. -/
def linkAad (roomId : String) (epoch : Nat) : String :=
  roomId ++ "|epoch-link|" ++ toString epoch ++ "|" ++ toString (epoch - 1)

section
variable (crypto : LinkCrypto)

/-- Seal `predecessor`, the key of the epoch before `epoch`, under `current`, the key of `epoch`. -/
def sealLink (roomId : String) (epoch : Nat) (current predecessor : StorageKey) (nonce : Vector UInt8 12) :
    Except RoomKeyError EpochLink :=
  if epoch < 2 then .error (.seal s!"epoch {epoch} has no predecessor to link to")
  else
    match crypto.encrypt current nonce.toList (linkAad roomId epoch) predecessor.toList with
    | none => .error (.seal "seal the epoch link: aead::Error")
    | some wrapped => .ok { epoch, wrapped := crypto.encode wrapped, nonce := crypto.encode nonce.toList }

def storageKey? (plain : List UInt8) : Option StorageKey :=
  if h : plain.length = 32 then some ⟨plain.toArray, h⟩ else none

def openLink (roomId : String) (link : EpochLink) (current : StorageKey) : Except RoomKeyError StorageKey :=
  match crypto.decode link.wrapped with
  | .error e => .error (.seal s!"decode the epoch link: {e}")
  | .ok wrapped =>
    match crypto.decode link.nonce with
    | .error e => .error (.seal s!"decode the epoch link nonce: {e}")
    | .ok nonce =>
      if nonce.length ≠ 12 then
        .error (.seal ("epoch link nonce is " ++ toString nonce.length ++ " bytes, expected 12"))
      else
        match crypto.decrypt current nonce (linkAad roomId link.epoch) wrapped with
        | none => .error .didNotOpen
        | some plain =>
          match storageKey? plain with
          | none => .error (.seal "an epoch link did not wrap a storage key")
          | some key => .ok key

end

/-! ### Where a link opens -/

/-- The associated data names the room and the place, whatever separators the room's name holds. -/
theorem linkAad_injective {roomId roomId' : String} {epoch epoch' : Nat}
    (h : linkAad roomId epoch = linkAad roomId' epoch') : roomId = roomId' ∧ epoch = epoch' := by
  have hsplit : ∀ id e, (linkAad id e).toList =
      ((id ++ "|epoch-link").toList ++ '|' :: (toString e).toList) ++ '|' :: (toString (e - 1)).toList := by
    intro id e
    simp [linkAad, String.toList_append]
  have hbar : ∀ n : Nat, '|' ∉ (toString n).toList := notMem_toString (by decide)
  have hlist := congrArg String.toList h
  rw [hsplit, hsplit] at hlist
  obtain ⟨hhead, -⟩ := append_cons_inj (hbar _) (hbar _) hlist
  obtain ⟨hroom, hepoch⟩ := append_cons_inj (hbar _) (hbar _) hhead
  rw [String.toList_append, String.toList_append] at hroom
  exact ⟨String.toList_inj.mp (List.append_cancel_right hroom), toString_toList_injective hepoch⟩

section
variable (crypto : LinkCrypto) (roomId : String) (keys : Nat → StorageKey)

/-- The link is one a committer sealed for the room whose keys are `keys`. -/
def Genuine (link : EpochLink) : Prop :=
  ∃ nonce, sealLink crypto roomId link.epoch (keys link.epoch) (keys (link.epoch - 1)) nonce = .ok link

/-- The cipher is ideal for `links`: a genuine one opens in its room and under its epoch's key only, and then
yields the key before; no other one opens. -/
structure IdealLinks (links : List EpochLink) : Prop where
  genuine : ∀ link ∈ links, Genuine crypto roomId keys link → ∀ room current previous,
    openLink crypto room link current = .ok previous ↔
      room = roomId ∧ current = keys link.epoch ∧ previous = keys (link.epoch - 1)
  other : ∀ link ∈ links, ¬ Genuine crypto roomId keys link → ∀ room current previous,
    openLink crypto room link current ≠ .ok previous

structure IdealCipher : Prop where
  decode_encode : ∀ bytes, crypto.decode (crypto.encode bytes) = .ok bytes
  binds : ∀ key (nonce : Vector UInt8 12) aad (message : StorageKey) ciphertext,
    crypto.encrypt key nonce.toList aad message.toList = some ciphertext →
    ∀ key' nonce' aad' message', nonce'.length = 12 →
      (crypto.decrypt key' nonce' aad' ciphertext = some message' ↔
        key' = key ∧ nonce' = nonce.toList ∧ aad' = aad ∧ message' = message.toList)

end

theorem storageKey?_toList (key : StorageKey) : storageKey? key.toList = some key := by
  rw [storageKey?, dif_pos (by simp)]
  congr

theorem storageKey?_eq_some {plain : List UInt8} {key : StorageKey} (h : storageKey? plain = some key) :
    plain = key.toList := by
  rw [storageKey?] at h
  split at h
  · cases h
    rfl
  · cases h

theorem IdealCipher.openLink_sealed {crypto : LinkCrypto} (hideal : IdealCipher crypto) {roomId : String}
    {epoch : Nat} {current predecessor : StorageKey} {nonce : Vector UInt8 12} {link : EpochLink}
    (hlink : sealLink crypto roomId epoch current predecessor nonce = .ok link) (room : String)
    (key previous : StorageKey) :
    openLink crypto room link key = .ok previous ↔ room = roomId ∧ key = current ∧ previous = predecessor := by
  rw [sealLink] at hlink
  split at hlink
  · cases hlink
  split at hlink
  · cases hlink
  rename_i wrapped hwrapped
  cases hlink
  have hbinds := hideal.binds _ _ _ _ _ hwrapped
  simp only [openLink, hideal.decode_encode, Vector.length_toList, ne_eq, not_true, if_false]
  constructor
  · intro h
    split at h
    · cases h
    · rename_i plain hplain
      obtain ⟨hkey, -, haad, hmessage⟩ := (hbinds _ _ _ _ Vector.length_toList).mp hplain
      split at h
      · cases h
      · rename_i found hfound
        cases h
        have hprevious := (storageKey?_eq_some hfound).symm.trans hmessage
        exact ⟨(linkAad_injective haad).1, hkey, Vector.toList_inj.mp hprevious⟩
  · rintro ⟨rfl, rfl, rfl⟩
    rw [(hbinds _ _ _ _ Vector.length_toList).mpr ⟨rfl, rfl, rfl, rfl⟩]
    dsimp only
    rw [storageKey?_toList]

theorem openLink_ne_panic (crypto : LinkCrypto) (roomId : String) (link : EpochLink) (key : StorageKey)
    (message : String) : openLink crypto roomId link key ≠ .error (.panic message) := by
  intro h
  rw [openLink] at h
  repeat' split at h
  all_goals cases h

/-! ### A cipher to try it with -/

def plainCipher : LinkCrypto where
  encrypt key nonce aad message := some (message ++ (key.toList ++ (nonce ++ aad.toByteArray.data.toList)))
  decrypt key nonce aad ciphertext :=
    if ciphertext.drop 32 = key.toList ++ (nonce ++ aad.toByteArray.data.toList) then some (ciphertext.take 32)
    else none
  encode bytes := String.ofList (bytes.map fun byte => Char.ofNat byte.toNat)
  decode text :=
    if text.toList.all fun c => c.toNat < 256 then .ok (text.toList.map fun c => UInt8.ofNat c.toNat)
    else .error "Invalid symbol"

theorem toNat_ofNat_byte (byte : UInt8) : (Char.ofNat byte.toNat).toNat = byte.toNat := by
  have hlt := byte.toNat_lt
  rw [Char.toNat_ofNat, if_pos (Or.inl (by omega))]

theorem plainCipher_ideal : IdealCipher plainCipher where
  decode_encode := by
    intro bytes
    have hall : (bytes.map fun byte => Char.ofNat byte.toNat).all (fun c => c.toNat < 256) = true := by
      rw [List.all_map, List.all_eq_true]
      intro byte _
      have hlt := byte.toNat_lt
      simpa [toNat_ofNat_byte] using hlt
    change (if _ then _ else _) = _
    rw [plainCipher, String.toList_ofList, if_pos hall, List.map_map]
    simp [Function.comp_def, toNat_ofNat_byte]
  binds := by
    intro key nonce aad message ciphertext hciphertext key' nonce' aad' message' hlength
    cases hciphertext
    have htake : (message.toList ++ (key.toList ++ (nonce.toList ++ aad.toByteArray.data.toList))).take 32 =
        message.toList := List.take_left' Vector.length_toList
    have hdrop : (message.toList ++ (key.toList ++ (nonce.toList ++ aad.toByteArray.data.toList))).drop 32 =
        key.toList ++ (nonce.toList ++ aad.toByteArray.data.toList) := List.drop_left' Vector.length_toList
    simp only [plainCipher, htake, hdrop]
    constructor
    · intro h
      split at h
      · rename_i hbound
        obtain ⟨hkey, hrest⟩ := List.append_inj hbound (by rw [Vector.length_toList, Vector.length_toList])
        obtain ⟨hnonce, haad⟩ := List.append_inj hrest (by rw [Vector.length_toList, hlength])
        refine ⟨(Vector.toList_inj.mp hkey).symm, hnonce.symm, ?_, (Option.some.inj h).symm⟩
        exact (String.toByteArray_inj.mp (ByteArray.ext (Array.toList_inj.mp haad))).symm
      · cases h
    · rintro ⟨rfl, rfl, rfl, rfl⟩
      rw [if_pos rfl]

end TrustInfrastructure.Rooms
