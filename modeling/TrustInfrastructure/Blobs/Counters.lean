import TrustInfrastructure.Blobs.Types

/-!
# Usage counters and limits

What is charged to a room is charged to the room's counter and to its member's, if it has one: the `scopes` of a
charge. What is stored or reserved counts on the host's storage counter and on its config's: its `storageKeys`.
Every change to a counter is one change made at all the keys it concerns, and is read back in one place
(`usageAt_updateUsage`, `counter_updateStorage`).
-/

namespace TrustInfrastructure.Blobs

open Lib
open Std (ExtTreeMap)

def scopes (roomId : String) (chargedTo : Option String) : List Scope :=
  (roomId, none) :: chargedTo.toList.map fun member => (roomId, some member)

def storageKeys (configId : Option String) : List (Option String) := none :: configId.toList.map some

/-- Write `f` of each key's value back under the key. -/
def updateAt {K V : Type} [Ord K] [Std.TransOrd K] (default : V) (keys : List K) (f : V → V)
    (m : ExtTreeMap K V) : ExtTreeMap K V :=
  keys.foldl (fun m key => m.insert key (f (m[key]?.getD default))) m

theorem getElem?_updateAt {K V : Type} [Ord K] [Std.TransOrd K] [Std.LawfulEqOrd K] [DecidableEq K] {default : V}
    {keys : List K} {f : V → V} {m : ExtTreeMap K V} {key : K} (hkeys : keys.Nodup) :
    (updateAt default keys f m)[key]? = if key ∈ keys then some (f (m[key]?.getD default)) else m[key]? := by
  induction keys generalizing m with
  | nil => rfl
  | cons head tail ih =>
    rw [List.nodup_cons] at hkeys
    rw [updateAt, List.foldl_cons]
    change (updateAt default tail f (m.insert head (f (m[head]?.getD default))))[key]? = _
    rw [ih hkeys.2, getElem?_insert_eq]
    by_cases hhead : head = key
    · subst hhead
      rw [if_neg hkeys.1, if_pos rfl, if_pos List.mem_cons_self]
    · rw [if_neg hhead]
      simp only [List.mem_cons, Ne.symm hhead, false_or]

namespace Host

variable (h : Host)

def usageAt (scope : Scope) : Usage := h.usage[scope]?.getD {}

/-- `room_usage`. -/
def roomUsage (roomId : String) : Usage := h.usageAt (roomId, none)

/-- `member_usage`. -/
def memberUsage (roomId member : String) : Usage := h.usageAt (roomId, some member)

def counter (key : Option String) : StorageUsage := h.storage[key]?.getD {}

def updateUsage (roomId : String) (chargedTo : Option String) (f : Usage → Usage) : Host :=
  { h with usage := updateAt {} (scopes roomId chargedTo) f h.usage }

def updateStorage (configId : Option String) (f : StorageUsage → StorageUsage) : Host :=
  { h with storage := updateAt {} (storageKeys configId) f h.storage }

/-! ### Activity -/

def today : Nat := h.now / 86400

/-- Today's row of a scope, with the holdings as they stand and `a` added. -/
def touchDay (scope : Scope) (a : Activity) : Host :=
  let row := h.days[(scope, h.today)]?.getD {}
  { h with
    days := h.days.insert (scope, h.today)
      { files := (h.usageAt scope).files
        bytes := (h.usageAt scope).bytes
        uploads := row.uploads + a.uploads
        downloads := row.downloads + a.downloads
        egressBytes := row.egressBytes + a.egressBytes } }

/-- `touch_room`, `touch_member`: index the scope, and count under today's row. -/
def touch (scope : Scope) (a : Activity) (uploadedAt : Option Nat) : Host :=
  let existing := h.lastUpload[scope]?
  let indexed : Host :=
    if existing.isNone || uploadedAt.isSome then
      { h with lastUpload := h.lastUpload.insert scope (uploadedAt <|> existing.join) }
    else h
  indexed.touchDay scope a

/-- `record_activity`, and `record_upload` when `uploadedAt` is the time of an upload: the room's row, then the
member's. Only a member's row keeps when they last uploaded. -/
def recordActivity (roomId : String) (member : Option String) (a : Activity) (uploadedAt : Option Nat) : Host :=
  match member with
  | none => h.touch (roomId, none) a none
  | some m => (h.touch (roomId, none) a none).touch (roomId, some m) a uploadedAt

/-! ### Reservations and charges -/

def reserve (rec : UploadRecord) : Host :=
  (h.updateUsage rec.roomId rec.chargedTo fun u =>
    { u with reservedBytes := u.reservedBytes + rec.size, reservedFiles := u.reservedFiles + 1 }).updateStorage
      rec.configId fun s => { s with reservedBytes := s.reservedBytes + rec.size }

def releaseReservation (rec : UploadRecord) : Host :=
  (h.updateUsage rec.roomId rec.chargedTo fun u =>
    { u with reservedBytes := u.reservedBytes - rec.size, reservedFiles := u.reservedFiles - 1 }).updateStorage
      rec.configId fun s => { s with reservedBytes := s.reservedBytes - rec.size }

/-- The upload is stored on `configId`: its reservation becomes usage. One begun before configs existed reserved
nothing on one, so its config is charged the bytes alone. -/
def convertReservation (rec : UploadRecord) (configId : String) : Host :=
  let converted := h.updateUsage rec.roomId rec.chargedTo fun u =>
    { reservedBytes := u.reservedBytes - rec.size
      reservedFiles := u.reservedFiles - 1
      bytes := u.bytes + rec.size
      files := u.files + 1 }
  let released := converted.updateStorage (rec.configId.map fun _ => configId) fun s =>
    { s with reservedBytes := s.reservedBytes - rec.size }
  released.updateStorage (some configId) fun s => { s with bytes := s.bytes + rec.size, files := s.files + 1 }

/-- Charge (`true`) or credit (`false`) a committed blob to its room and member. -/
def charge (roomId : String) (entry : BlobEntry) (add : Bool) : Host :=
  (h.updateUsage roomId entry.chargedTo fun u =>
    if add then { u with bytes := u.bytes + entry.size, files := u.files + 1 }
    else { u with bytes := u.bytes - entry.size, files := u.files - 1 }).recordActivity roomId entry.chargedTo {} none

/-- One stored copy of `size` bytes is gone from a config. -/
def uncountCopy (configId : String) (size : Nat) : Host :=
  h.updateStorage (some configId) fun s => { s with files := s.files - 1, bytes := s.bytes - size }

/-- Give back `size` reserved bytes on a config and the host. -/
def unreserve (configId : String) (size : Nat) : Host :=
  if size = 0 then h
  else h.updateStorage (some configId) fun s => { s with reservedBytes := s.reservedBytes - size }

/-! ### Limits -/

def limitsFor (env : Env) (roomId : String) (member : Option String) : Applied :=
  let o := h.roomOverrides[roomId]?.getD ⟨none, none, none⟩
  let named := member.bind fun m => h.memberOverrides[(roomId, m)]?
  { filesEnabled := env.limits.filesEnabled && o.filesEnabled.getD true
    room := o.room.getD env.limits.room
    member := (named <|> o.memberDefault).getD env.limits.member }

/-- Whether `files` more blobs of `bytes` in all fit one scope, its reservations included. -/
def fits (scope : LimitScope) (limits : ScopeLimits) (usage : Usage) (files bytes : Nat) : Except BlobError Unit :=
  let usedFiles := usage.files + usage.reservedFiles
  let usedBytes := usage.bytes + usage.reservedBytes
  if limits.maxFiles.any fun max => max < usedFiles + files then
    .error (.limitExceeded ⟨scope, .maxFiles, limits.maxFiles.getD 0, usedFiles, files⟩)
  else if limits.maxBytes.any fun max => max < usedBytes + bytes then
    .error (.limitExceeded ⟨scope, .maxBytes, limits.maxBytes.getD 0, usedBytes, bytes⟩)
  else .ok ()

/-- Whether `bytes` more fit a capacity. -/
def fitsCapacity (capacity : Option Nat) (s : StorageUsage) (bytes : Nat) : Except BlobError Unit :=
  let used := s.bytes + s.reservedBytes
  if capacity.any fun max => max < used + bytes then
    .error (.limitExceeded ⟨.storage, .maxBytes, capacity.getD 0, used, bytes⟩)
  else .ok ()

/-- The member's counts and totals, the room's, and when `storage` the capacity of the storage. -/
def checkTotals (env : Env) (roomId : String) (member : Option String) (files bytes : Nat) (storage : Bool)
    (limits : Applied) : Except BlobError Unit := do
  match member with
  | some m => fits .member limits.member (h.memberUsage roomId m) files bytes
  | none => pure ()
  fits .room limits.room (h.roomUsage roomId) files bytes
  if storage then fitsCapacity env.limits.storageCapacityBytes (h.counter none) bytes

/-- The smallest of the limits on one file, and the scope it was set at: narrowest first, replaced only by a
strictly smaller one. -/
def smallestFileLimit (env : Env) (member : Option String) (limits : Applied) : Option (LimitScope × Nat) :=
  [(LimitScope.member, member.bind fun _ => limits.member.maxFileBytes), (.room, limits.room.maxFileBytes),
    (.host, some env.limits.maxFileBytes)].foldl
    (fun smallest candidate =>
      match candidate.2 with
      | some limit => if smallest.all fun s => limit < s.2 then some (candidate.1, limit) else smallest
      | none => smallest)
    none

/-- Every limit an upload of `size` must fit. -/
def checkLimits (env : Env) (roomId : String) (member : Option String) (size : Nat) (target : UploadTarget)
    (limits : Applied) : Except BlobError Unit := do
  match smallestFileLimit env member limits with
  | some (scope, limit) =>
    if limit < size then .error (.limitExceeded ⟨scope, .maxFileBytes, limit, 0, size⟩)
  | none => pure ()
  h.checkTotals env roomId member 1 size true limits
  fitsCapacity target.capacityBytes (h.counter (some target.configId)) size

end Host

/-! ### Reading the counters back -/

theorem nodup_scopes (roomId : String) (chargedTo : Option String) : (scopes roomId chargedTo).Nodup := by
  rcases chargedTo with - | member <;> simp [scopes]

theorem nodup_storageKeys (configId : Option String) : (storageKeys configId).Nodup := by
  rcases configId with - | config <;> simp [storageKeys]

/-- The counter at `key` counts what belongs to `owner`: the counter of the whole, or the owner's own. -/
def covers (key owner : Option String) : Bool := key.isNone || key == owner

/-- The usage counter at `scope` counts what is charged to `chargedTo` in `roomId`. -/
def Scope.counts (scope : Scope) (roomId : String) (chargedTo : Option String) : Bool :=
  scope.1 == roomId && covers scope.2 chargedTo

theorem mem_scopes {scope : Scope} {roomId : String} {chargedTo : Option String} :
    scope ∈ scopes roomId chargedTo ↔ Scope.counts scope roomId chargedTo = true := by
  rcases scope with ⟨room, who⟩
  rcases who with - | who <;> rcases chargedTo with - | member <;> simp [scopes, Scope.counts, covers]

theorem mem_storageKeys {key configId : Option String} : key ∈ storageKeys configId ↔ covers key configId = true := by
  rcases key with - | key <;> rcases configId with - | config <;> simp [storageKeys, covers]

theorem Host.usageAt_updateUsage (h : Host) (roomId : String) (chargedTo : Option String) (f : Usage → Usage)
    (scope : Scope) : (h.updateUsage roomId chargedTo f).usageAt scope =
      if Scope.counts scope roomId chargedTo then f (h.usageAt scope) else h.usageAt scope := by
  unfold usageAt updateUsage
  simp only [getElem?_updateAt (nodup_scopes roomId chargedTo), mem_scopes]
  split <;> rfl

theorem Host.counter_updateStorage (h : Host) (configId : Option String) (f : StorageUsage → StorageUsage)
    (key : Option String) : (h.updateStorage configId f).counter key =
      if covers key configId then f (h.counter key) else h.counter key := by
  unfold counter updateStorage
  simp only [getElem?_updateAt (nodup_storageKeys configId), mem_storageKeys]
  split <;> rfl

end TrustInfrastructure.Blobs
