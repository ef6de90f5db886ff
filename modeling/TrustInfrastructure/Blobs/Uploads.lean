import TrustInfrastructure.Blobs.Counters

/-!
# Uploads

`begin`, the chunks, `commit` and `abort` of an upload, each one step under the host's lock, and the transfer slots
a proxied upload is staged in (`vti_common::backup_transfer`). A step answers and leaves a host behind, also when it
refuses: a commit of bytes that do not match gives the reservation back and then refuses.

What the stores answer during a step is a `Stores`. A chunk whose bytes are not the manifest's is refused before it
is staged, so a slot only ever holds the chunks of its manifest; whether they assemble to the whole is the
manifest's own affair (`Manifest.assembles`). A direct upload's object is in its store once the store has finished
it, under a key of its own.
-/

namespace TrustInfrastructure.Blobs

open Lib
open Rooms (Visibility Presented AppError Room)
open Std (ExtTreeMap)

def alreadyCommittedTtlSecs : Nat := 15 * 60

def directIdle : Nat := 30 * 60

def directLifetime : Nat := 24 * 60 * 60

def maxTargets : Nat := 64

def maxOpenBundlesPerDid : Nat := 3

def minMultipartPartBytes : Nat := 5 * 1024 * 1024

/-- `TransferTerms::room_file`. -/
def slotIdleTtl : Nat := 15 * 60

def slotLifetime : Nat := 24 * 60 * 60

def slotRetention : Nat := 24 * 60 * 60

abbrev Answer (α : Type) := Except BlobError α × Host

/-- What a `begin` asks for. -/
structure BeginRequest where
  room : Room
  opener : String
  member : Option String
  presented : Option Presented
  blobRef : String
  offer : Option UploadOffer

def chargedMember (room : Room) (member : Option String) : Option String :=
  match room.visibility with
  | .privateRoom => none
  | _ => member

def BeginRequest.chargedTo (req : BeginRequest) : Option String := chargedMember req.room req.member

/-! ### Part plans and modes -/

def PartPlan.suitsStorage (plan : PartPlan) : Bool :=
  plan.partCount == 1 || (minMultipartPartBytes ≤ plan.partSize && plan.partCount ≤ 1024)

def PartPlan.check (env : Env) (plan : PartPlan) (manifest : Manifest) : Except BlobError Unit :=
  if plan.partSize = 0 then .error (.invalidParts "partSize is 0")
  else
    let count := (manifest.size + plan.partSize - 1) / plan.partSize
    let partCount := plan.partCount
    let partSize := plan.partSize
    let size := manifest.size
    let entries := plan.partDigests.length
    if count ≠ partCount then
      .error (.invalidParts s!"partCount is {partCount}; {size} bytes at {partSize} is {count}")
    else if entries ≠ count then
      .error (.invalidParts s!"partDigests has {entries} entries; the plan has {count} parts")
    else
      match plan.partDigests.findIdx? fun d => !env.isSha256 d with
      | some i => .error (.invalidParts s!"partDigests[{i}] is not a sha2-256 multihash")
      | none => .ok ()

def chooseMode (env : Env) (req : BeginRequest) (stores : Stores) : Except BlobError TransferMode :=
  match req.offer with
  | none => .ok .proxied
  | some o =>
    let canDirect := env.direct.allows req.room.visibility && (stores.target.isOk && stores.directUploads)
    if canDirect && o.directParts.any PartPlan.suitsStorage then .ok .direct
    else if o.uploadKeyDid.isSome then .ok .proxied
    else .error (.noTransferMode (if canDirect then [.direct, .proxied] else [.proxied]))

def withoutKey (offer : Option UploadOffer) : UploadOffer := ⟨none, offer.bind (·.directParts)⟩

namespace Host

variable (h : Host)

/-! ### Slots -/

/-- The slot behind an upload while it can still take chunks. -/
def liveSlot (id : Nat) : Option Slot := h.slots[id]?.filter fun s => !s.state.isTerminal && h.now < s.expiresAt

/-- The slots a party holds open, lapsed ones included. -/
def openSlots (owner : String) : Nat :=
  h.slots.toList.countP fun row => row.2.createdBy == owner && !row.2.state.isTerminal

/-- Open a slot for `owner`, unless they hold as many as one party may. -/
def initiateImport (owner : String) (chunkCount : Nat) : Answer (Nat × Slot) :=
  if maxOpenBundlesPerDid ≤ h.openSlots owner then (.error (.tooManyUploads maxOpenBundlesPerDid), h)
  else
    let slot : Slot :=
      { createdBy := owner
        createdAt := h.now
        expiresAt := h.now + slotIdleTtl
        expiryCeiling := h.now + slotLifetime
        state := .importPending
        done := List.replicate chunkCount false
        staged := false }
    (.ok (h.nextId, slot), { h with nextId := h.nextId + 1, slots := h.slots.insert h.nextId slot })

/-- What the checks before a commit find. -/
inductive Precheck where
  | ready
  | incomplete (missing : Nat)
  | mismatch
  | notFound
  deriving DecidableEq

/-- Every chunk there and the whole as the manifest says, or why not; a slot found whole is marked received. -/
def finalizePrecheck (env : Env) (owner blobRef : String) (id : Nat) : Precheck × Host :=
  match h.slots[id]? with
  | none => (.notFound, h)
  | some slot =>
    if slot.createdBy ≠ owner then (.notFound, h)
    else if slot.state ≠ .importPending then (.ready, h)
    else if 0 < slot.done.count false then (.incomplete (slot.done.count false), h)
    else if !(env.manifest blobRef).assembles then (.mismatch, h)
    else (.ready, { h with slots := h.slots.insert id { slot with state := .importReceived } })

/-- `backup_transfer::abort`: the slot is terminal and its staged bytes gone. One that is not the owner's, or is
already terminal, stays. -/
def abortSlot (owner : String) (id : Nat) : Host :=
  match h.slots[id]? with
  | none => h
  | some slot =>
    if slot.createdBy ≠ owner || slot.state.isTerminal then h
    else { h with slots := h.slots.insert id { slot with state := .aborted, staged := false } }

def closeSlot (id : Nat) : Host :=
  match h.slots[id]? with
  | none => h
  | some slot => { h with slots := h.slots.insert id { slot with state := .importCommitted, staged := false } }

/-! ### Rows and objects -/

def blob (roomId blobRef : String) : Option BlobEntry := h.blobs[(roomId, blobRef)]?

def putUpload (id : Nat) (rec : UploadRecord) : Host := { h with uploads := h.uploads.insert id rec }

/-- The upload ends as `phase`, now. -/
def finishUpload (id : Nat) (rec : UploadRecord) (phase : UploadPhase) : Host :=
  h.putUpload id { rec with phase := phase, finishedAt := some h.now }

/-- A store holds `blobRef`'s bytes under `key`. -/
def putObject (configId : String) (key : ObjectKey) (blobRef : String) : Host :=
  { h with objects := Function.update h.objects configId (Function.update (h.objects configId) key (some blobRef)) }

def deleteObject (configId : String) (key : ObjectKey) : Host :=
  { h with objects := Function.update h.objects configId (Function.update (h.objects configId) key none) }

def abortDirect (rec : UploadRecord) : Host :=
  match rec.direct with
  | none => h
  | some d => h.deleteObject (rec.configId.getD "") d.objectKey

/-- Where a failure to abort the upload at storage is only logged. -/
def tryAbortDirect (stores : Stores) (rec : UploadRecord) : Host :=
  if stores.deletes then h.abortDirect rec else h

def openDirectUploads (opener : String) : Nat :=
  h.uploads.toList.countP fun row =>
    row.2.phase == .opened && row.2.opener == opener && row.2.direct.any fun d => h.now < d.expiresAt

/-! ### The upload key -/

/-- The upload `id`, while it is open, unexpired and bound to the key. -/
def openUploadForKey (id : Nat) (uploadKeyDid : String) : Option UploadRecord :=
  h.uploads[id]?.filter fun rec =>
    rec.phase == .opened && rec.uploadKeyDid == some uploadKeyDid &&
      (if rec.alreadyCommitted then h.now < rec.createdAt + alreadyCommittedTtlSecs else (h.liveSlot id).isSome)

/-- Whether the key is bound to an open upload other than `this`. -/
def keyBoundElsewhere (uploadKeyDid : String) (this : Option Nat) : Bool :=
  match h.signerIndex[uploadKeyDid]? with
  | none => false
  | some id => some id != this && (h.openUploadForKey id uploadKeyDid).isSome

/-- The signers' index once `id` is bound to `key` instead of `old`. -/
def reindexed (index : ExtTreeMap String Nat) (id : Nat) (old key : Option String) : ExtTreeMap String Nat :=
  let dropped :=
    match old with
    | some old => if some old ≠ key ∧ index[old]? = some id then index.erase old else index
    | none => index
  match key with
  | some k => dropped.insert k id
  | none => dropped

/-- Bind `rec` to the version and upload key of the begin that opened or resumed it. A key bound to another open
upload is refused. -/
def bind (id : Nat) (rec : UploadRecord) (offer : Option UploadOffer) : Answer UploadRecord :=
  let key := offer.bind (·.uploadKeyDid)
  if key.any fun k => h.keyBoundElsewhere k (some id) then (.error .uploadKeyInUse, h)
  else
    (.ok { rec with protocol := if offer.isNone then .v1 else .v2, uploadKeyDid := key },
      { h with signerIndex := reindexed h.signerIndex id rec.uploadKeyDid key })

/-! ### Begin -/

def lapse (id : Nat) (rec : UploadRecord) : Host :=
  (if rec.alreadyCommitted then h else h.releaseReservation rec).finishUpload id rec .released

def resumeCommitted (req : BeginRequest) (mode : Except BlobError TransferMode) (id : Nat) (rec : UploadRecord) :
    Answer Begun ⊕ Host :=
  if h.now < rec.createdAt + alreadyCommittedTtlSecs ∧ (h.blob req.room.roomId rec.blobRef).isSome then
    match mode with
    | .error e => .inl (.error e, h)
    | .ok mode =>
      let bound :=
        match mode with
        | .direct => some (withoutKey req.offer)
        | .proxied => req.offer
      match h.bind id rec bound with
      | (.error e, h) => .inl (.error e, h)
      | (.ok rec, h) =>
        .inl (.ok ⟨id, [], rec.createdAt + alreadyCommittedTtlSecs, true, mode, []⟩, h.putUpload id rec)
  else .inr (h.lapse id rec)

/-- Resume a direct upload while its slot is open and the producer still takes direct transfer: the slot is
extended, with targets for the parts storage does not hold. Otherwise what storage holds for it goes, if storage deletes
it. -/
def resumeDirect (req : BeginRequest) (stores : Stores) (mode : Except BlobError TransferMode) (id : Nat)
    (rec : UploadRecord) (d : DirectState) : Answer Begun ⊕ Host :=
  match mode with
  | .ok .direct =>
    if h.now < d.expiresAt then
      let missing := (List.range d.partDigests.length).filter fun i => !stores.held.contains (i + 1)
      let expiresAt := min (h.now + directIdle) (rec.createdAt + directLifetime)
      match h.bind id { rec with direct := some { d with expiresAt } } (some (withoutKey req.offer)) with
      | (.error e, h) => .inl (.error e, h)
      | (.ok rec, h) => .inl (.ok ⟨id, missing, expiresAt, false, .direct, missing.take maxTargets⟩, h.putUpload id rec)
    else .inr ((h.tryAbortDirect stores rec).lapse id rec)
  | _ => .inr ((h.tryAbortDirect stores rec).lapse id rec)

def resumeProxied (req : BeginRequest) (mode : Except BlobError TransferMode) (id : Nat) (rec : UploadRecord) :
    Answer Begun ⊕ Host :=
  match (if req.offer.all fun o => o.uploadKeyDid.isSome then h.liveSlot id else none) with
  | none => .inr (h.lapse id rec)
  | some slot =>
    match mode with
    | .error e => .inl (.error e, h)
    | .ok _ =>
      let missing := (List.range slot.done.length).filter fun i => slot.done[i]? == some false
      match h.bind id rec req.offer with
      | (.error e, h) => .inl (.error e, h)
      | (.ok rec, h) => .inl (.ok ⟨id, missing, slot.expiresAt, false, .proxied, []⟩, h.putUpload id rec)

/-- The same opener, room and manifest, while its slot is open: answered with that upload (`inl`). Otherwise the
host a new one is begun on. -/
def resume (req : BeginRequest) (stores : Stores) (mode : Except BlobError TransferMode) : Answer Begun ⊕ Host :=
  match h.uploadIndex[(req.opener, req.room.roomId, req.blobRef)]? with
  | none => .inr h
  | some id =>
    match h.uploads[id]? with
    | none => .inr h
    | some rec =>
      if rec.phase ≠ .opened then .inr h
      else
        -- Its later steps are held to this begin's presentation from now on.
        let presented := { rec with presented := req.presented }
        if rec.alreadyCommitted then h.resumeCommitted req mode id presented
        else
          match rec.direct with
          | some d => h.resumeDirect req stores mode id presented d
          | none => h.resumeProxied req mode id presented

def newRecord (env : Env) (req : BeginRequest) (alreadyCommitted : Bool) (configId : Option String)
    (direct : Option DirectState) : UploadRecord :=
  { roomId := req.room.roomId
    opener := req.opener
    chargedTo := req.chargedTo
    blobRef := req.blobRef
    size := (env.manifest req.blobRef).size
    phase := .opened
    createdAt := h.now
    finishedAt := none
    alreadyCommitted
    configId
    protocol := .v1
    uploadKeyDid := none
    direct
    presented := req.presented }

def openUpload (req : BeginRequest) (id : Nat) (rec : UploadRecord) : Host :=
  { h.putUpload id rec with
    uploadIndex := h.uploadIndex.insert (req.opener, req.room.roomId, req.blobRef) id }

def beginCommitted (env : Env) (req : BeginRequest) (mode : Except BlobError TransferMode) : Answer Begun :=
  match mode with
  | .error e => (.error e, h)
  | .ok mode =>
    match { h with nextId := h.nextId + 1 }.bind h.nextId (h.newRecord env req true none none) req.offer with
    | (.error e, h) => (.error e, h)
    | (.ok rec, h') =>
      (.ok ⟨h.nextId, [], rec.createdAt + alreadyCommittedTtlSecs, true, mode, []⟩, h'.openUpload req h.nextId rec)

def beginDirect (env : Env) (req : BeginRequest) (target : UploadTarget) : Answer Begun :=
  match req.offer.bind (·.directParts) with
  | none => (.error (.app (.internal "direct mode with no part plan")), h)
  | some plan =>
    if maxOpenBundlesPerDid ≤ h.openDirectUploads req.opener then
      (.error (.tooManyUploads maxOpenBundlesPerDid), h)
    else
      let expiresAt := h.now + directIdle
      let opened := h.newRecord env req false (some target.configId)
        (some ⟨.forUpload req.room.roomId req.blobRef h.nextId, plan.partSize, plan.partDigests, expiresAt⟩)
      match ({ h with nextId := h.nextId + 1 }.reserve opened).bind h.nextId opened (some (withoutKey req.offer)) with
      | (.error e, h) => (.error e, h)
      | (.ok rec, h') =>
        (.ok ⟨h.nextId, List.range plan.partCount, expiresAt, false, .direct,
          (List.range plan.partCount).take maxTargets⟩, h'.openUpload req h.nextId rec)

def beginProxied (env : Env) (req : BeginRequest) (target : UploadTarget) : Answer Begun :=
  if (req.offer.bind (·.uploadKeyDid)).any fun k => h.keyBoundElsewhere k none then (.error .uploadKeyInUse, h)
  else
    match h.initiateImport req.opener (env.manifest req.blobRef).chunkCount with
    | (.error e, h) => (.error e, h)
    | (.ok (id, slot), h) =>
      let opened := h.newRecord env req false (some target.configId) none
      match (h.reserve opened).bind id opened req.offer with
      | (.error e, h) => (.error e, h)
      | (.ok rec, h) =>
        (.ok ⟨id, List.range slot.done.length, slot.expiresAt, false, .proxied, []⟩, h.openUpload req id rec)

def beginNew (env : Env) (req : BeginRequest) (stores : Stores) (mode : Except BlobError TransferMode)
    (limits : Applied) : Answer Begun :=
  if (h.blob req.room.roomId req.blobRef).isSome then h.beginCommitted env req mode
  else
    match stores.target with
    | .error e => (.error (.app e), h)
    | .ok target =>
      match h.checkLimits env req.room.roomId req.chargedTo (env.manifest req.blobRef).size target limits with
      | .error e => (.error e, h)
      | .ok () =>
        match mode with
        | .error e => (.error e, h)
        | .ok .direct => h.beginDirect env req target
        | .ok .proxied => h.beginProxied env req target

/-- `begin_with`: `rooms/blobs/upload/begin`, of either version. -/
def beginWith (env : Env) (req : BeginRequest) (stores : Stores) : Answer Begun :=
  if !env.limits.filesEnabled then (.error .filesDisabled, h)
  else
    match (req.offer.bind (·.directParts)).elim (.ok ()) fun plan => plan.check env (env.manifest req.blobRef) with
    | .error e => (.error e, h)
    | .ok () =>
      let limits := h.limitsFor env req.room.roomId req.chargedTo
      if !limits.filesEnabled then (.error .filesDisabled, h)
      else
        let mode := chooseMode env req stores
        match h.resume req stores mode with
        | .inl answer => answer
        | .inr h => h.beginNew env req stores mode limits

/-! ### Chunks -/

/-- A chunk of the manifest, from `caller`: staged, and the slot's expiry slid on. -/
def putChunkAs (caller : UploadCaller) (id index : Nat) : Answer Nat :=
  match h.uploads[id]? with
  | none => (.error .notFound, h)
  | some rec =>
    if !caller.allows rec || rec.phase ≠ .opened then (.error .notFound, h)
    else
      match h.slots[id]? with
      | none => (.error .notFound, h)
      | some slot =>
        if slot.createdBy ≠ rec.opener || slot.state.isTerminal || slot.expiresAt ≤ h.now then (.error .notFound, h)
        else if slot.done.length ≤ index then (.error (.chunkOutOfRange index slot.done.length), h)
        else
          let slot : Slot :=
            { slot with
              done := slot.done.set index true
              staged := true
              expiresAt := max slot.expiresAt (min (h.now + slotIdleTtl) slot.expiryCeiling) }
          (.ok (slot.done.count false), { h with slots := h.slots.insert id slot })

/-! ### Commit and abort -/

/-- The upload's bytes are stored at `key` on `configId`: the blob's row, its reservation become usage, the
activity counted and the upload committed. -/
def storeBlob (id : Nat) (rec : UploadRecord) (configId : String) (key : ObjectKey) : Host :=
  let entry : BlobEntry :=
    { size := rec.size
      configId
      backendRef := key
      state := .committed
      refs := 0
      chargedTo := rec.chargedTo
      committedAt := h.now
      orphanedAt := none }
  let inserted : Host := { h with blobs := h.blobs.insert (rec.roomId, rec.blobRef) entry }
  ((inserted.convertReservation rec configId).recordActivity rec.roomId rec.chargedTo { uploads := 1 }
    (some h.now)).finishUpload id rec .committed

def commitDirect (stores : Stores) (id : Nat) (rec : UploadRecord) (d : DirectState) : Answer Committed :=
  let configId := rec.configId.getD ""
  if d.expiresAt ≤ h.now then (.error .notFound, h)
  else
    match stores.finish with
    | .missing n => (.error (.incomplete n), h)
    | .mismatch =>
      (.error .digestMismatch,
        ((h.deleteObject configId d.objectKey).releaseReservation rec).finishUpload id rec .released)
    | .stored =>
      let stored := h.putObject configId d.objectKey rec.blobRef
      match h.blob rec.roomId rec.blobRef with
      | some existing =>
        -- Another upload of the blob committed first: this object goes, and nothing is charged twice.
        let left := if stores.deletes then stored.deleteObject configId d.objectKey else stored
        (.ok ⟨rec.blobRef, existing.size⟩, (left.releaseReservation rec).finishUpload id rec .committed)
      | none => (.ok ⟨rec.blobRef, rec.size⟩, stored.storeBlob id rec configId d.objectKey)

/-- A proxied upload's commit: the staged bytes go to the room's config under the content-derived key. -/
def commitProxied (env : Env) (stores : Stores) (id : Nat) (rec : UploadRecord) : Answer Committed :=
  match h.finalizePrecheck env rec.opener rec.blobRef id with
  | (.notFound, h) => (.error .notFound, h)
  | (.incomplete n, h) => (.error (.incomplete n), h)
  | (.mismatch, h) =>
    (.error .digestMismatch, ((h.abortSlot rec.opener id).releaseReservation rec).finishUpload id rec .released)
  | (.ready, h) =>
    if (h.blob rec.roomId rec.blobRef).isSome then
      (.ok ⟨rec.blobRef, rec.size⟩, ((h.releaseReservation rec).closeSlot id).finishUpload id rec .committed)
    else if !(h.slots[id]?.any fun slot => slot.staged) then (.error .notFound, h)
    else
      match rec.configId.elim (stores.target.map (·.configId)) .ok with
      | .error e => (.error (.app e), h)
      | .ok configId =>
        let key := ObjectKey.forRoom rec.roomId rec.blobRef
        (.ok ⟨rec.blobRef, rec.size⟩,
          ((h.putObject configId key rec.blobRef).storeBlob id rec configId key).closeSlot id)

/-- `commit_as`. -/
def commitAs (env : Env) (stores : Stores) (caller : UploadCaller) (id : Nat) : Answer Committed :=
  match h.uploads[id]? with
  | none => (.error .notFound, h)
  | some rec =>
    if !caller.allows rec then (.error .notFound, h)
    else
      match rec.phase with
      | .committed => (.ok ⟨rec.blobRef, rec.size⟩, h)
      | .aborted | .released => (.error .notFound, h)
      | .opened =>
        if rec.alreadyCommitted then
          match h.blob rec.roomId rec.blobRef with
          | none => (.error .notFound, h)
          | some entry => (.ok ⟨rec.blobRef, entry.size⟩, h.finishUpload id rec .committed)
        else
          match rec.direct with
          | some d => h.commitDirect stores id rec d
          | none => h.commitProxied env stores id rec

/-- `abort_as`: `true` when this call aborted it. -/
def abortAs (caller : UploadCaller) (id : Nat) : Answer Bool :=
  match h.uploads[id]? with
  | none => (.error .notFound, h)
  | some rec =>
    if !caller.allows rec then (.error .notFound, h)
    else
      match rec.phase with
      | .aborted => (.ok false, h)
      | .committed | .released => (.error .notFound, h)
      | .opened =>
        let stopped :=
          if rec.direct.isSome then (h.abortDirect rec).releaseReservation rec
          else if !rec.alreadyCommitted then (h.abortSlot rec.opener id).releaseReservation rec
          else h
        (.ok true, stopped.finishUpload id rec .aborted)

end Host

end TrustInfrastructure.Blobs
