import TrustInfrastructure.Blobs.Machine

/-!
# What the calls can do

Every call of a host, and every row of a collection pass, comes down to a few changes of what it keeps: an upload
opened, closed, rebound, stored or forgotten, a record's references applied, a blob or an old copy collected, and
changes that touch none of the rows and counters (`Quiet`). `Effect` lists them once, each with what is known when it is
made; a migration that is started, and what its runner does, stand beside it. Here the calls on uploads are taken apart
into them; the rest follows in `Steps`. The invariants of the developments over this one are kept effect by effect.
-/

namespace TrustInfrastructure.Blobs

open Lib
open Std (ExtTreeMap)

/-! ### Uploads that are one and the same -/

/-- What an upload is does not change while it is carried out: not its blob, whom it is charged to, where it goes. -/
structure UploadRecord.Same (rec rec' : UploadRecord) : Prop where
  roomId : rec'.roomId = rec.roomId
  opener : rec'.opener = rec.opener
  chargedTo : rec'.chargedTo = rec.chargedTo
  blobRef : rec'.blobRef = rec.blobRef
  size : rec'.size = rec.size
  alreadyCommitted : rec'.alreadyCommitted = rec.alreadyCommitted
  configId : rec'.configId = rec.configId
  direct : rec'.direct.map (·.objectKey) = rec.direct.map (·.objectKey)

namespace UploadRecord

def indexKey (rec : UploadRecord) : String × String × String := (rec.opener, rec.roomId, rec.blobRef)

variable {rec rec' rec'' : UploadRecord}

theorem Same.refl (rec : UploadRecord) : rec.Same rec := ⟨rfl, rfl, rfl, rfl, rfl, rfl, rfl, rfl⟩

theorem Same.symm (h : rec.Same rec') : rec'.Same rec :=
  ⟨h.roomId.symm, h.opener.symm, h.chargedTo.symm, h.blobRef.symm, h.size.symm, h.alreadyCommitted.symm,
    h.configId.symm, h.direct.symm⟩

theorem Same.trans (h : rec.Same rec') (h' : rec'.Same rec'') : rec.Same rec'' :=
  ⟨h'.roomId.trans h.roomId, h'.opener.trans h.opener, h'.chargedTo.trans h.chargedTo, h'.blobRef.trans h.blobRef,
    h'.size.trans h.size, h'.alreadyCommitted.trans h.alreadyCommitted, h'.configId.trans h.configId,
    h'.direct.trans h.direct⟩

theorem Same.indexKey (h : rec.Same rec') : rec'.indexKey = rec.indexKey := by
  rw [UploadRecord.indexKey, UploadRecord.indexKey, h.opener, h.roomId, h.blobRef]

/-- An upload as a begin makes it: of the size its manifest states, on a config if it stores anything, and if it is
direct, with an object of its own. -/
structure Formed (env : Env) (id : Nat) (rec : UploadRecord) : Prop where
  size : rec.size = (env.manifest rec.blobRef).size
  configId : rec.alreadyCommitted = false → rec.configId.isSome
  direct : ∀ key, rec.direct.map (·.objectKey) = some key →
    rec.alreadyCommitted = false ∧ key = .forUpload rec.roomId rec.blobRef id

theorem Formed.same {env : Env} {id : Nat} (hformed : rec.Formed env id) (h : rec.Same rec') : rec'.Formed env id := by
  refine ⟨?_, ?_, ?_⟩
  · rw [h.size, h.blobRef]
    exact hformed.size
  · rw [h.alreadyCommitted, h.configId]
    exact hformed.configId
  · rw [h.alreadyCommitted, h.roomId, h.blobRef, h.direct]
    exact hformed.direct

end UploadRecord

def Holds (env : Env) (roomId blobRef : String) (size : Nat) (key : ObjectKey) : Prop :=
  size = (env.manifest blobRef).size ∧ key.roomId = roomId ∧ key.blobRef = blobRef

def InFlight.Formed (env : Env) (roomId : String) (flight : InFlight) : Prop :=
  flight.size = (env.manifest flight.blobRef).size ∧
    ∀ key, flight.copy = some key → key = .forRoom roomId flight.blobRef

structure Migration.Kept (m m' : Migration) : Prop where
  migrationId : m'.migrationId = m.migrationId
  toConfig : m'.toConfig = m.toConfig
  isOpen : m'.state.isOpen = m.state.isOpen
  totalFiles : m'.totalFiles = m.totalFiles
  totalBytes : m'.totalBytes = m.totalBytes
  doneFiles : m'.doneFiles = m.doneFiles
  doneBytes : m'.doneBytes = m.doneBytes
  reservedBytes : m'.reservedBytes = m.reservedBytes
  inFlight : m'.inFlight = m.inFlight

theorem Migration.Kept.refl (m : Migration) : m.Kept m := ⟨rfl, rfl, rfl, rfl, rfl, rfl, rfl, rfl, rfl⟩

namespace Host

/-- Every row is of the size its blob's manifest states, points at an object of the blob's own, and has an identifier
that has been drawn. -/
structure Formed (env : Env) (h : Host) : Prop where
  uploads : ∀ id rec, h.uploads[id]? = some rec → rec.Formed env id ∧ id < h.nextId
  blobs : ∀ (key : String × String) (entry : BlobEntry), h.blobs[key]? = some entry →
    Holds env key.1 key.2 entry.size entry.backendRef
  plan : ∀ (key : String × String) (size : Nat), h.plan[key]? = some size → size = (env.manifest key.2).size
  moved : ∀ (key : String × String × Nat) (row : MovedCopy), h.moved[key]? = some row →
    Holds env key.1 key.2.1 row.size row.backendRef ∧ key.2.2 < h.nextId
  migrations : ∀ (roomId : String) (m : Migration), h.migrations[roomId]? = some m →
    m.migrationId < h.nextId ∧ ∀ flight, m.inFlight = some flight → flight.Formed env roomId

def hold (h : Host) (rec : UploadRecord) : Host := if rec.alreadyCommitted then h else h.reserve rec

def letGo (h : Host) (rec : UploadRecord) : Host := if rec.alreadyCommitted then h else h.releaseReservation rec

/-- A change that touches no blob, upload, reference, counter, migration or object, and indexes no upload that is not
there. -/
structure Quiet (h h' : Host) : Prop where
  now : h.now ≤ h'.now
  nextId : h.nextId ≤ h'.nextId
  blobs : h'.blobs = h.blobs
  recordBlobs : h'.recordBlobs = h.recordBlobs
  uploads : h'.uploads = h.uploads
  usage : h'.usage = h.usage
  storage : h'.storage = h.storage
  roomOverrides : h'.roomOverrides = h.roomOverrides
  memberOverrides : h'.memberOverrides = h.memberOverrides
  migrations : h'.migrations = h.migrations
  plan : h'.plan = h.plan
  done : h'.done = h.done
  moved : h'.moved = h.moved
  objects : h'.objects = h.objects
  uploadIndex : ∀ (key : String × String × String) (id : Nat), h'.uploadIndex[key]? = some id →
    h.uploadIndex[key]? = some id ∨ ∃ rec, h.uploads[id]? = some rec ∧ key = rec.indexKey

theorem Quiet.trans {h h' h'' : Host} (hq : h.Quiet h') (hq' : h'.Quiet h'') : h.Quiet h'' where
  now := hq.now.trans hq'.now
  nextId := hq.nextId.trans hq'.nextId
  blobs := hq'.blobs.trans hq.blobs
  recordBlobs := hq'.recordBlobs.trans hq.recordBlobs
  uploads := hq'.uploads.trans hq.uploads
  usage := hq'.usage.trans hq.usage
  storage := hq'.storage.trans hq.storage
  roomOverrides := hq'.roomOverrides.trans hq.roomOverrides
  memberOverrides := hq'.memberOverrides.trans hq.memberOverrides
  migrations := hq'.migrations.trans hq.migrations
  plan := hq'.plan.trans hq.plan
  done := hq'.done.trans hq.done
  moved := hq'.moved.trans hq.moved
  objects := hq'.objects.trans hq.objects
  uploadIndex key id hid := by
    rcases hq'.uploadIndex key id hid with hid | ⟨rec, hrec, hkey⟩
    · exact hq.uploadIndex key id hid
    · exact .inr ⟨rec, hq.uploads ▸ hrec, hkey⟩

theorem Quiet.refl (h : Host) : h.Quiet h :=
  ⟨le_rfl, le_rfl, rfl, rfl, rfl, rfl, rfl, rfl, rfl, rfl, rfl, rfl, rfl, rfl, fun _ _ => .inl⟩

end Host

open Host

/-- What may happen in a run: which lists of blobs records are written with, which uploads are opened, of which blobs,
in which room and charged to whom, which are stored, whether limits are changed, which blobs are collected from which
hosts, and which old copies stop counting there. -/
structure Allowed where
  lists : List String → Prop := fun _ => True
  opens : Nat → String → String → Option String → Prop := fun _ _ _ _ => True
  stores : Nat → UploadRecord → Prop := fun _ _ => True
  limits : Prop := True
  collects : Host → String → String → Prop := fun _ _ _ => True
  uncounts : Host → String × String × Nat → MovedCopy → Prop := fun _ _ _ => True

/-- One change a call, or a row of a pass, makes. -/
inductive Effect (env : Env) (allowed : Allowed) : Host → Host → Prop
  | quiet {h h' : Host} (hquiet : h.Quiet h') : Effect env allowed h h'
  | limited {h : Host} (rooms : ExtTreeMap String RoomOverride)
      (members : ExtTreeMap (String × String) ScopeLimits) (hlimits : allowed.limits) :
      Effect env allowed h { h with roomOverrides := rooms, memberOverrides := members }
  | opened {h : Host} (rec : UploadRecord) (hphase : rec.phase = .opened) (hformed : rec.Formed env h.nextId)
      (hopens : allowed.opens h.nextId rec.roomId rec.blobRef rec.chargedTo)
      (hfits : rec.alreadyCommitted = false → ∃ target,
        h.checkLimits env rec.roomId rec.chargedTo rec.size target
          (h.limitsFor env rec.roomId rec.chargedTo) = .ok ()) :
      Effect env allowed h { (h.hold rec).putUpload h.nextId rec with nextId := h.nextId + 1 }
  | rebound {h : Host} (id : Nat) (rec rec' : UploadRecord) (hrec : h.uploads[id]? = some rec) (hsame : rec.Same rec')
      (hphase : rec'.phase = rec.phase) : Effect env allowed h (h.putUpload id rec')
  | closed {h : Host} (id : Nat) (rec rec' : UploadRecord) (hrec : h.uploads[id]? = some rec)
      (hopen : rec.phase = .opened) (hsame : rec.Same rec') (hphase : rec'.phase ≠ .opened) :
      Effect env allowed h ((h.letGo rec).putUpload id rec')
  | reclaimed {h : Host} (id : Nat) (rec : UploadRecord) (d : DirectState) (hrec : h.uploads[id]? = some rec)
      (hopen : rec.phase = .opened) (hdirect : rec.direct = some d) :
      Effect env allowed h (h.deleteObject (rec.configId.getD "") d.objectKey)
  | duplicated {h : Host} (id : Nat) (rec : UploadRecord) (d : DirectState) (hrec : h.uploads[id]? = some rec)
      (hdirect : rec.direct = some d) :
      Effect env allowed h (h.putObject (rec.configId.getD "") d.objectKey rec.blobRef)
  | stored {h : Host} (id : Nat) (rec : UploadRecord) (configId : String) (key : ObjectKey)
      (hrec : h.uploads[id]? = some rec) (hopen : rec.phase = .opened) (hnew : rec.alreadyCommitted = false)
      (habsent : h.blob rec.roomId rec.blobRef = none) (hconfig : rec.configId = some configId)
      (hkey : key = .forRoom rec.roomId rec.blobRef ∨ ∃ d, rec.direct = some d ∧ key = d.objectKey)
      (hstores : allowed.stores id rec) :
      Effect env allowed h ((h.putObject configId key rec.blobRef).storeBlob id rec configId key)
  | forgotten {h : Host} (id : Nat) (rec : UploadRecord)
      (hdone : ∀ rec', h.uploads[id]? = some rec' → rec.Same rec' ∧ rec'.phase ≠ .opened) :
      Effect env allowed h (h.forgetUpload id rec)
  | wrote {h : Host} (roomId recordKey : String) (blobs : List String) (member : Option String)
      (hlist : allowed.lists blobs)
      (hpresent : ∀ b ∈ blobs, (h.blob roomId b).isSome)
      (hfits : h.recharged roomId (h.blobsOf roomId recordKey) blobs = [] ∨
        h.checkTotals env roomId member (h.recharged roomId (h.blobsOf roomId recordKey) blobs).length
          (h.sizeOf roomId (h.recharged roomId (h.blobsOf roomId recordKey) blobs)) false
          (h.limitsFor env roomId member) = .ok ()) :
      Effect env allowed h (h.applyRefs roomId recordKey (h.blobsOf roomId recordKey) blobs member)
  | collected {h : Host} (roomId blobRef : String) (hcollects : allowed.collects h roomId blobRef) :
      Effect env allowed h (h.collectBlob roomId blobRef)
  | dropped {h : Host} (key : String × String × Nat) (row : MovedCopy) (hrow : h.moved[key]? = some row)
      (hunnamed : h.names key.1 key.2.1 row.configId row.backendRef = false) :
      Effect env allowed h (h.deleteObject row.configId row.backendRef)
  | uncounted {h : Host} (key : String × String × Nat) (row : MovedCopy) (hrow : h.moved[key]? = some row)
      (huncounts : allowed.uncounts h key row) :
      Effect env allowed h { h.uncountCopy row.configId row.size with moved := h.moved.erase key }
  | kept {h : Host} (migrations : ExtTreeMap String Migration)
      (hkept : ∀ roomId : String, Option.Rel Migration.Kept h.migrations[roomId]? migrations[roomId]?) :
      Effect env allowed h { h with migrations }

/-- Changes one after another. -/
abbrev Effects (env : Env) (allowed : Allowed) : Host → Host → Prop :=
  Relation.ReflTransGen (Effect env allowed)

variable {env : Env} {allowed : Allowed} {h h' h'' : Host}

theorem Effects.quiet (hquiet : h.Quiet h') : Effects env allowed h h' := .single (.quiet hquiet)

namespace Host

/-! ### Uploads ending -/

theorem same_with_end (rec : UploadRecord) (phase : UploadPhase) (finishedAt : Option Nat) :
    rec.Same { rec with phase := phase, finishedAt := finishedAt } := ⟨rfl, rfl, rfl, rfl, rfl, rfl, rfl, rfl⟩

theorem letGo_same {rec rec' : UploadRecord} (hsame : rec.Same rec') : h.letGo rec' = h.letGo rec := by
  unfold letGo releaseReservation
  rw [hsame.alreadyCommitted, hsame.roomId, hsame.chargedTo, hsame.size, hsame.configId]

theorem letGo_new {rec : UploadRecord} (hnew : rec.alreadyCommitted = false) :
    h.letGo rec = h.releaseReservation rec := by
  rw [letGo, hnew]
  rfl

section
variable {id : Nat} {rec rec' : UploadRecord} {phase : UploadPhase} (hrec : h.uploads[id]? = some rec)
  (hopen : rec.phase = .opened) (hsame : rec.Same rec') (hphase : phase ≠ .opened)
include hrec hopen hsame hphase

theorem effects_finish : Effects env allowed h ((h.letGo rec').finishUpload id rec' phase) := by
  rw [finishUpload, letGo_same hsame]
  exact .single (.closed id rec _ hrec hopen (hsame.trans (same_with_end rec' phase _)) hphase)

/-- A direct upload ends, what storage holds for it first. -/
theorem effects_finish_direct {d : DirectState} (hdirect : rec'.direct = some d) :
    Effects env allowed h (((h.abortDirect rec').letGo rec').finishUpload id rec' phase) := by
  have habort : h.abortDirect rec' = h.deleteObject (rec.configId.getD "") d.objectKey := by
    rw [abortDirect, hdirect, hsame.configId]
  have hkey := hsame.direct
  rw [hdirect] at hkey
  obtain ⟨d', hd', hobject⟩ := Option.map_eq_some_iff.mp hkey.symm
  rw [habort]
  refine .trans (.single (.reclaimed id rec d' hrec hopen hd')) ?_
  rw [hobject]
  exact effects_finish hrec hopen hsame hphase

end

/-! ### Begin -/

theorem bind_cases (id : Nat) (rec : UploadRecord) (offer : Option UploadOffer) :
    h.bind id rec offer = (.error .uploadKeyInUse, h) ∧
        ((offer.bind (·.uploadKeyDid)).any fun k => h.keyBoundElsewhere k (some id)) = true ∨
      ∃ rec' index, h.bind id rec offer = (.ok rec', { h with signerIndex := index }) ∧ rec.Same rec' ∧
        rec'.phase = rec.phase := by
  unfold Host.bind
  dsimp only
  split
  · rename_i hbound
    exact .inl ⟨rfl, hbound⟩
  · exact .inr ⟨_, _, rfl, ⟨rfl, rfl, rfl, rfl, rfl, rfl, rfl, rfl⟩, rfl⟩

theorem quiet_signerIndex (index : ExtTreeMap String Nat) : h.Quiet { h with signerIndex := index } :=
  { Quiet.refl h with }

/-- The limits a begin reads are those in force, and the identifier it draws is the next one. -/
def SameLimits (h h' : Host) : Prop :=
  h'.roomOverrides = h.roomOverrides ∧ h'.memberOverrides = h.memberOverrides ∧ h'.nextId = h.nextId

def Resumes (env : Env) (allowed : Allowed) (h : Host) (outcome : Answer Begun ⊕ Host) : Prop :=
  match outcome with
  | .inl answer => Effects env allowed h answer.2
  | .inr h' => Effects env allowed h h' ∧ h.SameLimits h'

section
variable {req : BeginRequest} {stores : Stores} {mode : Except BlobError TransferMode} {id : Nat}
  {rec rec' : UploadRecord} (hrec : h.uploads[id]? = some rec) (hopen : rec.phase = .opened) (hsame : rec.Same rec')
  (hphase : rec'.phase = .opened)
include hrec hopen hsame

theorem effects_rebind {offer : Option UploadOffer} {bound : UploadRecord} {left : Host} (hphase : rec'.phase = .opened)
    (hbind : h.bind id rec' offer = (.ok bound, left)) : Effects env allowed h (left.putUpload id bound) := by
  rcases bind_cases (h := h) id rec' offer with ⟨hrefused, -⟩ | ⟨bound', index, hbound, hsame', hphase'⟩
  · rw [hrefused] at hbind
    cases hbind
  · rw [hbound] at hbind
    cases hbind
    refine .trans (Effects.quiet (quiet_signerIndex index)) ?_
    exact .single (.rebound id rec bound hrec (hsame.trans hsame') (hphase'.trans (hphase.trans hopen.symm)))

omit hrec hopen hsame in
theorem bind_error {offer : Option UploadOffer} {e : BlobError} {left : Host}
    (hbind : h.bind id rec' offer = (.error e, left)) : left = h := by
  rcases bind_cases (h := h) id rec' offer with ⟨hrefused, -⟩ | ⟨bound, index, hbound, -, -⟩
  · rw [hrefused] at hbind
    exact (congrArg Prod.snd hbind).symm
  · rw [hbound] at hbind
    cases hbind

theorem resumes_lapse : Resumes env allowed h (.inr (h.lapse id rec')) := by
  refine ⟨effects_finish hrec hopen hsame (by decide), ?_⟩
  unfold lapse
  split <;> exact ⟨rfl, rfl, rfl⟩

include hphase

theorem resumeCommitted_resumes : Resumes env allowed h (h.resumeCommitted req mode id rec') := by
  fun_cases h.resumeCommitted req mode id rec' with
  | case1 => exact .refl
  | case2 =>
    rename_i hbind
    rw [bind_error hbind]
    exact .refl
  | case3 =>
    rename_i hbind
    exact effects_rebind hrec hopen hsame hphase hbind
  | case4 => exact resumes_lapse hrec hopen hsame

theorem resumeProxied_resumes : Resumes env allowed h (h.resumeProxied req mode id rec') := by
  fun_cases h.resumeProxied req mode id rec' with
  | case1 => exact resumes_lapse hrec hopen hsame
  | case2 => exact .refl
  | case3 =>
    rename_i hbind
    rw [bind_error hbind]
    exact .refl
  | case4 =>
    rename_i hbind
    exact effects_rebind hrec hopen hsame hphase hbind

theorem resumeDirect_resumes {d : DirectState} (hdirect : rec'.direct = some d) :
    Resumes env allowed h (h.resumeDirect req stores mode id rec' d) := by
  have hlapse : Resumes env allowed h (.inr ((h.tryAbortDirect stores rec').lapse id rec')) := by
    unfold tryAbortDirect
    split
    · refine ⟨effects_finish_direct hrec hopen hsame (by decide) hdirect, ?_⟩
      unfold lapse abortDirect
      rw [hdirect]
      split <;> exact ⟨rfl, rfl, rfl⟩
    · exact resumes_lapse hrec hopen hsame
  have hextended (expiresAt : Nat) : rec.Same { rec' with direct := some { d with expiresAt } } :=
    hsame.trans ⟨rfl, rfl, rfl, rfl, rfl, rfl, rfl, by rw [hdirect]; rfl⟩
  fun_cases h.resumeDirect req stores mode id rec' d with
  | case1 =>
    rename_i hbind
    rw [bind_error hbind]
    exact .refl
  | case2 =>
    rename_i hbind
    exact effects_rebind hrec hopen (hextended _) hphase hbind
  | _ => exact hlapse

end

theorem resume_resumes (req : BeginRequest) (stores : Stores) (mode : Except BlobError TransferMode) :
    Resumes env allowed h (h.resume req stores mode) := by
  have hself : Resumes env allowed h (.inr h) := ⟨.refl, rfl, rfl, rfl⟩
  have hsame (rec : UploadRecord) : rec.Same { rec with presented := req.presented } :=
    ⟨rfl, rfl, rfl, rfl, rfl, rfl, rfl, rfl⟩
  fun_cases h.resume req stores mode with
  | case4 _ _ rec hrec hphase =>
    have hopen := Decidable.not_not.mp hphase
    exact resumeCommitted_resumes hrec hopen (hsame rec) hopen
  | case5 _ _ rec hrec hphase _ _ _ hdirect =>
    have hopen := Decidable.not_not.mp hphase
    exact resumeDirect_resumes hrec hopen (hsame rec) hopen hdirect
  | case6 _ _ rec hrec hphase =>
    have hopen := Decidable.not_not.mp hphase
    exact resumeProxied_resumes hrec hopen (hsame rec) hopen
  | _ => exact hself

theorem hold_same {rec rec' : UploadRecord} (hsame : rec.Same rec') : h.hold rec' = h.hold rec := by
  unfold hold reserve
  rw [hsame.alreadyCommitted, hsame.roomId, hsame.chargedTo, hsame.size, hsame.configId]

section
variable {req : BeginRequest} {stores : Stores} {mode : Except BlobError TransferMode} {target : UploadTarget}

theorem newRecord_formed {alreadyCommitted : Bool} {configId : Option String} {direct : Option DirectState}
    (hconfig : alreadyCommitted = false → configId.isSome)
    (hdirect : ∀ d, direct = some d →
      alreadyCommitted = false ∧ d.objectKey = .forUpload req.room.roomId req.blobRef h.nextId) :
    (h.newRecord env req alreadyCommitted configId direct).Formed env h.nextId := by
  refine ⟨rfl, hconfig, fun key hkey => ?_⟩
  obtain ⟨d, hd, rfl⟩ := Option.map_eq_some_iff.mp hkey
  exact hdirect d hd

theorem indexed_insert {uploads : ExtTreeMap Nat UploadRecord} {index : ExtTreeMap (String × String × String) Nat}
    {indexed : String × String × String} {id : Nat} {rec : UploadRecord} (hrec : uploads[id]? = some rec)
    (hindexed : indexed = rec.indexKey) (key : String × String × String) (found : Nat)
    (hfound : (index.insert indexed id)[key]? = some found) :
    index[key]? = some found ∨ ∃ rec : UploadRecord, uploads[found]? = some rec ∧ key = rec.indexKey := by
  rw [getElem?_insert_eq] at hfound
  split at hfound
  · rename_i heq
    cases hfound
    exact .inr ⟨rec, hrec, heq ▸ hindexed⟩
  · exact .inl hfound

/-- A new upload's row is written, with its reservation, once it is bound. -/
theorem effects_open {rec rec' : UploadRecord} {final : Host} (hformed : rec.Formed env h.nextId)
    (hopen : rec.phase = .opened) (hsame : rec.Same rec') (hphase : rec'.phase = rec.phase)
    (hopens : allowed.opens h.nextId rec.roomId rec.blobRef rec.chargedTo)
    (hfits : rec.alreadyCommitted = false → ∃ target,
      h.checkLimits env rec.roomId rec.chargedTo rec.size target (h.limitsFor env rec.roomId rec.chargedTo) = .ok ())
    (hquiet : Quiet { (h.hold rec).putUpload h.nextId rec' with nextId := h.nextId + 1 } final) :
    Effects env allowed h final := by
  rw [← hold_same hsame] at hquiet
  rw [← hsame.roomId, ← hsame.blobRef, ← hsame.chargedTo] at hopens
  refine .tail (.single (.opened rec' (hphase.trans hopen) (hformed.same hsame) hopens ?_)) (.quiet hquiet)
  rw [hsame.alreadyCommitted, hsame.roomId, hsame.chargedTo, hsame.size]
  exact hfits

theorem beginCommitted_effects (hopens : allowed.opens h.nextId req.room.roomId req.blobRef req.chargedTo) :
    Effects env allowed h (h.beginCommitted env req mode).2 := by
  unfold beginCommitted
  split
  · exact .refl
  · rename_i mode
    have hformed : (h.newRecord env req true none none).Formed env h.nextId :=
      newRecord_formed (fun h => nomatch h) (fun d h => nomatch h)
    rcases bind_cases (h := { h with nextId := h.nextId + 1 }) h.nextId (h.newRecord env req true none none) req.offer
      with ⟨hrefused, -⟩ | ⟨rec', index, hbound, hsame, hphase⟩
    · rw [hrefused]
      exact .quiet { Quiet.refl h with nextId := Nat.le_succ _ }
    · rw [hbound]
      refine effects_open hformed rfl hsame hphase hopens (fun h => nomatch h) ?_
      refine { Quiet.refl _ with uploadIndex := indexed_insert ExtTreeMap.getElem?_insert_self ?_ }
      rw [hsame.indexKey]
      rfl

/-- The reservation is made for a new upload of the blob, which fits. -/
def Fits (env : Env) (h : Host) (req : BeginRequest) : Prop :=
  ∃ target, h.checkLimits env req.room.roomId req.chargedTo (env.manifest req.blobRef).size target
    (h.limitsFor env req.room.roomId req.chargedTo) = .ok ()

theorem beginDirect_effects (hopens : allowed.opens h.nextId req.room.roomId req.blobRef req.chargedTo)
    (hfits : h.Fits env req) :
    Effects env allowed h (h.beginDirect env req target).2 := by
  unfold beginDirect
  split
  · exact .refl
  · rename_i plan hplan
    split
    · exact .refl
    · dsimp only
      generalize hopened : h.newRecord env req false (some target.configId) _ = opened
      have hformed : opened.Formed env h.nextId := by
        rw [← hopened]
        refine newRecord_formed (fun _ => rfl) fun d hd => ?_
        cases hd
        exact ⟨rfl, rfl⟩
      rcases bind_cases (h := { h with nextId := h.nextId + 1 }.reserve opened) h.nextId opened
        (some (withoutKey req.offer)) with ⟨-, hbound⟩ | ⟨rec', index, hbound, hsame, hphase⟩
      · cases hbound
      · rw [hbound]
        refine effects_open hformed (by rw [← hopened]; rfl) hsame hphase (by rw [← hopened]; exact hopens)
          (fun _ => ?_) ?_
        · rw [← hopened]
          exact hfits
        · have hhold : h.hold opened = h.reserve opened := by
            rw [← hopened]
            rfl
          rw [hhold]
          refine { Quiet.refl _ with uploadIndex := indexed_insert ExtTreeMap.getElem?_insert_self ?_ }
          rw [hsame.indexKey, ← hopened]
          rfl

theorem keyBoundElsewhere_slot {key : String} {id : Nat} {slot : Slot} {h' : Host}
    (hfree : h.keyBoundElsewhere key none = false) (hnow : h'.now = h.now) (huploads : h'.uploads = h.uploads)
    (hindex : h'.signerIndex = h.signerIndex) (hslots : h'.slots = h.slots.insert id slot) :
    h'.keyBoundElsewhere key (some id) = false := by
  unfold keyBoundElsewhere at hfree ⊢
  rw [hindex]
  split at hfree
  · rfl
  · rename_i id' hsome
    by_cases hid : id' = id
    · subst hid
      simp
    · have hlive : h'.liveSlot id' = h.liveSlot id' := by
        unfold liveSlot
        rw [hslots, getElem?_insert_eq, if_neg (Ne.symm hid), hnow]
      have hopen : h'.openUploadForKey id' key = h.openUploadForKey id' key := by
        unfold openUploadForKey
        rw [huploads, hlive, hnow]
      simpa [hid, hopen] using hfree

theorem initiateImport_cases (owner : String) (chunkCount : Nat) :
    h.initiateImport owner chunkCount = (.error (.tooManyUploads maxOpenBundlesPerDid), h) ∨
      ∃ slot left, h.initiateImport owner chunkCount = (.ok (h.nextId, slot), left) ∧
        left = { h with nextId := h.nextId + 1, slots := h.slots.insert h.nextId slot } := by
  unfold initiateImport
  split
  · exact .inl rfl
  · exact .inr ⟨_, _, rfl, rfl⟩

theorem beginProxied_effects (hopens : allowed.opens h.nextId req.room.roomId req.blobRef req.chargedTo)
    (hfits : h.Fits env req) :
    Effects env allowed h (h.beginProxied env req target).2 := by
  unfold beginProxied
  split
  · exact .refl
  · rename_i hfree
    rcases initiateImport_cases (h := h) req.opener (env.manifest req.blobRef).chunkCount with
      hfull | ⟨slot, left, hslot, hleft⟩
    · rw [hfull]
    · rw [hslot]
      dsimp only
      generalize hopened : left.newRecord env req false (some target.configId) none = opened
      have hnow : left.now = h.now := by rw [hleft]
      have hformed : opened.Formed env h.nextId := by
        rw [← hopened]
        exact ⟨rfl, fun _ => rfl, fun key hkey => nomatch hkey⟩
      rcases bind_cases (h := left.reserve opened) h.nextId opened req.offer with
        ⟨-, hbound⟩ | ⟨rec', index, hbound, hsame, hphase⟩
      · exfalso
        cases hkey : req.offer.bind (·.uploadKeyDid) with
        | none =>
          rw [hkey] at hbound
          cases hbound
        | some =>
          rw [hkey] at hbound hfree
          refine Bool.false_ne_true (Eq.trans (Eq.symm ?_) hbound)
          rw [hleft]
          exact keyBoundElsewhere_slot (Bool.eq_false_iff.mpr hfree) rfl rfl rfl rfl
      · rw [hbound]
        refine effects_open hformed (by rw [← hopened]; rfl) hsame hphase (by rw [← hopened]; exact hopens)
          (fun _ => ?_) ?_
        · rw [← hopened]
          exact hfits
        · have hhold : h.hold opened = h.reserve opened := by
            rw [← hopened]
            rfl
          rw [hhold, hleft]
          refine { Quiet.refl _ with uploadIndex := indexed_insert ExtTreeMap.getElem?_insert_self ?_ }
          rw [hsame.indexKey, ← hopened]
          rfl

theorem beginWith_effects (req : BeginRequest) (stores : Stores)
    (hopens : allowed.opens h.nextId req.room.roomId req.blobRef req.chargedTo) :
    Effects env allowed h (h.beginWith env req stores).2 := by
  have hresumes : Resumes env allowed h (h.resume req stores (chooseMode env req stores)) := resume_resumes _ _ _
  fun_cases h.beginWith env req stores with
  | case4 =>
    rename_i answer hanswer
    rw [hanswer] at hresumes
    exact hresumes
  | case5 =>
    rename_i limits _ mode left hleft
    rw [hleft] at hresumes
    obtain ⟨heffects, hlimits⟩ := hresumes
    have hfits (target : UploadTarget) (hcheck : left.checkLimits env req.room.roomId req.chargedTo
        (env.manifest req.blobRef).size target limits = .ok ()) : left.Fits env req := by
      refine ⟨target, ?_⟩
      rw [← hcheck]
      unfold limitsFor
      rw [hlimits.1, hlimits.2.1]
      rfl
    rw [← hlimits.2.2] at hopens
    refine heffects.trans ?_
    fun_cases left.beginNew env req stores mode limits with
    | case1 => exact beginCommitted_effects hopens
    | case5 _ target _ hcheck => exact beginDirect_effects hopens (hfits target hcheck)
    | case6 _ target _ hcheck => exact beginProxied_effects hopens (hfits target hcheck)
    | _ => exact .refl
  | _ => exact .refl

end

/-! ### Commit and abort -/

theorem abortSlot_eq (owner : String) (id : Nat) : ∃ slots, h.abortSlot owner id = { h with slots } := by
  fun_cases h.abortSlot owner id <;> exact ⟨_, rfl⟩

theorem closeSlot_eq (id : Nat) : ∃ slots, h.closeSlot id = { h with slots } := by
  fun_cases h.closeSlot id <;> exact ⟨_, rfl⟩

theorem finalizePrecheck_eq (owner blobRef : String) (id : Nat) :
    ∃ slots, (h.finalizePrecheck env owner blobRef id).2 = { h with slots } := by
  fun_cases h.finalizePrecheck env owner blobRef id <;> exact ⟨_, rfl⟩

theorem putChunkAs_eq (caller : UploadCaller) (id index : Nat) :
    ∃ slots, (h.putChunkAs caller id index).2 = { h with slots } := by
  fun_cases h.putChunkAs caller id index <;> exact ⟨_, rfl⟩

/-- A change to the slots alone. -/
theorem quiet_slots (heq : ∃ slots, h' = { h with slots }) : h.Quiet h' := by
  obtain ⟨slots, rfl⟩ := heq
  exact { Quiet.refl _ with }

theorem deleteObject_putObject (configId : String) (key : ObjectKey) (blobRef : String) :
    (h.putObject configId key blobRef).deleteObject configId key = h.deleteObject configId key := by
  unfold deleteObject putObject
  simp only [Function.update_idem, Function.update_self]

section
variable {stores : Stores} {id : Nat} {rec : UploadRecord} (hrec : h.uploads[id]? = some rec)
  (hopen : rec.phase = .opened)
include hrec hopen

theorem effects_finish_quiet {left : Host} {phase : UploadPhase} (hnew : rec.alreadyCommitted = false)
    (hphase : phase ≠ .opened) (hquiet : h.Quiet left) :
    Effects env allowed h ((left.releaseReservation rec).finishUpload id rec phase) := by
  refine .trans (Effects.quiet hquiet) ?_
  rw [← letGo_new hnew]
  exact effects_finish (by rw [hquiet.uploads, hrec]) hopen (.refl rec) hphase

theorem commitDirect_effects {d : DirectState} (hformed : rec.Formed env id) (hdirect : rec.direct = some d)
    (hstores : allowed.stores id rec) :
    Effects env allowed h (h.commitDirect stores id rec d).2 := by
  have hnew : rec.alreadyCommitted = false := (hformed.direct d.objectKey (by rw [hdirect]; rfl)).1
  obtain ⟨configId, hconfig⟩ := Option.isSome_iff_exists.mp (hformed.configId hnew)
  have hdelete (phase : UploadPhase) (hphase : phase ≠ .opened) :
      Effects env allowed h
        (((h.deleteObject (rec.configId.getD "") d.objectKey).releaseReservation rec).finishUpload id rec
        phase) := by
    refine .trans (.single (.reclaimed id rec d hrec hopen hdirect)) ?_
    rw [← letGo_new hnew]
    exact effects_finish hrec hopen (.refl rec) hphase
  fun_cases h.commitDirect stores id rec d with
  | case3 => exact hdelete .released (by decide)
  | case4 _ _ _ stored _ _ left =>
    dsimp only [left, stored]
    split
    · rw [deleteObject_putObject]
      exact hdelete .committed (by decide)
    · refine .trans (.single (.duplicated id rec d hrec hdirect)) ?_
      rw [← letGo_new hnew]
      exact effects_finish hrec hopen (.refl rec) (by decide)
  | case5 target _ _ stored habsent =>
    dsimp only [target, stored]
    rw [hconfig]
    exact .single (.stored id rec configId d.objectKey hrec hopen hnew habsent hconfig (.inr ⟨d, hdirect, rfl⟩) hstores)
  | _ => exact .refl

theorem commitProxied_effects (hformed : rec.Formed env id) (hnew : rec.alreadyCommitted = false)
    (hstores : allowed.stores id rec) :
    Effects env allowed h (h.commitProxied env stores id rec).2 := by
  obtain ⟨configId, hconfig⟩ := Option.isSome_iff_exists.mp (hformed.configId hnew)
  have hquiet : h.Quiet (h.finalizePrecheck env rec.opener rec.blobRef id).2 :=
    quiet_slots (finalizePrecheck_eq _ _ _)
  unfold commitProxied
  split
  · rename_i left hleft
    rw [hleft] at hquiet
    exact .quiet hquiet
  · rename_i left hleft
    rw [hleft] at hquiet
    exact .quiet hquiet
  · rename_i left hleft
    rw [hleft] at hquiet
    refine .trans (Effects.quiet hquiet) ?_
    exact effects_finish_quiet (by rw [hquiet.uploads, hrec]) hopen hnew (by decide) (quiet_slots (abortSlot_eq _ _))
  · rename_i left hleft
    rw [hleft] at hquiet
    refine .trans (Effects.quiet hquiet) ?_
    have hrec' : left.uploads[id]? = some rec := by rw [hquiet.uploads, hrec]
    split
    · have hfinish : Effects env allowed left ((left.releaseReservation rec).finishUpload id rec .committed) :=
        effects_finish_quiet hrec' hopen hnew (by decide) (.refl left)
      refine .tail hfinish (.quiet ?_)
      unfold closeSlot
      split
      · exact .refl _
      · exact { Quiet.refl _ with }
    · rename_i habsent
      split
      · exact .refl
      · rw [hconfig]
        refine .tail (.single (.stored id rec configId _ hrec' hopen hnew ?_ hconfig (.inl rfl) hstores)) ?_
        · simpa using habsent
        · exact .quiet (quiet_slots (closeSlot_eq id))

end

theorem commitAs_effects (hformed : h.Formed env) (stores : Stores) (caller : UploadCaller) {id : Nat}
    (hstores : ∀ rec, h.uploads[id]? = some rec → allowed.stores id rec) :
    Effects env allowed h (h.commitAs env stores caller id).2 := by
  fun_cases h.commitAs env stores caller id with
  | case7 rec hrec _ hopen halready =>
    have hfinish : Effects env allowed h ((h.letGo rec).finishUpload id rec .committed) :=
      effects_finish hrec hopen (.refl rec) (by decide)
    rwa [letGo, if_pos halready] at hfinish
  | case8 rec hrec _ hopen _ _ hdirect =>
    exact commitDirect_effects hrec hopen (hformed.uploads id rec hrec).1 hdirect (hstores rec hrec)
  | case9 rec hrec _ hopen hnew =>
    exact commitProxied_effects hrec hopen (hformed.uploads id rec hrec).1 (Bool.eq_false_iff.mpr hnew)
      (hstores rec hrec)
  | _ => exact .refl

theorem abortAs_effects (hformed : h.Formed env) (caller : UploadCaller) (id : Nat) :
    Effects env allowed h (h.abortAs caller id).2 := by
  fun_cases h.abortAs caller id with
  | case6 rec hrec _ hopen stopped =>
    dsimp only [stopped]
    split
    · rename_i hdirect
      obtain ⟨d, hdirect⟩ := Option.isSome_iff_exists.mp hdirect
      have hnew : rec.alreadyCommitted = false :=
        ((hformed.uploads id rec hrec).1.direct d.objectKey (by rw [hdirect]; rfl)).1
      rw [← letGo_new hnew]
      exact effects_finish_direct hrec hopen (.refl rec) (by decide) hdirect
    · split
      · rename_i hnew
        exact effects_finish_quiet hrec hopen (by simpa using hnew) (by decide) (quiet_slots (abortSlot_eq _ _))
      · rename_i halready
        have hfinish : Effects env allowed h ((h.letGo rec).finishUpload id rec .aborted) :=
          effects_finish hrec hopen (.refl rec) (by decide)
        rwa [letGo, if_pos (by simpa using halready)] at hfinish
  | _ => exact .refl

end Host

end TrustInfrastructure.Blobs
