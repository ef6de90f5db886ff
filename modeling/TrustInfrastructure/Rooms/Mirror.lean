import TrustInfrastructure.Rooms.Paging
import TrustInfrastructure.Rooms.Wire

/-!
# A mirror's pull

`room-host/src/mirror.rs`: `pull_once` lists everything its primary has above the mirror's watermark, page
by page to the end, and then fetches and stores the listed records one after another in version order.
Every call to the primary and every `store_mirrored_record` is one operation of the program, so the primary
may change between any two of them.

The answers are the primary's own: a page is `list_records_page` with no limit, of which a mirror reads each
row's key and version; a record is the committed form with the host's times. `MirrorSystem` puts the
primary, the mirror and the pull under way together; a pull that fails in transit is one that is started
again.
-/

namespace TrustInfrastructure.Rooms

open Lib (Interface Program Along)

/-! ### What the primary serves -/

/-- A row of a listing, as far as a mirror reads it. -/
structure ListedRecord where
  key : String
  version : Nat
  deriving DecidableEq

/-- The row of `record` in a listing. -/
def Record.listed (record : Record) : ListedRecord := ⟨record.key, record.version⟩

/-- A page of the room above `since`, as the primary answers it. -/
def servePage (roomId : String) (since : Nat) (cursor : Option String) :
    HostProgram (List ListedRecord × Option String) := do
  let _ ← getRoom roomId
  let page ← listRecordsPage roomId none (some since) cursor none
  return (page.records.map Record.listed, page.cursor)

/-- A record, as the primary answers it. -/
def serveRecord (chrono : Chrono) (roomId key : String) : HostProgram GetRecordResponse := do
  let room ← getRoom roomId
  let record ← getRecord roomId key
  return getRecordResponse chrono room.visibility record

/-! ### The operations of a pull -/

/-- The hosts a pull runs between, and the mirror's clock. -/
structure Sides where
  primary : HostStore
  mirror : HostStore
  now : Nat

/-- One call a pull makes. A record is fetched by its key alone; `listed` is the row it is fetched for. -/
inductive PullOp where
  | getRoom
  | listRecords (since : Nat) (cursor : Option String)
  | getRecord (listed : ListedRecord)
  | storeRecord (record : Record)

namespace PullOp

def Reply : PullOp → Type
  | .getRoom => Except AppError Room
  | .listRecords _ _ => Except AppError (List ListedRecord × Option String)
  | .getRecord _ => Except AppError GetRecordResponse
  | .storeRecord _ => Except AppError Record

def exec (chrono : Chrono) (roomId : String) : (o : PullOp) → Sides → o.Reply × Sides
  | .getRoom, sides => ((Rooms.getRoom roomId).result sides.mirror, sides)
  | .listRecords since cursor, sides => ((servePage roomId since cursor).result sides.primary, sides)
  | .getRecord listed, sides => ((serveRecord chrono roomId listed.key).result sides.primary, sides)
  | .storeRecord record, sides =>
    ((storeMirroredRecord roomId record sides.now).result sides.mirror,
      { sides with mirror := (storeMirroredRecord roomId record sides.now).final sides.mirror })

def writes : PullOp → Bool
  | .storeRecord _ => true
  | _ => false

end PullOp

@[reducible] def pullInterface (chrono : Chrono) (roomId : String) : Interface where
  State := Sides
  Op := PullOp
  Reply := PullOp.Reply
  exec := PullOp.exec chrono roomId
  writes := PullOp.writes
  exec_read o s h := by cases o <;> first | rfl | cases h

/-! ### `pull_once` -/

inductive PullError where
  /-- The room is not registered here as a mirror. -/
  | notMirror (roomId : String)
  /-- The listing did not end. -/
  | endless (roomId : String)
  | primary (error : AppError)
  | host (error : AppError)
  | wire (error : FromWireError)

structure PullOutcome where
  copied : Nat
  watermark : Nat
  deriving DecidableEq

section
variable (chrono : Chrono) (roomId : String)

abbrev PullProgram (α : Type) := Program (pullInterface chrono roomId) PullError α

/-- Pages a listing may take before the far side is taken not to end. -/
def maxPages : Nat := 500

/-- Read a listing to its end, `pages` more pages at the most. -/
def listToEnd (since : Nat) : Nat → Option String → List ListedRecord → PullProgram chrono roomId (List ListedRecord)
  | 0, _, _ => .ret (.error (.endless roomId))
  | pages + 1, cursor, pending =>
    .op (.listRecords since cursor) fun (reply : Except AppError (List ListedRecord × Option String)) =>
      match reply with
      | .error e => .ret (.error (.primary e))
      | .ok (rows, some next) => listToEnd since pages (some next) (pending ++ rows)
      | .ok (rows, none) => .ret (.ok (pending ++ rows))

/-- Store one copy and go on. A record the mirror is already past is skipped. -/
def storeCopy (record : Record) (outcome : PullOutcome) (next : PullOutcome → PullProgram chrono roomId PullOutcome) :
    PullProgram chrono roomId PullOutcome :=
  .op (.storeRecord record) fun (reply : Except AppError Record) =>
    match reply with
    | .ok _ => next { copied := outcome.copied + 1, watermark := record.version }
    | .error (.conflict _) => next outcome
    | .error e => .ret (.error (.host e))

def copyAll : List ListedRecord → PullOutcome → PullProgram chrono roomId PullOutcome
  | [], outcome => .ret (.ok outcome)
  | listed :: rest, outcome =>
    .op (.getRecord listed) fun (reply : Except AppError GetRecordResponse) =>
      match reply with
      | .error e => .ret (.error (.primary e))
      | .ok full =>
        match mirroredRecord chrono full with
        | .error e => .ret (.error (.wire e))
        | .ok record => storeCopy chrono roomId record outcome (copyAll rest)

def copyListed (since : Nat) (pending : List ListedRecord) : PullProgram chrono roomId PullOutcome :=
  copyAll chrono roomId (pending.insertionSort fun a b => a.version ≤ b.version) ⟨0, since⟩

def pullOnce : PullProgram chrono roomId PullOutcome :=
  .op .getRoom fun (reply : Except AppError Room) =>
    match reply with
    | .error e => .ret (.error (.host e))
    | .ok room =>
      if !room.isMirror then .ret (.error (.notMirror roomId))
      else (listToEnd chrono roomId room.watermark maxPages none []).bind (copyListed chrono roomId room.watermark)

/-! ### The primary, the mirror and the pull under way -/

structure MirrorSystem where
  sides : Sides
  pull : Option (PullProgram chrono roomId PullOutcome)

/-- What happens next: the primary changes, the mirror's clock moves, a pull is started (the one before, if
it had not ended, has failed), or the pull under way makes its next call. -/
inductive MirrorAction where
  | put (record : Record) (expectedVersion : Option Nat) (now : Nat)
  | curate (key : String) (curation : Curation) (now : Nat)
  | tick (now : Nat)
  | startPull
  | stepPull

def callNext (pull : PullProgram chrono roomId PullOutcome) (sides : Sides) :
    Sides × PullProgram chrono roomId PullOutcome :=
  match pull with
  | .op o k => ((PullOp.exec chrono roomId o sides).2, k (PullOp.exec chrono roomId o sides).1)
  | .ret r => (sides, .ret r)

def nextFetch : PullProgram chrono roomId PullOutcome → Option ListedRecord
  | .op (.getRecord listed) _ => some listed
  | _ => none

/-- The action leaves the primary as it is. -/
def MirrorAction.quiet : MirrorAction → Bool
  | .put _ _ _ | .curate _ _ _ => false
  | _ => true

namespace MirrorSystem

variable {chrono roomId}

def setPrimary (sys : MirrorSystem chrono roomId) (primary : HostStore) : MirrorSystem chrono roomId :=
  { sys with sides := { sys.sides with primary := primary } }

def step (sys : MirrorSystem chrono roomId) : MirrorAction → MirrorSystem chrono roomId
  | .put record expectedVersion now =>
    sys.setPrimary ((putRecord roomId record expectedVersion now).final sys.sides.primary)
  | .curate key curation now => sys.setPrimary ((curateRecord roomId key curation now).final sys.sides.primary)
  | .tick now => { sys with sides := { sys.sides with now := now } }
  | .startPull => { sys with pull := some (pullOnce chrono roomId) }
  | .stepPull =>
    match sys.pull with
    | some pull => { sides := (callNext chrono roomId pull sys.sides).1,
                     pull := some (callNext chrono roomId pull sys.sides).2 }
    | none => sys

abbrev run : MirrorSystem chrono roomId → List MirrorAction → MirrorSystem chrono roomId := Lib.run step

/-- A fetch finds its record at the version listed; a put or a curation begins with a counter that can move on. -/
def Undisturbed (sys : MirrorSystem chrono roomId) : MirrorAction → Prop
  | .stepPull => ∀ listed ∈ sys.pull.bind (nextFetch chrono roomId),
      ∀ record ∈ sys.sides.primary.record roomId listed.key, record.version = listed.version
  | .put _ _ _ | .curate _ _ _ => CounterFits roomId sys.sides.primary
  | _ => True

instance decidableUndisturbed (sys : MirrorSystem chrono roomId) :
    (action : MirrorAction) → Decidable (sys.Undisturbed action)
  | .stepPull => inferInstanceAs (Decidable (∀ listed ∈ _, ∀ record ∈ _, _))
  | .put _ _ _ | .curate _ _ _ => decidableCounterFits roomId sys.sides.primary
  | .tick _ | .startPull => .isTrue trivial

abbrev Unraced : MirrorSystem chrono roomId → List MirrorAction → Prop := Along step Undisturbed

end MirrorSystem

end

end TrustInfrastructure.Rooms
