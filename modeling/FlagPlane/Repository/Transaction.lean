import FlagPlane.Machine
import FlagPlane.Repository.Tables

/-!
# FlagPlane.Repository.Transaction

**The write transactions of `flag_repository.go`, statement by statement.** Any
number of `Create`, `Update`, `Toggle` and `Delete` calls run against one
database at `READ COMMITTED`; an action is one statement of one call.

What the model takes from Postgres:

* `nextval` is atomic and is not rolled back; the sequence is a `BIGINT`;
* an `UPDATE` or `DELETE` evaluates its `WHERE` on the committed rows when it
  starts (`scan`). If it found its row it queues for the row lock, and once it
  gets the lock re-evaluates the `WHERE` on the row as committed by then (`lock`).
  Two steps, because other transactions may commit in between;
* an `INSERT` waits while another open transaction has inserted, updated or deleted
  a row of the same key, then checks the unique key;
* locks are held to the end of the transaction. A row that fails the re-check
  stays locked too;
* a transaction's own writes reach the committed tables at `COMMIT` and not before;
* `uuid_generate_v4()` returns a value it has not returned before;
* `NOW()` is the time the transaction began;
* a text assigned to a `VARCHAR` column loses the blanks that are too many for it.

`fail` stands for any statement (`BEGIN`, `nextval`, a write, the event insert,
`COMMIT`) that returns an error: the deferred `Rollback` runs and the call returns
the error.
-/

namespace FlagPlane

/-- A call of a repository method, and the transaction it opens. -/
abbrev TxId := Nat

/-- A call of one of the four writing methods, with its arguments. An id is a UUID, in the form in
which the column prints it. A call with a text that is none fails at the statement that takes it. -/
inductive Op
  | create (flag : Flag)
  | update (id : String) (req : UpdateFlagRequest)
  | toggle (id : String)
  | delete (id : String)
  deriving DecidableEq, Repr

/-! ### The statements -/

/-- One `column = value` of `Update`'s `SET` list. -/
inductive SetClause
  | description (s : String)
  | enabled (b : Bool)
  | rolloutPercentage (p : Int)
  | targetedUsers (users : List String)
  | version (v : Int)
  deriving DecidableEq, Repr

/-- The `SET` list `Update` builds from the fields of the request, before the version. -/
def setClauses (req : UpdateFlagRequest) : List SetClause :=
  (req.description.map SetClause.description).toList ++
    (req.enabled.map SetClause.enabled).toList ++
    (req.rolloutPercentage.map SetClause.rolloutPercentage).toList ++
    (req.targetedUsers.map SetClause.targetedUsers).toList

/-- Perform one assignment of a `SET` list. -/
def FlagRow.assign (r : FlagRow) : SetClause → FlagRow
  | .description s => { r with description := assignVarchar 256 s }
  | .enabled b => { r with enabled := b }
  | .rolloutPercentage p => { r with rolloutPercentage := p }
  | .targetedUsers users => { r with targetedUsers := users }
  | .version v => { r with version := v }

/-- The `BEFORE UPDATE` trigger `update_updated_at_column`. -/
def updateUpdatedAtColumn (now : Timestamp) (r : FlagRow) : FlagRow :=
  { r with updatedAt := now }

/-- The variables of a call once its version is drawn: the transaction's `NOW()`,
`Delete`'s `key` (the other methods have no such variable and leave it `""`) and
`version`. -/
structure Locals where
  now : Timestamp
  key : String
  version : Int
  deriving DecidableEq, Repr

namespace Op

/-- `Update` with no field set: `len(setClauses) == 0`. -/
def nothingToChange : Op → Bool
  | update _ req => (setClauses req).isEmpty
  | _ => false

/-- The id a call is about. -/
def flagId : Op → String
  | create flag => flag.id
  | update id _ | toggle id | delete id => id

def isCreate : Op → Bool
  | create _ => true
  | _ => false

def isDelete : Op → Bool
  | delete _ => true
  | _ => false

/-- The `WHERE` clause of the call's `UPDATE` or `DELETE`. -/
def whereClause : Op → FlagRow → Bool
  | create _, _ => false
  | update id req, r =>
    decide (r.id = id) &&
      match req.expectedVersion with
      | some e => decide (r.version = e)
      | none => true
  | toggle id, r | delete id, r => decide (r.id = id)

/-- The row an `UPDATE` leaves: its `SET` list, then the trigger. -/
def postImage (op : Op) (x : Locals) (r : FlagRow) : FlagRow :=
  match op with
  | update _ req =>
    updateUpdatedAtColumn x.now
      ((setClauses req ++ [SetClause.version x.version]).foldl FlagRow.assign r)
  | toggle _ =>
    updateUpdatedAtColumn x.now { r with enabled := !r.enabled, version := x.version }
  | _ => r

/-- The Go `flag` variable once the statement's `RETURNING` list is scanned into it.
`Create` scans the generated columns into the caller's struct and then sets its
version, so the description stays the caller's even where the column has cut it; the
other methods scan the whole row. -/
def scanned (op : Op) (row : FlagRow) (v : Int) : Flag :=
  match op with
  | create flag =>
    { flag with id := row.id, createdAt := row.createdAt, updatedAt := row.updatedAt, version := v }
  | _ => scanFlag row

/-- The event the call appends after its write statement. `Delete` appends its event
whether or not the `DELETE` removed a row. -/
def event (op : Op) (x : Locals) : RowWrite → FlagEvent
  | .insert row =>
    let flag := op.scanned row x.version
    ⟨x.version, .created, flag.key, flagPayload flag, x.now⟩
  | .update row =>
    let flag := op.scanned row x.version
    ⟨x.version, .updated, flag.key, flagPayload flag, x.now⟩
  | .delete _ | .nothing =>
    ⟨x.version, .deleted, x.key, .obj [("id", .str op.flagId), ("key", .str x.key)], x.now⟩

end Op

/-- The row `Create` inserts, with the column defaults. -/
def insertedRow (flag : Flag) (users : List String) (uuid : String) (x : Locals) : FlagRow where
  id := uuid
  key := flag.key
  description := assignVarchar 256 flag.description
  enabled := flag.enabled
  rolloutPercentage := flag.rolloutPercentage
  targetedUsers := users
  version := x.version
  createdAt := x.now
  updatedAt := x.now

section InsertedRow

variable (flag : Flag) (users : List String) (uuid : String) (x : Locals)

@[simp] theorem insertedRow_id : (insertedRow flag users uuid x).id = uuid := rfl

@[simp] theorem insertedRow_key : (insertedRow flag users uuid x).key = flag.key := rfl

@[simp] theorem insertedRow_version : (insertedRow flag users uuid x).version = x.version := rfl

end InsertedRow

/-- The `description` column takes the text of a `Create` as it is. -/
def Op.Uncut : Op → Prop
  | create flag => flag.description.length ≤ 256
  | update _ _ | toggle _ | delete _ => True

instance : DecidablePred Op.Uncut
  | .create flag => inferInstanceAs (Decidable (flag.description.length ≤ 256))
  | .update _ _ | .toggle _ | .delete _ => .isTrue trivial

/-! ### Calls in progress -/

/-- The errors a repository call returns. -/
inductive RepoError
  /-- `ErrVersionConflict`. -/
  | versionConflict
  /-- `Delete`'s `flag not found`. -/
  | flagNotFound
  /-- A unique or primary key is violated. -/
  | uniqueViolation
  /-- A `NOT NULL`, a column type or a `CHECK` is violated. -/
  | constraintViolation
  /-- The sequence, a statement or the commit failed for any other reason. -/
  | other
  deriving DecidableEq, Repr

/-- What a repository call returns. -/
inductive RepoResult
  /-- `Create`: no error, and the caller's flag is filled in. -/
  | created (flag : Flag)
  /-- `Update`, `Toggle`: the updated flag, or `nil` when there is no such flag. -/
  | flag (flag : Option Flag)
  /-- `Delete`: the version of the delete event. -/
  | deleted (version : Int)
  | error (err : RepoError)
  deriving DecidableEq, Repr

/-- The version a successful result carries. -/
def RepoResult.version? : RepoResult → Option Int
  | created f => some f.version
  | flag (some f) => some f.version
  | flag none => none
  | deleted v => some v
  | error _ => none

/-- What a call returns once its commit succeeds. -/
def Op.result (op : Op) (x : Locals) : RowWrite → RepoResult
  | .insert row => .created (op.scanned row x.version)
  | .update row => .flag (some (op.scanned row x.version))
  | .delete _ | .nothing => .deleted x.version

/-- How far a call has come: the last statement it has completed. -/
inductive Stage
  /-- Nothing sent to the database yet. -/
  | called
  | begun (now : Timestamp)
  /-- `Delete` has read the key of the row. -/
  | selected (now : Timestamp) (key : String)
  | numbered (x : Locals)
  /-- The `UPDATE` or `DELETE` found its row and queues for the row lock. -/
  | waiting (x : Locals)
  /-- The `UPDATE` returned no row. -/
  | unmatched (x : Locals)
  /-- The write statement is done. -/
  | written (x : Locals) (w : RowWrite)
  /-- The event is inserted too. -/
  | logged (x : Locals) (w : RowWrite) (ev : FlagEvent)
  | returned (r : RepoResult)
  deriving Repr

namespace Stage

/-- The version an open transaction has drawn. -/
def version? : Stage → Option Int
  | numbered x | waiting x | unmatched x | written x _ | logged x _ _ => some x.version
  | _ => none

/-- `Delete`'s `key`, once its `SELECT` has run. -/
def key? : Stage → Option String
  | selected _ key => some key
  | numbered x | waiting x | unmatched x | written x _ | logged x _ _ => some x.key
  | _ => none

/-- The uncommitted write of an open transaction. -/
def write? : Stage → Option (Locals × RowWrite)
  | written x w | logged x w _ => some (x, w)
  | _ => none

def isReturned : Stage → Bool
  | returned _ => true
  | _ => false

end Stage

/-- A call in progress. -/
structure Tx where
  op : Op
  stage : Stage
  deriving Repr

/-! ### The database and its steps -/

/-- The committed tables, the sequence, the locks and the calls in progress. -/
structure Db where
  flags : List FlagRow
  /-- `flag_events` in commit order. -/
  events : List FlagEvent
  /-- The last value of `config_version_seq`. -/
  seq : Int
  /-- The ids of `feature_flags` so far, of deleted rows too. -/
  uuids : List String
  /-- The holder of a row's lock, by row id. -/
  rowLock : String → Option TxId
  /-- The open transaction that has written a row of this key: what an `INSERT` of
  the key waits for. -/
  keyLock : String → Option TxId
  txs : TxId → Option Tx

/-- The largest value of a `BIGINT` sequence. -/
def maxVersion : Int := 2 ^ 63 - 1

namespace Db

def setStage (db : Db) (t : TxId) (op : Op) (st : Stage) : Db :=
  { db with txs := Function.update db.txs t (some ⟨op, st⟩) }

/-- Take the lock of a row. -/
def takeRowLock (db : Db) (t : TxId) (row : FlagRow) : Db :=
  { db with rowLock := Function.update db.rowLock row.id (some t) }

/-- Take the lock of a row and its key's place in the unique index. -/
def takeLocks (db : Db) (t : TxId) (row : FlagRow) : Db :=
  { db.takeRowLock t row with keyLock := Function.update db.keyLock row.key (some t) }

/-- Release what a transaction holds. -/
def release (db : Db) (t : TxId) : Db :=
  { db with
    rowLock := fun id => if db.rowLock id = some t then none else db.rowLock id
    keyLock := fun key => if db.keyLock key = some t then none else db.keyLock key }

/-- End the transaction and return to the caller. -/
def finish (db : Db) (t : TxId) (op : Op) (r : RepoResult) : Db :=
  (db.release t).setStage t op (.returned r)

/-- `nextVersion`: `SELECT nextval('config_version_seq')`. -/
def nextVersion (db : Db) (t : TxId) (op : Op) (now : Timestamp) (key : String) : Option Db :=
  if db.seq < maxVersion then
    some ({ db with seq := db.seq + 1 }.setStage t op (.numbered ⟨now, key, db.seq + 1⟩))
  else none

/-- A write statement that matched no row: `Update` and `Toggle` see `ErrNoRows`,
`Delete` does not look. -/
def matchedNoRow (db : Db) (t : TxId) (op : Op) (x : Locals) : Db :=
  db.setStage t op (if op.isDelete then .written x .nothing else .unmatched x)

/-- `Create`'s `INSERT`. -/
def insertFlag (db : Db) (t : TxId) (flag : Flag) (x : Locals) (uuid : String) : Option Db :=
  match flag.targetedUsers with
  | none => some (db.finish t (.create flag) (.error .constraintViolation))
  | some users =>
    let row := insertedRow flag users uuid x
    if row.columnsOk = false then
      some (db.finish t (.create flag) (.error .constraintViolation))
    else if uuid ∈ db.uuids then none
    else if (db.keyLock row.key).isSome then none
    else if (findByKey db.flags row.key).isSome then
      some (db.finish t (.create flag) (.error .uniqueViolation))
    else
      some (({ db with uuids := db.uuids ++ [uuid] }.takeLocks t row).setStage t (.create flag)
        (.written x (.insert row)))

/-- The `UPDATE` or `DELETE` has the lock of the row and its `WHERE` still holds. -/
def writeRow (db : Db) (t : TxId) (op : Op) (x : Locals) (row : FlagRow) : Db :=
  if op.isDelete then
    (db.takeLocks t row).setStage t op (.written x (.delete row))
  else if (op.postImage x row).columnsOk then
    (db.takeLocks t row).setStage t op (.written x (.update (op.postImage x row)))
  else
    db.finish t op (.error .constraintViolation)

/-- What a call whose `UPDATE` returned no row returns. Only a conditional `Update`
asks whether the row exists. -/
def noRowResult (db : Db) (op : Op) : RepoResult :=
  match op with
  | .update id req =>
    if req.expectedVersion.isSome && (findById db.flags id).isSome then .error .versionConflict
    else .flag none
  | _ => .flag none

end Db

/-- One statement of one call, with what the environment chooses for it. -/
inductive Action
  | call (t : TxId) (op : Op)
  /-- `Update` with nothing to change reads the flag and returns. -/
  | readById (t : TxId)
  | begin (t : TxId) (now : Timestamp)
  /-- `Delete`'s `SELECT key`. -/
  | selectKey (t : TxId)
  | nextval (t : TxId)
  /-- `Create`'s `INSERT`; `uuid` is what `uuid_generate_v4()` returns. -/
  | insert (t : TxId) (uuid : String)
  /-- The `UPDATE` or `DELETE` evaluates its `WHERE` on its snapshot. -/
  | scan (t : TxId)
  /-- It is granted the row lock and re-evaluates the `WHERE`. -/
  | lock (t : TxId)
  /-- The `ErrNoRows` branch of `Update` and `Toggle`. -/
  | noRow (t : TxId)
  | appendEvent (t : TxId)
  | commit (t : TxId)
  /-- The statement the call is at returns an error. -/
  | fail (t : TxId)
  deriving Repr

/-- The call that an action is a statement of. -/
def Action.tx : Action → TxId
  | call t _ | readById t | begin t _ | selectKey t | nextval t | insert t _ | scan t | lock t
  | noRow t | appendEvent t | commit t | fail t => t

/-- What one statement does; `none` when the call is not at that statement, or has to wait. -/
def step (db : Db) : Action → Option Db
  | .call t op =>
    match db.txs t with
    | none => some (db.setStage t op .called)
    | some _ => none
  | .readById t =>
    match db.txs t with
    | some ⟨op, .called⟩ =>
      if op.nothingToChange then some (db.finish t op (.flag (getByID db.flags op.flagId)))
      else none
    | _ => none
  | .begin t now =>
    match db.txs t with
    | some ⟨op, .called⟩ =>
      if op.nothingToChange then none else some (db.setStage t op (.begun now))
    | _ => none
  | .selectKey t =>
    match db.txs t with
    | some ⟨.delete id, .begun now⟩ =>
      match findById db.flags id with
      | none => some (db.finish t (.delete id) (.error .flagNotFound))
      | some row => some (db.setStage t (.delete id) (.selected now row.key))
    | _ => none
  | .nextval t =>
    match db.txs t with
    | some ⟨op, .begun now⟩ => if op.isDelete then none else db.nextVersion t op now ""
    | some ⟨op, .selected now key⟩ => db.nextVersion t op now key
    | _ => none
  | .insert t uuid =>
    match db.txs t with
    | some ⟨.create flag, .numbered x⟩ => db.insertFlag t flag x uuid
    | _ => none
  | .scan t =>
    match db.txs t with
    | some ⟨op, .numbered x⟩ =>
      if op.isCreate then none
      else if db.flags.any op.whereClause then some (db.setStage t op (.waiting x))
      else some (db.matchedNoRow t op x)
    | _ => none
  | .lock t =>
    match db.txs t with
    | some ⟨op, .waiting x⟩ =>
      if (db.rowLock op.flagId).isSome then none
      else
        match findById db.flags op.flagId with
        | none => some (db.matchedNoRow t op x)
        | some row =>
          if op.whereClause row then some (db.writeRow t op x row)
          else some ((db.takeRowLock t row).matchedNoRow t op x)
    | _ => none
  | .noRow t =>
    match db.txs t with
    | some ⟨op, .unmatched _⟩ => some (db.finish t op (db.noRowResult op))
    | _ => none
  | .appendEvent t =>
    match db.txs t with
    | some ⟨op, .written x w⟩ =>
      if db.events.any (fun e => e.version = (op.event x w).version) then
        some (db.finish t op (.error .uniqueViolation))
      else some (db.setStage t op (.logged x w (op.event x w)))
    | _ => none
  | .commit t =>
    match db.txs t with
    | some ⟨op, .logged x w ev⟩ =>
      some { db.finish t op (op.result x w) with
        flags := applyWrite db.flags w
        events := db.events ++ [ev] }
    | _ => none
  | .fail t =>
    match db.txs t with
    | some ⟨op, st⟩ => if st.isReturned then none else some (db.finish t op (.error .other))
    | none => none

/-! ### Commits -/

/-- What a transaction that commits brings along. -/
structure Commit where
  op : Op
  locals : Locals
  write : RowWrite
  event : FlagEvent
  deriving Repr

namespace Db

/-- The transaction that an action commits. -/
def committing (db : Db) : Action → Option Commit
  | .commit t =>
    match db.txs t with
    | some ⟨op, .logged x w ev⟩ => some ⟨op, x, w, ev⟩
    | _ => none
  | _ => none

/-- What a commit leaves. -/
def committed (db : Db) (t : TxId) (c : Commit) : Db :=
  { db.finish t c.op (c.op.result c.locals c.write) with
    flags := applyWrite db.flags c.write
    events := db.events ++ [c.event] }

end Db

/-! ### Where runs start -/

/-- Rows that migration 002 can leave: the `version` column has just been added. -/
structure Migrated (rows : List FlagRow) : Prop where
  keys : TableKeys rows
  version : ∀ r ∈ rows, r.version = 0
  columns : ∀ r ∈ rows, r.columnsOk = true

/-- The database right after migration 002: no event, no version drawn, no call. -/
def Db.migrated (rows : List FlagRow) : Db where
  flags := rows
  events := []
  seq := 0
  uuids := rows.map FlagRow.id
  rowLock := fun _ => none
  keyLock := fun _ => none
  txs := fun _ => none

theorem migrated_nil : Migrated [] :=
  ⟨⟨List.nodup_nil, List.nodup_nil⟩, by simp, by simp⟩

theorem migrated_checkoutRow : Migrated [checkoutRow] :=
  ⟨⟨List.nodup_singleton _, List.nodup_singleton _⟩, by decide, by decide⟩

/-- `checkout` under another id. -/
def rowOf (id : String) : FlagRow := { checkoutRow with id := id }

theorem migrated_rowOf (id : String) : Migrated [rowOf id] where
  keys := ⟨List.nodup_singleton _, List.nodup_singleton _⟩
  version r hr := by
    rw [List.mem_singleton.mp hr]
    rfl
  columns r hr := by
    rw [List.mem_singleton.mp hr]
    exact (show checkoutRow.columnsOk = true by decide)

/-- The run the examples start with: call 0 creates the flag `checkout` at version 1. -/
def createCheckout : List Action :=
  [.call 0 (.create ⟨"", "checkout", "", false, 0, some [], 0, 0, 0⟩), .begin 0 1, .nextval 0,
    .insert 0 "u", .appendEvent 0, .commit 0]

end FlagPlane
