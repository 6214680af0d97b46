import FlagPlane.Repository.Atomicity

/-!
# FlagPlane.Repository.Serial

**The writing calls are serializable.** `step` runs any number of calls statement by statement,
with locks; `serialStep` is a store without locks, in which a call that succeeds takes effect in
one step, on the tables as they are at that moment. Every run of the one is a run of the other:
same tables and same answers after every statement.

The store keeps what can be seen of the calls not being atomic:

* `Delete` reads the key of its row first (`see`). Its event carries that key, and is appended
  even when the row has gone by then;
* an `UPDATE` that finds no row (`miss`) is answered later (`refuse`), from the table of that
  later moment;
* versions are drawn before the calls take effect, so `run` may carry any version that no event has.
-/

namespace FlagPlane

/-! ### The serial store -/

/-- How far a call has come. -/
inductive Progress
  /-- Not returned. `key` is what `Delete` has read; `missed` says that an `UPDATE` has found no
  row. -/
  | pending (key : Option String) (missed : Bool)
  | returned (r : RepoResult)
  deriving DecidableEq, Repr

structure SerialCall where
  op : Op
  progress : Progress
  deriving DecidableEq, Repr

/-- The two tables and the calls. -/
structure SerialStore where
  flags : List FlagRow
  events : List FlagEvent
  calls : TxId → Option SerialCall

/-- Why a call returns without a write. -/
inductive Refusal
  /-- `Delete` finds no row. -/
  | gone
  /-- `Create`'s key is taken. -/
  | taken
  /-- The columns do not take the row to be written. -/
  | malformed (x : Locals)
  /-- The `UPDATE` has found no row. -/
  | noRow
  /-- A statement fails for any other reason. -/
  | broken
  deriving DecidableEq, Repr

inductive SerialAction
  | call (t : TxId) (op : Op)
  /-- `Update` with nothing to change reads the flag and returns. -/
  | read (t : TxId)
  | see (t : TxId)
  | miss (t : TxId)
  /-- The call takes effect and returns. -/
  | run (t : TxId) (x : Locals) (uuid : String)
  | refuse (t : TxId) (why : Refusal)
  deriving Repr

def SerialAction.tx : SerialAction → TxId
  | call t _ | read t | see t | miss t | run t _ _ | refuse t _ => t

namespace Op

/-- The whole write of a call that has the table to itself; `none` when the table does not
take it. -/
def serialWrite (flags : List FlagRow) (x : Locals) (uuid : String) (op : Op) : Option RowWrite :=
  match op with
  | create flag =>
    match flag.targetedUsers with
    | none => none
    | some users =>
      let row := insertedRow flag users uuid x
      if row.columnsOk ∧ findById flags uuid = none ∧ findByKey flags flag.key = none then
        some (.insert row)
      else none
  | update _ _ | toggle _ =>
    match flags.find? op.whereClause with
    | none => none
    | some row =>
      if (op.postImage x row).columnsOk then some (.update (op.postImage x row)) else none
  | delete id =>
    match findById flags id with
    | none => some .nothing
    | some row => if row.key = x.key then some (.delete row) else none

/-- The row a `Create` or an `UPDATE` would write is one the columns do not take. -/
def malformed (flags : List FlagRow) (x : Locals) (op : Op) : Bool :=
  match op with
  | create flag =>
    match flag.targetedUsers with
    | none => true
    | some users => !(insertedRow flag users "" x).columnsOk
  | update _ _ | toggle _ =>
    match flags.find? op.whereClause with
    | none => false
    | some row => !(op.postImage x row).columnsOk
  | delete _ => false

/-- The answer to a call whose `UPDATE` has found no row. -/
def noRowAnswer (flags : List FlagRow) : Op → RepoResult
  | update id req =>
    if req.expectedVersion.isSome && (findById flags id).isSome then .error .versionConflict
    else .flag none
  | _ => .flag none

/-- What a refused call returns; `none` when the table gives no such reason. -/
def refusal (flags : List FlagRow) (missed : Bool) (op : Op) : Refusal → Option RepoResult
  | .gone =>
    if op.isDelete ∧ findById flags op.flagId = none then some (.error .flagNotFound) else none
  | .taken =>
    match op with
    | create flag =>
      if (findByKey flags flag.key).isSome then some (.error .uniqueViolation) else none
    | _ => none
  | .malformed x => if op.malformed flags x then some (.error .constraintViolation) else none
  | .noRow => if missed then some (op.noRowAnswer flags) else none
  | .broken => some (.error .other)

end Op

def SerialStore.setCall (s : SerialStore) (t : TxId) (op : Op) (p : Progress) : SerialStore :=
  { s with calls := Function.update s.calls t (some ⟨op, p⟩) }

/-- Call `t` takes effect with write `w`. -/
def SerialStore.apply (s : SerialStore) (t : TxId) (op : Op) (x : Locals) (w : RowWrite) :
    SerialStore :=
  { s.setCall t op (.returned (op.result x w)) with
    flags := applyWrite s.flags w
    events := s.events ++ [op.event x w] }

/-- A step of the serial store; `none` when the tables or the call do not allow it. -/
def serialStep (s : SerialStore) : SerialAction → Option SerialStore
  | .call t op =>
    match s.calls t with
    | none => some (s.setCall t op (.pending none false))
    | some _ => none
  | .read t =>
    match s.calls t with
    | some ⟨op, .pending _ _⟩ =>
      if op.nothingToChange then
        some (s.setCall t op (.returned (.flag (getByID s.flags op.flagId))))
      else none
    | _ => none
  | .see t =>
    match s.calls t with
    | some ⟨.delete id, .pending none missed⟩ =>
      match findById s.flags id with
      | none => none
      | some row => some (s.setCall t (.delete id) (.pending (some row.key) missed))
    | _ => none
  | .miss t =>
    match s.calls t with
    | some ⟨op, .pending key _⟩ =>
      if op.isCreate ∨ op.isDelete ∨ s.flags.any op.whereClause then none
      else some (s.setCall t op (.pending key true))
    | _ => none
  | .run t x uuid =>
    match s.calls t with
    | some ⟨op, .pending key missed⟩ =>
      if missed = false ∧ op.nothingToChange = false ∧ (op.isDelete → key = some x.key) ∧
          0 < x.version ∧ ∀ e ∈ s.events, e.version ≠ x.version then
        (op.serialWrite s.flags x uuid).map (s.apply t op x)
      else none
    | _ => none
  | .refuse t why =>
    match s.calls t with
    | some ⟨op, .pending _ missed⟩ =>
      (op.refusal s.flags missed why).map fun r => s.setCall t op (.returned r)
    | _ => none

/-! ### The database seen as a serial store -/

/-- What a stage shows: only `Delete`'s key, that an `UPDATE` has found no row, and the answer. -/
def Stage.progress (op : Op) : Stage → Progress
  | .returned r => .returned r
  | .unmatched x => .pending (if op.isDelete then some x.key else none) true
  | st => .pending (if op.isDelete then st.key? else none) false

/-- The committed tables, and each call without its locks and its uncommitted writes. -/
def Db.serial (db : Db) : SerialStore where
  flags := db.flags
  events := db.events
  calls t := (db.txs t).map fun tx => ⟨tx.op, tx.stage.progress tx.op⟩

/-- The calls that get beyond their first statements. -/
structure Underway (db : Db) : Prop where
  /-- An `Update` that opens a transaction has something to change. -/
  changing : ∀ t op st, db.txs t = some ⟨op, st⟩ → st = .called ∨ st.isReturned = true ∨
    op.nothingToChange = false
  /-- `Create` queues for no row. -/
  waiting : ∀ t op x, db.txs t = some ⟨op, .waiting x⟩ → op.isCreate = false

section Step

variable {db db' : Db} {a : Action} {t : TxId} {op : Op} {st st' : Stage} {x : Locals}
  {w : RowWrite} {row : FlagRow}

theorem serial_calls_eq (db : Db) (t : TxId) :
    db.serial.calls t = (db.txs t).map fun tx => ⟨tx.op, tx.stage.progress tx.op⟩ := rfl

theorem serial_setStage (db : Db) (t : TxId) (op : Op) (st : Stage) :
    (db.setStage t op st).serial = db.serial.setCall t op (st.progress op) := by
  suffices hcalls : (db.setStage t op st).serial.calls =
      Function.update db.serial.calls t (some ⟨op, st.progress op⟩) from
    congrArg (SerialStore.mk db.flags db.events) hcalls
  funext u
  by_cases hut : u = t
  · subst hut
    rw [Function.update_self, serial_calls_eq, Db.setStage_txs_self, Option.map_some]
  · rw [Function.update_of_ne hut, serial_calls_eq, serial_calls_eq,
      Db.setStage_txs_of_ne _ _ _ hut]

theorem serial_finish (db : Db) (t : TxId) (op : Op) (r : RepoResult) :
    (db.finish t op r).serial = db.serial.setCall t op (.returned r) :=
  serial_setStage (db.release t) t op (.returned r)

theorem serial_calls (h : db.txs t = some ⟨op, st⟩) :
    db.serial.calls t = some ⟨op, st.progress op⟩ := by
  rw [serial_calls_eq, h, Option.map_some]

/-- A call that moves to a stage that shows the same. -/
theorem serial_setStage_same (h : db.txs t = some ⟨op, st⟩)
    (hst : st'.progress op = st.progress op) : (db.setStage t op st').serial = db.serial := by
  rw [serial_setStage, hst, SerialStore.setCall, ← serial_calls h, Function.update_eq_self]

/-- A statement is at most one step of the store, of the same call. -/
def Matched (a : Action) (bs : List SerialAction) : Prop :=
  bs.length ≤ 1 ∧ ∀ b ∈ bs, b.tx = a.tx

theorem matched_none (h : db'.serial = db.serial) :
    ∃ bs, Matched a bs ∧ exec serialStep db.serial bs = some db'.serial :=
  ⟨[], ⟨by simp, by simp⟩, by rw [h, exec_nil]⟩

theorem matched_one {b : SerialAction} (htx : b.tx = a.tx)
    (h : serialStep db.serial b = some db'.serial) :
    ∃ bs, Matched a bs ∧ exec serialStep db.serial bs = some db'.serial :=
  ⟨[b], ⟨by simp, by simpa using htx⟩, exec_cons_eq_some.mpr ⟨_, h, rfl⟩⟩

theorem serialStep_refuse {why : Refusal} {r : RepoResult} (h : db.txs t = some ⟨op, st⟩)
    {key : Option String} {missed : Bool} (hst : st.progress op = .pending key missed)
    (hwhy : op.refusal db.flags missed why = some r) :
    serialStep db.serial (.refuse t why) = some (db.finish t op r).serial := by
  rw [serialStep, serial_calls h, hst]
  dsimp only
  rw [show db.serial.flags = db.flags from rfl, hwhy, Option.map_some, serial_finish]

theorem progress_pending (op : Op) (h : st.isReturned = false) :
    ∃ key missed, st.progress op = .pending key missed := by
  cases st with
  | returned r => cases h
  | called | begun _ | selected _ _ | numbered _ | waiting _ | unmatched _ | written _ _
  | logged _ _ _ => exact ⟨_, _, rfl⟩

/-- With unique ids, the row that a `WHERE` clause selects is the row of the call's id. -/
theorem find_whereClause (h : DbInv db) (hrow : row ∈ db.flags)
    (hwhere : op.whereClause row = true) :
    db.flags.find? op.whereClause = some row := by
  cases hfind : db.flags.find? op.whereClause with
  | none =>
      have hno := List.find?_eq_none.mp hfind row hrow
      exact absurd hwhere hno
  | some r =>
      have hr : op.whereClause r = true := List.find?_some hfind
      have hid : r.id = row.id := (Op.whereClause_id hr).trans (Op.whereClause_id hwhere).symm
      rw [h.table.eq_of_id (List.mem_of_find?_eq_some hfind) hrow hid]

/-- The row of the id fails the `WHERE` clause, and there is no other. -/
theorem any_whereClause_of_fails {flags : List FlagRow} (h : TableKeys flags) (hrow : row ∈ flags)
    (hid : row.id = op.flagId) (hwhere : op.whereClause row = false) :
    flags.any op.whereClause = false := by
  rw [List.any_eq_false]
  intro r hr hr'
  rw [h.eq_of_id hr hrow ((Op.whereClause_id hr').trans hid.symm), hwhere] at hr'
  cases hr'

/-- An `UPDATE` that finds no row. -/
theorem serialStep_miss (h : db.txs t = some ⟨op, st⟩) (hst : st = .numbered x ∨ st = .waiting x)
    (hcreate : op.isCreate = false) (hdel : op.isDelete = false)
    (hany : db.flags.any op.whereClause = false) :
    serialStep db.serial (.miss t) = some (db.setStage t op (.unmatched x)).serial := by
  have hprogress : st.progress op = .pending none false := by
    rcases hst with rfl | rfl <;> simp [Stage.progress, hdel]
  rw [serialStep, serial_calls h, hprogress, serial_setStage]
  simp [hcreate, hdel, hany, Stage.progress, Db.serial]

theorem serialStep_run {s : SerialStore} {key : Option String} {uuid : String}
    (h : s.calls t = some ⟨op, .pending key false⟩) (hop : op.nothingToChange = false)
    (hkey : op.isDelete = true → key = some x.key) (hpos : 0 < x.version)
    (hnew : ∀ e ∈ s.events, e.version ≠ x.version) (hw : op.serialWrite s.flags x uuid = some w) :
    serialStep s (.run t x uuid) = some (s.apply t op x w) := by
  rw [serialStep, h]
  dsimp only
  rw [if_pos ⟨rfl, hop, hkey, hpos, hnew⟩, hw, Option.map_some]

/-- An uncommitted write is what the call would write now, had it the table to itself. -/
theorem WriteInv.serialWrite (h : DbInv db) (htx : TxInv db t ⟨op, st⟩)
    (hkey : st.key? = some x.key) (hw : WriteInv db t op x w) :
    ∃ uuid, op.serialWrite db.flags x uuid = some w := by
  cases w with
  | insert row =>
      obtain ⟨⟨flag, users, uuid, rfl, husers, rfl⟩, hok, -, hnew, -⟩ := hw
      refine ⟨uuid, ?_⟩
      rw [Op.serialWrite, husers]
      exact if_pos ⟨hok, findById_eq_none.mpr fun r hr => (hnew r hr).1,
        findByKey_eq_none.mpr fun r hr => (hnew r hr).2⟩
  | update row =>
      obtain ⟨r, hr, hdel, hwhere, rfl, hok, -⟩ := hw
      refine ⟨"", ?_⟩
      have hfind := find_whereClause h hr hwhere
      cases op with
      | create flag => simp [Op.whereClause] at hwhere
      | delete id => simp [Op.isDelete] at hdel
      | update id req | toggle id => rw [Op.serialWrite, hfind]; exact if_pos hok
  | delete row =>
      obtain ⟨hr, rfl, -⟩ := hw
      refine ⟨"", ?_⟩
      rw [Op.serialWrite, h.table.findById_eq_some.mpr ⟨hr, rfl⟩]
      exact if_pos ((htx.key _ _ rfl hkey).2 row hr rfl)
  | nothing =>
      obtain ⟨id, rfl, hgone⟩ := hw
      exact ⟨"", by rw [Op.serialWrite, findById_eq_none.mpr hgone]⟩

/-- A commit is the whole call. -/
theorem commit_serial (h : DbInv db) (hway : Underway db) {c : Commit}
    (ht : db.txs t = some ⟨c.op, .logged c.locals c.write c.event⟩) :
    ∃ bs, Matched (.commit t) bs ∧
      exec serialStep db.serial bs = some (db.committed t c).serial := by
  have htx := h.tx t _ ht
  obtain ⟨uuid, hwrite⟩ := (h.writeInv ht).serialWrite h htx rfl
  obtain ⟨hpos, -, hnew⟩ := htx.version c.locals.version rfl
  have hop : c.op.nothingToChange = false := by
    rcases hway.changing t _ _ ht with hst | hst | hop
    · cases hst
    · cases hst
    · exact hop
  refine matched_one (b := .run t c.locals uuid) rfl ?_
  rw [serialStep_run (serial_calls ht) hop (fun hdel => if_pos hdel) hpos hnew hwrite,
    SerialStore.apply, ← serial_finish, ← h.event_eq ht]
  rfl

/-- A call that returns without a commit. -/
theorem finish_serial (hinv : DbInv db) (ha : a.tx = t) (ht : db.txs t = some ⟨op, st⟩)
    (hret : st.isReturned = false) {r : RepoResult} (h : Returns db t a op r)
    (hcommit : a ≠ .commit t) :
    ∃ bs, Matched a bs ∧ exec serialStep db.serial bs = some (db.finish t op r).serial := by
  obtain ⟨key, missed, hst⟩ := progress_pending op hret
  have hrefuse : ∀ why, op.refusal db.flags missed why = some r →
      ∃ bs, Matched a bs ∧ exec serialStep db.serial bs = some (db.finish t op r).serial :=
    fun why hwhy => matched_one (b := .refuse t why) ha.symm (serialStep_refuse ht hst hwhy)
  cases h with
  | read hop =>
      refine matched_one (b := .read t) rfl ?_
      rw [serialStep, serial_calls ht, hst, serial_finish]
      exact if_pos hop
  | gone hrow => exact hrefuse .gone (if_pos ⟨rfl, hrow⟩)
  | nilUsers husers =>
      refine hrefuse (.malformed ⟨0, "", 0⟩) ?_
      simp [Op.refusal, Op.malformed, husers]
  | refused _ hrow hok =>
      cases op with
      | create flag =>
          obtain ⟨users, uuid, x, husers, rfl⟩ := hrow
          have hok : (insertedRow flag users "" x).columnsOk = false := hok
          exact hrefuse (.malformed x) (by simp [Op.refusal, Op.malformed, husers, hok])
      | update id req | toggle id =>
          obtain ⟨x, r, hr, hwhere, rfl⟩ := hrow
          have hfind := find_whereClause hinv hr hwhere
          exact hrefuse (.malformed x) (by simp [Op.refusal, Op.malformed, hfind, hok])
      | delete id => cases hrow
  | duplicate hkey => exact hrefuse .taken (if_pos hkey)
  | noRow hunmatched =>
      obtain rfl : st = .unmatched _ := by simpa using ht.symm.trans hunmatched
      obtain ⟨-, rfl⟩ := Progress.pending.inj hst
      exact hrefuse .noRow rfl
  | eventTaken hwritten hev =>
      obtain ⟨e, he, hv⟩ := hev
      rw [Op.event_version] at hv
      exact absurd hv (((hinv.tx t _ hwritten).version _ rfl).2.2 e he)
  | commit => exact absurd rfl hcommit
  | fail => exact hrefuse .broken rfl

/-- The first statement of an `Update` with nothing to change is its last. -/
theorem step_called (ht : db.txs a.tx = some ⟨op, .called⟩) (h : step db a = some db') :
    (∃ r, db'.txs a.tx = some ⟨op, .returned r⟩) ∨ op.nothingToChange = false := by
  cases step_effect h with
  | call hu => cases ht.symm.trans hu
  | progress ha hu _ _ _ _ _ _ hmoves =>
      obtain ⟨rfl, rfl⟩ := Tx.mk.inj (Option.some.inj ((ha ▸ ht).symm.trans hu))
      cases hmoves with
      | begin hop => exact Or.inr hop
  | draw hu _ _ _ _ _ hstage =>
      cases ht.symm.trans hu
      rcases hstage with ⟨now, hst⟩ | ⟨now, key, hst⟩
      · cases hst
      · cases hst
  | vanish ha hu hst =>
      subst ha
      cases ht.symm.trans hu
      rcases hst with hst | hst
      · cases hst
      · cases hst
  | finish ha hu =>
      subst ha
      obtain ⟨rfl, -⟩ := Tx.mk.inj (Option.some.inj (ht.symm.trans hu))
      exact Or.inl ⟨_, Db.setStage_txs_self _ _ _ _⟩
  | select hu | insert hu | update hu | remove hu | recheck hu | log hu | commit hu =>
      cases ht.symm.trans hu

theorem Underway.changing_step (hway : Underway db) (h : step db a = some db')
    (ht : db'.txs t = some ⟨op, st⟩) :
    st = .called ∨ st.isReturned = true ∨ op.nothingToChange = false := by
  have hmove : ∀ {txs : TxId → Option Tx} {u : TxId} {op' : Op} {st₀ st' : Stage},
      txs = db.txs → a.tx = u → db.txs u = some ⟨op', st₀⟩ → st₀.isReturned = false →
      db'.txs = Function.update txs u (some ⟨op', st'⟩) →
      st = .called ∨ st.isReturned = true ∨ op.nothingToChange = false := by
    intro txs u op' st₀ st' htxs ha hu hret hdb'
    subst htxs ha
    rw [hdb'] at ht
    rcases update_some_cases ht with ⟨-, heq⟩ | ⟨-, hold⟩
    · cases heq
      rcases hway.changing _ _ _ hu with rfl | hst | hop
      · rcases step_called hu h with ⟨r, hr⟩ | hop
        · rw [hdb', Function.update_self] at hr
          cases hr
          exact Or.inr (Or.inl rfl)
        · exact Or.inr (Or.inr hop)
      · rw [hret] at hst
        cases hst
      · exact Or.inr (Or.inr hop)
    · exact hway.changing t op st hold
  cases step_effect h with
  | call _ =>
      rcases update_some_cases ht with ⟨-, heq⟩ | ⟨-, hold⟩
      · cases heq
        exact Or.inl rfl
      · exact hway.changing t op st hold
  | progress ha hu hret | finish ha hu hret => exact hmove rfl ha hu hret rfl
  | vanish ha hu hst => rcases hst with rfl | rfl <;> exact hmove rfl ha hu rfl rfl
  | draw hu hret => exact hmove rfl rfl hu hret rfl
  | select hu | insert hu | update hu | remove hu | recheck hu | log hu | commit hu =>
      exact hmove rfl rfl hu rfl rfl

/-- A call comes to queue for its row by evaluating its `WHERE`. -/
theorem step_waiting (h : step db a = some db') (ht : db'.txs t = some ⟨op, .waiting x⟩) :
    db.txs t = some ⟨op, .waiting x⟩ ∨ op.isCreate = false := by
  by_cases hta : t = a.tx
  swap
  · exact Or.inl (step_txs_of_ne h hta ▸ ht)
  subst hta
  refine Or.inr ?_
  have hself : ∀ {db₁ : Db} {op' : Op} {st' : Stage},
      (db₁.setStage a.tx op' st').txs a.tx = some ⟨op, .waiting x⟩ → op' = op ∧ st' = .waiting x := by
    intro db₁ op' st' hset
    rw [Db.setStage_txs_self] at hset
    exact Tx.mk.inj (Option.some.inj hset)
  cases step_effect h with
  | progress ha _ _ _ _ _ _ _ hmoves =>
      obtain ⟨rfl, rfl⟩ := hself (ha.symm ▸ ht)
      cases hmoves with
      | queue hcreate => exact hcreate
  | vanish ha | finish ha =>
      subst ha
      cases (hself ht).2
  | commit =>
      cases (Function.update_self ..).symm.trans ht
  | call | select | draw | insert | update | remove | recheck | log => cases (hself ht).2

theorem Underway.step (hway : Underway db) (h : FlagPlane.step db a = some db') :
    Underway db' where
  changing _ _ _ ht := hway.changing_step h ht
  waiting t op x ht := by
    rcases step_waiting h ht with hold | hcreate
    · exact hway.waiting t op x hold
    · exact hcreate

/-- What a call has learned does not change when it draws its version. -/
theorem progress_draw (hkey : op.isDelete → st.key? = some x.key)
    (hstage : (∃ now, st = .begun now) ∨ ∃ now key, st = .selected now key) :
    (Stage.numbered x).progress op = st.progress op := by
  by_cases hdel : op.isDelete = true
  · have hkey := hkey hdel
    rcases hstage with ⟨now, rfl⟩ | ⟨now, key, rfl⟩
    · cases hkey
    · obtain rfl : key = x.key := Option.some.inj hkey
      rfl
  · rcases hstage with ⟨now, rfl⟩ | ⟨now, key, rfl⟩ <;> simp [Stage.progress, hdel]

/-- **One statement.** -/
theorem step_serial (hinv : DbInv db) (hway : Underway db) (h : step db a = some db') :
    ∃ bs, Matched a bs ∧ exec serialStep db.serial bs = some db'.serial := by
  cases step_effect h with
  | @call t op ht =>
      refine matched_one (b := .call t op) rfl ?_
      rw [serialStep, serial_calls_eq, ht, Option.map_none, serial_setStage]
      simp [Stage.progress, Stage.key?]
  | progress ha ht _ _ _ _ _ _ hmoves =>
      cases hmoves with
      | begin | queue => exact matched_none (serial_setStage_same ht rfl)
      | miss hcreate hdel hany =>
          exact matched_one (b := .miss _) rfl (serialStep_miss ht (Or.inl rfl) hcreate hdel hany)
      | lost hdel hany =>
          have hcreate := hway.waiting _ _ _ ht
          exact matched_one (b := .miss _) rfl (serialStep_miss ht (Or.inr rfl) hcreate hdel hany)
  | @select t id now row ht hrow =>
      refine matched_one (b := .see t) rfl ?_
      rw [serialStep, serial_calls ht, serial_setStage]
      show (match findById db.flags id with | none => none | some row => _) = _
      rw [hrow]
      rfl
  | draw ht _ _ hkey _ _ hstage =>
      exact matched_none (serial_setStage_same ht (progress_draw hkey hstage))
  | vanish _ ht hst =>
      refine matched_none (serial_setStage_same ht ?_)
      rcases hst with rfl | rfl <;> rfl
  | insert ht | update ht | remove ht | log ht => exact matched_none (serial_setStage_same ht rfl)
  | @recheck t op x row ht _ hrow hid hwhere =>
      have hdel : op.isDelete = false := by
        by_contra hdel
        have hfinds := Op.whereClause_delete (by simpa using hdel) hid
        cases hfinds.symm.trans hwhere
      have hany := any_whereClause_of_fails hinv.table hrow hid hwhere
      have hlocked : (db.takeRowLock t row).txs t = some ⟨op, .waiting x⟩ := ht
      exact matched_one (b := .miss t) rfl
        (serialStep_miss hlocked (Or.inr rfl) (hway.waiting t op x ht) hdel hany)
  | commit ht => exact commit_serial hinv hway ht
  | finish ha ht hret _ hreturns hcommit =>
      exact finish_serial hinv ha ht hret hreturns hcommit

end Step

/-! ### Runs -/

/-- The serial store on rows that migration 002 has left. -/
def SerialStore.migrated (rows : List FlagRow) : SerialStore :=
  ⟨rows, [], fun _ => none⟩

theorem underway_migrated (rows : List FlagRow) : Underway (Db.migrated rows) where
  changing _ _ _ ht := by cases ht
  waiting _ _ _ ht := by cases ht

/-- **The calls are serializable.** For every run of interleaved calls there is a run of the
serial store, at most one step of the same call for each statement, such that after any number
of statements tables and answers are the same. A call that succeeds takes effect in one of these
steps. -/
theorem calls_serializable {rows : List FlagRow} (hrows : Migrated rows) {as : List Action}
    {db : Db} (hrun : exec step (Db.migrated rows) as = some db) :
    ∃ bss, List.Forall₂ Matched as bss ∧
      ∀ k db₁, exec step (Db.migrated rows) (as.take k) = some db₁ →
        exec serialStep (SerialStore.migrated rows) (bss.take k).flatten = some db₁.serial := by
  have hstart : DbInv (Db.migrated rows) ∧ Underway (Db.migrated rows) ∧
      SerialStore.migrated rows = (Db.migrated rows).serial :=
    ⟨hrows.dbInv, underway_migrated rows, rfl⟩
  have hstep : ∀ {db : Db} {a : Action} {db' : Db} {s : SerialStore},
      (DbInv db ∧ Underway db ∧ s = db.serial) → step db a = some db' →
      ∃ bs s', Matched a bs ∧ exec serialStep s bs = some s' ∧
        (DbInv db' ∧ Underway db' ∧ s' = db'.serial) := by
    intro db a db' s hR hs
    obtain ⟨hinv, hway, rfl⟩ := hR
    obtain ⟨bs, hmatched, hbs⟩ := step_serial hinv hway hs
    exact ⟨bs, _, hmatched, hbs, hinv.step hs, hway.step hs, rfl⟩
  obtain ⟨bss, hall, hruns⟩ := exec_simulates
    (R := fun db s => DbInv db ∧ Underway db ∧ s = db.serial) (fun hR hs => hstep hR hs)
    hstart hrun
  refine ⟨bss, hall, fun k db₁ hk => ?_⟩
  obtain ⟨s, hs, -, -, rfl⟩ := hruns k db₁ hk
  exact hs

/-- The update that loses against the toggle is refused in a step of its own. -/
theorem calls_serializable_conflictingUpdate :
    ∃ bss, List.Forall₂ Matched conflictingUpdate bss ∧
      ∀ k db₁, exec step (Db.migrated [checkoutRow]) (conflictingUpdate.take k) = some db₁ →
        exec serialStep (SerialStore.migrated [checkoutRow]) (bss.take k).flatten =
          some db₁.serial := by
  obtain ⟨db, hrun⟩ : ∃ db, exec step (Db.migrated [checkoutRow]) conflictingUpdate = some db :=
    ⟨_, rfl⟩
  exact calls_serializable migrated_checkoutRow hrun

end FlagPlane
