import FlagPlane.Repository.Transaction

/-!
# FlagPlane.Repository.Effect

**What one statement can do**, sorted by what it changes. `step` follows the source;
`Effect` lists its outcomes with the facts each one leaves behind. `Returns` has the ways in which
a call returns, error by error, and `Moves` those in which it goes on without a write. Every
invariant of the database is proved by cases on `Effect`, and no proof after this module takes
`step` apart.
-/

namespace FlagPlane

/-- The rows that a call's write statement can leave, given the table it finds. -/
def Op.Leaves (flags : List FlagRow) (op : Op) (row : FlagRow) : Prop :=
  match op with
  | create flag => ∃ users uuid x, flag.targetedUsers = some users ∧
      row = insertedRow flag users uuid x
  | update _ _ | toggle _ => ∃ x, ∃ r ∈ flags, op.whereClause r = true ∧ row = op.postImage x r
  | delete _ => False

/-- The ways in which call `t` returns. -/
inductive Returns (db : Db) (t : TxId) : Action → Op → RepoResult → Prop
  /-- `Update` with nothing to change. -/
  | read {op : Op} (hop : op.nothingToChange = true) :
      Returns db t (.readById t) op (.flag (getByID db.flags op.flagId))
  /-- `Delete` finds no row. -/
  | gone {id : String} (hrow : findById db.flags id = none) :
      Returns db t (.selectKey t) (.delete id) (.error .flagNotFound)
  /-- `Create` of a flag with a `nil` user list. -/
  | nilUsers {flag : Flag} {uuid : String} (husers : flag.targetedUsers = none) :
      Returns db t (.insert t uuid) (.create flag) (.error .constraintViolation)
  /-- The columns do not take the row. -/
  | refused {a : Action} {op : Op} {row : FlagRow} (ha : a = .lock t ∨ ∃ uuid, a = .insert t uuid)
      (hrow : op.Leaves db.flags row) (hok : row.columnsOk = false) :
      Returns db t a op (.error .constraintViolation)
  /-- `Create`'s `INSERT` meets a committed row of its key. -/
  | duplicate {flag : Flag} {uuid : String} (hkey : (findByKey db.flags flag.key).isSome) :
      Returns db t (.insert t uuid) (.create flag) (.error .uniqueViolation)
  | noRow {op : Op} {x : Locals} (ht : db.txs t = some ⟨op, .unmatched x⟩) :
      Returns db t (.noRow t) op (db.noRowResult op)
  /-- The event's version is taken. -/
  | eventTaken {op : Op} {x : Locals} {w : RowWrite} (ht : db.txs t = some ⟨op, .written x w⟩)
      (hev : ∃ e ∈ db.events, e.version = (op.event x w).version) :
      Returns db t (.appendEvent t) op (.error .uniqueViolation)
  | commit {c : Commit} (ht : db.txs t = some ⟨c.op, .logged c.locals c.write c.event⟩) :
      Returns db t (.commit t) c.op (c.op.result c.locals c.write)
  | fail {op : Op} : Returns db t (.fail t) op (.error .other)

/-- How a call moves on without a write and without a return. -/
inductive Moves (db : Db) (t : TxId) : Action → Op → Stage → Stage → Prop
  | begin {op : Op} {now : Timestamp} (hop : op.nothingToChange = false) :
      Moves db t (.begin t now) op .called (.begun now)
  /-- A row is there, and the call queues for it. -/
  | queue {op : Op} {x : Locals} (hcreate : op.isCreate = false) :
      Moves db t (.scan t) op (.numbered x) (.waiting x)
  /-- An `UPDATE` finds no row. -/
  | miss {op : Op} {x : Locals} (hcreate : op.isCreate = false) (hdel : op.isDelete = false)
      (hany : db.flags.any op.whereClause = false) :
      Moves db t (.scan t) op (.numbered x) (.unmatched x)
  /-- The row has gone when the lock is free. -/
  | lost {op : Op} {x : Locals} (hdel : op.isDelete = false)
      (hany : db.flags.any op.whereClause = false) :
      Moves db t (.lock t) op (.waiting x) (.unmatched x)

/-- The outcomes of one statement of call `t`. -/
inductive Effect (db : Db) : Action → Db → Prop
  /-- A new call. -/
  | call {t : TxId} {op : Op} (ht : db.txs t = none) :
      Effect db (.call t op) (db.setStage t op .called)
  /-- The call moves on; nothing is written and nothing new is learned. -/
  | progress {a : Action} {t : TxId} {op : Op} {st st' : Stage}
      (ha : a.tx = t) (ht : db.txs t = some ⟨op, st⟩) (hret : st.isReturned = false)
      (hret' : st'.isReturned = false)
      (hv : st'.version? = none ∨ st'.version? = st.version?)
      (hk : ∀ key, st'.key? = some key → st.key? = some key)
      (hw : st.write? = none) (hw' : st'.write? = none) (hmoves : Moves db t a op st st') :
      Effect db a (db.setStage t op st')
  /-- `Delete` reads the key of its row. -/
  | select {t : TxId} {id : String} {now : Timestamp} {row : FlagRow}
      (ht : db.txs t = some ⟨.delete id, .begun now⟩) (hrow : findById db.flags id = some row) :
      Effect db (.selectKey t) (db.setStage t (.delete id) (.selected now row.key))
  /-- A version is drawn. -/
  | draw {t : TxId} {op : Op} {st : Stage} {x : Locals}
      (ht : db.txs t = some ⟨op, st⟩) (hret : st.isReturned = false) (hw : st.write? = none)
      (hkey : op.isDelete → st.key? = some x.key) (hx : x.version = db.seq + 1)
      (hseq : db.seq < maxVersion)
      (hstage : (∃ now, st = .begun now) ∨ ∃ now key, st = .selected now key) :
      Effect db (.nextval t) ({ db with seq := db.seq + 1 }.setStage t op (.numbered x))
  /-- A `DELETE` finds no row. -/
  | vanish {a : Action} {t : TxId} {id : String} {st : Stage} {x : Locals}
      (ha : a.tx = t) (ht : db.txs t = some ⟨.delete id, st⟩)
      (hst : st = .numbered x ∨ st = .waiting x)
      (hrow : findById db.flags id = none) :
      Effect db a (db.setStage t (.delete id) (.written x .nothing))
  | insert {t : TxId} {flag : Flag} {users : List String} {uuid : String} {x : Locals}
      (ht : db.txs t = some ⟨.create flag, .numbered x⟩)
      (husers : flag.targetedUsers = some users)
      (hok : (insertedRow flag users uuid x).columnsOk = true)
      (huuid : uuid ∉ db.uuids) (hfree : db.keyLock flag.key = none)
      (hkey : findByKey db.flags flag.key = none) :
      Effect db (.insert t uuid)
        (({ db with uuids := db.uuids ++ [uuid] }.takeLocks t
          (insertedRow flag users uuid x)).setStage
          t (.create flag) (.written x (.insert (insertedRow flag users uuid x))))
  | update {t : TxId} {op : Op} {x : Locals} {row : FlagRow}
      (ht : db.txs t = some ⟨op, .waiting x⟩) (hdel : op.isDelete = false)
      (hfree : db.rowLock row.id = none) (hrow : row ∈ db.flags)
      (hwhere : op.whereClause row = true)
      (hok : (op.postImage x row).columnsOk = true) :
      Effect db (.lock t)
        ((db.takeLocks t row).setStage t op (.written x (.update (op.postImage x row))))
  | remove {t : TxId} {id : String} {x : Locals} {row : FlagRow}
      (ht : db.txs t = some ⟨.delete id, .waiting x⟩)
      (hfree : db.rowLock row.id = none) (hrow : row ∈ db.flags) (hid : row.id = id) :
      Effect db (.lock t)
        ((db.takeLocks t row).setStage t (.delete id) (.written x (.delete row)))
  /-- The locked row fails the re-check of an `UPDATE`. -/
  | recheck {t : TxId} {op : Op} {x : Locals} {row : FlagRow}
      (ht : db.txs t = some ⟨op, .waiting x⟩)
      (hfree : db.rowLock row.id = none) (hrow : row ∈ db.flags) (hid : row.id = op.flagId)
      (hwhere : op.whereClause row = false) :
      Effect db (.lock t) ((db.takeRowLock t row).setStage t op (.unmatched x))
  | log {t : TxId} {op : Op} {x : Locals} {w : RowWrite}
      (ht : db.txs t = some ⟨op, .written x w⟩) :
      Effect db (.appendEvent t) (db.setStage t op (.logged x w (op.event x w)))
  | commit {t : TxId} {c : Commit}
      (ht : db.txs t = some ⟨c.op, .logged c.locals c.write c.event⟩) :
      Effect db (.commit t) (db.committed t c)
  /-- The call returns without committing: an error, `nil`, or a plain read. -/
  | finish {a : Action} {t : TxId} {op : Op} {st : Stage} {r : RepoResult}
      (ha : a.tx = t) (ht : db.txs t = some ⟨op, st⟩) (hret : st.isReturned = false)
      (hr : r.version? = none ∨
        (op.nothingToChange = true ∧ r = .flag (getByID db.flags op.flagId)))
      (hreturns : Returns db t a op r) (hcommit : a ≠ .commit t) :
      Effect db a (db.finish t op r)

variable {db db' : Db} {a : Action}

/-- The `WHERE` clauses all ask for the call's id. -/
theorem Op.whereClause_id {op : Op} {r : FlagRow} (h : op.whereClause r = true) :
    r.id = op.flagId := by
  cases op with
  | create _ => simp [whereClause] at h
  | update _ _ =>
      rw [whereClause, Bool.and_eq_true] at h
      exact of_decide_eq_true h.1
  | toggle _ | delete _ => exact of_decide_eq_true h

theorem Op.whereClause_delete {op : Op} {r : FlagRow} (hdel : op.isDelete = true)
    (hid : r.id = op.flagId) : op.whereClause r = true := by
  cases op with
  | delete _ => exact decide_eq_true hid
  | create _ | update _ _ | toggle _ => simp [isDelete] at hdel

/-- No row of the id, so none that the `WHERE` clause selects. -/
theorem any_whereClause_of_gone {flags : List FlagRow} {op : Op}
    (hrow : findById flags op.flagId = none) : flags.any op.whereClause = false := by
  rw [List.any_eq_false]
  intro r hr hwhere
  exact findById_eq_none.mp hrow r hr (Op.whereClause_id hwhere)

theorem findById_of_any_whereClause {flags : List FlagRow} {op : Op} (hdel : op.isDelete = true)
    (hany : flags.any op.whereClause = false) : findById flags op.flagId = none := by
  refine findById_eq_none.mpr fun r hr hid => ?_
  exact List.any_eq_false.mp hany r hr (Op.whereClause_delete hdel hid)

/-- A write statement that matched no row. -/
theorem matchedNoRow_effect {t : TxId} {op : Op} {st : Stage} {x : Locals}
    (ha : a.tx = t) (ht : db.txs t = some ⟨op, st⟩) (hst : st = .numbered x ∨ st = .waiting x)
    (hany : db.flags.any op.whereClause = false)
    (hmoves : op.isDelete = false → Moves db t a op st (.unmatched x)) :
    Effect db a (db.matchedNoRow t op x) := by
  rw [Db.matchedNoRow]
  by_cases hdel : op.isDelete = true
  · rw [if_pos hdel]
    have hrow := findById_of_any_whereClause hdel hany
    cases op with
    | delete id => exact .vanish ha ht hst hrow
    | create _ | update _ _ | toggle _ => simp [Op.isDelete] at hdel
  · rw [if_neg hdel]
    have hmoves := hmoves (by simpa using hdel)
    rcases hst with rfl | rfl <;>
      exact .progress ha ht rfl rfl (Or.inr rfl) (fun _ h => h) rfl rfl hmoves

theorem insertFlag_effect {t : TxId} {flag : Flag} {x : Locals} {uuid : String}
    (ht : db.txs t = some ⟨.create flag, .numbered x⟩)
    (h : db.insertFlag t flag x uuid = some db') : Effect db (.insert t uuid) db' := by
  rw [Db.insertFlag] at h
  cases husers : flag.targetedUsers with
  | none =>
      rw [husers] at h
      obtain rfl := Option.some.inj h
      exact .finish rfl ht rfl (Or.inl rfl) (.nilUsers husers) nofun
  | some users =>
      rw [husers] at h
      dsimp only at h
      split at h
      · rename_i hok
        obtain rfl := Option.some.inj h
        exact .finish rfl ht rfl (Or.inl rfl)
          (.refused (Or.inr ⟨uuid, rfl⟩) ⟨users, uuid, x, husers, rfl⟩ hok) nofun
      split at h
      · cases h
      split at h
      · cases h
      split at h
      · rename_i hkey
        obtain rfl := Option.some.inj h
        exact .finish rfl ht rfl (Or.inl rfl) (.duplicate hkey) nofun
      · rename_i hok huuid hlock hkey
        obtain rfl := Option.some.inj h
        exact .insert ht husers (by simpa using hok) huuid (by simpa using hlock)
          (by simpa using hkey)

theorem writeRow_effect {t : TxId} {op : Op} {x : Locals} {row : FlagRow}
    (ht : db.txs t = some ⟨op, .waiting x⟩) (hfree : db.rowLock row.id = none)
    (hrow : row ∈ db.flags) (hwhere : op.whereClause row = true) :
    Effect db (.lock t) (db.writeRow t op x row) := by
  rw [Db.writeRow]
  by_cases hdel : op.isDelete = true
  · rw [if_pos hdel]
    cases op with
    | delete id => exact .remove ht hfree hrow (Op.whereClause_id hwhere)
    | create _ | update _ _ | toggle _ => simp [Op.isDelete] at hdel
  · rw [if_neg hdel]
    split
    · rename_i hok
      exact .update ht (by simpa using hdel) hfree hrow hwhere hok
    · rename_i hok
      have hleaves : op.Leaves db.flags (op.postImage x row) := by
        cases op with
        | create flag => simp [Op.whereClause] at hwhere
        | update id req | toggle id => exact ⟨x, row, hrow, hwhere, rfl⟩
        | delete id => simp [Op.isDelete] at hdel
      exact .finish rfl ht rfl (Or.inl rfl) (.refused (Or.inl rfl) hleaves (by simpa using hok))
        nofun

theorem noRowResult_version (db : Db) (op : Op) : (db.noRowResult op).version? = none := by
  unfold Db.noRowResult
  split
  · split <;> rfl
  · rfl

/-- `nextVersion` draws from the sequence. -/
theorem nextVersion_effect {t : TxId} {op : Op} {st : Stage} {now : Timestamp} {key : String}
    (ht : db.txs t = some ⟨op, st⟩) (hret : st.isReturned = false) (hw : st.write? = none)
    (hkey : op.isDelete → st.key? = some key)
    (hstage : (∃ now, st = .begun now) ∨ ∃ now key, st = .selected now key)
    (h : db.nextVersion t op now key = some db') : Effect db (.nextval t) db' := by
  rw [Db.nextVersion] at h
  split at h
  · rename_i hseq
    obtain rfl := Option.some.inj h
    exact .draw ht hret hw hkey rfl hseq hstage
  · cases h

theorem nextval_effect {t : TxId} (h : step db (.nextval t) = some db') :
    Effect db (.nextval t) db' := by
  rw [step] at h
  split at h
  · rename_i op now ht
    split at h
    · cases h
    · rename_i hdel
      exact nextVersion_effect ht rfl rfl (fun hd => absurd hd hdel) (Or.inl ⟨now, rfl⟩) h
  · rename_i op now key ht
    exact nextVersion_effect ht rfl rfl (fun _ => rfl) (Or.inr ⟨now, key, rfl⟩) h
  · cases h

/-- An `UPDATE` or a `DELETE` looks for its row. -/
theorem scan_effect {t : TxId} (h : step db (.scan t) = some db') : Effect db (.scan t) db' := by
  rw [step] at h
  split at h
  · rename_i op x ht
    split at h
    · cases h
    rename_i hcreate
    have hcreate : op.isCreate = false := by simpa using hcreate
    split at h
    · obtain rfl := Option.some.inj h
      exact .progress rfl ht rfl rfl (Or.inr rfl) (fun _ h => h) rfl rfl (.queue hcreate)
    · rename_i hany
      obtain rfl := Option.some.inj h
      have hany : db.flags.any op.whereClause = false := by simpa using hany
      exact matchedNoRow_effect rfl ht (Or.inl rfl) hany fun hdel => .miss hcreate hdel hany
  · cases h

/-- The row that the statement waited for is free. -/
theorem lock_effect {t : TxId} (h : step db (.lock t) = some db') : Effect db (.lock t) db' := by
  rw [step] at h
  split at h
  · rename_i op x ht
    split at h
    · cases h
    rename_i hlock
    split at h
    · rename_i hrow
      obtain rfl := Option.some.inj h
      have hany := any_whereClause_of_gone hrow
      exact matchedNoRow_effect rfl ht (Or.inr rfl) hany fun hdel => .lost hdel hany
    · rename_i row hrow
      have hmem : row ∈ db.flags := List.mem_of_find?_eq_some hrow
      have hid : row.id = op.flagId := by simpa using List.find?_some hrow
      have hfree : db.rowLock row.id = none := by rw [hid]; simpa using hlock
      split at h
      · rename_i hwhere
        obtain rfl := Option.some.inj h
        exact writeRow_effect ht hfree hmem hwhere
      · rename_i hwhere
        obtain rfl := Option.some.inj h
        have hdel : ¬ op.isDelete = true := fun hdel => hwhere (Op.whereClause_delete hdel hid)
        rw [Db.matchedNoRow, if_neg hdel]
        exact .recheck ht hfree hmem hid (by simpa using hwhere)
  · cases h

/-- **Inversion of `step`.** -/
theorem step_effect (h : step db a = some db') : Effect db a db' := by
  cases a with
  | call t op =>
      rw [step] at h
      split at h
      · rename_i ht
        obtain rfl := Option.some.inj h
        exact .call ht
      · cases h
  | readById t =>
      rw [step] at h
      split at h
      · rename_i op ht
        split at h
        · rename_i hnothing
          obtain rfl := Option.some.inj h
          exact .finish rfl ht rfl (Or.inr ⟨hnothing, rfl⟩) (.read hnothing) nofun
        · cases h
      · cases h
  | begin t now =>
      rw [step] at h
      split at h
      · rename_i op ht
        split at h
        · cases h
        · rename_i hop
          obtain rfl := Option.some.inj h
          exact .progress rfl ht rfl rfl (Or.inl rfl) (fun _ h => h) rfl rfl
            (.begin (by simpa using hop))
      · cases h
  | selectKey t =>
      rw [step] at h
      split at h
      · rename_i id now ht
        split at h
        · rename_i hrow
          obtain rfl := Option.some.inj h
          exact .finish rfl ht rfl (Or.inl rfl) (.gone hrow) nofun
        · rename_i row hrow
          obtain rfl := Option.some.inj h
          exact .select ht hrow
      · cases h
  | nextval t => exact nextval_effect h
  | insert t uuid =>
      rw [step] at h
      split at h
      · rename_i flag x ht
        exact insertFlag_effect ht h
      · cases h
  | scan t => exact scan_effect h
  | lock t => exact lock_effect h
  | noRow t =>
      rw [step] at h
      split at h
      · rename_i op x ht
        obtain rfl := Option.some.inj h
        exact .finish rfl ht rfl (Or.inl (noRowResult_version db op)) (.noRow ht) nofun
      · cases h
  | appendEvent t =>
      rw [step] at h
      split at h
      · rename_i op x w ht
        split at h
        · rename_i hev
          obtain rfl := Option.some.inj h
          exact .finish rfl ht rfl (Or.inl rfl) (.eventTaken ht (by simpa using hev)) nofun
        · obtain rfl := Option.some.inj h
          exact .log ht
      · cases h
  | commit t =>
      rw [step] at h
      split at h
      · rename_i op x w ev ht
        obtain rfl := Option.some.inj h
        exact Effect.commit (c := ⟨op, x, w, ev⟩) ht
      · cases h
  | fail t =>
      rw [step] at h
      split at h
      · rename_i op st ht
        split at h
        · cases h
        · rename_i hret
          obtain rfl := Option.some.inj h
          exact .finish rfl ht (by simpa using hret) (Or.inl rfl) .fail nofun
      · cases h

theorem committing_eq_some {c : Commit} :
    db.committing a = some c ↔
      ∃ t, a = .commit t ∧ db.txs t = some ⟨c.op, .logged c.locals c.write c.event⟩ := by
  constructor
  · intro h
    unfold Db.committing at h
    split at h
    · rename_i t
      split at h
      · rename_i op x w ev ht
        obtain rfl := Option.some.inj h
        exact ⟨t, rfl, ht⟩
      · cases h
    · cases h
  · intro h
    obtain ⟨t, rfl, ht⟩ := h
    simp only [Db.committing, ht]

theorem Db.setStage_txs_self (db : Db) (t : TxId) (op : Op) (st : Stage) :
    (db.setStage t op st).txs t = some ⟨op, st⟩ :=
  Function.update_self ..

theorem Db.setStage_txs_of_ne (db : Db) {t u : TxId} (op : Op) (st : Stage) (h : u ≠ t) :
    (db.setStage t op st).txs u = db.txs u :=
  Function.update_of_ne h _ _

/-- A statement moves its own call and no other. -/
theorem step_txs_of_ne (h : step db a = some db') {u : TxId} (hu : u ≠ a.tx) :
    db'.txs u = db.txs u := by
  cases step_effect h with
  | progress ha | vanish ha | finish ha => exact Function.update_of_ne (ha ▸ hu) _ _
  | _ => exact Function.update_of_ne hu _ _

/-- **Only a commit changes the tables.** -/
theorem step_tables (h : step db a = some db') :
    (db.committing a = none ∧ db'.flags = db.flags ∧ db'.events = db.events) ∨
      ∃ t c, a = .commit t ∧ db.txs t = some ⟨c.op, .logged c.locals c.write c.event⟩ ∧
        db.committing a = some c ∧ db' = db.committed t c := by
  cases hc : db.committing a with
  | some c =>
      obtain ⟨t, rfl, ht⟩ := committing_eq_some.mp hc
      rw [step, ht] at h
      exact Or.inr ⟨t, c, rfl, ht, rfl, (Option.some.inj h).symm⟩
  | none =>
      refine Or.inl ⟨rfl, ?_⟩
      cases step_effect h with
      | commit ht => simp [Db.committing, ht] at hc
      | _ => exact ⟨rfl, rfl⟩

/-- A call begins once. -/
theorem step_call {t : TxId} {op : Op} (h : step db (.call t op) = some db') :
    db.txs t = none ∧ db' = db.setStage t op .called := by
  rw [step] at h
  split at h
  · rename_i ht
    exact ⟨ht, (Option.some.inj h).symm⟩
  · cases h

/-- A commit is of a transaction that has logged its event. -/
theorem step_commit {t : TxId} (h : step db (.commit t) = some db') :
    ∃ c : Commit, db.txs t = some ⟨c.op, .logged c.locals c.write c.event⟩ ∧
      db' = db.committed t c := by
  rw [step] at h
  split at h
  · rename_i op x w ev ht
    exact ⟨⟨op, x, w, ev⟩, ht, (Option.some.inj h).symm⟩
  · cases h

/-- The log only grows. -/
theorem step_events (h : step db a = some db') {e : FlagEvent} (he : e ∈ db.events) :
    e ∈ db'.events := by
  rcases step_tables h with ⟨-, -, hevents⟩ | ⟨t, c, -, -, -, rfl⟩
  · exact hevents ▸ he
  · exact List.mem_append_left _ he

/-- Ids are not taken back. -/
theorem step_uuids (h : step db a = some db') {id : String} (hid : id ∈ db.uuids) :
    id ∈ db'.uuids := by
  cases step_effect h with
  | insert => exact List.mem_append_left _ hid
  | _ => exact hid

end FlagPlane
