import FlagPlane.Repository.Effect

/-!
# FlagPlane.Repository.Invariant

**The invariant of the database**, and its preservation by every statement.

`DbInv` says what the committed tables look like (`table`, `versions`, `rowEvent`:
every versioned row has the event that wrote it) and what each open transaction
may rely on (`TxInv`). The heart is `WriteInv`: an uncommitted write still fits the
committed table, because the locks it holds keep every other transaction from
committing to the same row or key. So a commit never has to check anything, and
`DbInv.commit` is the one case with an argument; every other statement leaves the
tables alone and goes through `DbInv.advance`.
-/

namespace FlagPlane

/-- Transaction `t` holds the lock of `row` and of its key. -/
def Db.Holds (db : Db) (t : TxId) (row : FlagRow) : Prop :=
  db.rowLock row.id = some t ∧ db.keyLock row.key = some t

/-- What holds of an uncommitted write of transaction `t`. -/
def WriteInv (db : Db) (t : TxId) (op : Op) (x : Locals) : RowWrite → Prop
  | .insert row =>
    (∃ flag users uuid, op = .create flag ∧ flag.targetedUsers = some users ∧
      row = insertedRow flag users uuid x) ∧
    row.columnsOk = true ∧ row.id ∈ db.uuids ∧
    (∀ r ∈ db.flags, r.id ≠ row.id ∧ r.key ≠ row.key) ∧ db.Holds t row
  | .update row =>
    ∃ r ∈ db.flags, op.isDelete = false ∧ op.whereClause r = true ∧
      row = op.postImage x r ∧ row.columnsOk = true ∧ db.Holds t r
  | .delete row => row ∈ db.flags ∧ op = .delete row.id ∧ db.Holds t row
  | .nothing => ∃ id, op = .delete id ∧ ∀ r ∈ db.flags, r.id ≠ id

/-- What holds of a call in progress. -/
structure TxInv (db : Db) (t : TxId) (tx : Tx) : Prop where
  /-- A drawn version is above 0, at most the sequence, and no event's yet. -/
  version : ∀ v, tx.stage.version? = some v →
    0 < v ∧ v ≤ db.seq ∧ ∀ e ∈ db.events, e.version ≠ v
  /-- The key that `Delete` has read is the key of its row for good. -/
  key : ∀ id key, tx.op = .delete id → tx.stage.key? = some key →
    id ∈ db.uuids ∧ ∀ r ∈ db.flags, r.id = id → r.key = key
  write : ∀ x w, tx.stage.write? = some (x, w) → WriteInv db t tx.op x w
  event : ∀ x w ev, tx.stage = .logged x w ev → ev = tx.op.event x w

/-- A flag as its event payload records it. -/
def rowPayload (r : FlagRow) : Json := flagPayload (scanFlag r)

/-- Event `e` is the one that recorded row `r` as it stands. Its payload may still have the blanks
that the `description` column has cut. -/
def RowEvent (r : FlagRow) (e : FlagEvent) : Prop :=
  e.version = r.version ∧ e.eventType ≠ .deleted ∧ e.flagKey = r.key ∧
    ∃ r' : FlagRow, r'.stored = r ∧ e.payload = rowPayload r'

/-- The event records the flag as it is. -/
def FlagEvent.Records (ev : FlagEvent) (flag : Flag) : Prop :=
  ev.version = flag.version ∧ ev.eventType ≠ .deleted ∧ ev.flagKey = flag.key ∧
    ev.payload = flagPayload flag

/-- The event records the flag as it was sent, with blanks in the description that the column has
cut. -/
def FlagEvent.RecordsUncut (ev : FlagEvent) (flag : Flag) : Prop :=
  ∃ d, d ≠ flag.description ∧ assignVarchar 256 d = flag.description ∧
    ev.Records { flag with description := d }

/-- An event that records a row records its image, cut or not. -/
theorem RowEvent.records {r : FlagRow} {ev : FlagEvent} (h : RowEvent r ev) :
    ev.Records (scanFlag r) ∨ ev.RecordsUncut (scanFlag r) := by
  obtain ⟨hv, hty, hkey, r', rfl, hpayload⟩ := h
  by_cases hcut : r'.description = r'.stored.description
  · rw [← r'.eq_stored_of_description hcut] at hv hkey ⊢
    exact Or.inl ⟨hv, hty, hkey, hpayload⟩
  · exact Or.inr ⟨r'.description, hcut, rfl, hv, hty, hkey, hpayload⟩

/-- The invariant of the database. -/
structure DbInv (db : Db) : Prop where
  table : TableKeys db.flags
  columns : ∀ r ∈ db.flags, r.columnsOk = true
  uuids : ∀ r ∈ db.flags, r.id ∈ db.uuids
  seq : 0 ≤ db.seq ∧ db.seq ≤ maxVersion
  versions : (db.events.map FlagEvent.version).Nodup
  eventBound : ∀ e ∈ db.events, 0 < e.version ∧ e.version ≤ db.seq
  rowEvent : ∀ r ∈ db.flags, r.version = 0 ∨ ∃ e ∈ db.events, RowEvent r e
  tx : ∀ t tx, db.txs t = some tx → TxInv db t tx
  /-- No version is drawn twice. -/
  drawn : ∀ t u tx ux v, db.txs t = some tx → db.txs u = some ux →
    tx.stage.version? = some v → ux.stage.version? = some v → t = u
  /-- A row being inserted is not one a `Delete` has ever seen. -/
  fresh : ∀ t u tx ux x row id key, db.txs t = some tx → tx.stage.write? = some (x, .insert row) →
    db.txs u = some ux → ux.op = .delete id → ux.stage.key? = some key → row.id ≠ id
  rowHeld : ∀ id t, db.rowLock id = some t → id ∈ db.uuids
  /-- A key is locked only by a transaction that has written a row of that key. -/
  keyHeld : ∀ key t, db.keyLock key = some t → ∃ tx x w row, db.txs t = some tx ∧
    tx.stage.write? = some (x, w) ∧ w.row? = some row ∧ row.key = key

/-! ### Post-images -/

@[simp] theorem FlagRow.assign_id (r : FlagRow) (c : SetClause) : (r.assign c).id = r.id := by
  cases c <;> rfl

@[simp] theorem FlagRow.assign_key (r : FlagRow) (c : SetClause) : (r.assign c).key = r.key := by
  cases c <;> rfl

theorem foldl_assign_id (cs : List SetClause) (r : FlagRow) :
    (cs.foldl FlagRow.assign r).id = r.id := by
  induction cs generalizing r with
  | nil => rfl
  | cons c cs ih => rw [List.foldl_cons, ih, FlagRow.assign_id]

theorem foldl_assign_key (cs : List SetClause) (r : FlagRow) :
    (cs.foldl FlagRow.assign r).key = r.key := by
  induction cs generalizing r with
  | nil => rfl
  | cons c cs ih => rw [List.foldl_cons, ih, FlagRow.assign_key]

@[simp] theorem postImage_id (op : Op) (x : Locals) (r : FlagRow) :
    (op.postImage x r).id = r.id := by
  cases op with
  | update id req => exact foldl_assign_id _ r
  | create _ | toggle _ | delete _ => rfl

@[simp] theorem postImage_key (op : Op) (x : Locals) (r : FlagRow) :
    (op.postImage x r).key = r.key := by
  cases op with
  | update id req => exact foldl_assign_key _ r
  | create _ | toggle _ | delete _ => rfl

/-- An `UPDATE` stamps its row with the version the call has drawn. -/
theorem postImage_version {op : Op} {x : Locals} {r : FlagRow} (hdel : op.isDelete = false)
    (hwhere : op.whereClause r = true) : (op.postImage x r).version = x.version := by
  cases op with
  | update id req => simp [Op.postImage, updateUpdatedAtColumn, FlagRow.assign]
  | toggle id => rfl
  | create flag => simp [Op.whereClause] at hwhere
  | delete id => simp [Op.isDelete] at hdel

/-! ### What an uncommitted write guarantees -/

section WriteInv

variable {db db' : Db} {t u : TxId} {op : Op} {x : Locals} {w : RowWrite} {row r : FlagRow}

theorem WriteInv.fits (h : WriteInv db t op x w) : w.Fits db.flags := by
  cases w with
  | insert row => exact h.2.2.2.1
  | update row =>
      obtain ⟨r, hr, -, -, rfl, -, -⟩ := h
      exact ⟨r, hr, (postImage_id op x r).symm, (postImage_key op x r).symm⟩
  | delete row => exact h.1
  | nothing => trivial

theorem WriteInv.holds (h : WriteInv db t op x w) (hrow : w.row? = some row) :
    db.Holds t row := by
  cases w with
  | insert row' =>
      obtain rfl := Option.some.inj hrow
      exact h.2.2.2.2
  | update row' =>
      obtain rfl := Option.some.inj hrow
      obtain ⟨r, -, -, -, rfl, -, hholds⟩ := h
      rw [Db.Holds, postImage_id, postImage_key]
      exact hholds
  | delete row' =>
      obtain rfl := Option.some.inj hrow
      exact h.2.2
  | nothing => cases hrow

/-- A write survives a step that leaves the rows alone and its locks in place. -/
theorem WriteInv.frame (h : WriteInv db t op x w) (hflags : db'.flags = db.flags)
    (huuids : ∀ id ∈ db.uuids, id ∈ db'.uuids)
    (hholds : ∀ row, db.Holds t row → db'.Holds t row) : WriteInv db' t op x w := by
  cases w with
  | insert row =>
      obtain ⟨hop, hok, hid, hnew, hlocks⟩ := h
      exact ⟨hop, hok, huuids _ hid, by rw [hflags]; exact hnew, hholds _ hlocks⟩
  | update row =>
      obtain ⟨r, hr, hdel, hwhere, hpost, hok, hlocks⟩ := h
      exact ⟨r, by rw [hflags]; exact hr, hdel, hwhere, hpost, hok, hholds _ hlocks⟩
  | delete row =>
      obtain ⟨hr, hop, hlocks⟩ := h
      exact ⟨by rw [hflags]; exact hr, hop, hholds _ hlocks⟩
  | nothing =>
      obtain ⟨id, hop, hgone⟩ := h
      exact ⟨id, hop, by rw [hflags]; exact hgone⟩

theorem TxInv.frame {tx : Tx} (h : TxInv db t tx) (hflags : db'.flags = db.flags)
    (hevents : db'.events = db.events) (hseq : db.seq ≤ db'.seq)
    (huuids : ∀ id ∈ db.uuids, id ∈ db'.uuids)
    (hholds : ∀ row, db.Holds t row → db'.Holds t row) : TxInv db' t tx where
  version v hv := by
    obtain ⟨hpos, hle, hne⟩ := h.version v hv
    exact ⟨hpos, hle.trans hseq, by rw [hevents]; exact hne⟩
  key id key hop hk := by
    obtain ⟨hid, hrow⟩ := h.key id key hop hk
    exact ⟨huuids _ hid, by rw [hflags]; exact hrow⟩
  write x w hw := (h.write x w hw).frame hflags huuids hholds
  event := h.event

/-- The rows after a write: the old ones, and the row it inserts or puts in place. -/
theorem mem_of_mem_applyWrite {flags : List FlagRow} (hfit : w.Fits flags)
    (hr : r ∈ applyWrite flags w) : r ∈ flags ∨ w = .insert r ∨ w = .update r := by
  cases w with
  | insert row =>
      rcases mem_applyWrite_insert.mp hr with hr | rfl
      · exact Or.inl hr
      · exact Or.inr (Or.inl rfl)
  | update row =>
      rcases (mem_applyWrite_update hfit).mp hr with ⟨hr, -⟩ | rfl
      · exact Or.inl hr
      · exact Or.inr (Or.inr rfl)
  | delete row => exact Or.inl (mem_applyWrite_delete.mp hr).1
  | nothing => exact Or.inl hr

/-- A write leaves the rows of other ids in place. -/
theorem mem_applyWrite_of_ne {flags : List FlagRow} (hfit : w.Fits flags) (hr : r ∈ flags)
    (hne : ∀ row, w.row? = some row → r.id ≠ row.id) : r ∈ applyWrite flags w := by
  cases w with
  | insert row => exact mem_applyWrite_insert.mpr (Or.inl hr)
  | update row => exact (mem_applyWrite_update hfit).mpr (Or.inl ⟨hr, hne row rfl⟩)
  | delete row => exact mem_applyWrite_delete.mpr ⟨hr, hne row rfl⟩
  | nothing => exact hr

/-- A row in the table after a write has its id and key from the old table, or is
the inserted row. -/
theorem old_or_inserted {flags : List FlagRow} (hfit : w.Fits flags)
    (hr : r ∈ applyWrite flags w) :
    (∃ r' ∈ flags, r'.id = r.id ∧ r'.key = r.key) ∨ w = .insert r := by
  rcases mem_of_mem_applyWrite hfit hr with hr | rfl | rfl
  · exact Or.inl ⟨r, hr, rfl, rfl⟩
  · exact Or.inr rfl
  · exact Or.inl hfit

end WriteInv

/-! ### Locks -/

section Locks

variable {db : Db} {t u : TxId} {row r : FlagRow}

theorem Db.Holds.takeRowLock (hfree : db.rowLock row.id = none) (h : db.Holds u r) :
    (db.takeRowLock t row).Holds u r := by
  refine ⟨?_, h.2⟩
  have hne : r.id ≠ row.id := fun hid => by rw [← hid, h.1] at hfree; cases hfree
  rw [Db.takeRowLock]
  exact (Function.update_of_ne hne _ _).trans h.1

theorem Db.Holds.takeLocks (hfree : db.rowLock row.id = none) (hkey : db.keyLock row.key = none)
    (h : db.Holds u r) : (db.takeLocks t row).Holds u r := by
  refine ⟨(h.takeRowLock (t := t) hfree).1, ?_⟩
  have hne : r.key ≠ row.key := fun hk => by rw [← hk, h.2] at hkey; cases hkey
  exact (Function.update_of_ne hne _ _).trans h.2

theorem Db.holds_takeLocks (db : Db) (t : TxId) (row : FlagRow) :
    (db.takeLocks t row).Holds t row :=
  ⟨Function.update_self .., Function.update_self ..⟩

theorem Db.Holds.release (hne : u ≠ t) (h : db.Holds u r) : (db.release t).Holds u r := by
  have hut : ¬ some u = some t := fun hut => hne (Option.some.inj hut)
  constructor
  · rw [Db.release]
    dsimp only
    rw [h.1, if_neg hut]
  · rw [Db.release]
    dsimp only
    rw [h.2, if_neg hut]

theorem Db.release_rowLock {id : String} (h : (db.release t).rowLock id = some u) :
    u ≠ t ∧ db.rowLock id = some u := by
  rw [Db.release] at h
  dsimp only at h
  split at h
  · cases h
  · rename_i hne
    exact ⟨fun hut => hne (hut ▸ h), h⟩

theorem Db.release_keyLock {key : String} (h : (db.release t).keyLock key = some u) :
    u ≠ t ∧ db.keyLock key = some u := by
  rw [Db.release] at h
  dsimp only at h
  split at h
  · cases h
  · rename_i hne
    exact ⟨fun hut => hne (hut ▸ h), h⟩

/-- A committed row whose lock is free has its key free as well: whoever held the key
would have written this very row. -/
theorem DbInv.keyLock_free (h : DbInv db) (hrow : row ∈ db.flags)
    (hfree : db.rowLock row.id = none) : db.keyLock row.key = none := by
  cases hk : db.keyLock row.key with
  | none => rfl
  | some u =>
      obtain ⟨ux, x, w, r, hu, hw, hr, hkey⟩ := h.keyHeld _ _ hk
      have hwrite := (h.tx u ux hu).write x w hw
      have hholds := hwrite.holds hr
      cases w with
      | insert r' =>
          obtain rfl := Option.some.inj hr
          exact absurd hkey.symm (hwrite.2.2.2.1 row hrow).2
      | update r' =>
          obtain rfl := Option.some.inj hr
          obtain ⟨r₀, hr₀, -, -, rfl, -, -⟩ := hwrite
          rw [postImage_key] at hkey
          rw [Db.Holds, postImage_id, h.table.eq_of_key hr₀ hrow hkey, hfree] at hholds
          cases hholds.1
      | delete r' =>
          obtain rfl := Option.some.inj hr
          rw [Db.Holds, h.table.eq_of_key hwrite.1 hrow hkey, hfree] at hholds
          cases hholds.1
      | nothing => cases hr

end Locks

/-! ### Statements other than `COMMIT` -/

/-- Call `t` moves to stage `st` and the committed tables stay as they are. -/
structure Advance (db db' : Db) (t : TxId) (op : Op) (st : Stage) : Prop where
  flags : db'.flags = db.flags
  events : db'.events = db.events
  seq : db.seq ≤ db'.seq ∧ db'.seq ≤ maxVersion
  uuids : ∀ id ∈ db.uuids, id ∈ db'.uuids
  txs : db'.txs = Function.update db.txs t (some ⟨op, st⟩)
  holds : ∀ u row, u ≠ t → db.Holds u row → db'.Holds u row
  rowHeld : ∀ id u, db'.rowLock id = some u → id ∈ db'.uuids
  keyHeld : ∀ key u, db'.keyLock key = some u → (u ≠ t ∧ db.keyLock key = some u) ∨
    (u = t ∧ ∃ x w row, st.write? = some (x, w) ∧ w.row? = some row ∧ row.key = key)
  tx : TxInv db' t ⟨op, st⟩
  drawn : ∀ v, st.version? = some v → ∀ u ux, u ≠ t → db.txs u = some ux →
    ux.stage.version? ≠ some v
  inserts : ∀ x row, st.write? = some (x, .insert row) → ∀ u ux id key, u ≠ t →
    db.txs u = some ux → ux.op = .delete id → ux.stage.key? = some key → row.id ≠ id
  deletes : ∀ id key, op = .delete id → st.key? = some key → ∀ u ux x row, u ≠ t →
    db.txs u = some ux → ux.stage.write? = some (x, .insert row) → row.id ≠ id

section Advance

variable {db db' : Db} {t : TxId} {op : Op} {st st' : Stage}

/-- The entries of a map in which one entry has been set. -/
theorem update_some_cases {α β : Type*} [DecidableEq α] {m : α → Option β} {t u : α} {x y : β}
    (h : Function.update m t (some x) u = some y) : (u = t ∧ y = x) ∨ (u ≠ t ∧ m u = some y) := by
  by_cases hut : u = t
  · subst hut
    rw [Function.update_self] at h
    exact Or.inl ⟨rfl, (Option.some.inj h).symm⟩
  · rw [Function.update_of_ne hut] at h
    exact Or.inr ⟨hut, h⟩

theorem DbInv.advance (h : DbInv db) (ha : Advance db db' t op st) : DbInv db' where
  table := ha.flags ▸ h.table
  columns := ha.flags ▸ h.columns
  uuids r hr := ha.uuids _ (h.uuids r (ha.flags ▸ hr))
  seq := ⟨h.seq.1.trans ha.seq.1, ha.seq.2⟩
  versions := ha.events ▸ h.versions
  eventBound e he := by
    obtain ⟨hpos, hle⟩ := h.eventBound e (ha.events ▸ he)
    exact ⟨hpos, hle.trans ha.seq.1⟩
  rowEvent r hr := by
    rw [ha.events]
    exact h.rowEvent r (ha.flags ▸ hr)
  tx u ux hu := by
    rw [ha.txs] at hu
    rcases update_some_cases hu with ⟨rfl, rfl⟩ | ⟨hut, hu⟩
    · exact ha.tx
    · exact (h.tx u ux hu).frame ha.flags ha.events ha.seq.1 ha.uuids
        fun row hrow => ha.holds u row hut hrow
  drawn u₁ u₂ x₁ x₂ v h₁ h₂ hv₁ hv₂ := by
    rw [ha.txs] at h₁ h₂
    rcases update_some_cases h₁ with ⟨rfl, rfl⟩ | ⟨hne₁, hu₁⟩ <;>
      rcases update_some_cases h₂ with ⟨rfl, rfl⟩ | ⟨hne₂, hu₂⟩
    · rfl
    · exact absurd hv₂ (ha.drawn v hv₁ u₂ x₂ hne₂ hu₂)
    · exact absurd hv₁ (ha.drawn v hv₂ u₁ x₁ hne₁ hu₁)
    · exact h.drawn u₁ u₂ x₁ x₂ v hu₁ hu₂ hv₁ hv₂
  fresh u₁ u₂ x₁ x₂ x row id key h₁ hw h₂ hop hk := by
    rw [ha.txs] at h₁ h₂
    rcases update_some_cases h₁ with ⟨rfl, rfl⟩ | ⟨hne₁, hu₁⟩ <;>
      rcases update_some_cases h₂ with ⟨rfl, rfl⟩ | ⟨hne₂, hu₂⟩
    · obtain ⟨⟨flag, users, uuid, hop', -⟩, -⟩ := ha.tx.write x _ hw
      rw [hop'] at hop
      cases hop
    · exact ha.inserts x row hw u₂ x₂ id key hne₂ hu₂ hop hk
    · exact ha.deletes id key hop hk u₁ x₁ x row hne₁ hu₁ hw
    · exact h.fresh u₁ u₂ x₁ x₂ x row id key hu₁ hw hu₂ hop hk
  rowHeld := ha.rowHeld
  keyHeld key u hu := by
    rw [ha.txs]
    rcases ha.keyHeld key u hu with ⟨hne, hu⟩ | ⟨rfl, x, w, row, hw, hrow, hkey⟩
    · obtain ⟨ux, x, w, row, htx, hw, hrow, hkey⟩ := h.keyHeld key u hu
      exact ⟨ux, x, w, row, (Function.update_of_ne hne _ _).trans htx, hw, hrow, hkey⟩
    · exact ⟨_, x, w, row, Function.update_self .., hw, hrow, hkey⟩

/-- A returned call relies on nothing. -/
theorem txInv_returned (db : Db) (t : TxId) (op : Op) (r : RepoResult) :
    TxInv db t ⟨op, .returned r⟩ where
  version v hv := by cases hv
  key id key _ hk := by cases hk
  write x w hw := by cases hw
  event x w ev hst := by cases hst

/-- The call has no write yet, so it holds no key. -/
theorem DbInv.keyLock_ne (h : DbInv db) (hw : ∀ tx, db.txs t = some tx → tx.stage.write? = none)
    {key : String} {u : TxId} (hu : db.keyLock key = some u) : u ≠ t := by
  rintro rfl
  obtain ⟨tx, x, w, row, htx, hw', -⟩ := h.keyHeld key u hu
  rw [hw tx htx] at hw'
  cases hw'

/-- A call without a write moves on and locks nothing. -/
theorem DbInv.advance_setStage (h : DbInv db)
    (hw : ∀ tx, db.txs t = some tx → tx.stage.write? = none)
    (htx : TxInv db t ⟨op, st⟩) (hins : ∀ x row, st.write? ≠ some (x, .insert row))
    (hdrawn : ∀ v, st.version? = some v → ∀ u ux, u ≠ t → db.txs u = some ux →
      ux.stage.version? ≠ some v)
    (hdel : ∀ id key, op = .delete id → st.key? = some key → ∀ u ux x row, u ≠ t →
      db.txs u = some ux → ux.stage.write? = some (x, .insert row) → row.id ≠ id) :
    Advance db (db.setStage t op st) t op st where
  flags := rfl
  events := rfl
  seq := ⟨le_refl _, h.seq.2⟩
  uuids _ hid := hid
  txs := rfl
  holds _ _ _ hrow := hrow
  rowHeld := h.rowHeld
  keyHeld _ _ hu := Or.inl ⟨h.keyLock_ne hw hu, hu⟩
  tx := htx.frame rfl rfl (le_refl _) (fun _ hid => hid) (fun _ hrow => hrow)
  drawn := hdrawn
  inserts x row hrow := absurd hrow (hins x row)
  deletes := hdel

end Advance

end FlagPlane
