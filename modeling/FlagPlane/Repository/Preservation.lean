import FlagPlane.Repository.Invariant

/-!
# FlagPlane.Repository.Preservation

Every statement keeps `DbInv`: the write statements and the plain ones through
`DbInv.advance`, `COMMIT` through the locks its transaction holds (`DbInv.commit`).
-/

namespace FlagPlane

variable {db db' : Db} {t u : TxId} {op : Op} {st st' : Stage} {x : Locals} {w : RowWrite}
  {row r : FlagRow} {ev : FlagEvent}

/-! ### The write statements -/

/-- A write statement that locks its row, on a database that may have one more id. -/
theorem DbInv.advance_write (h : DbInv db) (uuids : List String)
    (huuids : ∀ id ∈ db.uuids, id ∈ uuids) (hid : row.id ∈ uuids)
    (hst : db.txs t = some ⟨op, st⟩) (hnone : st.write? = none)
    (hrow : db.rowLock row.id = none) (hkey : db.keyLock row.key = none)
    (hv : st.version? = some x.version) (hk : st.key? = some x.key)
    (hwrite : WriteInv ({ db with uuids := uuids }.takeLocks t row) t op x w)
    (hw : ∃ row', w.row? = some row' ∧ row'.key = row.key)
    (hins : ∀ row', w = .insert row' → row'.id ∉ db.uuids) :
    Advance db (({ db with uuids := uuids }.takeLocks t row).setStage t op (.written x w)) t op
      (.written x w) where
  flags := rfl
  events := rfl
  seq := ⟨le_refl _, h.seq.2⟩
  uuids := huuids
  txs := rfl
  holds u r _ hr := Db.Holds.takeLocks
    (show { db with uuids := uuids }.rowLock row.id = none from hrow) hkey hr
  rowHeld id u hu := by
    by_cases hid' : id = row.id
    · exact hid' ▸ hid
    · exact huuids _ (h.rowHeld id u ((Function.update_of_ne hid' _ _).symm.trans hu))
  keyHeld key u hu := by
    by_cases hkey' : key = row.key
    · subst hkey'
      have hut : Function.update db.keyLock row.key (some t) row.key = some u := hu
      rw [Function.update_self] at hut
      obtain ⟨row', hrow', hrk⟩ := hw
      exact Or.inr ⟨(Option.some.inj hut).symm, x, w, row', rfl, hrow', hrk⟩
    · have hu' : db.keyLock key = some u := (Function.update_of_ne hkey' _ _).symm.trans hu
      refine Or.inl ⟨h.keyLock_ne (fun tx htx => ?_) hu', hu'⟩
      obtain rfl := Option.some.inj (hst.symm.trans htx)
      exact hnone
  tx := by
    have htx := h.tx t _ hst
    refine ⟨fun v hv' => htx.version v (hv.trans hv'), fun id key hop hk' => ?_, ?_, ?_⟩
    · obtain ⟨hid', hrows⟩ := htx.key id key hop (hk.trans hk')
      exact ⟨huuids _ hid', hrows⟩
    · intro x' w' hw'
      obtain ⟨rfl, rfl⟩ : x = x' ∧ w = w' := by simpa [Stage.write?] using hw'
      exact hwrite.frame rfl (fun _ hid' => hid') (fun _ hholds => hholds)
    · intro x' w' ev hst'
      cases hst'
  drawn v hv' u ux hut hu hvu := hut (h.drawn u t ux _ v hu hst hvu (hv.trans hv'))
  inserts x' row' hw' u ux id key _ hu hop hk' hid' := by
    obtain ⟨-, hw''⟩ : x = x' ∧ w = .insert row' := by simpa [Stage.write?] using hw'
    exact hins row' hw'' (hid' ▸ ((h.tx u ux hu).key id key hop hk').1)
  deletes id key hop hk' u ux x' row' _ hu hw' :=
    h.fresh u t ux _ x' row' id key hu hw' hst hop (hk.trans hk')

theorem DbInv.insert (h : DbInv db) {flag : Flag} {users : List String} {uuid : String}
    (ht : db.txs t = some ⟨.create flag, .numbered x⟩) (husers : flag.targetedUsers = some users)
    (hok : (insertedRow flag users uuid x).columnsOk = true) (huuid : uuid ∉ db.uuids)
    (hfree : db.keyLock flag.key = none) (hkey : findByKey db.flags flag.key = none) :
    DbInv (({ db with uuids := db.uuids ++ [uuid] }.takeLocks t
      (insertedRow flag users uuid x)).setStage
      t (.create flag) (.written x (.insert (insertedRow flag users uuid x)))) := by
  have hrow : db.rowLock uuid = none := by
    cases hr : db.rowLock uuid with
    | none => rfl
    | some u => exact absurd (h.rowHeld _ _ hr) huuid
  refine h.advance (h.advance_write (db.uuids ++ [uuid]) ?_ ?_ ht rfl hrow hfree rfl rfl
    ?_ ⟨_, rfl, rfl⟩ ?_)
  · exact fun id hid => List.mem_append_left _ hid
  · simp
  · refine ⟨⟨flag, users, uuid, rfl, husers, rfl⟩, hok, ?_, fun r hr => ⟨?_, ?_⟩,
      Db.holds_takeLocks ..⟩
    · exact List.mem_append_right _ (List.mem_singleton.mpr rfl)
    · exact fun hid => huuid ((show r.id = uuid from hid) ▸ h.uuids r hr)
    · exact findByKey_eq_none.mp hkey r hr
  · rintro row' hw
    obtain rfl := RowWrite.insert.inj hw
    exact huuid

theorem DbInv.update (h : DbInv db) (ht : db.txs t = some ⟨op, .waiting x⟩)
    (hdel : op.isDelete = false) (hfree : db.rowLock row.id = none) (hrow : row ∈ db.flags)
    (hwhere : op.whereClause row = true) (hok : (op.postImage x row).columnsOk = true) :
    DbInv ((db.takeLocks t row).setStage t op (.written x (.update (op.postImage x row)))) :=
  h.advance (h.advance_write db.uuids (fun _ hid => hid) (h.uuids row hrow) ht rfl hfree
    (h.keyLock_free hrow hfree) rfl rfl
    ⟨row, hrow, hdel, hwhere, rfl, hok, Db.holds_takeLocks ..⟩ ⟨_, rfl, postImage_key op x row⟩
    (fun _ hw => by cases hw))

theorem DbInv.remove (h : DbInv db) {id : String} (ht : db.txs t = some ⟨.delete id, .waiting x⟩)
    (hfree : db.rowLock row.id = none) (hrow : row ∈ db.flags) (hid : row.id = id) :
    DbInv ((db.takeLocks t row).setStage t (.delete id) (.written x (.delete row))) :=
  h.advance (h.advance_write db.uuids (fun _ hid => hid) (h.uuids row hrow) ht rfl hfree
    (h.keyLock_free hrow hfree) rfl rfl
    ⟨hrow, by rw [hid], Db.holds_takeLocks ..⟩ ⟨_, rfl, rfl⟩ (fun _ hw => by cases hw))

/-! ### The other statements -/

/-- A stage a call reaches without learning anything new. -/
theorem TxInv.progress (h : TxInv db t ⟨op, st⟩)
    (hv : st'.version? = none ∨ st'.version? = st.version?)
    (hk : ∀ key, st'.key? = some key → st.key? = some key) (hw : st'.write? = none) :
    TxInv db t ⟨op, st'⟩ where
  version v hv' := by
    rcases hv with hv | hv
    · rw [hv] at hv'
      cases hv'
    · exact h.version v (hv.symm.trans hv')
  key id key hop hk' := h.key id key hop (hk key hk')
  write x w hw' := by
    rw [hw] at hw'
    cases hw'
  event x w ev hst := by
    subst hst
    cases hw

theorem DbInv.call (h : DbInv db) (ht : db.txs t = none) : DbInv (db.setStage t op .called) := by
  refine h.advance (h.advance_setStage ?_ ⟨?_, ?_, ?_, ?_⟩ ?_ ?_ ?_) <;>
    simp [ht, Stage.version?, Stage.key?, Stage.write?]

theorem DbInv.progress (h : DbInv db) (ht : db.txs t = some ⟨op, st⟩)
    (hv : st'.version? = none ∨ st'.version? = st.version?)
    (hk : ∀ key, st'.key? = some key → st.key? = some key)
    (hw : st.write? = none) (hw' : st'.write? = none) : DbInv (db.setStage t op st') := by
  refine h.advance (h.advance_setStage ?_ ((h.tx t _ ht).progress hv hk hw') ?_ ?_ ?_)
  · intro tx htx
    obtain rfl := Option.some.inj (ht.symm.trans htx)
    exact hw
  · intro x row hrow
    rw [hw'] at hrow
    cases hrow
  · intro v hv' u ux hut hu hvu
    rcases hv with hv | hv
    · rw [hv] at hv'
      cases hv'
    · exact hut (h.drawn u t ux _ v hu ht hvu (hv.symm.trans hv'))
  · intro id key hop hk' u ux x row _ hu hrow
    exact h.fresh u t ux _ x row id key hu hrow ht hop (hk key hk')

theorem DbInv.select (h : DbInv db) {id : String} {now : Timestamp}
    (ht : db.txs t = some ⟨.delete id, .begun now⟩) (hrow : findById db.flags id = some row) :
    DbInv (db.setStage t (.delete id) (.selected now row.key)) := by
  obtain ⟨hmem, hid⟩ := h.table.findById_eq_some.mp hrow
  refine h.advance (h.advance_setStage ?_ ⟨?_, ?_, ?_, ?_⟩ ?_ ?_ ?_)
  · intro tx htx
    obtain rfl := Option.some.inj (ht.symm.trans htx)
    rfl
  · intro v hv
    cases hv
  · intro id' key hop hk
    obtain rfl := Op.delete.inj hop
    obtain rfl := Option.some.inj hk
    refine ⟨hid ▸ h.uuids row hmem, fun r hr hrid => ?_⟩
    rw [h.table.eq_of_id hr hmem (hrid.trans hid.symm)]
  · intro x w hw
    cases hw
  · intro x w ev hst
    cases hst
  · intro x row hw
    cases hw
  · intro v hv
    cases hv
  · intro id' key hop _ u ux x row' _ hu hw hid'
    -- the row read is in the table, so no open `INSERT` can carry its id
    have hwrite := (h.tx u ux hu).write x _ hw
    obtain rfl := Op.delete.inj hop
    exact (hwrite.2.2.2.1 row hmem).1 (hid.trans hid'.symm)

theorem DbInv.draw (h : DbInv db) (ht : db.txs t = some ⟨op, st⟩) (hw : st.write? = none)
    (hkey : op.isDelete → st.key? = some x.key) (hx : x.version = db.seq + 1)
    (hseq : db.seq < maxVersion) :
    DbInv ({ db with seq := db.seq + 1 }.setStage t op (.numbered x)) := by
  have hnone : ∀ tx, db.txs t = some tx → tx.stage.write? = none := by
    intro tx htx
    obtain rfl := Option.some.inj (ht.symm.trans htx)
    exact hw
  have hseq₀ := h.seq
  refine h.advance (?_ : Advance db _ t op (.numbered x))
  refine ⟨rfl, rfl, ⟨Int.le_of_lt (Int.lt_succ db.seq), hseq⟩, fun _ hid => hid, rfl,
    fun _ _ _ hr => hr, h.rowHeld, fun _ _ hu => Or.inl ⟨h.keyLock_ne hnone hu, hu⟩,
    ⟨?_, ?_, ?_, ?_⟩, ?_, ?_, ?_⟩
  · intro v hv
    obtain rfl := Option.some.inj hv
    refine ⟨by omega, le_of_eq hx, fun e he => ?_⟩
    have := (h.eventBound e he).2
    omega
  · intro id key hop hk
    obtain rfl := Option.some.inj hk
    exact (h.tx t _ ht).key id _ hop (hkey (by rw [show op = .delete id from hop]; rfl))
  · intro x' w' hw'
    cases hw'
  · intro x' w' ev hst
    cases hst
  · intro v hv u ux _ hu hvu
    obtain rfl := Option.some.inj hv
    have := ((h.tx u ux hu).version _ hvu).2.1
    omega
  · intro x' row hw'
    cases hw'
  · intro id key hop hk u ux x' row _ hu hw'
    obtain rfl := Option.some.inj hk
    exact h.fresh u t ux _ x' row id _ hu hw' ht hop (hkey (by rw [hop]; rfl))

theorem DbInv.vanish (h : DbInv db) {id : String} (ht : db.txs t = some ⟨.delete id, st⟩)
    (hst : st = .numbered x ∨ st = .waiting x) (hrow : findById db.flags id = none) :
    DbInv (db.setStage t (.delete id) (.written x .nothing)) := by
  have hsame : st.version? = some x.version ∧ st.key? = some x.key ∧ st.write? = none := by
    rcases hst with rfl | rfl <;> exact ⟨rfl, rfl, rfl⟩
  obtain ⟨hv, hk, hw⟩ := hsame
  have htx := h.tx t _ ht
  refine h.advance (h.advance_setStage ?_ ⟨?_, ?_, ?_, ?_⟩ ?_ ?_ ?_)
  · intro tx htx'
    obtain rfl := Option.some.inj (ht.symm.trans htx')
    exact hw
  · exact fun v hv' => htx.version v (hv.trans hv')
  · exact fun id' key hop hk' => htx.key id' key hop (hk.trans hk')
  · intro x' w' hw'
    obtain ⟨rfl, rfl⟩ : x = x' ∧ .nothing = w' := by simpa [Stage.write?] using hw'
    exact ⟨id, rfl, findById_eq_none.mp hrow⟩
  · intro x' w' ev hst'
    cases hst'
  · intro x' row' hw'
    cases hw'
  · exact fun v hv' u ux hut hu hvu => hut (h.drawn u t ux _ v hu ht hvu (hv.trans hv'))
  · exact fun id' key hop hk' u ux x' row' _ hu hw' =>
      h.fresh u t ux _ x' row' id' key hu hw' ht hop (hk.trans hk')

theorem DbInv.recheck (h : DbInv db) (ht : db.txs t = some ⟨op, .waiting x⟩)
    (hfree : db.rowLock row.id = none) (hrow : row ∈ db.flags) :
    DbInv ((db.takeRowLock t row).setStage t op (.unmatched x)) := by
  have htx := h.tx t _ ht
  refine h.advance (?_ : Advance db _ t op (.unmatched x))
  refine ⟨rfl, rfl, ⟨le_refl _, h.seq.2⟩, fun _ hid => hid, rfl,
    fun _ _ _ hr => hr.takeRowLock hfree, ?_, ?_, ?_, ?_, ?_, ?_⟩
  · intro id u hu
    by_cases hid : id = row.id
    · exact hid ▸ h.uuids row hrow
    · exact h.rowHeld id u ((Function.update_of_ne hid _ _).symm.trans hu)
  · refine fun _ _ hu => Or.inl ⟨h.keyLock_ne (fun tx htx' => ?_) hu, hu⟩
    obtain rfl := Option.some.inj (ht.symm.trans htx')
    rfl
  · have hnext : TxInv db t ⟨op, .unmatched x⟩ := htx.progress (Or.inr rfl) (fun _ hk => hk) rfl
    refine hnext.frame ?_ ?_ ?_ ?_ fun _ hr => hr.takeRowLock hfree
    · rfl
    · rfl
    · exact le_refl _
    · exact fun _ hid => hid
  · exact fun v hv u ux hut hu hvu => hut (h.drawn u t ux _ v hu ht hvu hv)
  · intro x' row' hw'
    cases hw'
  · exact fun id key hop hk u ux x' row' _ hu hw' =>
      h.fresh u t ux _ x' row' id key hu hw' ht hop hk

theorem DbInv.log (h : DbInv db) (ht : db.txs t = some ⟨op, .written x w⟩) :
    DbInv (db.setStage t op (.logged x w (op.event x w))) := by
  have htx := h.tx t _ ht
  refine h.advance (?_ : Advance db _ t op (.logged x w (op.event x w)))
  refine ⟨rfl, rfl, ⟨le_refl _, h.seq.2⟩, fun _ hid => hid, rfl, fun _ _ _ hr => hr, h.rowHeld,
    ?_, ⟨htx.version, htx.key, htx.write, ?_⟩, ?_, ?_, ?_⟩
  · intro key u hu
    by_cases hut : u = t
    · subst hut
      obtain ⟨tx, x', w', row', htx', hw', hrow', hkey⟩ := h.keyHeld key u hu
      obtain rfl := Option.some.inj (ht.symm.trans htx')
      exact Or.inr ⟨rfl, x', w', row', hw', hrow', hkey⟩
    · exact Or.inl ⟨hut, hu⟩
  · intro x' w' ev' hst
    cases hst
    rfl
  · exact fun v hv u ux hut hu hvu => hut (h.drawn u t ux _ v hu ht hvu hv)
  · exact fun x' row' hw' u ux id key _ hu hop hk =>
      h.fresh t u _ ux x' row' id key ht hw' hu hop hk
  · exact fun id key hop hk u ux x' row' _ hu hw' =>
      h.fresh u t ux _ x' row' id key hu hw' ht hop hk

theorem DbInv.finish (h : DbInv db) {res : RepoResult} : DbInv (db.finish t op res) := by
  refine h.advance (?_ : Advance db _ t op (.returned res))
  refine ⟨rfl, rfl, ⟨le_refl _, h.seq.2⟩, fun _ hid => hid, rfl, fun _ _ hut hr => hr.release hut,
    ?_, ?_, txInv_returned .., ?_, ?_, ?_⟩
  · exact fun id u hu => h.rowHeld id u (Db.release_rowLock hu).2
  · exact fun key u hu => Or.inl (Db.release_keyLock hu)
  · intro v hv
    cases hv
  · intro x' row' hw'
    cases hw'
  · intro id key _ hk
    cases hk

/-! ### `COMMIT` -/

/-- Two transactions never hold locks on one row or on one key. -/
theorem Db.Holds.ne (h : db.Holds t row) (h' : db.Holds u r) (hut : u ≠ t) :
    row.id ≠ r.id ∧ row.key ≠ r.key := by
  constructor
  · intro hid
    rw [Db.Holds, ← hid, h.1] at h'
    exact hut (Option.some.inj h'.1).symm
  · intro hkey
    rw [Db.Holds, ← hkey, h.2] at h'
    exact hut (Option.some.inj h'.2).symm

@[simp] theorem Op.event_version (op : Op) (x : Locals) (w : RowWrite) :
    (op.event x w).version = x.version := by
  cases w <;> rfl

/-- The payload of the event is the row's image, unless the column has cut a `Create`'s text. -/
theorem WriteInv.event_payload (h : WriteInv db t op x w) (hr : w = .insert r ∨ w = .update r) :
    ∃ r' : FlagRow, r'.stored = r ∧ (op.event x w).payload = rowPayload r' ∧
      (r' = r ↔ op.Uncut) := by
  rcases hr with rfl | rfl
  · obtain ⟨⟨flag, users, uuid, rfl, husers, rfl⟩, hok, -⟩ := h
    refine ⟨{ insertedRow flag users uuid x with description := flag.description }, rfl, ?_, ?_⟩
    · simp [Op.event, Op.scanned, rowPayload, flagPayload, Flag.toResponse, scanFlag, insertedRow,
        husers]
    · have hfit := FlagRow.description_le hok
      constructor
      · intro heq
        have hdescription : flag.description = assignVarchar 256 flag.description :=
          congrArg FlagRow.description heq
        rw [Op.Uncut, hdescription]
        exact hfit
      · intro hle
        have huncut : assignVarchar 256 flag.description = flag.description :=
          assignVarchar_of_le hle
        rw [insertedRow, huncut]
  · obtain ⟨r₀, -, hdel, hwhere, rfl, hok, -⟩ := h
    refine ⟨op.postImage x r₀, FlagRow.stored_eq hok, ?_, ?_⟩
    all_goals
      cases op with
      | create flag => simp [Op.whereClause] at hwhere
      | update _ _ | toggle _ | delete _ => first | rfl | exact iff_of_true rfl trivial

/-- The event of an insert or an update records the row it leaves. -/
theorem WriteInv.rowEvent (h : WriteInv db t op x w) (hr : w = .insert r ∨ w = .update r) :
    r.version = x.version ∧ RowEvent r (op.event x w) := by
  obtain ⟨r', hstored, hpayload, -⟩ := h.event_payload hr
  rcases hr with rfl | rfl
  · obtain ⟨⟨flag, users, uuid, rfl, husers, rfl⟩, -⟩ := h
    exact ⟨rfl, rfl, by simp [Op.event], rfl, r', hstored, hpayload⟩
  · obtain ⟨r₀, -, hdel, hwhere, rfl, hok, -⟩ := h
    have hv := postImage_version (x := x) hdel hwhere
    have hscan : op.scanned (op.postImage x r₀) x.version = scanFlag (op.postImage x r₀) := by
      cases op with
      | create flag => simp [Op.whereClause] at hwhere
      | update _ _ | toggle _ | delete _ => rfl
    exact ⟨hv, hv.symm, by simp [Op.event], by simp [Op.event, hscan], r', hstored, hpayload⟩

/-- Nobody else's write is touched by a commit. -/
theorem DbInv.writeInv_committed (h : DbInv db) (ht : db.txs t = some ⟨op, .logged x w ev⟩)
    {ux : Tx} {x' : Locals} {w' : RowWrite} (hu : db.txs u = some ux) (hut : u ≠ t)
    (hw' : ux.stage.write? = some (x', w')) :
    WriteInv (db.committed t ⟨op, x, w, ev⟩) u ux.op x' w' := by
  have hwrite : WriteInv db t op x w := (h.tx t _ ht).write x w rfl
  have hwrite' := (h.tx u ux hu).write x' w' hw'
  have hkey' : ux.stage.key? = some x'.key := by
    cases hst : ux.stage <;> rw [hst] at hw' <;> simp_all [Stage.write?, Stage.key?]
  -- the locks of the two writes keep their rows apart
  have hrows : ∀ r r', w.row? = some r → w'.row? = some r' → r.id ≠ r'.id ∧ r.key ≠ r'.key :=
    fun r r' hr hr' => (hwrite.holds hr).ne (hwrite'.holds hr') hut
  have hkept : ∀ r ∈ db.flags, (∃ r', w'.row? = some r' ∧ r'.id = r.id) →
      r ∈ applyWrite db.flags w := by
    rintro r hr ⟨r', hr', hid⟩
    exact mem_applyWrite_of_ne hwrite.fits hr fun row hrow hid' =>
      (hrows row r' hrow hr').1 (hid'.symm.trans hid.symm)
  have hlocks : ∀ row, db.Holds u row → (db.committed t ⟨op, x, w, ev⟩).Holds u row :=
    fun row hrow => hrow.release hut
  cases w' with
  | insert row =>
      obtain ⟨hop, hok, hid, hnew, hholds⟩ := hwrite'
      refine ⟨hop, hok, hid, fun r hr => ?_, hlocks _ hholds⟩
      rcases old_or_inserted hwrite.fits hr with ⟨r', hr', hrid, hrkey⟩ | rfl
      · exact hrid ▸ hrkey ▸ hnew r' hr'
      · exact hrows r row rfl rfl
  | update row =>
      obtain ⟨r, hr, hdel, hwhere, rfl, hok, hholds⟩ := hwrite'
      exact ⟨r, hkept r hr ⟨_, rfl, postImage_id ux.op x' r⟩, hdel, hwhere, rfl, hok,
        hlocks _ hholds⟩
  | delete row =>
      obtain ⟨hr, hop, hholds⟩ := hwrite'
      exact ⟨hkept row hr ⟨row, rfl, rfl⟩, hop, hlocks _ hholds⟩
  | nothing =>
      obtain ⟨id, hop, hgone⟩ := hwrite'
      refine ⟨id, hop, fun r hr => ?_⟩
      rcases old_or_inserted hwrite.fits hr with ⟨r', hr', hrid, -⟩ | rfl
      · exact hrid ▸ hgone r' hr'
      · exact h.fresh t u _ ux x r id x'.key ht rfl hu hop hkey'

theorem DbInv.txInv_committed (h : DbInv db) (ht : db.txs t = some ⟨op, .logged x w ev⟩)
    {ux : Tx} (hu : db.txs u = some ux) (hut : u ≠ t) :
    TxInv (db.committed t ⟨op, x, w, ev⟩) u ux := by
  have htx := h.tx t _ ht
  have hux := h.tx u ux hu
  have hev : ev.version = x.version := by
    rw [htx.event x w ev rfl, Op.event_version]
  refine ⟨fun v hv => ?_, fun id key hop hk => ?_, fun x' w' hw' => ?_, hux.event⟩
  · obtain ⟨hpos, hle, hne⟩ := hux.version v hv
    refine ⟨hpos, hle, fun e he hev' => ?_⟩
    rcases List.mem_append.mp he with he | he
    · exact hne e he hev'
    · rw [List.mem_singleton] at he
      subst he
      exact hut (h.drawn u t ux _ v hu ht hv (by rw [← hev', hev]; rfl))
  · obtain ⟨hid, hrows⟩ := hux.key id key hop hk
    refine ⟨hid, fun r hr hrid => ?_⟩
    rcases old_or_inserted (htx.write x w rfl).fits hr with ⟨r', hr', hrid', hrkey⟩ | rfl
    · exact hrkey ▸ hrows r' hr' (hrid'.trans hrid)
    · exact absurd hrid (h.fresh t u _ ux x r id key ht rfl hu hop hk)
  · exact h.writeInv_committed ht hu hut hw'

theorem DbInv.commit (h : DbInv db) (ht : db.txs t = some ⟨op, .logged x w ev⟩) :
    DbInv (db.committed t ⟨op, x, w, ev⟩) := by
  have htx := h.tx t _ ht
  have hwrite : WriteInv db t op x w := htx.write x w rfl
  have hfit := hwrite.fits
  have hversion := htx.version x.version rfl
  obtain rfl : ev = op.event x w := htx.event x w ev rfl
  have hreturned : ∀ {u ux}, (db.committed t ⟨op, x, w, op.event x w⟩).txs u = some ux →
      (∃ res, ux = ⟨op, .returned res⟩) ∨ (u ≠ t ∧ db.txs u = some ux) := by
    intro u ux hu
    rcases update_some_cases hu with ⟨-, rfl⟩ | hu
    · exact Or.inl ⟨_, rfl⟩
    · exact Or.inr hu
  have hcolumns : ∀ r ∈ applyWrite db.flags w, r.columnsOk = true := by
    intro r hr
    rcases mem_of_mem_applyWrite hfit hr with hr | rfl | rfl
    · exact h.columns r hr
    · exact hwrite.2.1
    · obtain ⟨_, -, -, -, -, hok, -⟩ := hwrite
      exact hok
  have huuids : ∀ r ∈ applyWrite db.flags w, r.id ∈ db.uuids := by
    intro r hr
    rcases old_or_inserted hfit hr with ⟨r', hr', hid, -⟩ | rfl
    · exact hid ▸ h.uuids r' hr'
    · exact hwrite.2.2.1
  have hversions : ((db.events ++ [op.event x w]).map FlagEvent.version).Nodup := by
    rw [List.map_append, List.nodup_append]
    refine ⟨h.versions, by simp, ?_⟩
    simpa using hversion.2.2
  have hbound : ∀ e ∈ db.events ++ [op.event x w], 0 < e.version ∧ e.version ≤ db.seq := by
    intro e he
    rcases List.mem_append.mp he with he | he
    · exact h.eventBound e he
    · rw [List.mem_singleton] at he
      rw [he, Op.event_version]
      exact ⟨hversion.1, hversion.2.1⟩
  have hrowEvent : ∀ r ∈ applyWrite db.flags w,
      r.version = 0 ∨ ∃ e ∈ db.events ++ [op.event x w], RowEvent r e := by
    intro r hr
    rcases mem_of_mem_applyWrite hfit hr with hr | hw
    · refine (h.rowEvent r hr).imp_right ?_
      rintro ⟨e, he, hre⟩
      exact ⟨e, List.mem_append_left _ he, hre⟩
    · exact Or.inr ⟨op.event x w, by simp, (hwrite.rowEvent hw).2⟩
  refine ⟨h.table.applyWrite hfit, hcolumns, huuids, h.seq, hversions, hbound, hrowEvent,
    ?_, ?_, ?_, ?_, ?_⟩
  · intro u ux hu
    rcases hreturned hu with ⟨res, rfl⟩ | ⟨hut, hu⟩
    · exact txInv_returned ..
    · exact h.txInv_committed ht hu hut
  · intro u₁ u₂ x₁ x₂ v h₁ h₂ hv₁ hv₂
    rcases hreturned h₁ with ⟨_, rfl⟩ | ⟨-, hu₁⟩
    · cases hv₁
    rcases hreturned h₂ with ⟨_, rfl⟩ | ⟨-, hu₂⟩
    · cases hv₂
    · exact h.drawn u₁ u₂ x₁ x₂ v hu₁ hu₂ hv₁ hv₂
  · intro u₁ u₂ x₁ x₂ y row id key h₁ hw h₂ hop hk
    rcases hreturned h₁ with ⟨_, rfl⟩ | ⟨-, hu₁⟩
    · cases hw
    rcases hreturned h₂ with ⟨_, rfl⟩ | ⟨-, hu₂⟩
    · cases hk
    · exact h.fresh u₁ u₂ x₁ x₂ y row id key hu₁ hw hu₂ hop hk
  · exact fun id u hu => h.rowHeld id u (Db.release_rowLock hu).2
  · intro key u hu
    obtain ⟨hut, hu⟩ := Db.release_keyLock hu
    obtain ⟨ux, y, w', row, htxu, hrest⟩ := h.keyHeld key u hu
    exact ⟨ux, y, w', row, (Function.update_of_ne hut _ _).trans htxu, hrest⟩

section Ready

variable {c : Commit} (h : DbInv db)
  (ht : db.txs t = some ⟨c.op, .logged c.locals c.write c.event⟩)

include h ht

/-! What a transaction that is ready to commit will commit. -/

theorem DbInv.writeInv : WriteInv db t c.op c.locals c.write :=
  (h.tx t _ ht).write _ _ rfl

theorem DbInv.write_fits : c.write.Fits db.flags :=
  (h.writeInv ht).fits

/-- The row a commit inserts or puts in place is in the table after it. -/
theorem DbInv.mem_committed (hw : c.write = .insert row ∨ c.write = .update row) :
    row ∈ (db.committed t c).flags := by
  have hfit := h.write_fits ht
  rw [Db.committed]
  rcases hw with hw | hw
  · rw [hw]
    exact mem_applyWrite_insert.mpr (Or.inr rfl)
  · rw [hw] at hfit ⊢
    exact (mem_applyWrite_update hfit).mpr (Or.inr rfl)

theorem DbInv.event_eq : c.event = c.op.event c.locals c.write :=
  (h.tx t _ ht).event _ _ _ rfl

theorem DbInv.event_version : c.event.version = c.locals.version := by
  rw [h.event_eq ht, Op.event_version]

/-- Its event is about the key of the row it writes. -/
theorem DbInv.event_key (hrow : c.write.row? = some row) : c.event.flagKey = row.key := by
  have hwrite := h.writeInv ht
  rw [h.event_eq ht]
  cases hw : c.write with
  | insert r =>
      rw [hw] at hrow
      obtain rfl := Option.some.inj hrow
      exact hw ▸ (hwrite.rowEvent (Or.inl hw)).2.2.2.1
  | update r =>
      rw [hw] at hrow
      obtain rfl := Option.some.inj hrow
      exact hw ▸ (hwrite.rowEvent (Or.inr hw)).2.2.2.1
  | delete r =>
      rw [hw] at hrow hwrite
      obtain rfl := Option.some.inj hrow
      obtain ⟨hmem, hop, -⟩ := hwrite
      exact (((h.tx t _ ht).key _ c.locals.key hop rfl).2 r hmem rfl).symm
  | nothing =>
      rw [hw] at hrow
      cases hrow

/-- The event of a commit records the row that it leaves exactly when no column has cut it. -/
theorem DbInv.records_iff (hw : c.write = .insert row ∨ c.write = .update row) :
    c.event.Records (scanFlag row) ↔ c.op.Uncut := by
  obtain ⟨hv, hevent⟩ := (h.writeInv ht).rowEvent hw
  obtain ⟨r', hstored, hpayload, hcut⟩ := (h.writeInv ht).event_payload hw
  rw [← h.event_eq ht] at hevent hpayload
  rw [← hcut]
  constructor
  · intro hrec
    obtain ⟨-, -, -, hrow⟩ := hrec
    subst hstored
    exact r'.eq_stored_of_description (flagPayload_inj (hpayload.symm.trans hrow)).1
  · rintro rfl
    exact ⟨hevent.1, hevent.2.1, hevent.2.2.1, hpayload⟩

/-- The event of a commit that no column has cut records no flag with a description too long. -/
theorem DbInv.not_recordsUncut (hcut : c.op.Uncut) (flag : Flag) : ¬ c.event.RecordsUncut flag := by
  intro hrec
  obtain ⟨d, hd, hstored, -, hty, -, hpayload⟩ := hrec
  have hwrite := h.writeInv ht
  have hset : ∀ row, c.write = .insert row ∨ c.write = .update row → False := by
    intro row hw
    obtain ⟨r', -, hrow, heq⟩ := hwrite.event_payload hw
    obtain rfl := heq.mpr hcut
    rw [h.event_eq ht, hrow] at hpayload
    have hdescription : r'.description = d := (flagPayload_inj hpayload).1
    have hfit := FlagRow.description_le ((h.commit ht).columns r' (h.mem_committed ht hw))
    rw [hdescription] at hfit
    exact hd ((assignVarchar_of_le hfit).symm.trans hstored)
  cases hw : c.write with
  | insert row => exact hset row (Or.inl hw)
  | update row => exact hset row (Or.inr hw)
  | delete _ | nothing =>
      rw [h.event_eq ht, hw] at hty
      exact hty rfl

/-- Its version is above 0, and no event's yet. -/
theorem DbInv.version_new :
    0 < c.locals.version ∧ ∀ e ∈ db.events, e.version ≠ c.locals.version := by
  obtain ⟨hpos, -, hne⟩ := (h.tx t _ ht).version _ rfl
  exact ⟨hpos, hne⟩

end Ready

/-! ### The latest version -/

theorem inInt64_of_version {v : Int} (h₀ : 0 ≤ v) (hmax : v ≤ maxVersion) : Json.InInt64 v := by
  rw [maxVersion] at hmax
  exact ⟨by omega, by omega⟩

/-- A version that is 0 or an event's is a 64-bit integer. -/
theorem DbInv.inInt64_of_logged (h : DbInv db) {v : Int}
    (hv : v = 0 ∨ ∃ e ∈ db.events, e.version = v) : Json.InInt64 v := by
  rcases hv with rfl | ⟨e, he, rfl⟩
  · decide
  · have hbound := h.eventBound e he
    have hseq := h.seq.2
    exact inInt64_of_version (by omega) (by omega)

theorem DbInv.version_inInt64 (h : DbInv db) {r : FlagRow} (hr : r ∈ db.flags) :
    Json.InInt64 r.version :=
  h.inInt64_of_logged ((h.rowEvent r hr).imp_right fun ⟨e, he, hv, _⟩ => ⟨e, he, hv⟩)

theorem DbInv.latest_bounds (h : DbInv db) :
    0 ≤ getLatestVersion db.events ∧ getLatestVersion db.events ≤ maxVersion := by
  by_cases hempty : db.events = []
  · rw [hempty]
    decide
  · obtain ⟨e, he, hv⟩ := getLatestVersion_mem hempty
    have hbound := h.eventBound e he
    have hseq := h.seq
    omega

/-- A longer log has no lower latest version. -/
theorem DbInv.latest_le (h : DbInv db') (hsub : ∀ e ∈ db.events, e ∈ db'.events) :
    getLatestVersion db.events ≤ getLatestVersion db'.events := by
  by_cases hempty : db.events = []
  · rw [hempty]
    exact h.latest_bounds.1
  · obtain ⟨e, he, hv⟩ := getLatestVersion_mem hempty
    exact hv ▸ le_getLatestVersion (hsub e he)

/-! ### Every statement, every run -/

/-- **Every statement keeps the invariant.** -/
theorem DbInv.step (h : DbInv db) {a : Action} (hs : step db a = some db') : DbInv db' := by
  cases step_effect hs with
  | call ht => exact h.call ht
  | progress _ ht _ _ hv hk hw hw' => exact h.progress ht hv hk hw hw'
  | select ht hrow => exact h.select ht hrow
  | draw ht _ hw hkey hx hseq => exact h.draw ht hw hkey hx hseq
  | vanish _ ht hst hrow => exact h.vanish ht hst hrow
  | insert ht husers hok huuid hfree hkey => exact h.insert ht husers hok huuid hfree hkey
  | update ht hdel hfree hrow hwhere hok => exact h.update ht hdel hfree hrow hwhere hok
  | remove ht hfree hrow hid => exact h.remove ht hfree hrow hid
  | recheck ht hfree hrow => exact h.recheck ht hfree hrow
  | log ht => exact h.log ht
  | commit ht => exact h.commit ht
  | finish => exact h.finish

theorem Migrated.dbInv {rows : List FlagRow} (h : Migrated rows) : DbInv (Db.migrated rows) where
  table := h.keys
  columns := h.columns
  uuids r hr := List.mem_map_of_mem hr
  seq := ⟨le_refl _, show (0 : Int) ≤ maxVersion by decide⟩
  versions := List.nodup_nil
  eventBound e he := by cases he
  rowEvent r hr := Or.inl (h.version r hr)
  tx t tx ht := by cases ht
  drawn t u tx ux v ht := by cases ht
  fresh t u tx ux x row id key ht := by cases ht
  rowHeld id t ht := by cases ht
  keyHeld key t ht := by cases ht

/-- **Every reachable database satisfies the invariant.** -/
theorem DbInv.of_exec {rows : List FlagRow} {as : List Action} (h : Migrated rows)
    (hrun : exec FlagPlane.step (Db.migrated rows) as = some db) : DbInv db :=
  exec_preserves (fun h hs => DbInv.step h hs) h.dbInv hrun

end FlagPlane
