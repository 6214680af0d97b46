import FlagPlane.Repository.Preservation

/-!
# FlagPlane.Repository.Atomicity

**Table and log change together or not at all.** Part of this is the invariant of the
database (`DbInv.rowEvent`, `DbInv.versions`). The rest is an account of what each call
has committed: nothing until it returns, nothing when it returns an error or `nil`, and
one event, of the version it returns, when it returns success after writing.
-/

namespace FlagPlane

/-- The events a call has committed in a run. -/
def committedBy (t : TxId) (trs : List (Transition Db Action)) : List FlagEvent :=
  trs.filterMap fun tr =>
    if tr.act.tx = t then (tr.pre.committing tr.act).map Commit.event else none

/-- What a call has committed, by where it stands. A call that has returned without an event
returned no version, or had nothing to change. -/
def Accounted (events : List FlagEvent) : Option Tx → Prop
  | some ⟨op, .returned r⟩ =>
    (events = [] ∧ (r.version? = none ∨ op.nothingToChange = true)) ∨
      ∃ e, events = [e] ∧ r.version? = some e.version
  | _ => events = []

section Step

variable {db db' : Db} {a : Action} {t : TxId} {c : Commit} {events : List FlagEvent}

theorem committedBy_append (trs : List (Transition Db Action)) :
    committedBy t (trs ++ [⟨db, a, db'⟩]) =
      committedBy t trs ++
        if a.tx = t then ((db.committing a).map Commit.event).toList else [] := by
  rw [committedBy, List.filterMap_append, ← committedBy]
  congr 1
  rw [List.filterMap_cons, List.filterMap_nil]
  dsimp only
  split_ifs
  · cases db.committing a <;> rfl
  · rfl

theorem accounted_open {op : Op} {st : Stage} (hst : st.isReturned = false) :
    Accounted events (some ⟨op, st⟩) ↔ events = [] := by
  cases st <;> simp_all [Accounted, Stage.isReturned]

/-- A statement other than a `COMMIT` that succeeds keeps its call's account. -/
theorem Accounted.step_other (hs : step db a = some db') (hc : db.committing a = none)
    (h : Accounted events (db.txs a.tx)) : Accounted events (db'.txs a.tx) := by
  have hopen : ∀ {op : Op} {st : Stage}, db.txs a.tx = some ⟨op, st⟩ → st.isReturned = false →
      events = [] := by
    intro op st ht hret
    rw [ht] at h
    exact (accounted_open hret).mp h
  have hstay : ∀ {txs : TxId → Option Tx} {op op' : Op} {st st' : Stage},
      db.txs a.tx = some ⟨op, st⟩ → st.isReturned = false → st'.isReturned = false →
      Accounted events (Function.update txs a.tx (some ⟨op', st'⟩) a.tx) := by
    intro txs op op' st st' ht hret hret'
    rw [Function.update_self]
    exact (accounted_open hret').mpr (hopen ht hret)
  cases step_effect hs with
  | @call t op ht =>
      have hnone : Accounted events (db.txs t) := h
      rw [ht] at hnone
      show Accounted events (Function.update db.txs t (some ⟨op, .called⟩) t)
      rw [Function.update_self]
      exact hnone
  | progress ha ht hret hret' =>
      subst ha
      exact hstay ht hret hret'
  | vanish ha ht hst =>
      subst ha
      rcases hst with rfl | rfl <;> exact hstay ht rfl rfl
  | select ht | insert ht | update ht | remove ht | recheck ht | log ht => exact hstay ht rfl rfl
  | draw ht hret => exact hstay ht hret rfl
  | commit ht =>
      rw [committing_eq_some.mpr ⟨_, rfl, ht⟩] at hc
      cases hc
  | @finish _ _ op _ r ha ht hret hr =>
      subst ha
      show Accounted events (Function.update db.txs a.tx (some ⟨op, .returned r⟩) a.tx)
      rw [Function.update_self]
      exact Or.inl ⟨hopen ht hret, hr.imp_right And.left⟩

/-- A successful commit returns the version it has drawn. -/
theorem DbInv.result_version (h : DbInv db)
    (ht : db.txs t = some ⟨c.op, .logged c.locals c.write c.event⟩) :
    (c.op.result c.locals c.write).version? = some c.event.version := by
  have hwrite := h.writeInv ht
  rw [h.event_version ht]
  cases hw : c.write with
  | insert row =>
      rw [hw] at hwrite
      obtain ⟨⟨flag, _, _, hop, -⟩, -⟩ := hwrite
      rw [hop]
      rfl
  | update row =>
      have hv := (hwrite.rowEvent (Or.inr hw)).1
      rw [hw] at hwrite
      obtain ⟨r, -, hdel, hwhere, -, -⟩ := hwrite
      cases hop : c.op with
      | create flag => rw [hop] at hwhere; simp [Op.whereClause] at hwhere
      | update _ _ | toggle _ | delete _ => exact congrArg some hv
  | delete row => rfl
  | nothing => rfl

theorem accounted_step {trs : List (Transition Db Action)} (h : DbInv db)
    (hacc : ∀ t, Accounted (committedBy t trs) (db.txs t)) (hs : step db a = some db') (t : TxId) :
    Accounted (committedBy t (trs ++ [⟨db, a, db'⟩])) (db'.txs t) := by
  rw [committedBy_append]
  by_cases hta : a.tx = t
  · subst hta
    rw [if_pos rfl]
    rcases step_tables hs with ⟨hnone, -⟩ | ⟨u, c, rfl, hu, hc, rfl⟩
    · rw [hnone]
      simpa using (hacc a.tx).step_other hs hnone
    · have hempty : committedBy u trs = [] := by
        have := hacc u
        rw [hu] at this
        exact (accounted_open rfl).mp this
      have hpost : (db.committed u c).txs u =
          some ⟨c.op, .returned (c.op.result c.locals c.write)⟩ :=
        Function.update_self ..
      rw [hc, show (Action.commit u).tx = u from rfl, hempty, hpost]
      exact Or.inr ⟨c.event, rfl, h.result_version hu⟩
  · rw [if_neg hta, List.append_nil, step_txs_of_ne hs (Ne.symm hta)]
    exact hacc t

end Step

/-! ### Runs -/

/-- What a run from a migrated database keeps. -/
structure Account (trs : List (Transition Db Action)) (db : Db) : Prop where
  inv : DbInv db
  calls : ∀ t, Accounted (committedBy t trs) (db.txs t)
  logged : ∀ t, ∀ e ∈ committedBy t trs, e ∈ db.events

theorem Account.step {trs : List (Transition Db Action)} {db db' : Db} {a : Action}
    (h : Account trs db) (hs : step db a = some db') : Account (trs ++ [⟨db, a, db'⟩]) db' where
  inv := h.inv.step hs
  calls t := accounted_step h.inv h.calls hs t
  logged t e he := by
    rw [committedBy_append, List.mem_append] at he
    rcases step_tables hs with ⟨hnone, -, hevents⟩ | ⟨u, c, rfl, -, hc, rfl⟩
    · rw [hnone] at he
      rw [hevents]
      exact h.logged t e (he.resolve_right (by simp))
    · rcases he with he | he
      · exact List.mem_append_left _ (h.logged t e he)
      · rw [hc] at he
        split_ifs at he
        · exact List.mem_append_right _ (by simpa using he)
        · cases he

theorem Account.of_exec {rows : List FlagRow} (hrows : Migrated rows) {as : List Action} {db : Db}
    (hrun : exec FlagPlane.step (Db.migrated rows) as = some db) :
    Account (transitions FlagPlane.step (Db.migrated rows) as) db :=
  exec_history (fun h hs => Account.step h hs)
    ⟨hrows.dbInv, fun _ => rfl, fun _ _ he => by cases he⟩ hrun

/-- A call that has committed nothing has changed nothing. -/
theorem unchanged_of_committedBy_nil {as : List Action} {db₀ : Db} {t : TxId}
    (h : committedBy t (transitions step db₀ as) = []) {tr : Transition Db Action}
    (htr : tr ∈ transitions step db₀ as) (ht : tr.act.tx = t) :
    tr.post.flags = tr.pre.flags ∧ tr.post.events = tr.pre.events := by
  rcases step_tables (step_of_mem_transitions htr) with ⟨-, hflags, hevents⟩ | ⟨u, c, -, -, hc, -⟩
  · exact ⟨hflags, hevents⟩
  · have hmem : c.event ∈ committedBy t (transitions step db₀ as) :=
      List.mem_filterMap.mpr ⟨tr, htr, by rw [if_pos ht, hc]; rfl⟩
    rw [h] at hmem
    cases hmem

/-- Of a duplicate-free log, the events of one version are that one event. -/
theorem filter_version_eq {events : List FlagEvent} (h : (events.map FlagEvent.version).Nodup)
    {e : FlagEvent} (he : e ∈ events) : events.filter (fun e' => e'.version = e.version) = [e] := by
  induction events with
  | nil => cases he
  | cons x events ih =>
      rw [List.map_cons, List.nodup_cons] at h
      have hx : ∀ e' ∈ events, e'.version ≠ x.version := fun e' he' heq =>
        h.1 (heq ▸ List.mem_map_of_mem he')
      rcases List.mem_cons.mp he with rfl | he
      · rw [List.filter_cons_of_pos (by simp), List.filter_eq_nil_iff.mpr (by simpa using hx)]
      · rw [List.filter_cons_of_neg (by simpa using (hx e he).symm), ih h.2 he]

/-- Table and log together after the run `as`: each row above version 0 has exactly one event of
its version, which records it; no two events share a version; a call that returned a version after
writing has committed exactly one event, of that version; and a call that returned an error or
`nil` has changed neither table. -/
structure ChangeTogether (rows : List FlagRow) (as : List Action) (db : Db) : Prop where
  recorded : ∀ r ∈ db.flags, 0 < r.version →
    ∃ e, db.events.filter (fun e => e.version = r.version) = [e] ∧ e.Records (scanFlag r)
  versions : (db.events.map FlagEvent.version).Nodup
  success : ∀ t op res v, db.txs t = some ⟨op, .returned res⟩ → op.nothingToChange = false →
    res.version? = some v →
    ∃ e, committedBy t (transitions step (Db.migrated rows) as) = [e] ∧ e.version = v ∧
      e ∈ db.events
  failure : ∀ t op res, db.txs t = some ⟨op, .returned res⟩ → res.version? = none →
    ∀ tr ∈ transitions step (Db.migrated rows) as, tr.act.tx = t →
      tr.post.flags = tr.pre.flags ∧ tr.post.events = tr.pre.events

section Runs

variable {rows : List FlagRow} {as : List Action} {db db' : Db} {a : Action} {c : Commit} {t : TxId}

/-- No event of the log has a description that its column has cut. -/
def Uncut (db : Db) : Prop := ∀ e ∈ db.events, ∀ flag, ¬ e.RecordsUncut flag

theorem Uncut.step (h : DbInv db) (hcut : Uncut db)
    (hc : ∀ c, db.committing a = some c → c.op.Uncut) (hs : FlagPlane.step db a = some db') :
    Uncut db' := by
  rcases step_tables hs with ⟨-, -, hevents⟩ | ⟨t, c, rfl, ht, hcommit, rfl⟩
  · rw [Uncut, hevents]
    exact hcut
  · intro e he
    rcases List.mem_append.mp he with he | he
    · exact hcut e he
    · rw [List.mem_singleton.mp he]
      exact h.not_recordsUncut ht (hc c hcommit)

/-- **Without a cut, over a run.** -/
theorem changeTogether_of_uncut (hrows : Migrated rows)
    (hrun : exec step (Db.migrated rows) as = some db)
    (hcut : ∀ tr ∈ transitions step (Db.migrated rows) as, ∀ c,
      tr.pre.committing tr.act = some c → c.op.Uncut) : ChangeTogether rows as db := by
  have h := Account.of_exec hrows hrun
  obtain ⟨-, huncut⟩ : DbInv db ∧ Uncut db :=
    exec_preserves_of (I := fun db => DbInv db ∧ Uncut db)
      (C := fun db a => ∀ c, db.committing a = some c → c.op.Uncut)
      (fun h hc hs => ⟨h.1.step hs, h.2.step h.1 hc hs⟩)
      ⟨hrows.dbInv, fun e he => (List.not_mem_nil he).elim⟩ hcut hrun
  refine ⟨fun r hr hv => ?_, h.inv.versions, fun t op res v ht hop hres => ?_,
    fun t op res ht hres => ?_⟩
  · rcases h.inv.rowEvent r hr with hzero | ⟨e, he, hre⟩
    · omega
    · refine ⟨e, ?_, hre.records.resolve_right (huncut e he _)⟩
      rw [← hre.1]
      exact filter_version_eq h.inv.versions he
  · have hacc := h.calls t
    rw [ht] at hacc
    rcases hacc with ⟨-, hno | hno⟩ | ⟨e, hone, hv⟩
    · rw [hno] at hres
      cases hres
    · rw [hno] at hop
      cases hop
    · rw [hv] at hres
      exact ⟨e, hone, Option.some.inj hres, h.logged t e (by rw [hone]; simp)⟩
  · have hacc := h.calls t
    rw [ht] at hacc
    rcases hacc with ⟨hempty, -⟩ | ⟨e, -, hv⟩
    · exact fun tr htr htx => unchanged_of_committedBy_nil hempty htr htx
    · rw [hv] at hres
      cases hres

/-- **A cut.** A `Create` whose text the column has cut leaves a row that its event does not
record. -/
theorem ChangeTogether.uncut (h : DbInv db)
    (ht : db.txs t = some ⟨c.op, .logged c.locals c.write c.event⟩)
    (htogether : ChangeTogether rows as (db.committed t c)) : c.op.Uncut := by
  have hafter := h.commit ht
  have hset : ∀ row, c.write = .insert row ∨ c.write = .update row → c.op.Uncut := by
    intro row hw
    have hrow := h.mem_committed ht hw
    have hv : row.version = c.event.version := by
      rw [h.event_version ht]
      exact ((h.writeInv ht).rowEvent hw).1
    have hmem : c.event ∈ (db.committed t c).events :=
      List.mem_append_right _ (List.mem_singleton.mpr rfl)
    have hpos : 0 < row.version := hv ▸ (hafter.eventBound c.event hmem).1
    obtain ⟨e, hone, hrecords⟩ := htogether.recorded row hrow hpos
    rw [hv, filter_version_eq hafter.versions hmem] at hone
    obtain rfl := List.singleton_inj.mp hone
    exact (h.records_iff ht hw).mp hrecords
  have hwrite := h.writeInv ht
  cases hw : c.write with
  | insert row => exact hset row (Or.inl hw)
  | update row => exact hset row (Or.inr hw)
  | delete row | nothing =>
      rw [hw] at hwrite
      cases hop : c.op with
      | create flag => simp [hop, WriteInv] at hwrite
      | update _ _ | toggle _ | delete _ => trivial

end Runs

/-- **Table and log, over runs.** From any table migration 002 can leave and over any run, table
and log stand together after every statement exactly when no `Create` commits a description that
its column has cut. -/
theorem table_and_log_change_together_iff {rows : List FlagRow} (hrows : Migrated rows)
    (as : List Action) :
    (∀ bs db, bs <+: as → exec step (Db.migrated rows) bs = some db → ChangeTogether rows bs db) ↔
      ∀ tr ∈ transitions step (Db.migrated rows) as, ∀ c,
        tr.pre.committing tr.act = some c → c.op.Uncut := by
  constructor
  · intro hall tr htr c hc
    obtain ⟨bs, hprefix, hrun⟩ := exists_prefix_of_mem_transitions htr
    have htogether := hall bs tr.post hprefix hrun
    have hinv := (transitions_preserves (fun h hs => DbInv.step h hs) hrows.dbInv htr).1
    rcases step_tables (step_of_mem_transitions htr) with ⟨hnone, -⟩ | ⟨t, c', -, ht, hc', hpost⟩
    · rw [hnone] at hc
      cases hc
    · obtain rfl : c' = c := Option.some.inj (hc'.symm.trans hc)
      rw [hpost] at htogether
      exact htogether.uncut hinv ht
  · rintro hcut bs db ⟨cs, rfl⟩ hrun
    refine changeTogether_of_uncut hrows hrun fun tr htr => hcut tr ?_
    rw [transitions_append hrun]
    exact List.mem_append_left _ htr

/-- A toggle gets ahead of an update that expects the flag at version 0. -/
def conflictingUpdate : List Action :=
  [.call 1 (.toggle "u"), .call 2 (.update "u" ⟨none, some true, none, none, some 0⟩), .begin 1 1,
    .begin 2 1, .nextval 1, .nextval 2, .scan 1, .scan 2, .lock 1, .appendEvent 1, .commit 1,
    .lock 2, .noRow 2]

theorem table_and_log_change_together_iff_conflictingUpdate :
    (∀ bs db, bs <+: conflictingUpdate → exec step (Db.migrated [checkoutRow]) bs = some db →
        ChangeTogether [checkoutRow] bs db) ↔
      ∀ tr ∈ transitions step (Db.migrated [checkoutRow]) conflictingUpdate, ∀ c,
        tr.pre.committing tr.act = some c → c.op.Uncut :=
  table_and_log_change_together_iff migrated_checkoutRow conflictingUpdate

/-! ### A description with too many blanks -/

/-- A flag to create. -/
def describedFlag (d : String) : Flag := ⟨"", "checkout", d, false, 0, some [], 0, 0, 0⟩

def createDescribed (d : String) : List Action :=
  [.call 0 (.create (describedFlag d)), .begin 0 1, .nextval 0, .insert 0 "u", .appendEvent 0]

/-- A description that fits once it is cut gets as far as the `COMMIT`. -/
theorem exec_createDescribed {d : String} (hlength : (assignVarchar 256 d).length ≤ 256)
    (hnul : noNul (assignVarchar 256 d) = true) :
    ∃ (db : Db) (c : Commit), exec step (Db.migrated []) (createDescribed d) = some db ∧
      db.txs 0 = some ⟨c.op, .logged c.locals c.write c.event⟩ ∧
      c.op = .create (describedFlag d) := by
  have hok : (insertedRow (describedFlag d) [] "u" ⟨1, "", 1⟩).columnsOk = true :=
    FlagRow.columnsOk_description (r := insertedRow (describedFlag "") [] "u" ⟨1, "", 1⟩)
      (by decide) hlength hnul
  have husers : (describedFlag d).targetedUsers = some [] := rfl
  have hset : (Op.create (describedFlag d)).nothingToChange = false := rfl
  obtain ⟨db, hrun, ht⟩ : ∃ db, exec step (Db.migrated []) (createDescribed d) = some db ∧
      db.txs 0 = some ⟨.create (describedFlag d), .logged ⟨1, "", 1⟩
        (.insert (insertedRow (describedFlag d) [] "u" ⟨1, "", 1⟩))
        ((Op.create (describedFlag d)).event ⟨1, "", 1⟩
          (.insert (insertedRow (describedFlag d) [] "u" ⟨1, "", 1⟩)))⟩ := by
    simp [createDescribed, exec, step, Db.migrated, Db.setStage, hset, Op.isDelete, Db.nextVersion,
      maxVersion, Db.insertFlag, husers, hok, findByKey, Db.takeLocks, Db.takeRowLock]
  exact ⟨db, ⟨_, _, _, _⟩, hrun, ht, rfl⟩

/-- 256 letters and a blank: the event's payload has the blank, the row has not. -/
theorem paddedCreate_not_together :
    ∃ db, exec step (Db.migrated []) (createDescribed (blankPadded 256) ++ [.commit 0]) = some db ∧
      ¬ ChangeTogether [] (createDescribed (blankPadded 256) ++ [.commit 0]) db := by
  obtain ⟨db, c, hrun, ht, hop⟩ := exec_createDescribed (length_assignVarchar_blankPadded 256)
    (noNul_assignVarchar_blankPadded 256)
  have hcommit : step db (.commit 0) = some (db.committed 0 c) := by
    rw [step, ht]
    rfl
  refine ⟨db.committed 0 c, exec_append_eq_some.mpr ⟨db, hrun, ?_⟩, fun htogether => ?_⟩
  · rw [exec, hcommit]
    rfl
  · have hcut := htogether.uncut (DbInv.of_exec migrated_nil hrun) ht
    have hlength : (blankPadded 256).length ≤ 256 := by
      rw [hop] at hcut
      exact hcut
    rw [length_blankPadded] at hlength
    omega

end FlagPlane
