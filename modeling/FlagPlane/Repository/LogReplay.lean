import Mathlib.Order.Bounds.Basic
import FlagPlane.Repository.Preservation

/-!
# FlagPlane.Repository.LogReplay

**The log against the table.** `flag_events` is meant to be a second copy of
`feature_flags`: a reader that holds the table as of some version reaches the table
of now by replaying the events above that version in order. The version is drawn
before the row lock is taken, so a transaction may commit an event below one that the
log already has for its key, and then the replay ends with the wrong event.

`Commit.OnTopOf` is the condition under which a commit does no such harm, for a
reader at a given version. `Reaches.step_iff` shows it to be exact for one step, and
`logMatchesTable_iff_commits_on_top` over whole runs for a reader that starts from
nothing.
-/

namespace FlagPlane

/-! ### Readers of log and table -/

/-- A way to look at flags: at a payload of the log and, in agreement with that, at a row of
the table. It shows a row's version and description. -/
structure View (ν : Type*) where
  decode : Json → Option ν
  image : FlagRow → ν
  decode_payload : ∀ r : FlagRow, r.stored.columnsOk = true → 0 ≤ r.version →
    r.version ≤ maxVersion → decode (rowPayload r) = some (image r)
  image_version : ∀ r r' : FlagRow, image r = image r' → r.version = r'.version
  image_description : ∀ r r' : FlagRow, image r = image r' → r.description = r'.description

/-- The log as a keyed log. -/
def View.entries {ν : Type*} (V : View ν) (events : List FlagEvent) : List (Entry Int String ν) :=
  events.map (FlagEvent.entry V.decode)

/-- The table, keyed by flag key. -/
def View.table {ν : Type*} (V : View ν) (db : Db) : String → Option ν :=
  keyMap V.image db.flags

/-- A reader that holds `m` at version `v` reaches the table by replaying what is above `v`. -/
def Reaches {ν : Type*} (V : View ν) (m : String → Option ν) (v : Int) (db : Db) : Prop :=
  replay m (above v (V.entries db.events)) = V.table db

/-- A commit that a reader at version `v` can follow: a write comes after `v` and after every
event of its key, and the column has cut no text of it; a `DELETE` that matched no row removes
nothing that is there. -/
def Commit.OnTopOf (v : Int) (db : Db) (c : Commit) : Prop :=
  match c.write with
  | .insert row | .update row | .delete row =>
    (v < c.locals.version ∧
      ∀ e ∈ db.events, e.flagKey = row.key → e.version < c.locals.version) ∧ c.op.Uncut
  | .nothing =>
    findByKey db.flags c.locals.key = none ∨ c.locals.version ≤ v ∨
      ∃ e ∈ db.events, e.flagKey = c.locals.key ∧ c.locals.version < e.version

instance (v : Int) (db : Db) (c : Commit) : Decidable (c.OnTopOf v db) :=
  match hw : c.write with
  | .insert row | .update row | .delete row =>
    decidable_of_iff ((v < c.locals.version ∧
      ∀ e ∈ db.events, e.flagKey = row.key → e.version < c.locals.version) ∧ c.op.Uncut)
      (by simp [Commit.OnTopOf, hw])
  | .nothing =>
    decidable_of_iff (findByKey db.flags c.locals.key = none ∨ c.locals.version ≤ v ∨
      ∃ e ∈ db.events, e.flagKey = c.locals.key ∧ c.locals.version < e.version)
      (by simp [Commit.OnTopOf, hw])

section Commit

variable {ν : Type*} {V : View ν} {m : String → Option ν} {v : Int} {db db' : Db} {t : TxId}
  {c : Commit} {row : FlagRow}

theorem View.entry_value (V : View ν) (ev : FlagEvent) :
    (ev.entry V.decode).value = if ev.eventType = .deleted then none else V.decode ev.payload := rfl

theorem DbInv.distinctVersions (h : DbInv db) (V : View ν) :
    DistinctVersions (V.entries db.events) := by
  rw [DistinctVersions, View.entries, List.map_map]
  exact h.versions

theorem DbInv.row_version_bounds (h : DbInv db) {r : FlagRow} (hr : r ∈ db.flags) :
    0 ≤ r.version ∧ r.version ≤ maxVersion := by
  have hseq := h.seq
  rcases h.rowEvent r hr with hv | ⟨e, he, hv, -⟩
  · omega
  · have := h.eventBound e he
    omega

/-- What a view sees under the key of a write, once it is done. -/
def RowWrite.seen (V : View ν) : RowWrite → Option ν
  | insert row | update row => some (V.image row)
  | delete _ | nothing => none

theorem View.table_committed_nothing (V : View ν) (hw : c.write = .nothing) :
    V.table (db.committed t c) = V.table db := by
  rw [View.table, Db.committed, hw]
  rfl

variable (h : DbInv db) (ht : db.txs t = some ⟨c.op, .logged c.locals c.write c.event⟩)

include h ht

/-- The event of a commit sets its key to what the write leaves there, unless the column has cut
the text of a `Create`. -/
theorem DbInv.event_value_iff (V : View ν) :
    (c.event.entry V.decode).value = c.write.seen V ↔ c.op.Uncut := by
  have hwrite := h.writeInv ht
  have hset : ∀ row, c.write = .insert row ∨ c.write = .update row →
      ((c.event.entry V.decode).value = some (V.image row) ↔ c.op.Uncut) := by
    intro row hw
    obtain ⟨r', hstored, hpayload, hcut⟩ := hwrite.event_payload hw
    have htype := (hwrite.rowEvent hw).2.2.1
    subst hstored
    have hmem := h.mem_committed ht hw
    obtain ⟨h₀, hmax⟩ := (h.commit ht).row_version_bounds hmem
    have hdecode : V.decode (rowPayload r') = some (V.image r') :=
      V.decode_payload r' ((h.commit ht).columns _ hmem) h₀ hmax
    rw [V.entry_value, h.event_eq ht, if_neg htype, hpayload, hdecode, Option.some.injEq, ← hcut]
    refine ⟨fun himage => ?_, congrArg V.image⟩
    exact r'.eq_stored_of_description (V.image_description _ _ himage)
  cases hw : c.write with
  | insert r => exact hset r (Or.inl hw)
  | update r => exact hset r (Or.inr hw)
  | delete r | nothing =>
      have huncut : c.op.Uncut := by
        rw [hw] at hwrite
        cases hop : c.op with
        | create flag => simp [hop, WriteInv] at hwrite
        | update _ _ | toggle _ | delete _ => trivial
      refine iff_of_true ?_ huncut
      rw [V.entry_value, h.event_eq ht, hw]
      rfl

/-- The table by key, after a commit that wrote a row. -/
theorem DbInv.table_committed (V : View ν) (hrow : c.write.row? = some row) :
    V.table (db.committed t c) = Function.update (V.table db) row.key (c.write.seen V) := by
  funext k
  rw [View.table, keyMap, Db.committed, h.table.findByKey_applyWrite (h.write_fits ht),
    Function.update_apply]
  cases hw : c.write with
  | nothing =>
      rw [hw] at hrow
      cases hrow
  | insert r | update r | delete r =>
      rw [hw] at hrow
      obtain rfl := Option.some.inj hrow
      rw [RowWrite.onKeys, Function.update_apply]
      split <;> rfl

/-- A commit that wrote a row changes what any view sees under its key. -/
theorem DbInv.table_committed_ne (V : View ν) (hrow : c.write.row? = some row) :
    V.table (db.committed t c) ≠ V.table db := by
  intro heq
  have hfit := h.write_fits ht
  have hat := congrFun heq row.key
  rw [h.table_committed ht V hrow, Function.update_self, View.table, keyMap] at hat
  cases hw : c.write with
  | nothing =>
      rw [hw] at hrow
      cases hrow
  | insert r =>
      rw [hw] at hrow hfit hat
      obtain rfl := Option.some.inj hrow
      rw [findByKey_eq_none.mpr fun r' hr' => (hfit r' hr').2] at hat
      cases hat
  | update r =>
      -- the new image carries a version that no row had before
      obtain ⟨hv, -⟩ := (h.writeInv ht).rowEvent (Or.inr hw)
      rw [hw] at hrow hfit hat
      obtain rfl := Option.some.inj hrow
      obtain ⟨r₀, hr₀, -, hkey₀⟩ := hfit
      rw [h.table.findByKey_eq_some.mpr ⟨hr₀, hkey₀⟩] at hat
      have hsame := V.image_version _ _ (Option.some.inj hat)
      obtain ⟨hpos, hnew⟩ := h.version_new ht
      rcases h.rowEvent r₀ hr₀ with hzero | ⟨e, he, hev, -⟩
      · omega
      · have := hnew e he
        omega
  | delete r =>
      rw [hw] at hrow hfit hat
      obtain rfl := Option.some.inj hrow
      rw [h.table.findByKey_eq_some.mpr ⟨hfit, rfl⟩] at hat
      cases hat

/-- The part of the log that a reader at `v` replays, after a commit. -/
theorem DbInv.above_committed (V : View ν) :
    above v (V.entries (db.committed t c).events) =
      above v (V.entries db.events) ++
        if v < c.locals.version then [c.event.entry V.decode] else [] := by
  have hv : (c.event.entry V.decode).version = c.locals.version := h.event_version ht
  rw [View.entries, Db.committed, List.map_append, above, List.filter_append, ← above,
    ← View.entries, List.map_singleton, List.filter_singleton, hv]
  simp

theorem DbInv.distinctVersions_committed (V : View ν) (hv : v < c.locals.version) :
    DistinctVersions (above v (V.entries db.events) ++ [c.event.entry V.decode]) := by
  have hd := ((h.commit ht).distinctVersions V).filter fun e => v < e.version
  rw [← above, h.above_committed ht V, if_pos hv] at hd
  exact hd

/-- The reader does not see a commit at or below its version. -/
theorem Reaches.commit_unseen (hm : Reaches V m v db) (hv : c.locals.version ≤ v) :
    Reaches V m v (db.committed t c) ↔ V.table (db.committed t c) = V.table db := by
  rw [Reaches, h.above_committed ht V, if_neg (not_lt.mpr hv), List.append_nil, hm]
  exact eq_comm

/-- The reader does not see a commit below a later event of its key either. -/
theorem Reaches.commit_shadowed (hm : Reaches V m v db) (hv : v < c.locals.version)
    {e : FlagEvent} (he : e ∈ db.events) (hkey : e.flagKey = c.event.flagKey)
    (hlt : c.locals.version < e.version) :
    Reaches V m v (db.committed t c) ↔ V.table (db.committed t c) = V.table db := by
  have hshadow : ∃ x ∈ above v (V.entries db.events), x.key = (c.event.entry V.decode).key ∧
      (c.event.entry V.decode).version < x.version := by
    refine ⟨e.entry V.decode, ?_, hkey, lt_of_eq_of_lt (h.event_version ht) hlt⟩
    rw [above, List.mem_filter]
    exact ⟨List.mem_map_of_mem he, decide_eq_true (hv.trans hlt)⟩
  rw [Reaches, h.above_committed ht V, if_pos hv,
    replay_append_shadowed (h.distinctVersions_committed ht V hv) hshadow, hm]
  exact eq_comm

/-- The reader applies a commit that is above everything it knows of the key. -/
theorem Reaches.commit_top (hm : Reaches V m v db) (hv : v < c.locals.version)
    (htop : ∀ e ∈ db.events, e.flagKey = c.event.flagKey → e.version < c.locals.version) :
    Reaches V m v (db.committed t c) ↔
      (c.event.entry V.decode).apply (V.table db) = V.table (db.committed t c) := by
  have htop' : ∀ x ∈ above v (V.entries db.events), x.key = (c.event.entry V.decode).key →
      x.version < (c.event.entry V.decode).version := by
    intro x hx hkey
    obtain ⟨e, he, rfl⟩ := List.mem_map.mp (List.mem_of_mem_filter hx)
    exact lt_of_lt_of_eq (htop e he hkey) (h.event_version ht).symm
  rw [Reaches, h.above_committed ht V, if_pos hv,
    replay_append_top (h.distinctVersions_committed ht V hv) htop', hm]

/-- A `DELETE` that matched no row: its event removes the key from the reader's map. -/
theorem Reaches.commit_nothing_iff (hm : Reaches V m v db) (hw : c.write = .nothing) :
    Reaches V m v (db.committed t c) ↔ c.OnTopOf v db := by
  have hkey : c.event.flagKey = c.locals.key := by
    rw [h.event_eq ht, hw]
    rfl
  have htable : V.table (db.committed t c) = V.table db := V.table_committed_nothing hw
  rw [Commit.OnTopOf, hw]
  dsimp only
  by_cases hv : c.locals.version ≤ v
  · exact iff_of_true ((hm.commit_unseen h ht hv).mpr htable) (Or.inr (Or.inl hv))
  by_cases hsh : ∃ e ∈ db.events, e.flagKey = c.locals.key ∧ c.locals.version < e.version
  · refine iff_of_true ?_ (Or.inr (Or.inr hsh))
    obtain ⟨e, he, hek, hlt⟩ := hsh
    exact (hm.commit_shadowed h ht (not_le.mp hv) he (hek.trans hkey.symm) hlt).mpr htable
  · have htop : ∀ e ∈ db.events, e.flagKey = c.event.flagKey → e.version < c.locals.version := by
      intro e he hek
      have hle : ¬ c.locals.version < e.version := fun hlt => hsh ⟨e, he, hek.trans hkey, hlt⟩
      have hne := (h.version_new ht).2 e he
      omega
    have hvalue : (c.event.entry V.decode).value = none := by
      rw [V.entry_value, h.event_eq ht, hw]
      rfl
    have hentry : (c.event.entry V.decode).key = c.locals.key := hkey
    rw [hm.commit_top h ht (not_le.mp hv) htop, htable, or_iff_left (by simp [hv, hsh]),
      Entry.apply, hvalue, hentry, Function.update_eq_self_iff]
    exact ⟨fun hnone => Option.map_eq_none_iff.mp hnone.symm,
      fun hnone => (Option.map_eq_none_iff.mpr hnone).symm⟩

/-- **One commit.** A reader that reaches the table before a commit reaches it after the commit
exactly when the commit is on top. -/
theorem Reaches.commit_iff (hm : Reaches V m v db) :
    Reaches V m v (db.committed t c) ↔ c.OnTopOf v db := by
  have hrowWrite : ∀ row, c.write.row? = some row → (Reaches V m v (db.committed t c) ↔
      (v < c.locals.version ∧
        ∀ e ∈ db.events, e.flagKey = row.key → e.version < c.locals.version) ∧ c.op.Uncut) := by
    intro row hrow
    have hkey := h.event_key ht hrow
    have hne := h.table_committed_ne ht V hrow
    -- the reader sets the key to the event's value, the table to what the write leaves
    have hsame : (c.event.entry V.decode).apply (V.table db) = V.table (db.committed t c) ↔
        c.op.Uncut := by
      have hentry : (c.event.entry V.decode).key = row.key := hkey
      rw [h.table_committed ht V hrow, Entry.apply, hentry,
        (Function.update_injective _ _).eq_iff, h.event_value_iff ht V]
    constructor
    · intro hm'
      have hv : v < c.locals.version := not_le.mp fun hv =>
        hne ((hm.commit_unseen h ht hv).mp hm')
      have htop : ∀ e ∈ db.events, e.flagKey = row.key → e.version < c.locals.version := by
        intro e he hek
        have hle : ¬ c.locals.version < e.version := fun hlt =>
          hne ((hm.commit_shadowed h ht hv he (hek.trans hkey.symm) hlt).mp hm')
        have := (h.version_new ht).2 e he
        omega
      refine ⟨⟨hv, htop⟩, hsame.mp ?_⟩
      exact (hm.commit_top h ht hv fun e he hek => htop e he (hek.trans hkey)).mp hm'
    · intro h
      obtain ⟨⟨hv, htop⟩, hcut⟩ := h
      exact (hm.commit_top h ht hv fun e he hek => htop e he (hek.trans hkey)).mpr (hsame.mpr hcut)
  cases hw : c.write with
  | insert row | update row | delete row =>
      rw [Commit.OnTopOf, hw]
      exact hrowWrite row (by rw [hw]; rfl)
  | nothing => exact hm.commit_nothing_iff h ht hw

end Commit

/-- **One step.** -/
theorem Reaches.step_iff {ν : Type*} {V : View ν} {m : String → Option ν} {v : Int} {db db' : Db}
    {a : Action} (h : DbInv db) (hm : Reaches V m v db) (hs : step db a = some db') :
    Reaches V m v db' ↔ ∀ c, db.committing a = some c → c.OnTopOf v db := by
  rcases step_tables hs with ⟨hnone, hflags, hevents⟩ | ⟨t, c, rfl, ht, hc, rfl⟩
  · refine iff_of_true ?_ fun c hc => ?_
    · rw [Reaches, View.table, hflags, hevents]
      exact hm
    · rw [hnone] at hc
      cases hc
  · rw [hc, hm.commit_iff h ht]
    exact ⟨fun hon c' hc' => Option.some.inj hc' ▸ hon, fun hon => hon c rfl⟩

/-! ### A reader that starts from nothing -/

/-- The payload itself, as a view. -/
def payloadView : View Json where
  decode := some
  image := rowPayload
  decode_payload _ _ _ _ := rfl
  image_version _ _ h := (flagPayload_inj h).2
  image_description _ _ h := (flagPayload_inj h).1

/-- The log as a keyed log of payloads. -/
def logEntries (events : List FlagEvent) : List (Entry Int String Json) :=
  events.map (FlagEvent.entry some)

/-- The versions of a key's events. -/
def keyVersions (events : List FlagEvent) (key : String) : Set Int :=
  {v | ∃ e ∈ events, e.flagKey = key ∧ e.version = v}

/-- Replaying the log over an empty map gives the table, and every row carries the
largest version of its key. -/
structure LogMatchesTable (db : Db) : Prop where
  rows : replay (fun _ => none) (logEntries db.events) = keyMap rowPayload db.flags
  versions : ∀ r ∈ db.flags, IsGreatest (keyVersions db.events r.key) r.version

section Versions

variable {db db' : Db} {t : TxId} {c : Commit} {key : String} {v : Int}

@[simp] theorem mem_keyVersions_append {events : List FlagEvent} {ev : FlagEvent} :
    v ∈ keyVersions (events ++ [ev]) key ↔
      v ∈ keyVersions events key ∨ (ev.flagKey = key ∧ ev.version = v) := by
  constructor
  · intro h
    obtain ⟨e, he, hkey, hv⟩ := h
    rcases List.mem_append.mp he with he | he
    · exact Or.inl ⟨e, he, hkey, hv⟩
    · rw [List.mem_singleton] at he
      subst he
      exact Or.inr ⟨hkey, hv⟩
  · intro hcase
    rcases hcase with ⟨e, he, hkey, hv⟩ | ⟨hkey, hv⟩
    · exact ⟨e, List.mem_append_left _ he, hkey, hv⟩
    · exact ⟨ev, by simp, hkey, hv⟩

/-- Every event is above 0, so the reader starts before all of them. -/
theorem DbInv.reaches_zero_iff (h : DbInv db) :
    Reaches payloadView (fun _ => none) 0 db ↔
      replay (fun _ => none) (logEntries db.events) = keyMap rowPayload db.flags := by
  have hall : above 0 (payloadView.entries db.events) = logEntries db.events := by
    refine List.filter_eq_self.mpr fun x hx => ?_
    obtain ⟨e, he, rfl⟩ := List.mem_map.mp hx
    exact decide_eq_true (h.eventBound e he).1
  rw [Reaches, hall]
  rfl

/-- The other rows keep the largest version of their key when the event is of a different key,
or below one of its own. -/
theorem isGreatest_keyVersions_append {events : List FlagEvent} {ev : FlagEvent}
    (h : IsGreatest (keyVersions events key) v) (hev : ev.flagKey = key → ev.version ≤ v) :
    IsGreatest (keyVersions (events ++ [ev]) key) v := by
  refine ⟨mem_keyVersions_append.mpr (Or.inl h.1), fun v' hv' => ?_⟩
  rcases mem_keyVersions_append.mp hv' with hv' | ⟨hkey, rfl⟩
  · exact h.2 hv'
  · exact hev hkey

/-- A commit on top keeps every row at the largest version of its key. -/
theorem versions_committed (h : DbInv db)
    (ht : db.txs t = some ⟨c.op, .logged c.locals c.write c.event⟩)
    (hm : ∀ r ∈ db.flags, IsGreatest (keyVersions db.events r.key) r.version)
    (hon : c.OnTopOf 0 db) :
    ∀ r ∈ (db.committed t c).flags,
      IsGreatest (keyVersions (db.committed t c).events r.key) r.version := by
  intro r hr
  have hev := h.event_version ht
  have hrowWrite : ∀ row, c.write.row? = some row →
      (∀ e ∈ db.events, e.flagKey = row.key → e.version < c.locals.version) →
      IsGreatest (keyVersions (db.events ++ [c.event]) r.key) r.version := by
    intro row hrow htop
    have hkey := h.event_key ht hrow
    rcases h.table.mem_applyWrite (h.write_fits ht) hrow hr with ⟨hrk, hnew⟩ | ⟨hrk, hold⟩
    · -- the row of this key is the one just written
      have hv : r.version = c.locals.version := ((h.writeInv ht).rowEvent hnew).1
      rw [hrk, hv, ← hev]
      refine ⟨mem_keyVersions_append.mpr (Or.inr ⟨hkey, rfl⟩), fun v hmem => ?_⟩
      rcases mem_keyVersions_append.mp hmem with ⟨e, he, hek, rfl⟩ | ⟨-, rfl⟩
      · rw [hev]
        exact (htop e he hek).le
      · exact le_refl _
    · exact isGreatest_keyVersions_append (hm r hold) fun heq => absurd (heq.symm.trans hkey) hrk
  rw [Commit.OnTopOf] at hon
  cases hw : c.write with
  | insert row | update row | delete row =>
      rw [hw] at hon
      exact hrowWrite row (by rw [hw]; rfl) hon.1.2
  | nothing =>
      rw [hw] at hon
      have hold : r ∈ db.flags := by
        rw [Db.committed, hw] at hr
        exact hr
      have hkey : c.event.flagKey = c.locals.key := by
        rw [h.event_eq ht, hw]
        rfl
      refine isGreatest_keyVersions_append (hm r hold) fun hrk => ?_
      rcases hon with hnone | hle | ⟨e, he, hek, hlt⟩
      · exact absurd (hrk.symm.trans hkey) (findByKey_eq_none.mp hnone r hold)
      · have := (h.version_new ht).1
        omega
      · have hmax := (hm r hold).2 ⟨e, he, hek.trans (hkey.symm.trans hrk), rfl⟩
        omega

/-- One step keeps log and table together exactly when it is no commit, or one on top. -/
theorem LogMatchesTable.step_iff (h : DbInv db) (hm : LogMatchesTable db) {a : Action}
    (hs : step db a = some db') :
    LogMatchesTable db' ↔ ∀ c, db.committing a = some c → c.OnTopOf 0 db := by
  have hreaches := Reaches.step_iff h (h.reaches_zero_iff.mpr hm.rows) hs
  rw [(h.step hs).reaches_zero_iff] at hreaches
  refine ⟨fun hm' => hreaches.mp hm'.rows, fun hon => ⟨hreaches.mpr hon, ?_⟩⟩
  rcases step_tables hs with ⟨-, hflags, hevents⟩ | ⟨t, c, rfl, ht, hc, rfl⟩
  · rw [hflags, hevents]
    exact hm.versions
  · exact versions_committed h ht hm.versions (hon c hc)

end Versions

/-- **Log and table, over runs.** From an empty database, the replay of the log equals
the table after every step of a run exactly when every commit of the run is on top. -/
theorem logMatchesTable_iff_commits_on_top (as : List Action) :
    (∀ tr ∈ transitions step (Db.migrated []) as, LogMatchesTable tr.post) ↔
      ∀ tr ∈ transitions step (Db.migrated []) as,
        ∀ c, tr.pre.committing tr.act = some c → c.OnTopOf 0 tr.pre := by
  have hstart : LogMatchesTable (Db.migrated []) := ⟨rfl, by simp [Db.migrated]⟩
  exact transitions_iff (Q := fun _ _ db' => LogMatchesTable db')
    (C := fun db a => ∀ c, db.committing a = some c → c.OnTopOf 0 db)
    (fun h hs => DbInv.step h hs) (fun h hm hs => hm.step_iff h hs)
    (fun h hm hs hC => (hm.step_iff h hs).mpr hC) migrated_nil.dbInv hstart

/-! ### Two toggles that commit against their versions -/

/-- Two toggles of `checkout` draw the versions 2 and 3, and the second one gets the row
lock first. -/
def crossingToggles : List Action :=
  createCheckout.append [.call 1 (.toggle "u"), .call 2 (.toggle "u"), .begin 1 2, .begin 2 3,
    .nextval 1, .nextval 2, .scan 1, .scan 2, .lock 2, .appendEvent 2, .commit 2, .lock 1,
    .appendEvent 1, .commit 1]

/-- The value of a boolean member of a payload. -/
def boolMember (name : String) (payload : Option Json) : Option Bool :=
  payload.bind fun p => (p.prop name).bind (Json.decodeBool false)

/-- The replay ends with the event of version 3, the row with version 2: the flag is on
in the one and off in the other. -/
theorem crossingToggles_log_differs :
    ∃ db, exec step (Db.migrated []) crossingToggles = some db ∧
      replay (fun _ => none) (logEntries db.events) "checkout" ≠
        keyMap rowPayload db.flags "checkout" ∧
      ∃ r ∈ db.flags, ¬ IsGreatest (keyVersions db.events r.key) r.version := by
  have hrun : ((exec step (Db.migrated []) crossingToggles).map fun db =>
      decide (boolMember "enabled" (replay (fun _ => none) (logEntries db.events) "checkout") ≠
        boolMember "enabled" (keyMap rowPayload db.flags "checkout") ∧
        ∃ r ∈ db.flags, ∃ e ∈ db.events, e.flagKey = r.key ∧ r.version < e.version)) =
      some true := by
    decide
  obtain ⟨db, hdb, hall⟩ := Option.map_eq_some_iff.mp hrun
  obtain ⟨hne, r, hr, e, he, hkey, hlt⟩ := of_decide_eq_true hall
  refine ⟨db, hdb, fun heq => hne (by rw [heq]), r, hr, fun hmax => ?_⟩
  have hle := hmax.2 ⟨e, he, hkey, rfl⟩
  omega

end FlagPlane
