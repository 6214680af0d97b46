import FlagPlane.Repository.Preservation

/-!
# FlagPlane.Repository.Lives

**The lives of a flag.** In commit order the events of one key should read as lives:
`created`, any number of `updated`, `deleted`, and again. `lifeStep` is that language
as an automaton, whose state is whether the flag is alive; the automaton and the
table agree (`LivesMatchTable`) as long as every `DELETE` that commits has removed a
row. `Delete` does not look at how many rows its `DELETE` removed, so the second of
two concurrent calls records a `deleted` event of its own (`doubleDelete`).
-/

namespace FlagPlane

/-- One event of a key that is alive or not. -/
def lifeStep : Bool → EventType → Option Bool
  | false, .created | true, .updated => some true
  | true, .deleted => some false
  | _, _ => none

/-- Run the automaton over the events of a key, in the order they are listed: whether the key
is alive after them, `none` when they are no sequence of lives. -/
def aliveAfter (alive : Bool) (types : List EventType) : Option Bool :=
  types.foldlM lifeStep alive

/-- The event types of a key, in commit order. -/
def keyTypes (events : List FlagEvent) (key : String) : List EventType :=
  (events.filter (·.flagKey = key)).map FlagEvent.eventType

/-- The events of every key, from the rows migration 002 left on, form lives. -/
def LivesRecorded (rows : List FlagRow) (events : List FlagEvent) : Prop :=
  ∀ key, (aliveAfter (findByKey rows key).isSome (keyTypes events key)).isSome = true

/-- A `deleted` event is committed together with the removal of the live row of its key. -/
def RemovesLiveRow (db : Db) (a : Action) (db' : Db) : Prop :=
  ∀ c, db.committing a = some c → c.event.eventType = .deleted →
    (findByKey db.flags c.event.flagKey).isSome = true ∧
      findByKey db'.flags c.event.flagKey = none

/-- A `Delete` that commits still finds a row of its id in the table. -/
def DeleteFindsRow (db : Db) (a : Action) : Prop :=
  ∀ c id, db.committing a = some c → c.op = .delete id → (findById db.flags id).isSome = true

/-- The automaton says of every key what the table says. -/
def LivesMatchTable (rows : List FlagRow) (db : Db) : Prop :=
  ∀ key, aliveAfter (findByKey rows key).isSome (keyTypes db.events key) =
    some (findByKey db.flags key).isSome

/-! ### The language -/

/-- An open life with `n` updates. -/
def life (n : Nat) : List EventType :=
  .created :: List.replicate n .updated

theorem aliveAfter_append (alive : Bool) (types : List EventType) (ty : EventType) :
    aliveAfter alive (types ++ [ty]) = (aliveAfter alive types).bind (lifeStep · ty) := by
  simp [aliveAfter, List.foldlM_append]

/-- **What the automaton accepts**: closed lives, then at most one open one. -/
theorem aliveAfter_eq_some {types : List EventType} {alive : Bool}
    (h : aliveAfter false types = some alive) :
    ∃ (closed : List Nat) (last : List EventType),
      types = (closed.map fun n => life n ++ [.deleted]).flatten ++ last ∧
        if alive then ∃ n, last = life n else last = [] := by
  induction types using List.reverseRecOn generalizing alive with
  | nil =>
      obtain rfl : false = alive := by simpa [aliveAfter] using h
      exact ⟨[], [], rfl, rfl⟩
  | append_singleton types ty ih =>
      rw [aliveAfter_append, Option.bind_eq_some_iff] at h
      obtain ⟨before, hbefore, hstep⟩ := h
      obtain ⟨closed, last, rfl, hlast⟩ := ih hbefore
      cases before <;> cases ty <;> cases hstep
      · obtain rfl : last = [] := by simpa using hlast
        exact ⟨closed, life 0, by simp [life], by simp⟩
      · obtain ⟨n, rfl⟩ : ∃ n, last = life n := by simpa using hlast
        refine ⟨closed, life (n + 1), ?_, by simp⟩
        rw [List.append_assoc]
        simp [life, List.replicate_succ']
      · obtain ⟨n, rfl⟩ : ∃ n, last = life n := by simpa using hlast
        refine ⟨closed ++ [n], [], ?_, by simp⟩
        simp

/-! ### One commit -/

section Commit

variable {db db' : Db} {t : TxId} {c : Commit} {rows : List FlagRow} {row : FlagRow} {key : String}

theorem keyTypes_append (events : List FlagEvent) (ev : FlagEvent) (key : String) :
    keyTypes (events ++ [ev]) key =
      if ev.flagKey = key then keyTypes events key ++ [ev.eventType] else keyTypes events key := by
  rw [keyTypes, List.filter_append, List.map_append]
  split
  · rename_i hkey
    simp [keyTypes, hkey]
  · rename_i hkey
    simp [keyTypes, hkey]

/-- The type of the event that records a write. -/
def RowWrite.eventType : RowWrite → EventType
  | insert _ => .created
  | update _ => .updated
  | delete _ | nothing => .deleted

/-- Whether the key of a write is alive after it. -/
theorem lifeStep_write (h : TableKeys db.flags) {w : RowWrite} (hfit : w.Fits db.flags)
    (hrow : w.row? = some row) :
    lifeStep (findByKey db.flags row.key).isSome w.eventType =
      some (findByKey (applyWrite db.flags w) row.key).isSome := by
  rw [h.findByKey_applyWrite hfit]
  cases w with
  | insert r =>
      obtain rfl := Option.some.inj hrow
      have hnone : findByKey db.flags r.key = none :=
        findByKey_eq_none.mpr fun r' hr' => (hfit r' hr').2
      rw [hnone, RowWrite.onKeys, Function.update_self]
      rfl
  | update r =>
      obtain rfl := Option.some.inj hrow
      obtain ⟨r₀, hr₀, -, hkey⟩ := hfit
      rw [h.findByKey_eq_some.mpr ⟨hr₀, hkey⟩, RowWrite.onKeys, Function.update_self]
      rfl
  | delete r =>
      obtain rfl := Option.some.inj hrow
      rw [h.findByKey_eq_some.mpr ⟨hfit, rfl⟩, RowWrite.onKeys, Function.update_self]
      rfl
  | nothing => cases hrow

variable (h : DbInv db) (ht : db.txs t = some ⟨c.op, .logged c.locals c.write c.event⟩)

include h ht

theorem DbInv.event_type : c.event.eventType = c.write.eventType := by
  rw [h.event_eq ht]
  cases c.write <;> rfl

/-- A commit that has written a row takes the automaton along with the table. -/
theorem LivesMatchTable.commit (hm : LivesMatchTable rows db) (hrow : c.write.row? = some row) :
    LivesMatchTable rows (db.committed t c) := by
  intro key
  have hev := h.event_key ht hrow
  have hfit := h.write_fits ht
  rw [Db.committed, keyTypes_append]
  by_cases hkey : row.key = key
  · subst hkey
    rw [if_pos hev, aliveAfter_append, hm row.key, Option.bind_some, h.event_type ht]
    exact lifeStep_write h.table hfit hrow
  · rw [if_neg (fun heq => hkey (hev.symm.trans heq)), hm key, h.table.findByKey_applyWrite hfit]
    cases hw : c.write with
    | nothing => rfl
    | insert r | update r | delete r =>
        rw [hw] at hrow
        obtain rfl := Option.some.inj hrow
        rw [RowWrite.onKeys, Function.update_of_ne (Ne.symm hkey)]

/-- A `Delete` finds its row exactly when its write is a row's removal. -/
theorem DbInv.deleteFindsRow_iff :
    (∀ id, c.op = .delete id → (findById db.flags id).isSome = true) ↔ c.write ≠ .nothing := by
  have hwrite := h.writeInv ht
  constructor
  · intro hfinds hw
    rw [hw] at hwrite
    obtain ⟨id, hop, hgone⟩ := hwrite
    have hsome := hfinds id hop
    rw [findById_eq_none.mpr hgone] at hsome
    cases hsome
  · intro hne id hop
    cases hw : c.write with
    | insert r =>
        rw [hw, hop] at hwrite
        obtain ⟨⟨_, _, _, hcreate, -⟩, -⟩ := hwrite
        cases hcreate
    | update r =>
        rw [hw, hop] at hwrite
        obtain ⟨_, -, hdel, -⟩ := hwrite
        cases hdel
    | delete r =>
        rw [hw, hop] at hwrite
        obtain ⟨hmem, hid, -⟩ := hwrite
        rw [Op.delete.inj hid, h.table.findById_eq_some.mpr ⟨hmem, rfl⟩]
        rfl
    | nothing => exact absurd hw hne

/-- A commit that has written a row: its event is `deleted` when the row goes. -/
theorem DbInv.removes (hrow : c.write.row? = some row) (hdel : c.event.eventType = .deleted) :
    (findByKey db.flags c.event.flagKey).isSome = true ∧
      findByKey (applyWrite db.flags c.write) c.event.flagKey = none := by
  rw [h.event_type ht] at hdel
  rw [h.event_key ht hrow]
  have hlife := lifeStep_write h.table (h.write_fits ht) hrow
  rw [hdel] at hlife
  cases hbefore : (findByKey db.flags row.key).isSome with
  | false =>
      rw [hbefore] at hlife
      cases hlife
  | true =>
      rw [hbefore] at hlife
      refine ⟨rfl, Option.not_isSome_iff_eq_none.mp fun hafter => ?_⟩
      rw [hafter] at hlife
      cases hlife

end Commit

/-! ### Runs -/

section Runs

variable {db db' : Db} {a : Action} {rows : List FlagRow}

theorem LivesMatchTable.recorded (hm : LivesMatchTable rows db) : LivesRecorded rows db.events := by
  intro key
  rw [hm key]
  rfl

theorem LivesMatchTable.step (h : DbInv db) (hm : LivesMatchTable rows db)
    (hs : step db a = some db') (hC : DeleteFindsRow db a) : LivesMatchTable rows db' := by
  rcases step_tables hs with ⟨-, hflags, hevents⟩ | ⟨t, c, rfl, ht, hc, rfl⟩
  · rw [LivesMatchTable, hflags, hevents]
    exact hm
  · have hne := (h.deleteFindsRow_iff ht).mp fun id hop => hC c id hc hop
    cases hw : c.write with
    | insert r | update r | delete r => exact hm.commit h ht (by rw [hw]; rfl)
    | nothing => exact absurd hw hne

/-- One step keeps the lives exactly when it is not a `Delete` whose row is gone. -/
theorem LivesMatchTable.step_iff (h : DbInv db) (hm : LivesMatchTable rows db)
    (hs : FlagPlane.step db a = some db') :
    (LivesRecorded rows db'.events ∧ RemovesLiveRow db a db') ↔ DeleteFindsRow db a := by
  constructor
  · rintro ⟨-, hremoves⟩ c id hc hop
    obtain ⟨t, rfl, ht⟩ := committing_eq_some.mp hc
    refine (h.deleteFindsRow_iff ht).mpr (fun hw => ?_) id hop
    have hev : c.event.eventType = .deleted := by rw [h.event_type ht, hw]; rfl
    obtain ⟨hsome, hnone⟩ := hremoves c hc hev
    rcases step_tables hs with ⟨hno, -, -⟩ | ⟨t', c', heq, ht', hc', rfl⟩
    · rw [hc] at hno
      cases hno
    · obtain rfl := Option.some.inj (hc'.symm.trans hc)
      rw [Db.committed, hw] at hnone
      rw [show findByKey db.flags c'.event.flagKey = none from hnone] at hsome
      cases hsome
  · intro hC
    refine ⟨(hm.step h hs hC).recorded, fun c hc hdel => ?_⟩
    rcases step_tables hs with ⟨hno, -, -⟩ | ⟨t, c', rfl, ht, hc', rfl⟩
    · rw [hc] at hno
      cases hno
    · obtain rfl := Option.some.inj (hc'.symm.trans hc)
      have hne := (h.deleteFindsRow_iff ht).mp fun id hop => hC _ id hc hop
      cases hw : c'.write with
      | insert r | update r | delete r => exact h.removes ht (by rw [hw]; rfl) hdel
      | nothing => exact absurd hw hne

/-- **Lives, over runs.** From any table migration 002 can leave, the events of every key
form lives after every step of a run, and `deleted` events only record the removal of the
live row, exactly when every `Delete` that commits still finds its row. -/
theorem lives_iff_deletes_find_row (hrows : Migrated rows) (as : List Action) :
    (∀ tr ∈ transitions FlagPlane.step (Db.migrated rows) as,
      LivesRecorded rows tr.post.events ∧ RemovesLiveRow tr.pre tr.act tr.post) ↔
      ∀ tr ∈ transitions FlagPlane.step (Db.migrated rows) as, DeleteFindsRow tr.pre tr.act := by
  have hstart : LivesMatchTable rows (Db.migrated rows) := fun _ => rfl
  exact transitions_iff
    (Q := fun db a db' => LivesRecorded rows db'.events ∧ RemovesLiveRow db a db')
    (C := DeleteFindsRow) (fun h hs => DbInv.step h hs) (fun h hm hs => hm.step_iff h hs)
    (fun h hm hs hC => hm.step h hs hC) hrows.dbInv hstart

end Runs

theorem lives_iff_deletes_find_row_checkout :
    (∀ tr ∈ transitions step (Db.migrated [checkoutRow]) [.call 1 (.delete "u"), .begin 1 2,
        .selectKey 1, .nextval 1, .scan 1, .lock 1, .appendEvent 1, .commit 1],
      LivesRecorded [checkoutRow] tr.post.events ∧ RemovesLiveRow tr.pre tr.act tr.post) ↔
      ∀ tr ∈ transitions step (Db.migrated [checkoutRow]) [.call 1 (.delete "u"), .begin 1 2,
        .selectKey 1, .nextval 1, .scan 1, .lock 1, .appendEvent 1, .commit 1],
        DeleteFindsRow tr.pre tr.act :=
  lives_iff_deletes_find_row migrated_checkoutRow _

/-- Two calls delete `checkout` at the same time: both have read its key and drawn a version
when the first one removes the row. -/
def doubleDelete : List Action :=
  createCheckout.append [.call 1 (.delete "u"), .call 2 (.delete "u"), .begin 1 2, .begin 2 2,
    .selectKey 1, .selectKey 2, .nextval 1, .nextval 2, .scan 1, .scan 2, .lock 1, .appendEvent 1,
    .commit 1, .lock 2, .appendEvent 2, .commit 2]

theorem doubleDelete_breaks_lives :
    ∃ db, exec step (Db.migrated []) doubleDelete = some db ∧
      keyTypes db.events "checkout" = [.created, .deleted, .deleted] ∧
      ¬ LivesRecorded [] db.events := by
  have hrun : ((exec step (Db.migrated []) doubleDelete).map fun db =>
      keyTypes db.events "checkout") = some [.created, .deleted, .deleted] := by
    decide
  obtain ⟨db, hdb, htypes⟩ := Option.map_eq_some_iff.mp hrun
  refine ⟨db, hdb, htypes, fun hlives => ?_⟩
  have hcheckout := hlives "checkout"
  rw [htypes] at hcheckout
  exact absurd hcheckout (by decide)

end FlagPlane
