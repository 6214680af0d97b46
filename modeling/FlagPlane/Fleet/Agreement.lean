import FlagPlane.Client.Paging
import FlagPlane.Fleet.Replicas

/-!
# FlagPlane.Fleet.Agreement

**When the clients agree.** `replicas_hold_stood_rows` says that each flag of a client was true at
some time; it says nothing of one client against another. For that four things must not happen,
and each does in the code: a commit below a version that is already in the log, a `Create` whose
description its column cuts, an envelope of version 0, and a commit between the two queries of
`GetAllFlags`. `Plane.Orderly` excludes them
step by step, and nothing else: frames may still be lost, repeated and reordered.

Seen by one client, an orderly run of the plane is a run of `Session` (`taskStep_session`), so its
flags are the replay of the log up to its version. From that the rest follows: clients at the same
version hold the same flags (`replicas_agree`), and one `Reconcile` against a database at rest
takes any client to the table (`reconcile_reaches_table`).
-/

namespace FlagPlane

/-- None of the things that set clients apart. -/
def Plane.Orderly (p : Plane) : PlaneAction → Prop
  | .service a =>
    ¬ p.service.PublishesUnversioned a ∧ ∀ b, a = .repo b → InVersionOrder p.service.db b
  | .version g =>
    -- `List` would return now what it has returned
    ∀ flags, p.replicas g = .listed flags → flags = listFlags p.service.db.flags
  | _ => True

/-! ### One client, as a session -/

/-- The goroutine, as the session sees it. -/
def Task.run : Task → ReconcileRun
  | reconcile run => run
  | frame _ _ => .idle

/-- A frame that a goroutine holds is an event's. -/
def Task.Known (log : EventLog) : Task → Prop
  | reconcile _ => True
  | frame f v => ∃ e ∈ log.events, f = ⟨some e.version, e.frame.1, e.frame.2⟩ ∧ v = e.version

theorem EventLog.ext_events {log log' : EventLog} (h : log.events = log'.events) : log = log' := by
  cases log
  cases log'
  cases h
  rfl

/-- The page that the handler answers with is one that a session may be answered with. -/
theorem EventLog.listEventsSince (log : EventLog) (since : Int) :
    listEventsSince log.events since 0 = (log.since since).take 500 := by
  have hlimit : eventsSinceLimit 0 = 500 := by decide
  rw [listEventsSince_eq, eventsPage, hlimit, backlog_eq log.ascending (List.Perm.refl _)]
  rfl

section Session

variable {log log' : EventLog} {published : List Envelope} {c c' : Client} {task task' : Task}
  {runs : Nat → ReconcileRun} {j : Nat}

theorem Task.Known.mono (h : task.Known log) (hsub : ∀ e ∈ log.events, e ∈ log'.events) :
    task.Known log' := by
  cases task with
  | reconcile run => trivial
  | frame f v =>
      obtain ⟨e, he, hf, hv⟩ := h
      exact ⟨e, hsub e he, hf, hv⟩

/-- **What a goroutine does, the session can do.** -/
theorem taskStep_session (hpos : ∀ e ∈ log.events, 0 < e.version)
    (hpublished : ∀ env ∈ published, ∃ e ∈ log.events, env = e.envelope)
    (hknown : task.Known log) (hrun : runs j = task.run) {a : TaskAction}
    (hs : taskStep log.events published c task a = some (c', task')) :
    task'.Known log ∧ ∃ bs, exec sessionStep ⟨log, c, runs⟩ bs =
      some ⟨log, c', Function.update runs j task'.run⟩ := by
  have hsame : ∀ {run}, runs j = run → Function.update runs j run = runs := fun h =>
    Function.update_eq_self_iff.mpr h.symm
  cases taskStep_effect hs with
  | @receive n env henv =>
      obtain ⟨e, he, rfl⟩ := hpublished env (List.mem_of_getElem? henv)
      have hframe : e.envelope.sseEvent.frame = ⟨some e.version, e.frame.1, e.frame.2⟩ :=
        frame_eq (hpos e he)
      -- to hold a frame is to be idle, for the session
      have hidle : runs j = .idle := hrun
      refine ⟨⟨e, he, hframe, by rw [hframe]; rfl⟩, [], ?_⟩
      rw [exec_nil, Task.run, hsame hidle]
  | take =>
      obtain ⟨e, he, rfl, rfl⟩ := hknown
      obtain ⟨i, hi⟩ := List.getElem?_of_mem he
      have hidle : runs j = .idle := hrun
      refine ⟨trivial, ?_⟩
      dsimp only
      cases hgap : (c.applyLiveEvent e.frame.1 e.frame.2 e.version).2 with
      | false => exact ⟨[.live i], by simp [exec, sessionStep, hi, Task.run, hsame hidle]⟩
      | true =>
          exact ⟨[.live i, .startReconcile j],
            by simp [exec, sessionStep, hi, Task.run, hidle, Session.setRun]⟩
  | startReconcile =>
      have hidle : runs j = .idle := hrun
      exact ⟨trivial, [.startReconcile j],
        by simp [exec, sessionStep, Task.run, hidle, Session.setRun]⟩
  | @readVersion k =>
      have hloop : runs j = .looping k := hrun
      exact ⟨trivial, [.readVersion j],
        by simp [exec, sessionStep, Task.run, hloop, Session.setRun]⟩
  | @answer k since =>
      have hasked : runs j = .asked k since := hrun
      refine ⟨trivial, [.answer j 500], ?_⟩
      rw [EventLog.listEventsSince]
      simp [exec, sessionStep, Task.run, hasked, Session.setRun]
  | @failRequest k since =>
      have hasked : runs j = .asked k since := hrun
      exact ⟨trivial, [.failRequest j],
        by simp [exec, sessionStep, Task.run, hasked, Session.setRun]⟩
  | @lastPage k page hempty | @applyPage k page hempty =>
      have hanswered : runs j = .answered k page := hrun
      exact ⟨trivial, [.applyPage j],
        by simp [exec, sessionStep, Task.run, hanswered, Session.setRun, hempty]⟩

end Session

/-! ### The plane in order -/

/-- The client is in step with the log. -/
def Replica.Follows (m₀ : String → Option ClientFlag) (log : EventLog) : Replica → Prop
  | fresh | listed _ => True
  | answered body => ∃ c, Client.bootstrapFrom body = some c ∧
      InStep m₀ log.entries c.reader ∧ c.configVersion ≤ log.version ∧ 0 ≤ c.configVersion
  | running c tasks => SessionInv m₀ ⟨log, c, fun j => (tasks j).run⟩ ∧
      (∀ j, (tasks j).Known log) ∧ 0 ≤ c.configVersion

/-- What orderly steps keep: the log is in version order and a second copy of the table, and every
client is in step with it. -/
structure InOrder (rows : List FlagRow) (log : EventLog) (p : Plane) : Prop where
  service : ServiceInv p.service
  linked : Linked p.service
  keys : ∀ r ∈ p.service.db.flags, r.key ≠ ""
  uncut : ∀ e ∈ p.service.db.events, ∀ flag, ¬ e.RecordsUncut flag
  events : log.events = p.service.db.events
  table : Reaches clientView (keyMap clientFlag rows) 0 p.service.db
  published : ∀ env ∈ p.published, ∃ e ∈ log.events, env = e.envelope
  replicas : ∀ g, (p.replicas g).Follows (keyMap clientFlag rows) log

section Order

variable {rows : List FlagRow} {log log' : EventLog} {p p' : Plane} {s s' : Service} {db : Db}
  {m₀ : String → Option ClientFlag} {e : FlagEvent}

/-- The service creates no flag without a key. -/
theorem Linked.create_key (h : Linked s) {t : TxId} {flag : Flag} {st : Stage}
    (ht : s.db.txs t = some ⟨.create flag, st⟩) : flag.key ≠ "" := by
  obtain ⟨call, hop, hcall⟩ := h.tx t _ ht
  cases call with
  | createFlag req =>
      obtain rfl : flag = newFlag req := Op.create.inj hop
      intro hempty
      have hkey : req.key = "" := hempty
      have hcheck : (ServiceCall.createFlag req).check =
          some "key is required and must be at most 64 characters" := if_pos (Or.inl hkey)
      rcases hcall with ⟨flagKey, hcall⟩ | ⟨r, -, hcall⟩
      · cases h.refused t _ _ _ hcall hcheck
      · have hr := h.refused t _ _ _ hcall hcheck
        cases r <;> cases hr
  | updateFlag _ _ | toggleFlag _ | deleteFlag _ => cases hop

/-- Every row keeps a key. -/
theorem keys_committed (h : DbInv db) {t : TxId} {c : Commit}
    (ht : db.txs t = some ⟨c.op, .logged c.locals c.write c.event⟩)
    (hcreate : ∀ flag, c.op = .create flag → flag.key ≠ "") (hkeys : ∀ r ∈ db.flags, r.key ≠ "") :
    ∀ r ∈ (db.committed t c).flags, r.key ≠ "" := by
  intro r hr
  rcases old_or_inserted (h.write_fits ht) hr with ⟨r', hr', -, hkey⟩ | hw
  · exact hkey ▸ hkeys r' hr'
  · have hwrite := h.writeInv ht
    rw [hw] at hwrite
    obtain ⟨⟨flag, users, uuid, hop, -, rfl⟩, -⟩ := hwrite
    exact hcreate flag hop

/-- A commit's event is one that the clients can use. -/
theorem event_wellFormed (h : DbInv db) {t : TxId} {c : Commit}
    (ht : db.txs t = some ⟨c.op, .logged c.locals c.write c.event⟩)
    (hkeys : ∀ r ∈ (db.committed t c).flags, r.key ≠ "") : c.event.WellFormed := by
  have hset : ∀ r, c.write = .insert r ∨ c.write = .update r → c.event.WellFormed := by
    intro r hw
    obtain ⟨r', hstood, -, -, hkey, hpayload⟩ :
        ∃ r', Stood [] (db.committed t c).events r' ∧ c.event.Records (scanFlag r') :=
      (h.stood_committed ht hw).2
    have hrow : c.event.flagKey = r.key := by
      rw [h.event_eq ht]
      exact ((h.writeInv ht).rowEvent hw).2.2.2.1
    have hkey : c.event.flagKey = (clientFlag r').key := hkey
    refine Or.inr ⟨clientFlag r', ?_, hkey.symm⟩
    have hne : (clientFlag r').key ≠ "" := by
      rw [← hkey, hrow]
      exact hkeys r (h.mem_committed ht hw)
    rw [decodeFlag, hpayload, ← rowPayload, hstood.decode]
    simpa using hne
  cases hw : c.write with
  | insert r => exact hset r (Or.inl hw)
  | update r => exact hset r (Or.inr hw)
  | delete r | nothing =>
      rw [h.event_eq ht, hw]
      exact Or.inl rfl

/-! ### The log grows -/

/-- The log with one more event. -/
theorem Replica.Follows.append {r : Replica} (h : r.Follows m₀ log) (hv : log.version < e.version)
    (he : e.WellFormed) : r.Follows m₀ (log.push e hv he) := by
  have hsub : ∀ x ∈ log.events, x ∈ (log.push e hv he).events := fun x hx =>
    List.mem_append_left _ hx
  cases r with
  | fresh | listed flags => trivial
  | answered body =>
      obtain ⟨c, hbody, hstep, hle, hpos⟩ := h
      refine ⟨c, hbody, ?_, hle.trans (EventLog.version_le_push hv he), hpos⟩
      rw [EventLog.push_entries]
      refine hstep.append fun x hx => ?_
      rw [List.mem_singleton.mp hx]
      exact lt_of_le_of_lt hle hv
  | running c tasks =>
      obtain ⟨hsession, hknown, hpos⟩ := h
      exact ⟨hsession.append hv he, fun j => (hknown j).mono hsub, hpos⟩

/-- One statement of the database. -/
theorem InOrder.statement (h : InOrder rows log p) {a : Action} {db' : Db}
    (hs : step p.service.db a = some db') (hord : InVersionOrder p.service.db a) :
    ∃ log', log'.events = db'.events ∧ (∀ e ∈ log.events, e ∈ log'.events) ∧
      (∀ g, (p.replicas g).Follows (keyMap clientFlag rows) log') ∧
      (∀ r ∈ db'.flags, r.key ≠ "") ∧ (∀ e ∈ db'.events, ∀ flag, ¬ e.RecordsUncut flag) ∧
      Reaches clientView (keyMap clientFlag rows) 0 db' := by
  have hdb := h.service.db
  have htable : Reaches clientView (keyMap clientFlag rows) 0 db' := by
    refine (Reaches.step_iff hdb h.table hs).mpr fun c hc => hord.onTopOf hc ?_
    obtain ⟨t, -, ht⟩ := committing_eq_some.mp hc
    exact (hdb.version_new ht).1
  rcases step_tables hs with ⟨-, hflags, hevents⟩ | ⟨t, c, rfl, ht, hc, rfl⟩
  · exact ⟨log, h.events.trans hevents.symm, fun _ he => he, h.replicas, hflags ▸ h.keys,
      hevents ▸ h.uncut, htable⟩
  · have hkeys := keys_committed hdb ht
      (fun flag hop => h.linked.create_key (hop ▸ ht)) h.keys
    have hversion := hdb.event_version ht
    have hv : log.version < c.event.version := by
      rw [EventLog.version, h.events, hversion]
      by_cases hempty : p.service.db.events = []
      · rw [hempty]
        exact (hdb.version_new ht).1
      · obtain ⟨e, he, heq⟩ := getLatestVersion_mem hempty
        exact heq ▸ (hord c hc).2.1 e he
    refine ⟨log.push c.event hv (event_wellFormed hdb ht hkeys), ?_, fun e he =>
      List.mem_append_left _ he, fun g => (h.replicas g).append hv _, hkeys, fun e he => ?_, htable⟩
    · show log.events ++ [c.event] = p.service.db.events ++ [c.event]
      rw [h.events]
    · rcases List.mem_append.mp he with he | he
      · exact h.uncut e he
      · rw [List.mem_singleton.mp he]
        exact hdb.not_recordsUncut ht (hord c hc).2.2

/-! ### Publications and bootstraps -/

/-- Without an envelope of version 0, what is published is an event's. -/
theorem ServiceInv.publishing_event (h : ServiceInv s) {a : ServiceAction} {env : Envelope}
    (hversion : ¬ s.PublishesUnversioned a) (henv : s.publishing a = some env) :
    ∃ e ∈ s.db.events, env.OfEvent e := by
  unfold Service.publishing at henv
  split at henv
  swap
  · cases henv
  rename_i t
  split at henv
  swap
  · cases henv
  rename_i call flagKey op r hcall htx
  obtain ⟨st, htx', hc⟩ := h.calls t call flagKey hcall
  obtain ⟨rfl, rfl⟩ : op = call.op ∧ .returned r = st := by simpa using htx.symm.trans htx'
  have hrecorded := hc.result r rfl
  cases r with
  | created f =>
      obtain rfl := Option.some.inj henv
      obtain ⟨ev, hev, hrec⟩ := hrecorded
      exact ⟨ev, hev, Or.inl (publishFlagUpdate_eq hrec)⟩
  | flag flag =>
      cases flag with
      | none => cases henv
      | some f =>
          obtain rfl := Option.some.inj henv
          rcases hrecorded with ⟨ev, hev, hrec⟩ | ⟨hop, hv | ⟨ev, hev, hcut⟩⟩
          · exact ⟨ev, hev, Or.inl (publishFlagUpdate_eq hrec)⟩
          · obtain ⟨id, req, rfl, hnothing⟩ := ServiceCall.op_nothingToChange hop
            exact absurd ⟨t, id, req, flagKey, f, rfl, hcall, hnothing, htx, hv⟩ hversion
          · exact ⟨ev, hev, Or.inr ⟨f, hcut, rfl⟩⟩
  | deleted v =>
      obtain rfl := Option.some.inj henv
      obtain ⟨ev, hev, hv, hty, hkey⟩ := hrecorded
      exact ⟨ev, hev, Or.inl (publishFlagDelete_eq hv hty hkey)⟩
  | error err => cases henv

/-- The client's two ways to read the log are one, on events that it can use. -/
theorem EventLog.clientView_entries (log : EventLog) :
    clientView.entries log.events = log.entries := by
  refine List.map_congr_left fun e he => ?_
  rcases log.wellFormed e he with hty | ⟨f, hf, -⟩
  · simp [FlagEvent.entry, hty]
  · have hpayload : unmarshalFlag e.payload = decodeFlag e.payload := by
      rw [hf]
      exact (Option.filter_eq_some_iff.mp hf).1
    rw [FlagEvent.entry, FlagEvent.entry, ← hpayload]
    rfl

/-- The log is a second copy of the table. -/
theorem InOrder.replay_log (h : InOrder rows log p) :
    replay (keyMap clientFlag rows) log.entries = clientView.table p.service.db := by
  have hall : above 0 (clientView.entries p.service.db.events) = log.entries := by
    rw [← h.events, log.clientView_entries]
    refine List.filter_eq_self.mpr fun x hx => ?_
    obtain ⟨e, he, rfl⟩ := List.mem_map.mp hx
    exact decide_eq_true (h.service.db.eventBound e (h.events ▸ he)).1
  rw [← hall]
  exact h.table

theorem EventLog.upTo_version (log : EventLog) {v : Int} (hv : log.version ≤ v) :
    upTo v log.entries = log.entries := by
  refine List.filter_eq_self.mpr fun x hx => ?_
  obtain ⟨e, he, rfl⟩ := List.mem_map.mp hx
  exact decide_eq_true ((le_getLatestVersion he).trans hv)

/-- A response made between two commits is in step. -/
theorem InOrder.bootstrap (h : InOrder rows log p) :
    (Replica.answered (bootstrapResponse p.service.db p.service.db)).Follows
      (keyMap clientFlag rows) log := by
  have hversion : log.version = getLatestVersion p.service.db.events := by
    rw [EventLog.version, h.events]
  refine ⟨_, bootstrapFrom_response h.service.db h.service.db, ?_, hversion.ge,
    h.service.db.latest_bounds.1⟩
  rw [InStep, Client.reader, log.upTo_version hversion.le, h.replay_log]

/-- One client moves. -/
theorem InOrder.setReplica (h : InOrder rows log p) {g : Nat} {r : Replica}
    (hr : r.Follows (keyMap clientFlag rows) log) : InOrder rows log (p.setReplica g r) := by
  refine ⟨h.service, h.linked, h.keys, h.uncut, h.events, h.table, h.published, fun g' => ?_⟩
  show (Function.update p.replicas g r g').Follows _ log
  rw [Function.update_apply]
  split
  · exact hr
  · exact h.replicas g'

/-- One goroutine moves. -/
theorem Replica.Follows.task {c c' : Client} {tasks : Nat → Task} {task' : Task} {j : Nat}
    {published : List Envelope} {a : TaskAction} (h : (Replica.running c tasks).Follows m₀ log)
    (hpos : ∀ e ∈ log.events, 0 < e.version)
    (hpublished : ∀ env ∈ published, ∃ e ∈ log.events, env = e.envelope)
    (hs : taskStep log.events published c (tasks j) a = some (c', task')) :
    (Replica.running c' (Function.update tasks j task')).Follows m₀ log := by
  obtain ⟨hsession, hknown, hversion⟩ := h
  obtain ⟨hknown', bs, hbs⟩ : task'.Known log ∧
      ∃ bs, exec sessionStep ⟨log, c, fun j => (tasks j).run⟩ bs =
        some ⟨log, c', Function.update (fun j => (tasks j).run) j task'.run⟩ :=
    taskStep_session hpos hpublished (hknown j) rfl hs
  have hruns : (fun j' => (Function.update tasks j task' j').run) =
      Function.update (fun j => (tasks j).run) j task'.run :=
    Function.comp_update Task.run tasks j _
  refine ⟨?_, fun j' => ?_, hversion.trans (taskStep_version hs)⟩
  · rw [hruns]
    exact exec_preserves (fun h hs => (h.step hs).1) hsession hbs
  · rw [Function.update_apply]
    split
    · exact hknown'
    · exact hknown j'

/-- **Every orderly step keeps the order.** -/
theorem InOrder.step (h : InOrder rows log p) {a : PlaneAction} (hord : p.Orderly a)
    (hs : planeStep p a = some p') : ∃ log', InOrder rows log' p' := by
  cases a with
  | service a =>
      obtain ⟨s, hservice, rfl⟩ := Option.map_eq_some_iff.mp hs
      obtain ⟨log', hevents, hsub, hreplicas, hkeys, huncut, htable⟩ :
          ∃ log', log'.events = s.db.events ∧ (∀ e ∈ log.events, e ∈ log'.events) ∧
          (∀ g, (p.replicas g).Follows (keyMap clientFlag rows) log') ∧
          (∀ r ∈ s.db.flags, r.key ≠ "") ∧ (∀ e ∈ s.db.events, ∀ flag, ¬ e.RecordsUncut flag) ∧
          Reaches clientView (keyMap clientFlag rows) 0 s.db := by
        cases serviceStep_effect hservice with
        | repo _ hb => exact h.statement hb (hord.2 _ rfl)
        | _ => exact ⟨log, h.events, fun _ he => he, h.replicas, h.keys, h.uncut, h.table⟩
      refine ⟨log', h.service.serviceStep hservice, h.linked.step hservice, hkeys, huncut, hevents,
        htable, fun env henv => ?_, hreplicas⟩
      rcases List.mem_append.mp henv with hold | hnew
      · obtain ⟨e, he, heq⟩ := h.published env hold
        exact ⟨e, hsub e he, heq⟩
      · obtain ⟨e, he, heq⟩ := h.service.publishing_event hord.1 (Option.mem_toList.mp hnew)
        refine ⟨e, hsub e (h.events ▸ he), heq.resolve_right fun hcut => ?_⟩
        obtain ⟨flag, hcut, -⟩ := hcut
        exact h.uncut e he flag hcut
  | list g =>
      rw [planeStep] at hs
      split at hs
      · obtain rfl := Option.some.inj hs
        exact ⟨log, h.setReplica trivial⟩
      · cases hs
  | version g =>
      rw [planeStep] at hs
      split at hs
      · rename_i flags hr
        obtain rfl := Option.some.inj hs
        obtain rfl := hord flags hr
        exact ⟨log, h.setReplica h.bootstrap⟩
      · cases hs
  | load g =>
      rw [planeStep] at hs
      split at hs
      · rename_i body hr
        obtain rfl := Option.some.inj hs
        have hanswered := h.replicas g
        rw [hr] at hanswered
        obtain ⟨c, hbody, hstep, hle, hpos⟩ := hanswered
        refine ⟨log, h.setReplica ?_⟩
        rw [Replica.ofBody, hbody]
        exact ⟨⟨hstep, hle, fun _ => trivial⟩, fun _ => trivial, hpos⟩
      · cases hs
  | lose g =>
      rw [planeStep] at hs
      split at hs
      · obtain rfl := Option.some.inj hs
        exact ⟨log, h.setReplica trivial⟩
      · obtain rfl := Option.some.inj hs
        exact ⟨log, h.setReplica trivial⟩
      · cases hs
  | task g j a =>
      rw [planeStep] at hs
      split at hs
      · rename_i c tasks hr
        obtain ⟨⟨c', task'⟩, hstep, rfl⟩ := Option.map_eq_some_iff.mp hs
        have hrunning := h.replicas g
        rw [hr] at hrunning
        refine ⟨log, h.setReplica (hrunning.task (fun e he => ?_) h.published (h.events ▸ hstep))⟩
        exact (h.service.db.eventBound e (h.events ▸ he)).1
      · cases hs

theorem Migrated.inOrder (h : Migrated rows) (hkeys : ∀ r ∈ rows, r.key ≠ "") :
    ∃ log, InOrder rows log (Plane.migrated rows) :=
  ⟨⟨[], List.Pairwise.nil, EventLog.nil_wellFormed⟩,
    { service := h.serviceInv
      linked := linked_migrated rows
      keys := hkeys
      uncut := fun e he => by cases he
      events := rfl
      table := rfl
      published := fun env henv => by cases henv
      replicas := fun _ => trivial }⟩

/-- **Every orderly run keeps the order.** -/
theorem inOrder_of_exec (hrows : Migrated rows) (hkeys : ∀ r ∈ rows, r.key ≠ "")
    {as : List PlaneAction}
    (hord : ∀ tr ∈ transitions planeStep (Plane.migrated rows) as, tr.pre.Orderly tr.act)
    (hrun : exec planeStep (Plane.migrated rows) as = some p) : ∃ log, InOrder rows log p :=
  exec_preserves_of (I := fun p => ∃ log, InOrder rows log p)
    (fun ⟨_, h⟩ hC hs => h.step hC hs) (hrows.inOrder hkeys) hord hrun

/-- The flags of a client that runs are the log up to its version. -/
theorem InOrder.inStep (h : InOrder rows log p) {g : Nat} {c : Client} {tasks : Nat → Task}
    (hc : p.replicas g = .running c tasks) :
    c.flags = replay (keyMap clientFlag rows) (upTo c.configVersion log.entries) ∧
      c.configVersion ≤ log.version ∧ 0 ≤ c.configVersion := by
  have hfollows := h.replicas g
  rw [hc] at hfollows
  exact ⟨hfollows.1.inStep, hfollows.1.version, hfollows.2.2⟩

/-! ### One reconcile at rest -/

/-- The part of a log up to a version. -/
def EventLog.before (log : EventLog) (v : Int) : EventLog where
  events := log.events.filter fun e => e.version ≤ v
  ascending := log.ascending.filter _
  wellFormed e he := log.wellFormed e (List.mem_of_mem_filter he)

theorem EventLog.before_entries (log : EventLog) (v : Int) :
    (log.before v).entries = upTo v log.entries := by
  rw [EventLog.entries, EventLog.before, upTo, EventLog.entries, List.filter_map]
  rfl

/-- A client in step with a log reconciles to its end. -/
theorem Client.reconcile_inStep {c : Client} {k : Nat}
    (hstep : c.flags = replay m₀ (upTo c.configVersion log.entries))
    (hle : c.configVersion ≤ log.version) (hpos : 0 ≤ c.configVersion)
    (hint : ∀ e ∈ log.events, Json.InInt64 e.version) (hk : 1 ≤ k)
    (hpages : (c.missing log.events).length ≤ 99999 * k) :
    c.reconcile (pageServer log.events k) = (⟨replay m₀ log.entries, log.version⟩, true) := by
  have hrun : c.reconcile (pageServer log.events k) =
      ((c.missing log.events).foldl Client.applyEvent c, true) :=
    reconcileLoop_pageServer log.ascending (List.Perm.refl _) hint hk hpages
  have hflags : ((c.missing log.events).foldl Client.applyEvent c).flags =
      replay m₀ log.entries := by
    rw [← replayFlags_eq_replay]
    refine replayFlags_missing log.ascending ?_
    rw [hstep, ← log.before_entries, ← replayFlags_eq_replay]
    rfl
  have hversion : ((c.missing log.events).foldl Client.applyEvent c).configVersion =
      log.version := by
    by_cases hnil : c.missing log.events = []
    · rw [hnil, List.foldl_nil]
      refine le_antisymm hle ?_
      by_cases hempty : log.events = []
      · rw [EventLog.version, hempty]
        exact hpos
      · obtain ⟨e, he, heq⟩ := getLatestVersion_mem hempty
        have hnot := List.filter_eq_nil_iff.mp hnil e he
        rw [decide_eq_true_eq, not_lt] at hnot
        rw [EventLog.version, ← heq]
        exact hnot
    · exact version_of_missing log.ascending hnil
  rw [hrun, ← hflags, ← hversion]

end Order

section Runs

variable {rows : List FlagRow} {as : List PlaneAction} {p : Plane}

/-- The checkable part of `Orderly`, on one action. -/
def Plane.orderlyChecked (p : Plane) : PlaneAction → Bool
  | .service (.repo b) =>
    (p.service.db.committing b).all fun c =>
      c.write ≠ .nothing && p.service.db.events.all (fun e => e.version < c.locals.version) &&
        decide c.op.Uncut
  | .service a => (p.service.publishing a).all fun env => env.version ≠ 0
  | .version g =>
    match p.replicas g with
    | .listed flags => flags = listFlags p.service.db.flags
    | _ => true
  | _ => true

theorem Plane.orderly_of_checked {a : PlaneAction} (h : p.orderlyChecked a = true) :
    p.Orderly a := by
  have hpublish : ∀ b, (p.service.publishing b).all (fun env => env.version ≠ 0) = true →
      ¬ p.service.PublishesUnversioned b := by
    rintro b hb ⟨t, id, req, flagKey, flag, rfl, hcall, -, htx, hv⟩
    have henv : p.service.publishing (.respond t) = some (publishFlagUpdate flag) := by
      rw [Service.publishing, hcall, htx]
      rfl
    rw [henv] at hb
    simp [publishFlagUpdate, hv] at hb
  cases a with
  | service a =>
      cases a with
      | repo b =>
          refine ⟨fun hun => ?_, fun b' hb' c hc => ?_⟩
          · obtain ⟨t, -, -, -, -, hact, -⟩ := hun
            cases hact
          · obtain rfl := ServiceAction.repo.inj hb'
            simpa [orderlyChecked, hc, and_assoc] using h
      | request _ _ | lookup _ | failLookup _ | respond _ =>
          exact ⟨hpublish _ h, fun b hb => by cases hb⟩
  | version g =>
      intro flags hflags
      simpa [orderlyChecked, hflags] using h
  | list _ | load _ | lose _ | task _ _ _ => trivial

/-- **Clients agree.** After every orderly run a client's flags are the replay of the log up to
its version, which is no later than the log's; so clients at the same version hold the same
flags, and a client at the latest version holds the table. -/
theorem replicas_agree (hrows : Migrated rows) (hkeys : ∀ r ∈ rows, r.key ≠ "")
    (hord : ∀ tr ∈ transitions planeStep (Plane.migrated rows) as, tr.pre.Orderly tr.act)
    (hrun : exec planeStep (Plane.migrated rows) as = some p) :
    ∀ g c tasks, p.replicas g = .running c tasks →
      c.flags = replay (keyMap clientFlag rows)
          (upTo c.configVersion (clientView.entries p.service.db.events)) ∧
        c.configVersion ≤ getLatestVersion p.service.db.events ∧
        (∀ g' c' tasks', p.replicas g' = .running c' tasks' →
          c'.configVersion = c.configVersion → c'.flags = c.flags) ∧
        (c.configVersion = getLatestVersion p.service.db.events →
          c.flags = clientView.table p.service.db) := by
  obtain ⟨log, h⟩ := inOrder_of_exec hrows hkeys hord hrun
  intro g c tasks hc
  obtain ⟨hflags, hle, -⟩ := h.inStep hc
  rw [← h.events, log.clientView_entries]
  refine ⟨hflags, hle, fun g' c' tasks' hc' hv => ?_, fun hv => ?_⟩
  · rw [(h.inStep hc').1, hv, hflags]
  · rw [hflags, log.upTo_version hv.ge, h.replay_log]

/-- A toggle, from the call to its publication. -/
def toggleCall (t : TxId) : List PlaneAction :=
  [.request t (.toggleFlag "u"), .repo (.begin t 1), .repo (.nextval t), .repo (.scan t),
    .repo (.lock t), .repo (.appendEvent t), .repo (.commit t), .respond t].map PlaneAction.service

/-- `Bootstrap`, with nothing in between. -/
def boot (g : Nat) : List PlaneAction := [.list g, .version g, .load g]

/-- Client 0 boots before three toggles and client 1 after the first. Client 1 takes the frames as
they come; client 0 takes the last one alone, and reconciles. -/
def orderlyWrites : List PlaneAction :=
  boot 0 ++ boot 2 ++ toggleCall 0 ++ boot 1 ++ toggleCall 1 ++ toggleCall 2 ++
    [.task 1 0 (.receive 1), .task 1 0 .take, .task 0 0 (.receive 2), .task 0 0 .take,
      .task 0 0 .readVersion, .task 1 0 (.receive 2), .task 0 0 .answer, .task 1 0 .take,
      .task 0 0 .applyPage]

theorem orderlyWrites_orderly :
    ∀ tr ∈ transitions planeStep (Plane.migrated [checkoutRow]) orderlyWrites,
      tr.pre.Orderly tr.act := by
  have hall : (transitions planeStep (Plane.migrated [checkoutRow]) orderlyWrites).all
      (fun tr => tr.pre.orderlyChecked tr.act) = true := by
    decide
  exact fun tr htr => tr.pre.orderly_of_checked (List.all_eq_true.mp hall tr htr)

theorem checkoutRow_key : ∀ r ∈ [checkoutRow], r.key ≠ "" := by
  decide

/-- The version that client `g` is at. -/
def Plane.versionOf (p : Plane) (g : Nat) : Option Int :=
  match p.replicas g with
  | .running c _ => some c.configVersion
  | _ => none

theorem Plane.versionOf_eq_some {p : Plane} {g : Nat} {v : Int} (h : p.versionOf g = some v) :
    ∃ c tasks, p.replicas g = .running c tasks ∧ c.configVersion = v := by
  rw [versionOf] at h
  split at h
  · rename_i c tasks hc
    exact ⟨c, tasks, hc, Option.some.inj h⟩
  · cases h

theorem replicas_agree_orderlyWrites :
    ∃ p c tasks c' tasks', exec planeStep (Plane.migrated [checkoutRow]) orderlyWrites = some p ∧
      p.replicas 0 = .running c tasks ∧ p.replicas 1 = .running c' tasks' ∧
      c.configVersion = 3 ∧ c'.configVersion = 3 ∧ c'.flags = c.flags := by
  have hrun : ((exec planeStep (Plane.migrated [checkoutRow]) orderlyWrites).map fun p =>
      (p.versionOf 0, p.versionOf 1)) = some (some 3, some 3) := by
    decide
  obtain ⟨p, hp, hversions⟩ := Option.map_eq_some_iff.mp hrun
  obtain ⟨h₀, h₁⟩ := Prod.mk.inj hversions
  obtain ⟨c, tasks, hc, hv⟩ := Plane.versionOf_eq_some h₀
  obtain ⟨c', tasks', hc', hv'⟩ := Plane.versionOf_eq_some h₁
  have hagree := replicas_agree migrated_checkoutRow checkoutRow_key orderlyWrites_orderly hp
  exact ⟨p, c, tasks, c', tasks', hp, hc, hc', hv, hv',
    (hagree 0 c tasks hc).2.2.1 1 c' tasks' hc' (hv'.trans hv.symm)⟩

/-- **One reconcile against a database at rest.** After every orderly run, a client that
reconciles while nothing commits, with at most 99999 pages to fetch, ends without an error at the
latest version, and holds the table. -/
theorem reconcile_reaches_table (hrows : Migrated rows) (hkeys : ∀ r ∈ rows, r.key ≠ "")
    (hord : ∀ tr ∈ transitions planeStep (Plane.migrated rows) as, tr.pre.Orderly tr.act)
    (hrun : exec planeStep (Plane.migrated rows) as = some p) {g : Nat} {c : Client}
    {tasks : Nat → Task} (hc : p.replicas g = .running c tasks)
    (hpages : (c.missing p.service.db.events).length ≤ 99999 * 500) :
    c.reconcile (pageServer p.service.db.events 500) =
      (⟨clientView.table p.service.db, getLatestVersion p.service.db.events⟩, true) := by
  obtain ⟨log, h⟩ := inOrder_of_exec hrows hkeys hord hrun
  obtain ⟨hflags, hle, hpos⟩ := h.inStep hc
  rw [← h.replay_log]
  rw [← h.events] at hpages ⊢
  refine Client.reconcile_inStep hflags hle hpos (fun e he => ?_) (by decide) hpages
  have hdb := h.service.db
  have hbound := hdb.eventBound e (h.events ▸ he)
  have hseq := hdb.seq
  exact inInt64_of_version hbound.1.le (hbound.2.trans hseq.2)

/-- Client 2 has taken nothing since it booted at version 0. -/
theorem reconcile_reaches_table_orderlyWrites :
    ∃ p c tasks, exec planeStep (Plane.migrated [checkoutRow]) orderlyWrites = some p ∧
      p.replicas 2 = .running c tasks ∧ c.configVersion = 0 ∧
      c.reconcile (pageServer p.service.db.events 500) =
        (⟨clientView.table p.service.db, getLatestVersion p.service.db.events⟩, true) := by
  have hrun : ((exec planeStep (Plane.migrated [checkoutRow]) orderlyWrites).map fun p =>
      (p.versionOf 2, p.service.db.events.length)) = some (some 0, 3) := by
    decide
  obtain ⟨p, hp, heq⟩ := Option.map_eq_some_iff.mp hrun
  obtain ⟨hv, hlength⟩ := Prod.mk.inj heq
  obtain ⟨c, tasks, hc, hversion⟩ := Plane.versionOf_eq_some hv
  have hpages : (c.missing p.service.db.events).length ≤ 99999 * 500 := by
    have hle : (c.missing p.service.db.events).length ≤ p.service.db.events.length :=
      List.length_filter_le _ _
    omega
  exact ⟨p, c, tasks, hp, hc, hversion,
    reconcile_reaches_table migrated_checkoutRow checkoutRow_key orderlyWrites_orderly hp hc hpages⟩

end Runs

end FlagPlane
