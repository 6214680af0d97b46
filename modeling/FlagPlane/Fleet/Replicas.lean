import FlagPlane.Client.Evaluate
import FlagPlane.Client.Reconcile
import FlagPlane.Handler.Bootstrap
import FlagPlane.Handler.Events
import FlagPlane.Repository.Returns
import FlagPlane.Service.Outbox

/-!
# FlagPlane.Fleet.Replicas

**The service and the Go clients that follow it, as one machine.** Writers run their statements,
the service publishes, and each client bootstraps once and then runs any number of goroutines that
reconcile or take frames.

Nothing is assumed of the way from `Publish` to a client but that it makes up no envelope: a
goroutine may take any envelope that was ever published, late, twice or never. Nor is anything
assumed of the order of commits and versions. What is left without these assumptions is
`replicas_hold_stood_rows`: every flag a client holds is a row as some transaction has
committed it, under the row's own key.
-/

namespace FlagPlane

/-! ### The machine -/

/-- What a goroutine of a client is doing. -/
inductive Task
  /-- In `Reconcile`, or idle. -/
  | reconcile (run : ReconcileRun)
  /-- `stream` has read a frame and settled its version, and asks for the mutex. -/
  | frame (frame : SSEFrame) (version : Int)

inductive TaskAction
  /-- `stream` reads the frame of the `n`-th envelope that was published. -/
  | receive (n : Nat)
  /-- `applyLiveEvent`. -/
  | take
  | startReconcile
  /-- The head of the loop in `Reconcile`. -/
  | readVersion
  | answer
  /-- The request fails, or its answer does not decode. -/
  | failRequest
  | applyPage

/-- One goroutine of the client `c`. -/
def taskStep (events : List FlagEvent) (published : List Envelope) (c : Client) :
    Task → TaskAction → Option (Client × Task)
  | .reconcile .idle, .receive n =>
    (published[n]?).map fun env =>
      let frame := env.sseEvent.frame
      (c, .frame frame (frame.id.getD (c.configVersion + 1)))
  | .frame frame version, .take =>
    let (c', needsReconcile) := c.applyLiveEvent frame.event frame.data version
    some (c', .reconcile (if needsReconcile then .looping 0 else .idle))
  | .reconcile .idle, .startReconcile => some (c, .reconcile (.looping 0))
  | .reconcile (.looping k), .readVersion =>
    some (c, .reconcile (if k < guardLimit then .asked k c.configVersion else .idle))
  | .reconcile (.asked k since), .answer =>
    some (c, .reconcile (.answered k (listEventsSince events since 0)))
  | .reconcile (.asked _ _), .failRequest => some (c, .reconcile .idle)
  | .reconcile (.answered k page), .applyPage =>
    if page.isEmpty then some (c, .reconcile .idle)
    else
      let (c', advanced) := c.applyPage page
      some (c', .reconcile (if advanced then .looping (k + 1) else .idle))
  | _, _ => none

/-- A Go client, from `New` on. -/
inductive Replica
  | fresh
  /-- `GetAllFlags` has read the flags for `Bootstrap`. -/
  | listed (flags : List Flag)
  /-- The response is on its way. -/
  | answered (body : Json)
  | running (client : Client) (tasks : Nat → Task)

/-- The service, every envelope handed to `Publish` so far, and the clients. -/
structure Plane where
  service : Service
  published : List Envelope
  replicas : Nat → Replica

inductive PlaneAction
  | service (a : ServiceAction)
  /-- `GetAllFlags` reads the flags. -/
  | list (g : Nat)
  /-- `GetAllFlags` reads the config version and answers. -/
  | version (g : Nat)
  /-- `Bootstrap` takes the answer. -/
  | load (g : Nat)
  /-- The request of `Bootstrap` fails. -/
  | lose (g : Nat)
  /-- A goroutine `j` of client `g` moves. -/
  | task (g j : Nat) (a : TaskAction)

def Plane.setReplica (p : Plane) (g : Nat) (r : Replica) : Plane :=
  { p with replicas := Function.update p.replicas g r }

/-- What `Bootstrap` makes of an answer. -/
def Replica.ofBody (body : Json) : Replica :=
  match Client.bootstrapFrom body with
  | some c => .running c fun _ => .reconcile .idle
  | none => .fresh

def planeStep (p : Plane) : PlaneAction → Option Plane
  | .service a =>
    (serviceStep p.service a).map fun s =>
      { p with service := s, published := p.published ++ (p.service.publishing a).toList }
  | .list g =>
    match p.replicas g with
    | .fresh => some (p.setReplica g (.listed (listFlags p.service.db.flags)))
    | _ => none
  | .version g =>
    match p.replicas g with
    | .listed flags =>
      some (p.setReplica g (.answered (getAllFlags flags (getLatestVersion p.service.db.events))))
    | _ => none
  | .load g =>
    match p.replicas g with
    | .answered body => some (p.setReplica g (.ofBody body))
    | _ => none
  | .lose g =>
    match p.replicas g with
    | .listed _ | .answered _ => some (p.setReplica g .fresh)
    | _ => none
  | .task g j a =>
    match p.replicas g with
    | .running c tasks =>
      (taskStep p.service.db.events p.published c (tasks j) a).map fun s =>
        p.setReplica g (.running s.1 (Function.update tasks j s.2))
    | _ => none

/-- The plane right after migration 002. -/
def Plane.migrated (rows : List FlagRow) : Plane :=
  ⟨Service.migrated rows, [], fun _ => .fresh⟩

/-- What one move of a goroutine does. -/
inductive TaskEffect (events : List FlagEvent) (published : List Envelope) (c : Client) :
    Task → TaskAction → Client → Task → Prop
  | receive {n : Nat} {env : Envelope} (henv : published[n]? = some env) :
      TaskEffect events published c (.reconcile .idle) (.receive n) c
        (.frame env.sseEvent.frame (env.sseEvent.frame.id.getD (c.configVersion + 1)))
  | take {f : SSEFrame} {v : Int} :
      TaskEffect events published c (.frame f v) .take (c.applyLiveEvent f.event f.data v).1
        (.reconcile (if (c.applyLiveEvent f.event f.data v).2 then .looping 0 else .idle))
  | startReconcile :
      TaskEffect events published c (.reconcile .idle) .startReconcile c (.reconcile (.looping 0))
  | readVersion {k : Nat} :
      TaskEffect events published c (.reconcile (.looping k)) .readVersion c
        (.reconcile (if k < guardLimit then .asked k c.configVersion else .idle))
  | answer {k : Nat} {since : Int} :
      TaskEffect events published c (.reconcile (.asked k since)) .answer c
        (.reconcile (.answered k (listEventsSince events since 0)))
  | failRequest {k : Nat} {since : Int} :
      TaskEffect events published c (.reconcile (.asked k since)) .failRequest c (.reconcile .idle)
  | lastPage {k : Nat} {page : List FlagEvent} (hempty : page.isEmpty = true) :
      TaskEffect events published c (.reconcile (.answered k page)) .applyPage c (.reconcile .idle)
  | applyPage {k : Nat} {page : List FlagEvent} (hempty : page.isEmpty = false) :
      TaskEffect events published c (.reconcile (.answered k page)) .applyPage (c.applyPage page).1
        (.reconcile (if (c.applyPage page).2 then .looping (k + 1) else .idle))

theorem taskStep_effect {events : List FlagEvent} {published : List Envelope} {c c' : Client}
    {task task' : Task} {a : TaskAction}
    (hs : taskStep events published c task a = some (c', task')) :
    TaskEffect events published c task a c' task' := by
  unfold taskStep at hs
  split at hs
  · obtain ⟨env, henv, heq⟩ := Option.map_eq_some_iff.mp hs
    cases heq
    exact .receive henv
  · cases hs
    exact .take
  · cases hs
    exact .startReconcile
  · cases hs
    exact .readVersion
  · cases hs
    exact .answer
  · cases hs
    exact .failRequest
  · split at hs
    · rename_i hempty
      cases hs
      exact .lastPage hempty
    · rename_i hempty
      cases hs
      exact .applyPage (by simpa using hempty)
  · cases hs

/-! ### Rows that have stood in the table -/

/-- The row has stood in the table: migration 002 left it, or an event records it, as it is stored
or as it was sent (with blanks in the description that the column has cut). -/
structure Stood (rows : List FlagRow) (events : List FlagEvent) (r : FlagRow) : Prop where
  origin : r ∈ rows ∨ ∃ e ∈ events, RowEvent r e ∨ e.Records (scanFlag r)
  columns : r.stored.columnsOk = true
  version : 0 ≤ r.version ∧ r.version ≤ maxVersion

/-- A deletion, or an event that records a row. -/
def FlagEvent.OfRow (rows : List FlagRow) (events : List FlagEvent) (e : FlagEvent) : Prop :=
  e.eventType = .deleted ∨ ∃ r, Stood rows events r ∧ e.Records (scanFlag r)

/-- A deletion, or an envelope that carries a row. -/
def Envelope.OfRow (rows : List FlagRow) (events : List FlagEvent) (env : Envelope) : Prop :=
  env.type = "flag_deleted" ∨ ∃ r, Stood rows events r ∧ env.data = rowPayload r

/-- Every flag of the client is a row that has stood in the table under the flag's key. -/
def Client.OfRows (rows : List FlagRow) (events : List FlagEvent) (c : Client) : Prop :=
  ∀ key f, c.flags key = some f → ∃ r, Stood rows events r ∧ r.key = key ∧ f = clientFlag r

section Stood

variable {rows : List FlagRow} {events events' : List FlagEvent} {r : FlagRow} {e : FlagEvent}
  {env : Envelope} {c : Client}

theorem Stood.mono (h : Stood rows events r) (hsub : ∀ e ∈ events, e ∈ events') :
    Stood rows events' r :=
  ⟨h.origin.imp_right fun ⟨e, he, hr⟩ => ⟨e, hsub e he, hr⟩, h.columns, h.version⟩

theorem FlagEvent.OfRow.mono (h : e.OfRow rows events) (hsub : ∀ e ∈ events, e ∈ events') :
    e.OfRow rows events' :=
  Or.imp_right (fun ⟨r, hr, he⟩ => ⟨r, hr.mono hsub, he⟩) h

theorem Envelope.OfRow.mono (h : env.OfRow rows events) (hsub : ∀ e ∈ events, e ∈ events') :
    env.OfRow rows events' :=
  Or.imp_right (fun ⟨r, hr, he⟩ => ⟨r, hr.mono hsub, he⟩) h

theorem Client.OfRows.mono (h : c.OfRows rows events) (hsub : ∀ e ∈ events, e ∈ events') :
    c.OfRows rows events' := by
  intro key f hf
  obtain ⟨r, hr, hkey, rfl⟩ := h key f hf
  exact ⟨r, hr.mono hsub, hkey, rfl⟩

theorem Stood.decode (h : Stood rows events r) :
    unmarshalFlag (rowPayload r) = some (clientFlag r) :=
  clientView.decode_payload r h.columns h.version.1 h.version.2

theorem FlagEvent.OfRow.decode (h : e.OfRow rows events) (hty : e.eventType ≠ .deleted) :
    ∃ r, Stood rows events r ∧ e.payload = rowPayload r := by
  obtain ⟨r, hr, -, -, -, hpayload⟩ := h.resolve_left hty
  exact ⟨r, hr, hpayload⟩

/-! ### What the client does with them -/

theorem Client.OfRows.delete (h : c.OfRows rows events) (key : String) :
    (c.deleteFlag key).OfRows rows events := by
  intro k f hf
  simp only [deleteFlag, Function.update_apply] at hf
  split at hf
  · cases hf
  · exact h k f hf

theorem Client.OfRows.setDecoded (h : c.OfRows rows events) (hr : Stood rows events r) :
    (c.setDecoded (rowPayload r)).OfRows rows events := by
  rw [Client.setDecoded]
  split
  · rename_i f hf
    rw [decodeFlag, hr.decode, Option.filter_eq_some_iff] at hf
    obtain rfl := Option.some.inj hf.1
    intro k f hk
    simp only [setFlag, Function.update_apply] at hk
    split at hk
    · rename_i heq
      exact ⟨r, hr, heq.symm, (Option.some.inj hk).symm⟩
    · exact h k f hk
  · exact h

/-- The flags alone matter. -/
theorem Client.OfRows.of_flags {c' : Client} (h : c.OfRows rows events) (hc : c'.flags = c.flags) :
    c'.OfRows rows events := fun key f hf => h key f (hc ▸ hf)

theorem Client.OfRows.applyLocked (h : c.OfRows rows events) (he : e.OfRow rows events) :
    (c.applyLocked e.eventType e.flagKey e.payload e.version).OfRows rows events := by
  cases hty : e.eventType with
  | deleted => exact (h.delete e.flagKey).of_flags rfl
  | created | updated =>
      obtain ⟨r, hr, hpayload⟩ := he.decode (by rw [hty]; decide)
      rw [hpayload]
      exact (h.setDecoded hr).of_flags rfl

theorem Client.OfRows.applyPage (h : c.OfRows rows events) {page : List FlagEvent}
    (hpage : ∀ e ∈ page, e.OfRow rows events) : (c.applyPage page).1.OfRows rows events := by
  suffices H : ∀ s : Client × Bool, s.1.OfRows rows events →
      (page.foldl applyNext s).1.OfRows rows events from H (c, false) h
  induction page with
  | nil => exact fun _ hs => hs
  | cons e page ih =>
      rw [List.forall_mem_cons] at hpage
      intro s hs
      refine ih hpage.2 _ ?_
      rw [applyNext]
      split
      · exact hs
      · exact hs.applyLocked hpage.1

theorem Client.OfRows.applyLiveEvent (h : c.OfRows rows events) (henv : env.OfRow rows events)
    (v : Int) : (c.applyLiveEvent env.type env.data v).1.OfRows rows events := by
  rw [Client.applyLiveEvent]
  split
  · exact h
  split
  · exact h
  dsimp only
  split
  · split
    · exact (h.delete _).of_flags rfl
    · exact h.of_flags rfl
  · rename_i hty
    obtain ⟨r, hr, hdata⟩ := henv.resolve_left hty
    rw [hdata]
    exact (h.setDecoded hr).of_flags rfl

/-- What a client enables for a user, some row that has stood in the table enables. -/
theorem Client.OfRows.isEnabled (h : c.OfRows rows events) {flagKey userID : String}
    (hon : c.isEnabled flagKey userID = true) :
    ∃ r, Stood rows events r ∧ r.key = flagKey ∧ r.enabled = true ∧
      (userID ∈ r.targetedUsers ∨ inRollout flagKey userID r.rolloutPercentage = true) := by
  rw [Client.isEnabled] at hon
  split at hon
  · cases hon
  rename_i f hf
  obtain ⟨r, hr, hkey, rfl⟩ := h flagKey f hf
  refine ⟨r, hr, hkey, ?_⟩
  split at hon
  · cases hon
  rename_i hen
  refine ⟨by simpa [clientFlag] using hen, ?_⟩
  split at hon
  · rename_i hany
    obtain ⟨u, hu, heq⟩ := List.any_eq_true.mp hany
    exact Or.inl (of_decide_eq_true heq ▸ hu)
  · exact Or.inr hon

end Stood

/-! ### The tables -/

/-- Rows, events and results are of rows that have stood in the table. -/
structure DbOfRows (rows : List FlagRow) (db : Db) : Prop where
  flags : ∀ r ∈ db.flags, Stood rows db.events r
  events : ∀ e ∈ db.events, e.OfRow rows db.events
  results : ∀ t op res flag, db.txs t = some ⟨op, .returned res⟩ →
    (res = .created flag ∨ res = .flag (some flag)) →
    (publishFlagUpdate flag).OfRow rows db.events

section Tables

variable {rows : List FlagRow} {db db' : Db} {a : Action} {t : TxId} {c : Commit}

/-- The envelope of an event of a row is of that row. -/
theorem FlagEvent.OfRow.envelope {events : List FlagEvent} {e : FlagEvent}
    (h : e.OfRow rows events) : e.envelope.OfRow rows events := by
  by_cases hty : e.eventType = .deleted
  · rw [FlagEvent.envelope, FlagEvent.frame, if_pos hty]
    exact Or.inl rfl
  · rw [FlagEvent.envelope, FlagEvent.frame, if_neg hty]
    exact Or.inr (h.decode hty)

/-- The row that a commit leaves has stood in the table, and so has the one its event records. -/
theorem DbInv.stood_committed (h : DbInv db)
    (ht : db.txs t = some ⟨c.op, .logged c.locals c.write c.event⟩) {r : FlagRow}
    (hw : c.write = .insert r ∨ c.write = .update r) :
    Stood rows (db.committed t c).events r ∧
      ∃ r', Stood rows (db.committed t c).events r' ∧ c.event.Records (scanFlag r') := by
  have hevent : RowEvent r c.event := by
    rw [h.event_eq ht]
    exact ((h.writeInv ht).rowEvent hw).2
  have hmem : r ∈ (db.committed t c).flags := h.mem_committed ht hw
  have hlogged : c.event ∈ (db.committed t c).events := List.mem_append_right _ (by simp)
  have hok := (h.commit ht).columns r hmem
  have hv := (h.commit ht).row_version_bounds hmem
  refine ⟨⟨Or.inr ⟨c.event, hlogged, Or.inl hevent⟩, FlagRow.stored_columnsOk hok, hv⟩, ?_⟩
  obtain ⟨hversion, hty, hkey, r', rfl, hpayload⟩ := hevent
  have hrecords : c.event.Records (scanFlag r') := ⟨hversion, hty, hkey, hpayload⟩
  exact ⟨r', ⟨Or.inr ⟨c.event, hlogged, Or.inr hrecords⟩, hok, hv⟩, hrecords⟩

theorem DbOfRows.committed (h : DbInv db) (hd : DbOfRows rows db)
    (ht : db.txs t = some ⟨c.op, .logged c.locals c.write c.event⟩) :
    (∀ r ∈ (db.committed t c).flags, Stood rows (db.committed t c).events r) ∧
      ∀ e ∈ (db.committed t c).events, e.OfRow rows (db.committed t c).events := by
  have hsub : ∀ e ∈ db.events, e ∈ (db.committed t c).events := fun e he =>
    List.mem_append_left _ he
  constructor
  · intro r hr
    rcases mem_of_mem_applyWrite (h.write_fits ht) hr with hold | hw
    · exact (hd.flags r hold).mono hsub
    · exact (h.stood_committed ht hw).1
  · intro e he
    rcases List.mem_append.mp he with hold | hnew
    · exact (hd.events e hold).mono hsub
    rw [List.mem_singleton.mp hnew]
    cases hw : c.write with
    | insert r => exact Or.inr (h.stood_committed ht (Or.inl hw)).2
    | update r => exact Or.inr (h.stood_committed ht (Or.inr hw)).2
    | delete r | nothing =>
        rw [h.event_eq ht, hw]
        exact Or.inl rfl

/-- **Every statement keeps it.** -/
theorem DbOfRows.step (h : DbInv db) (hd : DbOfRows rows db) (hs : step db a = some db') :
    DbOfRows rows db' := by
  have hsub : ∀ e ∈ db.events, e ∈ db'.events := fun e he => step_events hs he
  have htables : (∀ r ∈ db'.flags, Stood rows db'.events r) ∧
      ∀ e ∈ db'.events, e.OfRow rows db'.events := by
    rcases step_tables hs with ⟨-, hflags, hevents⟩ | ⟨t, c, rfl, ht, -, rfl⟩
    · rw [hflags, hevents]
      exact ⟨hd.flags, hd.events⟩
    · exact hd.committed h ht
  refine ⟨htables.1, htables.2, fun t op res flag ht hres => ?_⟩
  rcases step_returns hs ht with hold | hret
  · exact (hd.results t op res flag hold hres).mono hsub
  cases hret with
  | read hop =>
      have hflag : getByID db.flags op.flagId = some flag := by simpa using hres
      obtain ⟨row, hrow, rfl⟩ := Option.map_eq_some_iff.mp hflag
      have hmem := (h.table.findById_eq_some.mp hrow).1
      exact Or.inr ⟨row, (hd.flags row hmem).mono hsub, rfl⟩
  | @commit c ht' =>
      obtain rfl : db' = db.committed t c := by
        rw [FlagPlane.step, ht'] at hs
        exact (Option.some.inj hs).symm
      have henv : (c.op.result c.locals c.write).envelope c.locals.key = some c.event.envelope :=
        h.envelope_commit ht' (fun _ _ => rfl) hs
      have heq : publishFlagUpdate flag = c.event.envelope := by
        rcases hres with hres | hres <;> (rw [hres] at henv; exact Option.some.inj henv)
      rw [heq]
      exact (htables.2 _ (List.mem_append_right _ (by simp))).envelope
  | noRow =>
      cases op with
      | update id req =>
          simp only [Db.noRowResult] at hres
          split at hres <;> simp at hres
      | create _ | toggle _ | delete _ => simp [Db.noRowResult] at hres
  | _ => simp at hres

theorem Migrated.dbOfRows (h : Migrated rows) : DbOfRows rows (Db.migrated rows) where
  flags r hr := ⟨Or.inl hr, FlagRow.stored_columnsOk (h.columns r hr), by
    rw [h.version r hr]
    decide⟩
  events e he := by cases he
  results t op res flag ht := by cases ht

end Tables

/-! ### The plane -/

/-- What a goroutine holds is of rows that have stood in the table. -/
def Task.OfRows (rows : List FlagRow) (events : List FlagEvent) : Task → Prop
  | .reconcile (.answered _ page) => ∀ e ∈ page, e.OfRow rows events
  | .reconcile _ => True
  | .frame f _ => ∃ env : Envelope, env.OfRow rows events ∧ f = env.sseEvent.frame

def Replica.OfRows (rows : List FlagRow) (events : List FlagEvent) : Replica → Prop
  | fresh => True
  | listed flags => ∃ db, DbInv db ∧ flags = listFlags db.flags ∧
      ∀ r ∈ db.flags, Stood rows events r
  | answered body => ∃ db db', DbInv db ∧ DbInv db' ∧ body = bootstrapResponse db db' ∧
      ∀ r ∈ db.flags, Stood rows events r
  | running c tasks => c.OfRows rows events ∧ ∀ j, (tasks j).OfRows rows events

structure PlaneInv (rows : List FlagRow) (p : Plane) : Prop where
  service : ServiceInv p.service
  db : DbOfRows rows p.service.db
  published : ∀ env ∈ p.published, env.OfRow rows p.service.db.events
  replicas : ∀ g, (p.replicas g).OfRows rows p.service.db.events

section Plane

variable {rows : List FlagRow} {events events' : List FlagEvent} {published : List Envelope}
  {c c' : Client} {task task' : Task} {p p' : Plane} {g : Nat}

theorem Task.OfRows.mono (h : task.OfRows rows events) (hsub : ∀ e ∈ events, e ∈ events') :
    task.OfRows rows events' := by
  unfold Task.OfRows at h ⊢
  split
  · exact fun e he => (h e he).mono hsub
  · trivial
  · obtain ⟨env, henv, heq⟩ := h
    exact ⟨env, henv.mono hsub, heq⟩

theorem Replica.OfRows.mono {r : Replica} (h : r.OfRows rows events)
    (hsub : ∀ e ∈ events, e ∈ events') : r.OfRows rows events' := by
  cases r with
  | fresh => trivial
  | listed flags =>
      obtain ⟨db, hdb, heq, hall⟩ := h
      exact ⟨db, hdb, heq, fun r hr => (hall r hr).mono hsub⟩
  | answered body =>
      obtain ⟨db, db', hdb, hdb', heq, hall⟩ := h
      exact ⟨db, db', hdb, hdb', heq, fun r hr => (hall r hr).mono hsub⟩
  | running c tasks => exact ⟨h.1.mono hsub, fun j => (h.2 j).mono hsub⟩

/-- Going on or stopping, a goroutine holds nothing. -/
theorem Task.ofRows_looping (goOn : Bool) (k : Nat) :
    (Task.reconcile (if goOn then .looping k else .idle)).OfRows rows events := by
  cases goOn <;> trivial

/-- No move of a goroutine takes the version down. -/
theorem taskStep_version {a : TaskAction}
    (hs : taskStep events published c task a = some (c', task')) :
    c.configVersion ≤ c'.configVersion := by
  cases taskStep_effect hs with
  | take => exact c.le_applyLiveEvent _ _ _
  | applyPage => exact c.le_applyPage _
  | _ => exact le_refl _

/-- **One move of a goroutine.** -/
theorem taskStep_ofRows (hevents : ∀ e ∈ events, e.OfRow rows events)
    (hpublished : ∀ env ∈ published, env.OfRow rows events) (hc : c.OfRows rows events)
    (ht : task.OfRows rows events) {a : TaskAction}
    (hs : taskStep events published c task a = some (c', task')) :
    c'.OfRows rows events ∧ task'.OfRows rows events := by
  cases taskStep_effect hs with
  | @receive n env henv => exact ⟨hc, env, hpublished env (List.mem_of_getElem? henv), rfl⟩
  | take =>
      obtain ⟨env, henv, rfl⟩ := ht
      exact ⟨hc.applyLiveEvent henv _, Task.ofRows_looping _ 0⟩
  | startReconcile | failRequest | lastPage => exact ⟨hc, trivial⟩
  | readVersion =>
      refine ⟨hc, ?_⟩
      split <;> trivial
  | answer =>
      refine ⟨hc, fun e he => hevents e ?_⟩
      rw [listEventsSince_eq] at he
      exact (mem_of_mem_eventsPage he).1
  | applyPage => exact ⟨hc.applyPage ht, Task.ofRows_looping _ _⟩

/-- What the service publishes is of a row that has stood in the table. -/
theorem PlaneInv.publishing (h : PlaneInv rows p) {a : ServiceAction} {env : Envelope}
    (henv : p.service.publishing a = some env) : env.OfRow rows p.service.db.events := by
  unfold Service.publishing at henv
  split at henv
  swap
  · cases henv
  split at henv
  swap
  · cases henv
  rename_i call flagKey op r hcall htx
  cases r with
  | created flag =>
      obtain rfl := Option.some.inj henv
      exact h.db.results _ _ _ _ htx (Or.inl rfl)
  | flag flag =>
      cases flag with
      | none => cases henv
      | some flag =>
          obtain rfl := Option.some.inj henv
          exact h.db.results _ _ _ _ htx (Or.inr rfl)
  | deleted v =>
      obtain rfl := Option.some.inj henv
      exact Or.inl rfl
  | error err => cases henv

/-- One client moves. -/
theorem PlaneInv.setReplica (h : PlaneInv rows p) {r : Replica}
    (hr : r.OfRows rows p.service.db.events) : PlaneInv rows (p.setReplica g r) := by
  refine ⟨h.service, h.db, h.published, fun g' => ?_⟩
  show (Function.update p.replicas g r g').OfRows rows p.service.db.events
  rw [Function.update_apply]
  split
  · exact hr
  · exact h.replicas g'

/-- The table that `List` read is what the client starts from. -/
theorem Replica.ofRows_ofBody {body : Json} (h : (Replica.answered body).OfRows rows events) :
    (Replica.ofBody body).OfRows rows events := by
  obtain ⟨db, db', hdb, hdb', rfl, hall⟩ := h
  rw [ofBody, bootstrapFrom_response hdb hdb']
  refine ⟨fun key f hf => ?_, fun _ => trivial⟩
  obtain ⟨r, hr, rfl⟩ := Option.map_eq_some_iff.mp hf
  obtain ⟨hmem, hkey⟩ := hdb.table.findByKey_eq_some.mp hr
  exact ⟨r, hall r hmem, hkey, rfl⟩

/-- **Every step keeps the invariant.** -/
theorem PlaneInv.step (h : PlaneInv rows p) {a : PlaneAction} (hs : planeStep p a = some p') :
    PlaneInv rows p' := by
  cases a with
  | service a =>
      obtain ⟨s, hservice, rfl⟩ := Option.map_eq_some_iff.mp hs
      have hsub : ∀ e ∈ p.service.db.events, e ∈ s.db.events := by
        rcases serviceStep_db hservice with heq | ⟨b, hb⟩
        · rw [heq]
          exact fun _ he => he
        · exact fun e he => step_events hb he
      have hdb : DbInv s.db ∧ DbOfRows rows s.db :=
        serviceStep_preserves (I := fun db => DbInv db ∧ DbOfRows rows db)
          (fun h hs => ⟨h.1.step hs, h.2.step h.1 hs⟩) ⟨h.service.db, h.db⟩ hservice
      refine ⟨h.service.serviceStep hservice, hdb.2, fun env henv => ?_,
        fun g => (h.replicas g).mono hsub⟩
      rcases List.mem_append.mp henv with hold | hnew
      · exact (h.published env hold).mono hsub
      · exact (h.publishing (Option.mem_toList.mp hnew)).mono hsub
  | list g =>
      rw [planeStep] at hs
      split at hs
      · obtain rfl := Option.some.inj hs
        exact h.setReplica ⟨p.service.db, h.service.db, rfl, h.db.flags⟩
      · cases hs
  | version g =>
      rw [planeStep] at hs
      split at hs
      · rename_i flags hr
        obtain rfl := Option.some.inj hs
        have hlisted := h.replicas g
        rw [hr] at hlisted
        obtain ⟨db, hdb, rfl, hall⟩ := hlisted
        exact h.setReplica ⟨db, p.service.db, hdb, h.service.db, rfl, hall⟩
      · cases hs
  | load g =>
      rw [planeStep] at hs
      split at hs
      · rename_i body hr
        obtain rfl := Option.some.inj hs
        exact h.setReplica (Replica.ofRows_ofBody (hr ▸ h.replicas g))
      · cases hs
  | lose g =>
      rw [planeStep] at hs
      split at hs
      · obtain rfl := Option.some.inj hs
        exact h.setReplica trivial
      · obtain rfl := Option.some.inj hs
        exact h.setReplica trivial
      · cases hs
  | task g j a =>
      rw [planeStep] at hs
      split at hs
      · rename_i c tasks hr
        obtain ⟨⟨c', task'⟩, hstep, rfl⟩ := Option.map_eq_some_iff.mp hs
        have hrunning := h.replicas g
        rw [hr] at hrunning
        obtain ⟨hc', ht'⟩ :=
          taskStep_ofRows h.db.events h.published hrunning.1 (hrunning.2 j) hstep
        refine h.setReplica ⟨hc', fun j' => ?_⟩
        rw [Function.update_apply]
        split
        · exact ht'
        · exact hrunning.2 j'
      · cases hs

theorem Migrated.planeInv (h : Migrated rows) : PlaneInv rows (Plane.migrated rows) where
  service := h.serviceInv
  db := h.dbOfRows
  published env he := by cases he
  replicas _ := trivial

/-- A running client keeps running, and its version never decreases. -/
theorem planeStep_version {a : PlaneAction} (hs : planeStep p a = some p')
    {tasks : Nat → Task} (hc : p.replicas g = .running c tasks) :
    ∃ c' tasks', p'.replicas g = .running c' tasks' ∧ c.configVersion ≤ c'.configVersion := by
  have hother : ∀ {g'} (r : Replica), g ≠ g' →
      (p.setReplica g' r).replicas g = .running c tasks := by
    intro g' r hg
    show Function.update p.replicas g' r g = _
    rw [Function.update_of_ne hg, hc]
  cases a with
  | service a =>
      obtain ⟨s, -, rfl⟩ := Option.map_eq_some_iff.mp hs
      exact ⟨c, tasks, hc, le_refl _⟩
  | list g' | version g' | load g' | lose g' =>
      -- the client that moves is not running
      have hne : g ≠ g' := by
        rintro rfl
        rw [planeStep, hc] at hs
        cases hs
      rw [planeStep] at hs
      split at hs <;> first
        | (obtain rfl := Option.some.inj hs
           exact ⟨c, tasks, hother _ hne, le_refl _⟩)
        | cases hs
  | task g' j a =>
      rw [planeStep] at hs
      split at hs
      · rename_i c₀ tasks₀ hr
        obtain ⟨⟨c', task'⟩, hstep, rfl⟩ := Option.map_eq_some_iff.mp hs
        by_cases hg : g = g'
        · subst hg
          obtain ⟨rfl, rfl⟩ : c = c₀ ∧ tasks = tasks₀ := by simpa using hc.symm.trans hr
          exact ⟨c', Function.update tasks j task', Function.update_self ..,
            taskStep_version hstep⟩
        · exact ⟨c, tasks, hother _ hg, le_refl _⟩
      · cases hs

end Plane

/-- **Clients hold committed rows.** Whatever is lost, repeated or reordered between the service
and its clients, and in whatever order transactions commit against their versions: every flag a
client holds is a row that migration 002 left or that an event records, under the row's own key;
what a client enables for a user such a row enables; and no client's version ever decreases. -/
theorem replicas_hold_stood_rows {rows : List FlagRow} (hrows : Migrated rows)
    {as : List PlaneAction} {p : Plane} (hrun : exec planeStep (Plane.migrated rows) as = some p) :
    (∀ g c tasks, p.replicas g = .running c tasks →
        (∀ key f, c.flags key = some f →
          ∃ r, Stood rows p.service.db.events r ∧ r.key = key ∧ f = clientFlag r) ∧
        ∀ flagKey userID, c.isEnabled flagKey userID = true →
          ∃ r, Stood rows p.service.db.events r ∧ r.key = flagKey ∧ r.enabled = true ∧
            (userID ∈ r.targetedUsers ∨ inRollout flagKey userID r.rolloutPercentage = true)) ∧
      ∀ tr ∈ transitions planeStep (Plane.migrated rows) as,
        ∀ g c tasks, tr.pre.replicas g = .running c tasks →
          ∃ c' tasks', tr.post.replicas g = .running c' tasks' ∧
            c.configVersion ≤ c'.configVersion := by
  have hstep : ∀ {p a p'}, PlaneInv rows p → planeStep p a = some p' → PlaneInv rows p' :=
    fun h hs => h.step hs
  have hinv := exec_preserves hstep hrows.planeInv hrun
  constructor
  · intro g c tasks hc
    have hof := hinv.replicas g
    rw [hc] at hof
    exact ⟨hof.1, fun flagKey userID => hof.1.isEnabled⟩
  · intro tr htr g c tasks hc
    exact planeStep_version (step_of_mem_transitions htr) hc

/-- A client boots while two toggles of one flag are under way that commit against their versions;
it takes the frames in that order and reconciles on the gap. -/
def crossedWrites : List PlaneAction :=
  [.list 0, .version 0, .load 0].append
    (([.request 0 (.toggleFlag "u"), .request 1 (.toggleFlag "u"), .repo (.begin 0 1),
        .repo (.begin 1 2), .repo (.nextval 0), .repo (.nextval 1), .repo (.scan 0),
        .repo (.scan 1), .repo (.lock 1), .repo (.appendEvent 1), .repo (.commit 1), .respond 1,
        .repo (.lock 0), .repo (.appendEvent 0), .repo (.commit 0), .respond 0].map
      PlaneAction.service).append
    [.task 0 0 (.receive 0), .task 0 0 .take, .task 0 0 .readVersion, .task 0 1 (.receive 1),
      .task 0 0 .answer, .task 0 1 .take, .task 0 0 .applyPage])

theorem replicas_hold_stood_rows_crossedWrites :
    ∃ p c tasks r, exec planeStep (Plane.migrated [checkoutRow]) crossedWrites = some p ∧
      p.replicas 0 = .running c tasks ∧ c.configVersion = 2 ∧
      Stood [checkoutRow] p.service.db.events r ∧ r.key = "checkout" ∧
      c.flags "checkout" = some (clientFlag r) := by
  have hrun : ((exec planeStep (Plane.migrated [checkoutRow]) crossedWrites).bind fun p =>
      match p.replicas 0 with
      | .running c _ => (c.flags "checkout").map fun _ => c.configVersion
      | _ => none) = some 2 := by
    decide
  obtain ⟨p, hp, hrun⟩ := Option.bind_eq_some_iff.mp hrun
  split at hrun
  · rename_i c tasks hc
    obtain ⟨f, hf, hversion⟩ := Option.map_eq_some_iff.mp hrun
    obtain ⟨r, hr, hkey, rfl⟩ :=
      ((replicas_hold_stood_rows migrated_checkoutRow hp).1 0 c tasks hc).1 "checkout" f hf
    exact ⟨p, c, tasks, r, hp, hc, hversion, hr, hkey, hf⟩
  · cases hrun

end FlagPlane
