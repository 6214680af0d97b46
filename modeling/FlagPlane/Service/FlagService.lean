import FlagPlane.Repository.Preservation
import FlagPlane.Service.Requests
import FlagPlane.Sse.Wire

/-!
# FlagPlane.Service.FlagService

**`flag_service.go` over the repository.** A service call checks its request, may look the flag
up, makes one repository call and publishes what that call returned. Any number of service
calls run at once; their repository calls are the calls of the database machine, under the
same number.

`CallInv` is what a service call may rely on while its repository call runs. What it comes to is
`Recorded`: a flag the repository returns is the one some committed event records, unless
`UpdateFlag` had nothing to change and the row is still at version 0, or is still as a `Create`
left it whose description the column has cut.
-/

namespace FlagPlane

/-- A call of one of the four mutating methods. -/
inductive ServiceCall
  | createFlag (req : CreateFlagRequest)
  | updateFlag (id : String) (req : UpdateFlagRequest)
  | toggleFlag (id : String)
  | deleteFlag (id : String)
  deriving DecidableEq, Repr

namespace ServiceCall

/-- The checks of the request. -/
def check : ServiceCall → Option String
  | createFlag req => checkCreate req
  | updateFlag _ req => checkUpdate req
  | toggleFlag _ | deleteFlag _ => none

/-- The repository call that the service makes. -/
def op : ServiceCall → Op
  | createFlag req => .create (newFlag req)
  | updateFlag id req => .update id req
  | toggleFlag id => .toggle id
  | deleteFlag id => .delete id

end ServiceCall

/-- What a service call returns. -/
inductive ServiceResult
  /-- The flag, or `nil`. -/
  | flag (flag : Option Flag)
  | deleted
  /-- An error of the service itself. -/
  | invalid (text : String)
  /-- An error of the repository, as it is. -/
  | failed (err : RepoError)
  deriving DecidableEq, Repr

inductive ServiceStage
  /-- The request has passed its checks; `CreateFlag` and `DeleteFlag` look the flag up next. -/
  | checked
  /-- The repository call runs. `flagKey` is the key that `DeleteFlag` has read, `""` in the
  other methods. -/
  | calling (flagKey : String)
  | returned (r : ServiceResult)
  deriving DecidableEq, Repr

/-- The database and the service calls. -/
structure Service where
  db : Db
  calls : TxId → Option (ServiceCall × ServiceStage)

/-- What the service makes of the repository's result. -/
def RepoResult.response : RepoResult → ServiceResult
  | created f => .flag (some f)
  | flag f => .flag f
  | deleted _ => .deleted
  | error err => .failed err

/-- What the service publishes for the repository's result. -/
def RepoResult.envelope (flagKey : String) : RepoResult → Option Envelope
  | created f | flag (some f) => some (publishFlagUpdate f)
  | deleted version => some (publishFlagDelete flagKey version)
  | flag none | error _ => none

namespace Service

def setCall (s : Service) (t : TxId) (call : ServiceCall) (stage : ServiceStage) : Service :=
  { s with calls := Function.update s.calls t (some (call, stage)) }

/-- Make the repository call. -/
def issue (s : Service) (t : TxId) (call : ServiceCall) (flagKey : String) : Option Service :=
  (step s.db (.call t call.op)).map fun db =>
    { s with db := db }.setCall t call (.calling flagKey)

/-- What follows the checks of the request. -/
def accept (s : Service) (t : TxId) (call : ServiceCall) : Option Service :=
  match call with
  | .createFlag _ | .deleteFlag _ => some (s.setCall t call .checked)
  | .updateFlag _ _ | .toggleFlag _ => s.issue t call ""

end Service

inductive ServiceAction
  | request (t : TxId) (call : ServiceCall)
  /-- `CreateFlag`'s `GetByKey`, `DeleteFlag`'s `GetByID`. -/
  | lookup (t : TxId)
  /-- That query fails. -/
  | failLookup (t : TxId)
  /-- A statement of a repository call. -/
  | repo (a : Action)
  /-- The repository call has returned: publish and return. -/
  | respond (t : TxId)

/-- A statement of a call that has begun. -/
def Action.isCall : Action → Bool
  | call _ _ => true
  | _ => false

def serviceStep (s : Service) : ServiceAction → Option Service
  | .request t call =>
    match s.calls t with
    | some _ => none
    | none =>
      match call.check with
      | some text => some (s.setCall t call (.returned (.invalid text)))
      | none => s.accept t call
  | .lookup t =>
    match s.calls t with
    | some (.createFlag req, .checked) =>
      match getByKey s.db.flags req.key with
      | some _ => some (s.setCall t (.createFlag req) (.returned (.invalid "duplicate_key")))
      | none => s.issue t (.createFlag req) ""
    | some (.deleteFlag id, .checked) =>
      match getByID s.db.flags id with
      | none => some (s.setCall t (.deleteFlag id) (.returned (.invalid "flag not found")))
      | some flag => s.issue t (.deleteFlag id) flag.key
    | _ => none
  | .failLookup t =>
    match s.calls t with
    | some (call, .checked) => some (s.setCall t call (.returned (.failed .other)))
    | _ => none
  | .repo a => if a.isCall then none else (step s.db a).map fun db => { s with db := db }
  | .respond t =>
    match s.calls t, s.db.txs t with
    | some (call, .calling _), some ⟨_, .returned r⟩ =>
      some (s.setCall t call (.returned r.response))
    | _, _ => none

/-- The envelope that an action hands to `Publish`. -/
def Service.publishing (s : Service) : ServiceAction → Option Envelope
  | .respond t =>
    match s.calls t, s.db.txs t with
    | some (_, .calling flagKey), some ⟨_, .returned r⟩ => r.envelope flagKey
    | _, _ => none
  | _ => none

/-- The service right after migration 002. -/
def Service.migrated (rows : List FlagRow) : Service :=
  ⟨Db.migrated rows, fun _ => none⟩

/-! ### What a repository call returns -/

/-- What is committed when a repository call returns; `flagKey` is what `DeleteFlag` knows. -/
def Recorded (events : List FlagEvent) (op : Op) (flagKey : String) : RepoResult → Prop
  | .created flag => ∃ ev ∈ events, ev.Records flag
  | .flag (some flag) =>
    (∃ ev ∈ events, ev.Records flag) ∨
      (op.nothingToChange = true ∧ (flag.version = 0 ∨ ∃ ev ∈ events, ev.RecordsUncut flag))
  | .deleted v => ∃ ev ∈ events, ev.version = v ∧ ev.eventType = .deleted ∧ ev.flagKey = flagKey
  | .flag none | .error _ => True

/-- The row of `id` has the key `key`, as long as there is one. -/
structure KeyKnown (db : Db) (id key : String) : Prop where
  issued : id ∈ db.uuids
  key : ∀ r ∈ db.flags, r.id = id → r.key = key
  /-- Nobody is inserting a row of this id. -/
  inserts : ∀ t tx x row, db.txs t = some tx → tx.stage.write? = some (x, .insert row) → row.id ≠ id

/-- What a service call relies on while its repository call is at `st`. -/
structure CallInv (db : Db) (op : Op) (flagKey : String) (st : Stage) : Prop where
  known : ∀ id, op = .delete id → KeyKnown db id flagKey
  read : ∀ id key, op = .delete id → st.key? = some key → key = flagKey
  result : ∀ r, st = .returned r → Recorded db.events op flagKey r

section Repository

variable {db db' : Db} {a : Action} {t : TxId} {op : Op} {st : Stage} {id key flagKey : String}
  {c : Commit}

theorem Recorded.mono {events events' : List FlagEvent} {r : RepoResult}
    (h : Recorded events op flagKey r) (hsub : ∀ e ∈ events, e ∈ events') :
    Recorded events' op flagKey r := by
  have hmono : ∀ {P : FlagEvent → Prop}, (∃ ev ∈ events, P ev) → ∃ ev ∈ events', P ev :=
    fun ⟨ev, hev, hP⟩ => ⟨ev, hsub ev hev, hP⟩
  cases r with
  | created flag => exact hmono h
  | flag flag =>
      cases flag with
      | none => trivial
      | some flag => exact Or.imp hmono (And.imp_right (Or.imp_right hmono)) h
  | deleted v => exact hmono h
  | error err => trivial

/-- A row that is there makes its key known. -/
theorem DbInv.keyKnown (h : DbInv db) {row : FlagRow} (hrow : row ∈ db.flags) :
    KeyKnown db row.id row.key where
  issued := h.uuids row hrow
  key _ hr hid := congrArg FlagRow.key (h.table.eq_of_id hr hrow hid)
  inserts t tx x row' ht hw hid := by
    have hfits := ((h.tx t tx ht).write x _ hw).fits
    exact (hfits row hrow).1 hid.symm

/-- A key stays known. -/
theorem KeyKnown.step (h : DbInv db) (hk : KeyKnown db id key) (hs : step db a = some db') :
    KeyKnown db' id key := by
  -- a call that moves to a stage without an open `INSERT` of this id
  have hmove : ∀ {txs : TxId → Option Tx} {t : TxId} {op : Op} {st : Stage}, txs = db.txs →
      (∀ x row, st.write? = some (x, .insert row) → row.id ≠ id) →
      ∀ u tx x row, Function.update txs t (some ⟨op, st⟩) u = some tx →
        tx.stage.write? = some (x, .insert row) → row.id ≠ id := by
    rintro _ t op st rfl hst u tx x row hu hw
    rcases update_some_cases hu with ⟨-, rfl⟩ | ⟨-, hu⟩
    · exact hst x row hw
    · exact hk.inserts u tx x row hu hw
  have hnone : ∀ {st : Stage}, st.write? = none →
      ∀ x row, st.write? = some (x, .insert row) → row.id ≠ id := by
    intro st hnone x row hw
    rw [hnone] at hw
    cases hw
  cases step_effect hs with
  | call | select | draw | recheck | finish => exact ⟨hk.issued, hk.key, hmove rfl (hnone rfl)⟩
  | progress _ _ _ _ _ _ _ hw' => exact ⟨hk.issued, hk.key, hmove rfl (hnone hw')⟩
  | vanish | update | remove =>
      refine ⟨hk.issued, hk.key, hmove rfl fun x row hw => ?_⟩
      simp [Stage.write?] at hw
  | @insert t flag users uuid x ht husers hok huuid =>
      refine ⟨List.mem_append_left _ hk.issued, hk.key, hmove rfl fun x' row hw => ?_⟩
      obtain ⟨-, rfl⟩ : x = x' ∧ insertedRow flag users uuid x = row := by
        simpa [Stage.write?] using hw
      exact fun hid => huuid ((show uuid = id from hid) ▸ hk.issued)
  | @log t op x w ht =>
      refine ⟨hk.issued, hk.key, hmove rfl fun x' row hw => ?_⟩
      exact hk.inserts t _ x' row ht hw
  | @commit t c ht =>
      refine ⟨hk.issued, fun r hr hid => ?_, hmove rfl (hnone rfl)⟩
      rcases old_or_inserted (h.write_fits ht) hr with ⟨r', hr', hrid, hrkey⟩ | hw
      · exact hrkey ▸ hk.key r' hr' (hrid.trans hid)
      · refine absurd hid (hk.inserts t _ c.locals r ht ?_)
        rw [← hw]
        rfl

/-- **The flag that a commit returns is the one its event records.** -/
theorem DbInv.event_records (h : DbInv db)
    (ht : db.txs t = some ⟨c.op, .logged c.locals c.write c.event⟩) {flag : Flag}
    (hres : c.op.result c.locals c.write = .created flag ∨
      c.op.result c.locals c.write = .flag (some flag)) : c.event.Records flag := by
  have hevent := h.event_eq ht
  have hwrite := h.writeInv ht
  cases hw : c.write with
  | insert row =>
      rw [hw] at hwrite hevent hres
      obtain ⟨⟨_, _, _, hop, -⟩, -⟩ := hwrite
      obtain rfl : c.op.scanned row c.locals.version = flag := by simpa [Op.result] using hres
      rw [hevent, hop]
      exact ⟨rfl, by simp [Op.event], rfl, rfl⟩
  | update row =>
      obtain ⟨hv, -⟩ := hwrite.rowEvent (Or.inr hw)
      rw [hw] at hwrite hevent hres
      obtain ⟨_, -, -, hwhere, -⟩ := hwrite
      obtain rfl : c.op.scanned row c.locals.version = flag := by simpa [Op.result] using hres
      rw [hevent]
      refine ⟨?_, by simp [Op.event], rfl, rfl⟩
      cases hop : c.op with
      | create flag => simp [hop, Op.whereClause] at hwhere
      | update _ _ | toggle _ | delete _ => exact hv.symm
  | delete _ | nothing =>
      rw [hw] at hres
      simp [Op.result] at hres

/-- **What a commit returns is recorded.** -/
theorem DbInv.recorded_commit (h : DbInv db)
    (ht : db.txs t = some ⟨c.op, .logged c.locals c.write c.event⟩)
    (hkey : ∀ id, c.op = .delete id → c.locals.key = flagKey) :
    Recorded (db.committed t c).events c.op flagKey (c.op.result c.locals c.write) := by
  have hmem : c.event ∈ (db.committed t c).events :=
    List.mem_append_right _ (List.mem_singleton.mpr rfl)
  have hevent := h.event_eq ht
  have hwrite := h.writeInv ht
  have hrecords := @DbInv.event_records db t c h ht
  cases hw : c.write with
  | insert row =>
      rw [hw] at hrecords
      exact ⟨c.event, hmem, hrecords (Or.inl rfl)⟩
  | update row =>
      rw [hw] at hrecords
      exact Or.inl ⟨c.event, hmem, hrecords (Or.inr rfl)⟩
  | delete row =>
      rw [hw] at hwrite hevent
      obtain ⟨-, hop, -⟩ := hwrite
      exact ⟨c.event, hmem, h.event_version ht, by rw [hevent]; rfl,
        by rw [hevent]; exact hkey _ hop⟩
  | nothing =>
      rw [hw] at hwrite hevent
      obtain ⟨id, hop, -⟩ := hwrite
      exact ⟨c.event, hmem, h.event_version ht, by rw [hevent]; rfl,
        by rw [hevent]; exact hkey _ hop⟩

/-- A row read by `Update` with nothing to change is recorded, still at version 0, or recorded with
a longer description. -/
theorem DbInv.recorded_read (h : DbInv db) (hop : op.nothingToChange = true) (id : String) :
    Recorded db.events op flagKey (.flag (getByID db.flags id)) := by
  cases hrow : findById db.flags id with
  | none =>
      rw [getByID, hrow]
      trivial
  | some row =>
      rw [getByID, hrow]
      rcases h.rowEvent row (h.table.findById_eq_some.mp hrow).1 with hzero | ⟨e, he, hre⟩
      · exact Or.inr ⟨hop, Or.inl hzero⟩
      · rcases hre.records with hrec | hrec
        · exact Or.inl ⟨e, he, hrec⟩
        · exact Or.inr ⟨hop, Or.inr ⟨e, he, hrec⟩⟩

/-- **A repository call keeps what its service call relies on.** -/
theorem CallInv.step (h : DbInv db) (ht : db.txs t = some ⟨op, st⟩) (hc : CallInv db op flagKey st)
    (ha : a.isCall = false ∨ a.tx ≠ t) (hs : step db a = some db') :
    ∃ st', db'.txs t = some ⟨op, st'⟩ ∧ CallInv db' op flagKey st' := by
  have hknown : ∀ id, op = .delete id → KeyKnown db' id flagKey := fun id hop =>
    (hc.known id hop).step h hs
  by_cases hother : t = a.tx
  swap
  · rw [step_txs_of_ne hs hother]
    exact ⟨st, ht, hknown, hc.read, fun r hr => (hc.result r hr).mono fun e he => step_events hs he⟩
  subst hother
  -- the call moves to `st'`, which reads no new key and is no return
  have hmove : ∀ {txs : TxId → Option Tx} {op' : Op} {st₀ st' : Stage},
      db.txs a.tx = some ⟨op', st₀⟩ → db'.txs = Function.update txs a.tx (some ⟨op', st'⟩) →
      (∀ key, st'.key? = some key → st₀.key? = some key) →
      (∀ r, st' = .returned r → Recorded db'.events op' flagKey r) →
      ∃ st', db'.txs a.tx = some ⟨op, st'⟩ ∧ CallInv db' op flagKey st' := by
    intro txs op' st₀ st' ht' htxs hkey hret
    obtain ⟨rfl, rfl⟩ : op = op' ∧ st = st₀ := by simpa using ht.symm.trans ht'
    refine ⟨st', by rw [htxs, Function.update_self], hknown, fun id key hop hk => ?_, hret⟩
    exact hc.read id key hop (hkey key hk)
  cases step_effect hs with
  | call => simp [Action.isCall, Action.tx] at ha
  | progress ha' ht' _ hret' _ hk =>
      subst ha'
      exact hmove ht' rfl hk fun r hr => by rw [hr] at hret'; cases hret'
  | vanish ha' ht' hst =>
      subst ha'
      rcases hst with rfl | rfl <;> exact hmove ht' rfl (fun _ hk => hk) fun r hr => by cases hr
  | @select t id now row ht' hrow =>
      obtain ⟨rfl, rfl⟩ : op = .delete id ∧ st = .begun now := by simpa using ht.symm.trans ht'
      refine ⟨_, Function.update_self .., hknown, fun id' key hop hk => ?_, fun r hr => by cases hr⟩
      obtain rfl := Op.delete.inj hop
      obtain rfl := Option.some.inj hk
      obtain ⟨hmem, hid⟩ := h.table.findById_eq_some.mp hrow
      exact (hc.known id rfl).key row hmem hid
  | @draw t op' st₀ x ht' _ _ hkey =>
      obtain ⟨rfl, rfl⟩ : op = op' ∧ st = st₀ := by simpa using ht.symm.trans ht'
      refine ⟨_, Function.update_self .., hknown, fun id key hop hk => ?_, fun r hr => by cases hr⟩
      obtain rfl := Option.some.inj hk
      exact hc.read id _ hop (hkey (by rw [hop]; rfl))
  | insert ht' | update ht' | remove ht' | recheck ht' | log ht' =>
      exact hmove ht' rfl (fun _ hk => hk) fun r hr => by cases hr
  | @commit t c ht' =>
      obtain ⟨rfl, rfl⟩ : op = c.op ∧ st = .logged c.locals c.write c.event := by
        simpa using ht.symm.trans ht'
      refine ⟨_, Function.update_self .., hknown, fun id key _ hk => (by cases hk), fun r hr => ?_⟩
      obtain rfl := Stage.returned.inj hr
      exact h.recorded_commit ht' fun id hop => hc.read id _ hop rfl
  | @finish _ _ op' st₀ r ha' ht' _ hr =>
      subst ha'
      refine hmove ht' rfl (fun _ hk => by cases hk) fun r' hr' => ?_
      obtain rfl := Stage.returned.inj hr'
      rcases hr with hnone | ⟨hop, rfl⟩
      · cases r with
        | created f | deleted v => cases hnone
        | flag f =>
            cases f with
            | none => trivial
            | some f => cases hnone
        | error err => trivial
      · exact h.recorded_read hop _

end Repository

/-! ### The service -/

/-- The database is sound, and so is every call that is waiting for its repository call. -/
structure ServiceInv (s : Service) : Prop where
  db : DbInv s.db
  calls : ∀ t call flagKey, s.calls t = some (call, .calling flagKey) →
    ∃ st, s.db.txs t = some ⟨call.op, st⟩ ∧ CallInv s.db call.op flagKey st

section Service

variable {s s' : Service} {t : TxId} {call : ServiceCall} {stage : ServiceStage} {flagKey : String}

/-- A call that waits for no repository call. -/
theorem ServiceInv.setCall (h : ServiceInv s) (hstage : ∀ flagKey, stage ≠ .calling flagKey) :
    ServiceInv (s.setCall t call stage) := by
  refine ⟨h.db, fun u call' flagKey hu => ?_⟩
  rcases update_some_cases hu with ⟨-, heq⟩ | ⟨-, hu⟩
  · exact absurd (Prod.mk.inj heq).2.symm (hstage flagKey)
  · exact h.calls u call' flagKey hu

/-- The database moves by a statement of a call that has begun, or of one that no service call
waits for. -/
theorem ServiceInv.step (h : ServiceInv s) {a : Action} {db' : Db} (hs : step s.db a = some db')
    (ha : a.isCall = false ∨ s.db.txs a.tx = none) : ServiceInv { s with db := db' } := by
  refine ⟨h.db.step hs, fun t call flagKey ht => ?_⟩
  obtain ⟨st, htx, hc⟩ := h.calls t call flagKey ht
  refine hc.step h.db htx (ha.imp_right fun hnone htx' => ?_) hs
  rw [htx', htx] at hnone
  cases hnone

/-- A repository call begins. -/
theorem ServiceInv.issue (h : ServiceInv s)
    (hknown : ∀ id, call.op = .delete id → KeyKnown s.db id flagKey)
    (hs : s.issue t call flagKey = some s') : ServiceInv s' := by
  rw [Service.issue, Option.map_eq_some_iff] at hs
  obtain ⟨db', hdb, rfl⟩ := hs
  obtain ⟨hnone, rfl⟩ := step_call hdb
  have hnext := h.step hdb (Or.inr hnone)
  refine ⟨hnext.db, fun u call' flagKey' hu => ?_⟩
  rcases update_some_cases hu with ⟨rfl, heq⟩ | ⟨-, hu⟩
  · obtain ⟨rfl, hkey⟩ := Prod.mk.inj heq
    obtain rfl := ServiceStage.calling.inj hkey
    refine ⟨.called, Function.update_self .., fun id hop => (hknown id hop).step h.db hdb, ?_, ?_⟩
    · intro id key _ hk
      cases hk
    · intro r hr
      cases hr
  · exact hnext.calls u call' flagKey' hu

theorem ServiceInv.accept (h : ServiceInv s) (hs : s.accept t call = some s') : ServiceInv s' := by
  cases call with
  | createFlag req | deleteFlag id =>
      obtain rfl := Option.some.inj hs
      exact h.setCall fun _ => by simp
  | updateFlag id req | toggleFlag id => exact h.issue (fun _ hop => by cases hop) hs

/-- A flag that `GetByID` returns makes the key known. -/
theorem DbInv.keyKnown_of_getByID {db : Db} (h : DbInv db) {id : String} {flag : Flag}
    (hflag : getByID db.flags id = some flag) : KeyKnown db id flag.key := by
  obtain ⟨row, hrow, rfl⟩ := Option.map_eq_some_iff.mp hflag
  obtain ⟨hmem, rfl⟩ := h.table.findById_eq_some.mp hrow
  exact h.keyKnown hmem

/-- **Every action keeps the invariant.** -/
theorem ServiceInv.serviceStep (h : ServiceInv s) {a : ServiceAction}
    (hs : serviceStep s a = some s') : ServiceInv s' := by
  cases a with
  | request t call =>
      rw [FlagPlane.serviceStep] at hs
      split at hs
      · cases hs
      split at hs
      · obtain rfl := Option.some.inj hs
        exact h.setCall fun _ => by simp
      · exact h.accept hs
  | lookup t =>
      rw [FlagPlane.serviceStep] at hs
      split at hs
      · split at hs
        · obtain rfl := Option.some.inj hs
          exact h.setCall fun _ => by simp
        · exact h.issue (fun _ hop => by cases hop) hs
      · split at hs
        · obtain rfl := Option.some.inj hs
          exact h.setCall fun _ => by simp
        · rename_i id _ flag hflag
          refine h.issue (fun id' hop => ?_) hs
          obtain rfl := Op.delete.inj hop
          exact h.db.keyKnown_of_getByID hflag
      · cases hs
  | failLookup t =>
      rw [FlagPlane.serviceStep] at hs
      split at hs
      · obtain rfl := Option.some.inj hs
        exact h.setCall fun _ => by simp
      · cases hs
  | repo a =>
      rw [FlagPlane.serviceStep] at hs
      split at hs
      · cases hs
      · rename_i ha
        obtain ⟨db', hdb, rfl⟩ := Option.map_eq_some_iff.mp hs
        exact h.step hdb (Or.inl (by simpa using ha))
  | respond t =>
      rw [FlagPlane.serviceStep] at hs
      split at hs
      · obtain rfl := Option.some.inj hs
        exact h.setCall fun _ => by simp
      · cases hs

theorem Migrated.serviceInv {rows : List FlagRow} (h : Migrated rows) :
    ServiceInv (Service.migrated rows) :=
  ⟨h.dbInv, fun _ _ _ ht => by cases ht⟩

end Service

/-! ### What is published -/

/-- `UpdateFlag` publishes for a request that sets no field, and the flag it read is still at
version 0, as migration 002 left it. -/
def Service.PublishesUnversioned (s : Service) (a : ServiceAction) : Prop :=
  ∃ t id req flagKey flag, a = .respond t ∧
    s.calls t = some (.updateFlag id req, .calling flagKey) ∧ setClauses req = [] ∧
    s.db.txs t = some ⟨.update id req, .returned (.flag (some flag))⟩ ∧ flag.version = 0

section Published

variable {s : Service} {a : ServiceAction}

theorem ServiceCall.op_nothingToChange {call : ServiceCall} (h : call.op.nothingToChange = true) :
    ∃ id req, call = .updateFlag id req ∧ setClauses req = [] := by
  cases call with
  | updateFlag id req => exact ⟨id, req, rfl, List.isEmpty_iff.mp h⟩
  | createFlag _ | toggleFlag _ | deleteFlag _ => cases h

end Published

end FlagPlane
