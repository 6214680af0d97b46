import FlagPlane.Handler.Validation
import FlagPlane.Uuid

/-!
# FlagPlane.Handler.ConditionalPut

**`PUT` with an `If-Match` header.** The version in the header becomes a condition of the `UPDATE`.
It does so only if the header is an integer of 64 bits, and only if there is an `UPDATE`: a header
that `strconv.ParseInt` refuses is passed over, and so is every header when the body sets no field.
-/

namespace FlagPlane

/-! ### The header -/

/-- A decimal integer of any size: what `parseInt64` reads, without its bound. -/
def decimalInt (text : List Char) : Option Int :=
  let digits := if text.head? = some '-' ∨ text.head? = some '+' then text.tail else text
  let n : Int := Nat.ofDigitChars 10 digits 0
  if allDigits digits = true then some (if text.head? = some '-' then -n else n) else none

/-- The version that a header names: the integer between its quotes. -/
def namedVersion (header : String) : Option Int :=
  decimalInt (trimQuotes header.toList)

theorem parseInt64_eq_some {text : List Char} {v : Int} :
    parseInt64 text = some v ↔ decimalInt text = some v ∧ Json.InInt64 v := by
  unfold parseInt64 decimalInt
  dsimp only
  generalize (if text.head? = some '-' ∨ text.head? = some '+' then text.tail else text) = digits
  generalize (if text.head? = some '-' then -(Nat.ofDigitChars 10 digits 0 : Int)
    else (Nat.ofDigitChars 10 digits 0 : Int)) = n
  by_cases hdigits : allDigits digits = true
  · by_cases hn : Json.InInt64 n
    · rw [if_pos ⟨hdigits, hn⟩, if_pos hdigits]
      exact ⟨fun h => ⟨h, Option.some.inj h ▸ hn⟩, And.left⟩
    · rw [if_neg (fun h => hn h.2), if_pos hdigits]
      exact iff_of_false (by simp) fun h => hn (Option.some.inj h.1 ▸ h.2)
  · rw [if_neg (fun h => hdigits h.1), if_neg hdigits]
    simp

theorem ifMatchVersion_eq_some {header : String} {v : Int} :
    ifMatchVersion header = some v ↔ namedVersion header = some v ∧ Json.InInt64 v := by
  rw [namedVersion, ← parseInt64_eq_some]
  simp only [ifMatchVersion]
  split
  · rename_i hempty
    rw [hempty]
    exact iff_of_false (by simp) (by simp [parseInt64, allDigits])
  · rfl

/-! ### What a `PUT` answers from -/

/-- The row of `id`, in the statement at which call `t` reads or commits it. -/
def AnswersFrom (t : TxId) (id : String) (tr : Transition Db Action) (row : FlagRow) : Prop :=
  (tr.act = .readById t ∨ tr.act = .commit t) ∧ row ∈ tr.pre.flags ∧ row.id = id

/-- A call that returned a flag answered from a row. If it had something to change, the row was of
the version it expects, and the columns take what it set. -/
def Answered (trs : List (Transition Db Action)) (db : Db) : Prop :=
  ∀ t id req flag, db.txs t = some ⟨.update id req, .returned (.flag (some flag))⟩ →
    ∃ tr ∈ trs, ∃ row, AnswersFrom t id tr row ∧ (setClauses req ≠ [] →
      (∀ e, req.expectedVersion = some e → row.version = e) ∧ req.storable = true)

section Answered

variable {trs : List (Transition Db Action)} {db db' : Db} {a : Action} {t : TxId}

/-- An `UPDATE` that commits matched its `WHERE`. -/
theorem DbInv.update_matched (h : DbInv db) {c : Commit} {id : String} {req : UpdateFlagRequest}
    (ht : db.txs t = some ⟨c.op, .logged c.locals c.write c.event⟩) (hop : c.op = .update id req) :
    ∃ row ∈ db.flags, row.id = id ∧
      (∀ e, req.expectedVersion = some e → row.version = e) ∧ req.storable = true := by
  have hwrite := h.writeInv ht
  rw [hop] at hwrite
  cases hw : c.write with
  | insert row =>
      rw [hw] at hwrite
      obtain ⟨⟨flag, users, uuid, hcreate, -⟩, -⟩ := hwrite
      cases hcreate
  | update row =>
      rw [hw] at hwrite
      obtain ⟨r, hr, -, hwhere, rfl, hok, -⟩ := hwrite
      rw [postImage_update] at hok
      refine ⟨r, hr, Op.whereClause_id hwhere, fun e he => ?_, storable_of_applyTo hok⟩
      rw [Op.whereClause, he, Bool.and_eq_true] at hwhere
      exact of_decide_eq_true hwhere.2
  | delete row =>
      rw [hw] at hwrite
      cases hwrite.2.1
  | nothing =>
      rw [hw] at hwrite
      obtain ⟨_, hdelete, -⟩ := hwrite
      cases hdelete

theorem Answered.step (h : Answered trs db) (hinv : DbInv db) (hs : step db a = some db') :
    Answered (trs ++ [⟨db, a, db'⟩]) db' := by
  intro t id req flag ht
  rcases step_returns hs ht with hold | hreturns
  · obtain ⟨tr, htr, hanswer⟩ := h t id req flag hold
    exact ⟨tr, List.mem_append_left _ htr, hanswer⟩
  · refine ⟨⟨db, a, db'⟩, List.mem_append_right _ (List.mem_singleton_self _), ?_⟩
    generalize hop : Op.update id req = op at hreturns
    generalize hr : RepoResult.flag (some flag) = r at hreturns
    cases hreturns with
    | read hnothing =>
        subst hop
        obtain ⟨row, hrow, -⟩ := Option.map_eq_some_iff.mp (RepoResult.flag.inj hr).symm
        obtain ⟨hmem, hid⟩ := hinv.table.findById_eq_some.mp hrow
        refine ⟨row, ⟨Or.inl rfl, hmem, hid⟩, fun hset => absurd hnothing ?_⟩
        simpa [Op.nothingToChange] using hset
    | commit htx =>
        obtain ⟨row, hmem, hid, hversion⟩ := hinv.update_matched htx hop.symm
        exact ⟨row, ⟨Or.inr rfl, hmem, hid⟩, fun _ => hversion⟩
    | noRow =>
        unfold Db.noRowResult at hr
        split at hr
        · split at hr <;> cases hr
        · cases hr
    | gone | nilUsers | refused | duplicate | eventTaken | fail => cases hr

/-- Every action of the service keeps what a call answered from. -/
theorem Answered.serviceStep {trs : List (Transition Service ServiceAction)} {s s' : Service}
    {a : ServiceAction} (h : Answered (statements trs) s.db) (hinv : ServiceInv s)
    (hs : serviceStep s a = some s') : Answered (statements (trs ++ [⟨s, a, s'⟩])) s'.db := by
  cases serviceStep_effect hs with
  | repo _ hdb =>
      rw [statements_append_repo]
      exact h.step hinv.db hdb
  | @issue a t call flagKey ha htx =>
      rw [statements_append_issue ha]
      intro u id req flag hu
      rcases update_some_cases hu with ⟨-, heq⟩ | ⟨-, hu⟩
      · cases congrArg Tx.stage heq
      · exact h u id req flag hu
  | _ =>
      rw [statements_append_other (by simp)]
      exact h

end Answered

/-! ### Conditional requests -/

/-- The answer `resp` to call `t`: a 200 was answered from a row of the version that the header
names; anything else is an error, and no statement of the call changed a table. -/
def ConditionalAnswer (trs : List (Transition Db Action)) (t : TxId) (id header : String)
    (resp : HttpResponse) : Prop :=
  (resp.status = 200 →
    ∃ tr ∈ trs, ∃ row, AnswersFrom t id tr row ∧ namedVersion header = some row.version) ∧
  (resp.status ≠ 200 → 400 ≤ resp.status ∧
    ∀ tr ∈ trs, tr.act.tx = t → tr.post.flags = tr.pre.flags ∧ tr.post.events = tr.pre.events)

/-- The id that the text in a route stands for: the UUID, in the form in which the column prints it.
A text that is no UUID is left as it is. It is the id of no row, and the statement that has it for a
parameter fails. -/
def routeId (text : String) : String := (readUuid text).getD text

/-- Every id that the database has given out is a UUID. -/
def Db.UuidIds (db : Db) : Prop := ∀ id ∈ db.uuids, readUuid id = some id

/-- **A `PUT` of `header` and `body` is conditional**, with any text for the id, in every run in which
its call is made, as `t`, and has been answered. A body that does not decode makes no call. -/
def PutConditional (text header : String) (body : Option Json) : Prop :=
  ∀ req, updateFlagRequest header body = some req → ∀ rows, Migrated rows → ∀ as s,
    exec serviceStep (Service.migrated rows) as = some s → s.db.UuidIds → ∀ t r,
    s.outcome? t = some (.updateFlag (routeId text) req, r) → ∀ driver,
    ∃ resp, updateFlagResponse driver r = some resp ∧
      ConditionalAnswer (statements (transitions serviceStep (Service.migrated rows) as)) t
        (routeId text) header resp

/-- A request that passes its check sets a field, and the header is an integer of 64 bits unless the
columns refuse a text of the request. -/
def PutGuarded (header : String) (body : Option Json) : Prop :=
  ∀ req, updateFlagRequest header body = some req → checkUpdate req = none →
    setClauses req ≠ [] ∧ (req.storable = true → (ifMatchVersion header).isSome)

section Responses

variable {r : ServiceResult}

/-- Whatever is no flag is answered as an error. -/
theorem updateFlagResponse_error (hflag : ∀ flag, r ≠ .flag (some flag)) (hdel : r ≠ .deleted)
    (driver : String) :
    ∃ resp, updateFlagResponse driver r = some resp ∧ resp.status ≠ 200 ∧ 400 ≤ resp.status := by
  have herror : ∀ text,
      (updateFlagError text).status ≠ 200 ∧ 400 ≤ (updateFlagError text).status := by
    intro text
    rw [updateFlagError]
    split <;> simp [writeError]
  cases r with
  | flag flag =>
      cases flag with
      | none => exact ⟨_, rfl, by decide, by decide⟩
      | some flag => exact absurd rfl (hflag flag)
  | deleted => exact absurd rfl hdel
  | invalid text => exact ⟨_, rfl, herror text⟩
  | failed err =>
      cases err with
      | versionConflict => exact ⟨_, rfl, by decide, by decide⟩
      | flagNotFound | uniqueViolation | constraintViolation | other => exact ⟨_, rfl, herror _⟩

end Responses

section Runs

variable {id text header : String} {body : Option Json} {req : UpdateFlagRequest}

theorem routeId_of_uuid (h : readUuid text = some id) : routeId text = id := by
  rw [routeId, h]
  rfl

theorem expectedVersion_eq (h : updateFlagRequest header body = some req) :
    req.expectedVersion = ifMatchVersion header := by
  obtain ⟨req', -, rfl⟩ := Option.map_eq_some_iff.mp h
  rfl

/-- A `PUT` on its own. -/
def putRun (id : String) (req : UpdateFlagRequest) : List ServiceAction :=
  [.request 0 (.updateFlag id req), .repo (.begin 0 1), .repo (.nextval 0), .repo (.scan 0),
    .repo (.lock 0), .repo (.appendEvent 0), .repo (.commit 0)]

/-- Without a version to expect, it succeeds. -/
theorem exec_putRun (id : String) (hcheck : checkUpdate req = none) (hset : setClauses req ≠ [])
    (he : req.expectedVersion = none) (hstorable : req.storable = true) :
    ∃ s flag, exec serviceStep (Service.migrated [rowOf id]) (putRun id req) = some s ∧
      s.db.uuids = [id] ∧ s.outcome? 0 = some (.updateFlag id req, .flag (some flag)) := by
  have hempty : (setClauses req).isEmpty = false := by simpa using hset
  have hwhere : (Op.update id req).whereClause (rowOf id) = true := by
    simp [Op.whereClause, he, rowOf]
  have hid : (rowOf id).id = id := rfl
  have hok : ((Op.update id req).postImage ⟨1, "", 1⟩ (rowOf id)).columnsOk = true := by
    rw [postImage_update]
    exact (applyTo_columnsOk hcheck _ ((migrated_rowOf id).columns _ (by simp))).mpr hstorable
  simp [putRun, exec, serviceStep, step, Service.migrated, Db.migrated, ServiceCall.check, hcheck,
    Service.accept, Service.issue, Service.setCall, Db.setStage, Op.nothingToChange, hempty,
    Action.isCall, ServiceCall.op, Op.isDelete, Op.isCreate, Db.nextVersion, maxVersion, hwhere,
    Op.flagId, findById, hid, Db.writeRow, hok, Db.takeLocks, Db.takeRowLock, Db.finish,
    Db.release, Service.outcome?, Op.result, RepoResult.response]

/-- A `PUT` that sets no field. -/
def touchRun (id : String) (req : UpdateFlagRequest) : List ServiceAction :=
  [.request 0 (.updateFlag id req), .repo (.readById 0)]

/-- It succeeds, from a row at version 0. -/
theorem exec_touchRun (id : String) (hcheck : checkUpdate req = none) (hset : setClauses req = []) :
    ∃ s flag, exec serviceStep (Service.migrated [rowOf id]) (touchRun id req) = some s ∧
      s.db.uuids = [id] ∧ s.outcome? 0 = some (.updateFlag id req, .flag (some flag)) ∧
      ∀ tr ∈ statements (transitions serviceStep (Service.migrated [rowOf id]) (touchRun id req)),
        ∀ row, AnswersFrom 0 id tr row → row.version = 0 := by
  have hid : (rowOf id).id = id := rfl
  have hv : (rowOf id).version = 0 := rfl
  simp [touchRun, AnswersFrom, exec, transitions, statements, serviceStep, step, Service.migrated,
    Db.migrated, ServiceCall.check, hcheck, Service.accept, Service.issue, Service.setCall,
    Db.setStage, Op.nothingToChange, hset, Action.isCall, ServiceCall.op, Op.flagId, getByID,
    findById, hid, Db.finish, Db.release, Service.outcome?, RepoResult.response, hv]

/-- A toggle, then a `PUT` that sets no field. -/
def toggleTouchRun (id : String) (req : UpdateFlagRequest) : List ServiceAction :=
  [.request 1 (.toggleFlag id), .repo (.begin 1 1), .repo (.nextval 1), .repo (.scan 1),
    .repo (.lock 1), .repo (.appendEvent 1), .repo (.commit 1)] ++ touchRun id req

/-- It succeeds, from a row at version 1. -/
theorem exec_toggleTouchRun (id : String) (hcheck : checkUpdate req = none)
    (hset : setClauses req = []) :
    ∃ s flag, exec serviceStep (Service.migrated [rowOf id]) (toggleTouchRun id req) = some s ∧
      s.db.uuids = [id] ∧ s.outcome? 0 = some (.updateFlag id req, .flag (some flag)) ∧
      ∀ tr ∈ statements
          (transitions serviceStep (Service.migrated [rowOf id]) (toggleTouchRun id req)),
        ∀ row, AnswersFrom 0 id tr row → row.version = 1 := by
  have hid : (rowOf id).id = id := rfl
  have hok : ((Op.toggle id).postImage ⟨1, "", 1⟩ (rowOf id)).columnsOk = true :=
    (migrated_rowOf id).columns (rowOf id) (by simp)
  have hv : ((Op.toggle id).postImage ⟨1, "", 1⟩ (rowOf id)).version = 1 := rfl
  simp [toggleTouchRun, touchRun, AnswersFrom, exec, transitions, statements, serviceStep, step,
    Service.migrated, Db.migrated, ServiceCall.check, hcheck, Service.accept, Service.issue,
    Service.setCall, Db.setStage, Op.nothingToChange, hset, Action.isCall, ServiceCall.op,
    Op.flagId, getByID, findById, hid, Db.finish, Db.release, Op.isDelete, Op.isCreate,
    Db.nextVersion, maxVersion, Op.whereClause, Db.writeRow, hok, hv, Service.outcome?,
    RepoResult.response, applyWrite, Db.takeLocks, Db.takeRowLock]

/-- An answer that is no flag. -/
theorem ServiceAccount.conditionalAnswer {s₀ s : Service} {as : List ServiceAction} {t : TxId}
    (h : ServiceAccount (transitions serviceStep s₀ as) s) {call : ServiceCall} {r : ServiceResult}
    (hr : s.outcome? t = some (call, r)) (hflag : ∀ flag, r ≠ .flag (some flag))
    (hdel : r ≠ .deleted) (driver : String) :
    ∃ resp, updateFlagResponse driver r = some resp ∧
      ConditionalAnswer (statements (transitions serviceStep s₀ as)) t id header resp := by
  obtain ⟨resp, hresp, hne, hle⟩ := updateFlagResponse_error hflag hdel driver
  exact ⟨resp, hresp, fun h200 => absurd h200 hne,
    fun _ => ⟨hle, fun tr htr ht => statements_unchanged (h.committedBy_nil hr hflag hdel) htr ht⟩⟩

/-- What `Answered` says of a run of the service. -/
theorem answered_of_exec {rows : List FlagRow} (hrows : Migrated rows) {as : List ServiceAction}
    {s : Service} (hrun : exec serviceStep (Service.migrated rows) as = some s) :
    Answered (statements (transitions serviceStep (Service.migrated rows) as)) s.db := by
  have h := exec_history
    (P := fun trs s => ServiceInv s ∧ Answered (statements trs) s.db)
    (fun h hs => ⟨h.1.serviceStep hs, h.2.serviceStep h.1 hs⟩)
    ⟨hrows.serviceInv, fun t id req flag h => by cases h⟩ hrun
  exact h.2

/-- The ids of the rows that a run meets are among those given out by its end. -/
theorem mem_uuids_of_statement {rows : List FlagRow} (hrows : Migrated rows)
    {as : List ServiceAction} {s : Service}
    (hrun : exec serviceStep (Service.migrated rows) as = some s) {tr : Transition Db Action}
    (htr : tr ∈ statements (transitions serviceStep (Service.migrated rows) as)) {row : FlagRow}
    (hrow : row ∈ tr.pre.flags) : row.id ∈ s.db.uuids := by
  obtain ⟨tr', htr', -, hpre, -⟩ := mem_statements.mp htr
  have hinv := transitions_preserves (fun h hs => ServiceInv.serviceStep h hs) hrows.serviceInv htr'
  have hgiven : row.id ∈ tr'.pre.db.uuids := hinv.1.db.uuids row (hpre ▸ hrow)
  obtain ⟨bs, hrest⟩ := exec_of_mem_transitions htr' hrun
  exact exec_preserves (I := fun s => row.id ∈ s.db.uuids) (fun h hs => serviceStep_uuids hs h)
    (serviceStep_uuids (step_of_mem_transitions htr') hgiven) hrest

/-- **The guard is enough**, and so is an id that is no UUID. -/
theorem PutGuarded.conditional (h : (readUuid text).isSome → PutGuarded header body) :
    PutConditional text header body := by
  intro req hreq rows hrows as s hrun huuids t r hr driver
  have hacc := ServiceAccount.of_exec hrows hrun
  have hreach : s.Reachable := ⟨rows, as, hrows, hrun⟩
  rcases hacc.linked.outcome hr with ⟨r', htx, rfl⟩ | ⟨-, hown⟩
  · have hfit := hreach.resultsFit t _ _ htx
    cases r' with
    | created flag | deleted v => cases hfit
    | error err =>
        exact hacc.conditionalAnswer hr (by simp [RepoResult.response])
          (by simp [RepoResult.response]) driver
    | flag flag =>
        cases flag with
        | none =>
            exact hacc.conditionalAnswer hr (by simp [RepoResult.response])
              (by simp [RepoResult.response]) driver
        | some flag =>
            refine ⟨_, rfl, fun _ => ?_, fun hne => absurd rfl hne⟩
            obtain ⟨tr, htr, row, hfrom, hset⟩ :=
              answered_of_exec hrows hrun t (routeId text) req flag htx
            -- there is a row, so its id is a UUID
            have huuid : (readUuid text).isSome := by
              by_contra hnone
              have hread := huuids row.id (mem_uuids_of_statement hrows hrun htr hfrom.2.1)
              rw [hfrom.2.2, routeId, Option.not_isSome_iff_eq_none.mp hnone, Option.getD_none,
                Option.not_isSome_iff_eq_none.mp hnone] at hread
              cases hread
            refine ⟨tr, htr, row, hfrom, ?_⟩
            have hcheck : checkUpdate req = none := by
              rw [Option.eq_none_iff_forall_ne_some]
              intro text htext
              obtain ⟨hinvalid, -⟩ := hreach.linked.outcome_refused hr htext
              cases hinvalid
            obtain ⟨hne, hnamed⟩ := h huuid req hreq hcheck
            obtain ⟨hversion, hstorable⟩ := hset hne
            obtain ⟨v, hv⟩ := Option.isSome_iff_exists.mp (hnamed hstorable)
            rw [hversion v ((expectedVersion_eq hreq).trans hv)]
            exact (ifMatchVersion_eq_some.mp hv).1
  · cases hown with
    | refused | failLookup => exact hacc.conditionalAnswer hr (by simp) (by simp) driver

/-- A `PUT` that succeeds and is conditional names the version of the row it answered from. -/
theorem PutConditional.named (h : PutConditional text header body)
    (hid : readUuid text = some id) (hreq : updateFlagRequest header body = some req)
    {rows : List FlagRow} (hrows : Migrated rows) {as : List ServiceAction} {s : Service} {t : TxId}
    {flag : Flag} (hrun : exec serviceStep (Service.migrated rows) as = some s)
    (huuids : s.db.uuids = [id])
    (hr : s.outcome? t = some (.updateFlag id req, .flag (some flag))) :
    ∃ tr ∈ statements (transitions serviceStep (Service.migrated rows) as),
      ∃ row, AnswersFrom t id tr row ∧ namedVersion header = some row.version := by
  have hids : s.db.UuidIds := by
    intro id' hid'
    rw [huuids, List.mem_singleton] at hid'
    rw [hid', readUuid_idem hid]
  have hroute := routeId_of_uuid hid
  obtain ⟨resp, hresp, hok, -⟩ := h req hreq rows hrows as s hrun hids t _ (hroute ▸ hr) ""
  obtain rfl : writeFlag 200 flag = resp := Option.some.inj hresp
  exact hroute ▸ hok rfl

/-- **The guard is needed** where the id is a UUID. -/
theorem PutConditional.guarded (h : PutConditional text header body)
    (hid : readUuid text = some id) : PutGuarded header body := by
  intro req hreq hcheck
  have hset : setClauses req ≠ [] := by
    intro hset
    -- the same request succeeds on a row at version 0 and on a row at version 1
    obtain ⟨s, flag, hrun, huuids, hr, hrow⟩ := exec_touchRun id hcheck hset
    obtain ⟨tr, htr, row, hfrom, hzero⟩ := h.named hid hreq (migrated_rowOf id) hrun huuids hr
    rw [hrow tr htr row hfrom] at hzero
    obtain ⟨s', flag', hrun', huuids', hr', hrow'⟩ := exec_toggleTouchRun id hcheck hset
    obtain ⟨tr', htr', row', hfrom', hone⟩ :=
      h.named hid hreq (migrated_rowOf id) hrun' huuids' hr'
    rw [hrow' tr' htr' row' hfrom', hzero] at hone
    exact absurd (Option.some.inj hone) (by decide)
  refine ⟨hset, fun hstorable => ?_⟩
  cases hv : ifMatchVersion header with
  | some v => rfl
  | none =>
      obtain ⟨s, flag, hrun, huuids, hr⟩ := exec_putRun id hcheck hset
        ((expectedVersion_eq hreq).trans hv) hstorable
      obtain ⟨tr, htr, row, ⟨-, hrow, -⟩, hnamed⟩ :=
        h.named hid hreq (migrated_rowOf id) hrun huuids hr
      obtain ⟨tr', htr', -, hpre, -⟩ := mem_statements.mp htr
      have hinv := transitions_preserves (fun h hs => ServiceInv.serviceStep h hs)
        (migrated_rowOf id).serviceInv htr'
      rw [← hpre] at hrow
      rw [ifMatchVersion_eq_some.mpr ⟨hnamed, hinv.1.db.version_inInt64 hrow⟩] at hv
      cases hv

/-- **Conditional `PUT`s.** Whatever its header and body, a `PUT` is conditional exactly when, unless
its id is no UUID or the check refuses it, it sets a field, and its header is an integer of 64 bits
between quotes or it sets a text that the columns refuse. -/
theorem put_conditional_iff (text header : String) (body : Option Json) :
    PutConditional text header body ↔ ((readUuid text).isSome → PutGuarded header body) := by
  refine ⟨fun h hsome => ?_, PutGuarded.conditional⟩
  obtain ⟨id, hid⟩ := Option.isSome_iff_exists.mp hsome
  exact h.guarded hid

/-- The weak form of a version, and an update of one field: the header is passed over and the row
changes. -/
theorem weakHeader_unconditional :
    ¬ PutConditional "6ba7b810-9dad-11d1-80b4-00c04fd430c8" "W/\"7\""
      (some (.obj [("enabled", .bool true)])) := by
  intro h
  obtain ⟨-, hsome⟩ := (h.guarded rfl) ⟨none, some true, none, none, none⟩ (by decide) (by decide)
  exact absurd (hsome (by decide)) (by decide)

/-- A header that names the row's version, and no field: 200 whatever the version of the row. -/
example : ¬ PutConditional "6ba7b810-9dad-11d1-80b4-00c04fd430c8" "\"7\"" (some (.obj [])) := by
  intro h
  exact (h.guarded rfl ⟨none, none, none, none, some 7⟩ (by decide) (by decide)).1 (by decide)

end Runs

end FlagPlane
