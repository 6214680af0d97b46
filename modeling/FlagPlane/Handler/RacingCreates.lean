import FlagPlane.Handler.Validation

/-!
# FlagPlane.Handler.RacingCreates

**Creates of one key at once.** A `CreateFlag` loses against a committed row of its key at one of
two statements: at the lookup, or at the `INSERT` when the row was committed in between. The lookup
is answered with the service's own text, which the handler knows. The `INSERT` is answered with
Postgres's text, in which the handler finds nothing it knows.
-/

namespace FlagPlane

/-! ### `EnsureFlag` -/

/-- How `EnsureFlag` goes on after the answer to its `POST`. -/
inductive EnsureFlag
  /-- It has the id. -/
  | created
  /-- It looks the flag up. -/
  | flagByKey
  /-- It returns an error. -/
  | failed (status : Nat)
  deriving DecidableEq, Repr

def ensureFlag (resp : HttpResponse) : EnsureFlag :=
  if resp.status = 201 then .created
  else if resp.status ≠ 409 then .failed resp.status
  else .flagByKey

/-! ### Winners and losers -/

/-- The `INSERT` of call `t` was committed. -/
def Inserted (trs : List (Transition Db Action)) (t : TxId) : Prop :=
  ∃ tr ∈ trs, ∃ c row, tr.act.tx = t ∧ tr.pre.committing tr.act = some c ∧ c.write = .insert row

/-- Call `t` handed an envelope to `Publish`. -/
def Published (trs : List (Transition Service ServiceAction)) (t : TxId) : Prop :=
  ∃ tr ∈ trs, tr.act = .respond t ∧ (tr.pre.publishing tr.act).isSome

/-- The lookup of call `t` finds a row of its key. -/
def Service.LosesLookup (s : Service) (a : ServiceAction) (t : TxId) (req : CreateFlagRequest) :
    Prop :=
  a = .lookup t ∧ s.calls t = some (.createFlag req, .checked) ∧
    (findByKey s.db.flags req.key).isSome

/-- The `INSERT` of call `t`, of a row that the columns take, meets a row of its key. -/
def Service.LosesInsert (s : Service) (a : ServiceAction) (t : TxId) (req : CreateFlagRequest) :
    Prop :=
  (∃ uuid, a = .repo (.insert t uuid)) ∧
    (∃ flagKey, s.calls t = some (.createFlag req, .calling flagKey)) ∧
    req.storable = true ∧ (findByKey s.db.flags req.key).isSome

/-- What a losing call is to be answered. -/
def duplicateKeyResponse : HttpResponse :=
  writeError 409 "duplicate_key" "A flag with this key already exists"

/-- **The races of a run are settled**, in the state `s` it ends in: no two rows ever had one key;
the calls that were answered 201, the calls that published and the calls that inserted their row are
the same; and a call that found its key taken changed no table and is answered 409, upon which
`EnsureFlag` looks the flag up. -/
structure RacesSettled (trs : List (Transition Service ServiceAction)) (s : Service) : Prop where
  oneRow : ∀ tr ∈ trs, (tr.post.db.flags.map FlagRow.key).Nodup
  winners : ∀ t req r, s.calls t = some (.createFlag req, .returned r) → ∀ driver,
    ((createFlagResponse driver r).map HttpResponse.status = some 201 ↔
      Inserted (statements trs) t) ∧ (Published trs t ↔ Inserted (statements trs) t)
  losers : ∀ tr ∈ trs, ∀ t req,
    tr.pre.LosesLookup tr.act t req ∨ tr.pre.LosesInsert tr.act t req →
    (∀ tr ∈ statements trs, tr.act.tx = t →
      tr.post.flags = tr.pre.flags ∧ tr.post.events = tr.pre.events) ∧
    ∃ r, s.outcome? t = some (.createFlag req, r) ∧
      ∀ driver, createFlagResponse driver r = some duplicateKeyResponse

/-! ### Answers -/

/-- Only a flag is answered 201. -/
theorem createFlagResponse_created {driver : String} {r : ServiceResult} :
    (createFlagResponse driver r).map HttpResponse.status = some 201 ↔
      ∃ flag, r = .flag (some flag) := by
  have herror : ∀ text, (createFlagError text).status ≠ 201 := by
    intro text
    rw [createFlagError]
    split
    · simp [writeError]
    · split <;> simp [writeError]
  cases r with
  | flag flag =>
      cases flag with
      | none => simp [createFlagResponse, ServiceResult.error?]
      | some flag => simp [createFlagResponse, writeFlag]
  | deleted => simp [createFlagResponse, ServiceResult.error?]
  | invalid text => simp [createFlagResponse, ServiceResult.error?, herror]
  | failed err => simp [createFlagResponse, ServiceResult.error?, herror]

theorem createFlagResponse_duplicate (driver : String) :
    createFlagResponse driver (.invalid "duplicate_key") = some duplicateKeyResponse := by
  have htext : containsText "duplicate_key" "duplicate_key" = true := by decide
  simp [createFlagResponse, ServiceResult.error?, createFlagError, htext, duplicateKeyResponse]

/-- Postgres's text for a taken key holds nothing that the handler looks for. -/
theorem createFlagResponse_uniqueViolation (driver : String) :
    createFlagResponse driver (.failed .uniqueViolation) =
      some (writeError 500 "internal_error" "Failed to create flag") := by
  have htext : createFlagError (RepoError.uniqueViolation.text driver) =
      writeError 500 "internal_error" "Failed to create flag" := by
    rw [RepoError.text, createFlagError]
    rw [if_neg (by decide +kernel), if_neg (by decide +kernel)]
  simp only [createFlagResponse, ServiceResult.error?, Option.map_some, htext]

/-! ### Who publishes -/

/-- The results for which the service publishes. -/
def ServiceResult.succeeded : ServiceResult → Bool
  | flag (some _) | deleted => true
  | _ => false

/-- Call `t` has returned such a result. -/
def Service.Succeeded (s : Service) (t : TxId) : Prop :=
  ∃ call r, s.calls t = some (call, .returned r) ∧ r.succeeded = true

section Published

variable {s s' : Service} {a : ServiceAction} {t u : TxId} {call : ServiceCall}
  {trs : List (Transition Service ServiceAction)}

theorem published_append : Published (trs ++ [⟨s, a, s'⟩]) t ↔
    Published trs t ∨ (a = .respond t ∧ (s.publishing a).isSome) := by
  simp [Published, or_and_right, exists_or]

theorem response_succeeded (flagKey : String) (r : RepoResult) :
    r.response.succeeded = (r.envelope flagKey).isSome := by
  cases r with
  | created f | deleted v | error err => rfl
  | flag f => cases f <;> rfl

theorem not_succeeded {stage : ServiceStage} (hcall : s.calls t = some (call, stage))
    (hstage : ∀ r, stage = .returned r → r.succeeded = false) : ¬ s.Succeeded t := by
  intro h
  obtain ⟨call', r, hcall', hr⟩ := h
  obtain ⟨-, rfl⟩ : call = call' ∧ stage = .returned r := by simpa using hcall.symm.trans hcall'
  rw [hstage r rfl] at hr
  cases hr

/-- A call that moves without success. -/
theorem succeeded_setCall {stage : ServiceStage} (hu : ¬ s.Succeeded u)
    (hstage : ∀ r, stage = .returned r → r.succeeded = false) :
    (s.setCall u call stage).Succeeded t ↔ s.Succeeded t := by
  by_cases htu : t = u
  · subst htu
    exact iff_of_false (not_succeeded (Service.setCall_calls_self s t call stage) hstage) hu
  · rw [Service.Succeeded, Service.setCall_calls_of_ne s call stage htu, Service.Succeeded]

/-- **A call has published once it has succeeded, and only then.** -/
theorem published_step (h : ∀ t, Published trs t ↔ s.Succeeded t)
    (hs : serviceStep s a = some s') (t : TxId) :
    Published (trs ++ [⟨s, a, s'⟩]) t ↔ s'.Succeeded t := by
  rw [published_append, h]
  have hnone : ∀ {u}, s.calls u = none → ¬ s.Succeeded u := by
    intro u hu hsucc
    obtain ⟨call, r, hcall, -⟩ := hsucc
    rw [hu] at hcall
    cases hcall
  have hchecked : ∀ {u call}, s.calls u = some (call, .checked) → ¬ s.Succeeded u :=
    fun hcall => not_succeeded hcall fun _ hr => by cases hr
  cases serviceStep_effect hs with
  | refuse hcall | pass hcall =>
      rw [succeeded_setCall (hnone hcall) (by simp [ServiceResult.succeeded])]
      exact or_iff_left fun hpublish => by cases hpublish.1
  | duplicate hcall | notFound hcall | failLookup hcall =>
      rw [succeeded_setCall (hchecked hcall) (by simp [ServiceResult.succeeded])]
      exact or_iff_left fun hpublish => by cases hpublish.1
  | @issue _ u call' flagKey ha htx =>
      have hu : ¬ Service.Succeeded { s with db := s.db.setStage u call'.op .called } u := by
        rcases ha with ⟨-, hcall, -⟩ | ⟨-, hcall⟩
        · exact hnone hcall
        · exact hchecked hcall
      rw [succeeded_setCall hu fun _ hr => by cases hr]
      refine or_iff_left fun hpublish => ?_
      rcases ha with ⟨rfl, -⟩ | ⟨rfl, -⟩ <;> cases hpublish.1
  | repo => simp [Service.Succeeded]
  | @respond u call' flagKey op r hcall htx =>
      have hpublishing : (s.publishing (.respond u)).isSome = r.response.succeeded := by
        rw [response_succeeded flagKey, Service.publishing, hcall, htx]
      rw [hpublishing]
      by_cases htu : t = u
      · subst htu
        have hbefore : ¬ s.Succeeded t := not_succeeded hcall fun _ hr => by cases hr
        rw [or_iff_right hbefore]
        simp [Service.Succeeded, Service.setCall_calls_self]
      · have hne : ServiceAction.respond u ≠ .respond t := fun heq =>
          htu (ServiceAction.respond.inj heq).symm
        simp [hne, Service.Succeeded, Service.setCall_calls_of_ne s _ _ htu]

theorem published_iff {rows : List FlagRow} {as : List ServiceAction}
    (hrun : exec serviceStep (Service.migrated rows) as = some s) :
    Published (transitions serviceStep (Service.migrated rows) as) t ↔ s.Succeeded t := by
  refine exec_history (P := fun trs s => ∀ t, Published trs t ↔ s.Succeeded t)
    (fun h hs => published_step h hs) (fun t => ?_) hrun t
  simp [Published, Service.Succeeded, Service.migrated]

end Published

/-! ### Races -/

section Races

variable {rows : List FlagRow} {as : List ServiceAction} {s : Service} {t : TxId}
  {req : CreateFlagRequest} {r : ServiceResult}

/-- A `CreateFlag` returns no `deleted`. -/
theorem Service.Reachable.create_ne_deleted (hs : s.Reachable)
    (hr : s.outcome? t = some (.createFlag req, r)) : r ≠ .deleted := by
  rintro rfl
  rcases hs.linked.outcome hr with ⟨r', htx, hr'⟩ | ⟨-, hown⟩
  · have hfit := hs.resultsFit t _ _ htx
    cases r' with
    | deleted v => cases hfit
    | created _ | flag _ | error _ => cases hr'
  · cases hown

/-- **Winners.** A `CreateFlag` has inserted its row exactly when it is to return a flag. -/
theorem inserted_iff (hrows : Migrated rows)
    (hrun : exec serviceStep (Service.migrated rows) as = some s)
    (hr : s.outcome? t = some (.createFlag req, r)) :
    Inserted (statements (transitions serviceStep (Service.migrated rows) as)) t ↔
      ∃ flag, r = .flag (some flag) := by
  have hacc := ServiceAccount.of_exec hrows hrun
  have hreach : s.Reachable := ⟨rows, as, hrows, hrun⟩
  rcases hacc.linked.outcome hr with ⟨r', htx, rfl⟩ | ⟨hnone, hown⟩
  · constructor
    · intro h
      obtain ⟨tr, htr, c, row, rfl, hc, hw⟩ := h
      have hreturned := returned_of_committing hrun htr hc
      rw [htx, hw] at hreturned
      obtain ⟨-, rfl⟩ : _ ∧ r' = c.op.result c.locals (.insert row) := by simpa using hreturned
      exact ⟨_, rfl⟩
    · intro h
      obtain ⟨flag, hflag⟩ := h
      have hfit := hreach.resultsFit t _ _ htx
      obtain rfl : r' = .created flag := by
        cases r' with
        | created f => simpa [RepoResult.response] using hflag
        | flag f =>
            obtain rfl : f = some flag := by simpa [RepoResult.response] using hflag
            cases hfit
        | deleted _ | error _ => cases hflag
      have haccounted := hacc.calls t
      rw [htx] at haccounted
      rcases haccounted with ⟨-, hno | hno⟩ | ⟨e, hone, -⟩
      · cases hno
      · cases hno
      obtain ⟨tr, htr, hsome⟩ := List.mem_filterMap.mp
        (show e ∈ committedBy t _ from hone ▸ List.mem_singleton_self e)
      split at hsome
      swap
      · cases hsome
      rename_i ht
      subst ht
      obtain ⟨c, hc, -⟩ := Option.map_eq_some_iff.mp hsome
      have hreturned := returned_of_committing hrun htr hc
      rw [htx] at hreturned
      obtain ⟨-, hresult⟩ : _ ∧ .created flag = c.op.result c.locals c.write := by
        simpa using hreturned
      cases hw : c.write with
      | insert row => exact ⟨tr, htr, c, row, rfl, hc, hw⟩
      | update row | delete row | nothing =>
          rw [hw] at hresult
          cases hresult
  · refine iff_of_false (fun h => ?_) fun h => ?_
    · obtain ⟨tr, htr, c, row, rfl, hc, -⟩ := h
      rw [returned_of_committing hrun htr hc] at hnone
      cases hnone
    · obtain ⟨flag, rfl⟩ := h
      cases hown

/-- **Losers.** A call that finds its key taken is to return the service's text, or the
database's. -/
theorem losesLookup_outcome {s s' : Service} {a : ServiceAction} (hs : serviceStep s a = some s')
    (h : s.LosesLookup a t req) :
    s'.outcome? t = some (.createFlag req, .invalid "duplicate_key") := by
  obtain ⟨rfl, hcall, hkey⟩ := h
  obtain ⟨row, hrow⟩ := Option.isSome_iff_exists.mp hkey
  have hlookup : getByKey s.db.flags req.key = some (scanFlag row) := by rw [getByKey, hrow]; rfl
  rw [serviceStep, hcall] at hs
  dsimp only at hs
  rw [hlookup] at hs
  obtain rfl := Option.some.inj hs
  rw [Service.outcome?, Service.setCall_calls_self]

theorem losesInsert_outcome {s s' : Service} {a : ServiceAction} (hlinked : Linked s)
    (hs : serviceStep s a = some s') (h : s.LosesInsert a t req) :
    s'.outcome? t = some (.createFlag req, .failed .uniqueViolation) := by
  obtain ⟨⟨uuid, rfl⟩, ⟨flagKey, hcall⟩, hstorable, hkey⟩ := h
  have hcheck : checkCreate req = none := by
    rw [Option.eq_none_iff_forall_ne_some]
    intro text htext
    cases hlinked.refused t _ _ text hcall htext
  cases serviceStep_effect hs with
  | issue ha => rcases ha with ⟨ha, -⟩ | ⟨ha, -⟩ <;> cases ha
  | @repo _ db' ha hdb =>
      have htx : ∃ st, s.db.txs t = some ⟨.create (newFlag req), st⟩ := by
        cases htx : s.db.txs t with
        | none => simp [FlagPlane.step, htx] at hdb
        | some tx =>
            obtain ⟨call, hop, hlink⟩ := hlinked.tx t tx htx
            obtain rfl : call = .createFlag req := by
              rcases hlink with ⟨_, hlink⟩ | ⟨_, -, hlink⟩ <;> rw [hcall] at hlink <;> cases hlink
              rfl
            exact ⟨tx.stage, by rw [show Op.create (newFlag req) = tx.op from hop.symm]⟩
      have hreturned := step_insert_duplicate hdb htx
        ⟨_, rfl, fun x => (insertedRow_columnsOk hcheck uuid x).mpr hstorable⟩ hkey
      rw [Service.outcome?, hcall]
      dsimp only
      rw [hreturned]
      rfl

/-- A call that is to return an error has changed no table. -/
theorem ServiceAccount.unchanged {s₀ : Service}
    (h : ServiceAccount (transitions serviceStep s₀ as) s)
    (hr : s.outcome? t = some (.createFlag req, r)) (hflag : ∀ flag, r ≠ .flag (some flag))
    (hdel : r ≠ .deleted) :
    ∀ tr ∈ statements (transitions serviceStep s₀ as), tr.act.tx = t →
      tr.post.flags = tr.pre.flags ∧ tr.post.events = tr.pre.events :=
  fun _ htr ht => statements_unchanged (h.committedBy_nil hr hflag hdel) htr ht

/-- The answer of a call that has lost at its `INSERT` is not the one the races ask for. -/
theorem RacesSettled.not_losesInsert
    (h : RacesSettled (transitions serviceStep (Service.migrated rows) as) s)
    (hrun : exec serviceStep (Service.migrated rows) as = some s)
    {tr : Transition Service ServiceAction}
    (htr : tr ∈ transitions serviceStep (Service.migrated rows) as) (hlinked : Linked tr.pre) :
    ¬ tr.pre.LosesInsert tr.act t req := by
  intro hloses
  obtain ⟨-, r, hr, hanswer⟩ := h.losers tr htr t req (Or.inr hloses)
  obtain ⟨bs, hbs⟩ := exec_of_mem_transitions htr hrun
  have hfailed := exec_outcome hbs
    (losesInsert_outcome hlinked (step_of_mem_transitions htr) hloses)
  obtain rfl : r = .failed .uniqueViolation := by simpa using hr.symm.trans hfailed
  have hstatus := (createFlagResponse_uniqueViolation "").symm.trans (hanswer "")
  exact absurd (congrArg HttpResponse.status (Option.some.inj hstatus)) (by decide)

/-- **Racing creates.** From any table migration 002 can leave and however the service calls
interleave, the races of a run are settled exactly when no call loses at its `INSERT`. -/
theorem racing_creates_iff (hrows : Migrated rows)
    (hrun : exec serviceStep (Service.migrated rows) as = some s) :
    RacesSettled (transitions serviceStep (Service.migrated rows) as) s ↔
      ∀ tr ∈ transitions serviceStep (Service.migrated rows) as,
        ∀ t req, ¬ tr.pre.LosesInsert tr.act t req := by
  have hacc := ServiceAccount.of_exec hrows hrun
  have hinv : ∀ tr ∈ transitions serviceStep (Service.migrated rows) as,
      (ServiceInv tr.pre ∧ Linked tr.pre) ∧ ServiceInv tr.post ∧ Linked tr.post := fun tr htr =>
    transitions_preserves (I := fun s => ServiceInv s ∧ Linked s)
      (fun h hs => ⟨h.1.serviceStep hs, h.2.step hs⟩) ⟨hrows.serviceInv, linked_migrated rows⟩ htr
  constructor
  · exact fun h tr htr t req => h.not_losesInsert hrun htr (hinv tr htr).1.2
  · intro h
    refine ⟨fun tr htr => (hinv tr htr).2.1.db.table.keys, fun t req r hcall driver => ?_,
      fun tr htr t req hloses => ?_⟩
    · have hr : s.outcome? t = some (.createFlag req, r) := by rw [Service.outcome?, hcall]
      rw [inserted_iff hrows hrun hr, createFlagResponse_created, published_iff hrun]
      refine ⟨Iff.rfl, ?_⟩
      have hdel := Service.Reachable.create_ne_deleted ⟨rows, as, hrows, hrun⟩ hr
      constructor
      · intro hsucc
        obtain ⟨call, r', hcall', hsucc⟩ := hsucc
        obtain ⟨-, rfl⟩ : _ ∧ r = r' := by simpa using hcall.symm.trans hcall'
        unfold ServiceResult.succeeded at hsucc
        split at hsucc
        · exact ⟨_, rfl⟩
        · exact absurd rfl hdel
        · cases hsucc
      · intro hflag
        obtain ⟨flag, rfl⟩ := hflag
        exact ⟨_, _, hcall, rfl⟩
    · obtain ⟨bs, hbs⟩ := exec_of_mem_transitions htr hrun
      have hr := exec_outcome hbs (losesLookup_outcome (step_of_mem_transitions htr)
        (hloses.resolve_right (h tr htr t req)))
      exact ⟨hacc.unchanged hr (by simp) (by simp), _, hr, createFlagResponse_duplicate⟩

/-- What `EnsureFlag` sends, without its description. -/
def ensureCheckout : CreateFlagRequest :=
  ⟨"checkout", "", true, 50, some []⟩

/-- Two calls pass the lookup; the second `INSERT` meets the row of the first. -/
def racingCreates : List ServiceAction :=
  [.request 0 (.createFlag ensureCheckout), .request 1 (.createFlag ensureCheckout), .lookup 0,
    .lookup 1, .repo (.begin 0 1), .repo (.begin 1 1), .repo (.nextval 0), .repo (.nextval 1),
    .repo (.insert 0 "u"), .repo (.appendEvent 0), .repo (.commit 0), .repo (.insert 1 "v"),
    .respond 0, .respond 1]

theorem racing_creates_iff_racingCreates :
    ∃ s, exec serviceStep (Service.migrated []) racingCreates = some s ∧
      (RacesSettled (transitions serviceStep (Service.migrated []) racingCreates) s ↔
        ∀ tr ∈ transitions serviceStep (Service.migrated []) racingCreates,
          ∀ t req, ¬ tr.pre.LosesInsert tr.act t req) := by
  obtain ⟨s, hs⟩ := Option.isSome_iff_exists.mp
    (show (exec serviceStep (Service.migrated []) racingCreates).isSome = true by decide)
  exact ⟨s, hs, racing_creates_iff migrated_nil hs⟩

/-- The second call is answered 500, and `EnsureFlag` gives up. -/
theorem racingCreates_unsettled :
    ∃ s, exec serviceStep (Service.migrated []) racingCreates = some s ∧
      ¬ RacesSettled (transitions serviceStep (Service.migrated []) racingCreates) s ∧
      ∃ r resp, s.outcome? 1 = some (.createFlag ensureCheckout, r) ∧
        createFlagResponse "" r = some resp ∧ resp.status = 500 ∧ ensureFlag resp = .failed 500 := by
  have hrun : (exec serviceStep (Service.migrated []) racingCreates).bind (·.outcome? 1) =
      some (.createFlag ensureCheckout, .failed .uniqueViolation) := by
    decide
  obtain ⟨s, hs, hr⟩ := Option.bind_eq_some_iff.mp hrun
  refine ⟨s, hs, fun h => ?_, _, _, hr, createFlagResponse_uniqueViolation "", rfl, rfl⟩
  have hsplit : racingCreates =
      racingCreates.take 11 ++ .repo (.insert 1 "v") :: racingCreates.drop 12 := rfl
  obtain ⟨s₁, s₂, hbefore, htr⟩ := mem_transitions_of_split (hsplit ▸ hs)
  rw [← hsplit] at htr
  have hfacts : (exec serviceStep (Service.migrated []) (racingCreates.take 11)).map
      (fun s => (s.calls 1, (findByKey s.db.flags "checkout").isSome)) =
        some (some (.createFlag ensureCheckout, .calling ""), true) := by
    decide
  rw [hbefore] at hfacts
  obtain ⟨hcall, hkey⟩ := Prod.mk.inj (Option.some.inj hfacts)
  have hlinked := Service.Reachable.linked ⟨[], _, migrated_nil, hbefore⟩
  exact h.not_losesInsert hs htr hlinked ⟨⟨"v", rfl⟩, ⟨"", hcall⟩, by decide, hkey⟩

end Races

end FlagPlane
