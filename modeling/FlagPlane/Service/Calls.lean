import FlagPlane.Repository.Atomicity
import FlagPlane.Repository.Returns
import FlagPlane.Service.FlagService

/-!
# FlagPlane.Service.Calls

**A service call and its repository call.** `ServiceEffect` lists what one action of the service
can do, and no proof after this module unfolds `serviceStep`. From it: which repository call
belongs to which service call (`Linked`), and what each service call has committed
(`ServiceAccount`).
-/

namespace FlagPlane

/-! ### Inversion of `serviceStep` -/

/-- The outcomes of one action of the service. -/
inductive ServiceEffect (s : Service) : ServiceAction → Service → Prop
  /-- The request fails a check. -/
  | refuse {t : TxId} {call : ServiceCall} {text : String} (hcall : s.calls t = none)
      (hcheck : call.check = some text) :
      ServiceEffect s (.request t call) (s.setCall t call (.returned (.invalid text)))
  /-- The request passes its checks, and the flag is to be looked up. -/
  | pass {t : TxId} {call : ServiceCall} (hcall : s.calls t = none) (hcheck : call.check = none) :
      ServiceEffect s (.request t call) (s.setCall t call .checked)
  /-- `CreateFlag` finds the key taken. -/
  | duplicate {t : TxId} {req : CreateFlagRequest}
      (hcall : s.calls t = some (.createFlag req, .checked))
      (hkey : (findByKey s.db.flags req.key).isSome) :
      ServiceEffect s (.lookup t)
        (s.setCall t (.createFlag req) (.returned (.invalid "duplicate_key")))
  /-- `DeleteFlag` finds no flag. -/
  | notFound {t : TxId} {id : String} (hcall : s.calls t = some (.deleteFlag id, .checked)) :
      ServiceEffect s (.lookup t)
        (s.setCall t (.deleteFlag id) (.returned (.invalid "flag not found")))
  | failLookup {t : TxId} {call : ServiceCall} (hcall : s.calls t = some (call, .checked)) :
      ServiceEffect s (.failLookup t) (s.setCall t call (.returned (.failed .other)))
  /-- The repository call begins. -/
  | issue {a : ServiceAction} {t : TxId} {call : ServiceCall} {flagKey : String}
      (ha : (a = .request t call ∧ s.calls t = none ∧ call.check = none) ∨
        (a = .lookup t ∧ s.calls t = some (call, .checked)))
      (htx : s.db.txs t = none) :
      ServiceEffect s a
        ({ s with db := s.db.setStage t call.op .called }.setCall t call (.calling flagKey))
  | repo {a : Action} {db' : Db} (ha : a.isCall = false) (hs : step s.db a = some db') :
      ServiceEffect s (.repo a) { s with db := db' }
  | respond {t : TxId} {call : ServiceCall} {flagKey : String} {op : Op} {r : RepoResult}
      (hcall : s.calls t = some (call, .calling flagKey))
      (htx : s.db.txs t = some ⟨op, .returned r⟩) :
      ServiceEffect s (.respond t) (s.setCall t call (.returned r.response))

section Effect

variable {s s' : Service} {a : ServiceAction} {t : TxId} {call : ServiceCall} {flagKey : String}

theorem issue_effect
    (ha : (a = .request t call ∧ s.calls t = none ∧ call.check = none) ∨
      (a = .lookup t ∧ s.calls t = some (call, .checked)))
    (hs : s.issue t call flagKey = some s') : ServiceEffect s a s' := by
  rw [Service.issue, Option.map_eq_some_iff] at hs
  obtain ⟨db', hdb, rfl⟩ := hs
  obtain ⟨hnone, rfl⟩ := step_call hdb
  exact .issue ha hnone

/-- **Inversion of `serviceStep`.** -/
theorem serviceStep_effect (hs : serviceStep s a = some s') : ServiceEffect s a s' := by
  cases a with
  | request t call =>
      rw [serviceStep] at hs
      split at hs
      · cases hs
      rename_i hcall
      split at hs
      · rename_i hcheck
        obtain rfl := Option.some.inj hs
        exact .refuse hcall hcheck
      · rename_i hcheck
        cases call with
        | createFlag req | deleteFlag id =>
            obtain rfl := Option.some.inj hs
            exact .pass hcall hcheck
        | updateFlag id req | toggleFlag id => exact issue_effect (Or.inl ⟨rfl, hcall, hcheck⟩) hs
  | lookup t =>
      rw [serviceStep] at hs
      split at hs
      · rename_i req hcall
        split at hs
        · rename_i flag hflag
          obtain rfl := Option.some.inj hs
          obtain ⟨row, hrow, -⟩ := Option.map_eq_some_iff.mp hflag
          exact .duplicate hcall (by rw [hrow]; rfl)
        · exact issue_effect (Or.inr ⟨rfl, hcall⟩) hs
      · rename_i id hcall
        split at hs
        · obtain rfl := Option.some.inj hs
          exact .notFound hcall
        · exact issue_effect (Or.inr ⟨rfl, hcall⟩) hs
      · cases hs
  | failLookup t =>
      rw [serviceStep] at hs
      split at hs
      · rename_i call hcall
        obtain rfl := Option.some.inj hs
        exact .failLookup hcall
      · cases hs
  | repo a =>
      rw [serviceStep] at hs
      split at hs
      · cases hs
      · rename_i ha
        obtain ⟨db', hdb, rfl⟩ := Option.map_eq_some_iff.mp hs
        exact .repo (by simpa using ha) hdb
  | respond t =>
      rw [serviceStep] at hs
      split at hs
      · rename_i call flagKey op r hcall htx
        obtain rfl := Option.some.inj hs
        exact .respond hcall htx
      · cases hs

/-- A statement of a repository call is a step of the database. -/
theorem serviceStep_repo {b : Action} (hs : serviceStep s (.repo b) = some s') :
    ∃ db', step s.db b = some db' ∧ s' = { s with db := db' } := by
  rw [serviceStep] at hs
  split at hs
  · cases hs
  · obtain ⟨db', hdb, rfl⟩ := Option.map_eq_some_iff.mp hs
    exact ⟨db', hdb, rfl⟩

/-- An action of the service performs one statement of the database, or none. -/
theorem serviceStep_db (hs : serviceStep s a = some s') :
    s'.db = s.db ∨ ∃ b, step s.db b = some s'.db := by
  cases serviceStep_effect hs with
  | @issue _ t call _ _ htx => exact Or.inr ⟨.call t call.op, by rw [step, htx]; rfl⟩
  | repo _ hdb => exact Or.inr ⟨_, hdb⟩
  | _ => exact Or.inl rfl

/-- What every statement keeps of the database, every action of the service keeps. -/
theorem serviceStep_preserves {I : Db → Prop}
    (hstep : ∀ {db a db'}, I db → step db a = some db' → I db') (h : I s.db)
    (hs : serviceStep s a = some s') : I s'.db := by
  rcases serviceStep_db hs with heq | ⟨b, hb⟩
  · rwa [heq]
  · exact hstep h hb

end Effect

/-! ### Which repository call belongs to which service call -/

/-- The answers of a service call that has made no repository call. -/
inductive OwnAnswer : ServiceCall → ServiceResult → Prop
  | refused {call : ServiceCall} {text : String} (hcheck : call.check = some text) :
      OwnAnswer call (.invalid text)
  | duplicate {req : CreateFlagRequest} : OwnAnswer (.createFlag req) (.invalid "duplicate_key")
  | notFound {id : String} : OwnAnswer (.deleteFlag id) (.invalid "flag not found")
  | failLookup {call : ServiceCall} : OwnAnswer call (.failed .other)

/-- The repository call of a service call carries its operation; it is what the service call waits
for, or has returned what the service call returned. -/
structure Linked (s : Service) : Prop where
  tx : ∀ t tx, s.db.txs t = some tx → ∃ call, tx.op = call.op ∧
    ((∃ flagKey, s.calls t = some (call, .calling flagKey)) ∨
      ∃ r, tx.stage = .returned r ∧ s.calls t = some (call, .returned r.response))
  /-- A call that has returned has returned what its repository call did, or made none. -/
  answered : ∀ t call r, s.calls t = some (call, .returned r) →
    (∃ r', s.db.txs t = some ⟨call.op, .returned r'⟩ ∧ r = r'.response) ∨
      s.db.txs t = none ∧ OwnAnswer call r
  /-- A request that fails a check goes no further. -/
  refused : ∀ t call stage text, s.calls t = some (call, stage) → call.check = some text →
    stage = .returned (.invalid text)

section Linked

variable {s s' : Service} {a : ServiceAction} {t u : TxId} {call : ServiceCall}
  {stage : ServiceStage}

@[simp] theorem Service.setCall_db (s : Service) (t : TxId) (call : ServiceCall)
    (stage : ServiceStage) : (s.setCall t call stage).db = s.db := rfl

theorem Service.setCall_calls_self (s : Service) (t : TxId) (call : ServiceCall)
    (stage : ServiceStage) : (s.setCall t call stage).calls t = some (call, stage) :=
  Function.update_self ..

theorem Service.setCall_calls_of_ne (s : Service) (call : ServiceCall) (stage : ServiceStage)
    (h : u ≠ t) : (s.setCall t call stage).calls u = s.calls u :=
  Function.update_of_ne h _ _

/-- A call with no repository call yet. -/
theorem Linked.tx_none (h : Linked s)
    (hcall : s.calls t = none ∨ ∃ call, s.calls t = some (call, .checked)) :
    s.db.txs t = none := by
  cases htx : s.db.txs t with
  | none => rfl
  | some tx =>
      obtain ⟨call, -, ⟨flagKey, hlinked⟩ | ⟨r, -, hlinked⟩⟩ := h.tx t tx htx
      all_goals
        rcases hcall with hcall | ⟨call', hcall⟩ <;> rw [hlinked] at hcall <;> cases hcall

/-- A call moves, away from any repository call. -/
theorem Linked.setCall (h : Linked s) (htx : s.db.txs t = none)
    (hr : ∀ r, stage = .returned r → OwnAnswer call r)
    (hcheck : ∀ text, call.check = some text → stage = .returned (.invalid text)) :
    Linked (s.setCall t call stage) where
  tx u tx hu := by
    have hne : u ≠ t := by
      rintro rfl
      rw [show s.db.txs u = some tx from hu] at htx
      cases htx
    obtain ⟨call', hop, hcall'⟩ := h.tx u tx hu
    refine ⟨call', hop, ?_⟩
    rw [Service.setCall_calls_of_ne s call stage hne]
    exact hcall'
  answered u call' r hu := by
    rcases update_some_cases hu with ⟨rfl, heq⟩ | ⟨-, hu⟩
    · obtain ⟨rfl, rfl⟩ := Prod.mk.inj heq
      exact Or.inr ⟨htx, hr r rfl⟩
    · exact h.answered u call' r hu
  refused u call' stage' text hu := by
    rcases update_some_cases hu with ⟨rfl, heq⟩ | ⟨-, hu⟩
    · obtain ⟨rfl, rfl⟩ := Prod.mk.inj heq
      exact hcheck text
    · exact h.refused u call' stage' text hu

/-- A repository call begins. -/
theorem Linked.issue (h : Linked s) (hcheck : call.check = none) (htx : s.db.txs t = none)
    (flagKey : String) :
    Linked
      ({ s with db := s.db.setStage t call.op .called }.setCall t call (.calling flagKey)) where
  tx u tx hu := by
    rcases update_some_cases hu with ⟨rfl, rfl⟩ | ⟨hne, hu⟩
    · exact ⟨call, rfl, Or.inl ⟨flagKey, Function.update_self ..⟩⟩
    · obtain ⟨call', hop, hcall'⟩ := h.tx u tx hu
      refine ⟨call', hop, ?_⟩
      rw [Service.setCall_calls_of_ne _ call _ hne]
      exact hcall'
  answered u call' r hu := by
    rcases update_some_cases hu with ⟨rfl, heq⟩ | ⟨hne, hu⟩
    · cases (Prod.mk.inj heq).2
    · rw [Service.setCall_db, Db.setStage_txs_of_ne _ _ _ hne]
      exact h.answered u call' r hu
  refused u call' stage' text hu htext := by
    rcases update_some_cases hu with ⟨rfl, heq⟩ | ⟨-, hu⟩
    · obtain ⟨rfl, -⟩ := Prod.mk.inj heq
      rw [hcheck] at htext
      cases htext
    · exact h.refused u call' stage' text hu htext

/-- A statement of a call that has begun keeps the calls and their operations, and leaves a call
alone once it has returned. -/
theorem step_tx {db db' : Db} {a : Action} (ha : a.isCall = false) (hs : step db a = some db')
    (t : TxId) :
    (db.txs t = none ∧ db'.txs t = none) ∨
      ∃ op st st', db.txs t = some ⟨op, st⟩ ∧ db'.txs t = some ⟨op, st'⟩ ∧
        ∀ r, st = .returned r → st' = .returned r := by
  have hmove : ∀ {txs : TxId → Option Tx} {u : TxId} {op : Op} {st st' : Stage}, txs = db.txs →
      db.txs u = some ⟨op, st⟩ → st.isReturned = false →
      db'.txs = Function.update txs u (some ⟨op, st'⟩) →
      (db.txs t = none ∧ db'.txs t = none) ∨
        ∃ op st st', db.txs t = some ⟨op, st⟩ ∧ db'.txs t = some ⟨op, st'⟩ ∧
          ∀ r, st = .returned r → st' = .returned r := by
    rintro _ u op st st' rfl hu hst htxs
    rw [htxs]
    by_cases htu : t = u
    · subst htu
      refine Or.inr ⟨op, st, st', hu, Function.update_self .., fun r hr => ?_⟩
      rw [hr] at hst
      cases hst
    · rw [Function.update_of_ne htu]
      cases ht : db.txs t with
      | none => exact Or.inl ⟨rfl, rfl⟩
      | some tx => exact Or.inr ⟨tx.op, tx.stage, tx.stage, rfl, rfl, fun _ hr => hr⟩
  cases step_effect hs with
  | call => simp [Action.isCall] at ha
  | progress _ hu hret | draw hu hret | finish _ hu hret => exact hmove rfl hu hret rfl
  | vanish _ hu hst => rcases hst with rfl | rfl <;> exact hmove rfl hu rfl rfl
  | select hu | insert hu | update hu | remove hu | recheck hu | log hu | commit hu =>
      exact hmove rfl hu rfl rfl

theorem Linked.repo (h : Linked s) {a : Action} {db' : Db} (ha : a.isCall = false)
    (hs : FlagPlane.step s.db a = some db') : Linked { s with db := db' } where
  tx t tx ht := by
    rcases step_tx ha hs t with ⟨-, hnone⟩ | ⟨op, st, st', htx, htx', hret⟩
    · rw [show db'.txs t = some tx from ht] at hnone
      cases hnone
    · obtain rfl : tx = ⟨op, st'⟩ := Option.some.inj (ht.symm.trans htx')
      obtain ⟨call, hop, hlinked⟩ := h.tx t _ htx
      refine ⟨call, hop, hlinked.imp_right fun hlinked => ?_⟩
      obtain ⟨r, hr, hreturned⟩ := hlinked
      exact ⟨r, hret r hr, hreturned⟩
  answered t call r ht := by
    rcases step_tx ha hs t with ⟨hnone, hnone'⟩ | ⟨op, st, st', htx, htx', hret⟩
    · refine (h.answered t call r ht).imp (fun hcall => ?_) fun hcall => ⟨hnone', hcall.2⟩
      obtain ⟨r', hr', -⟩ := hcall
      rw [hnone] at hr'
      cases hr'
    · rcases h.answered t call r ht with ⟨r', hr', hr⟩ | ⟨hnone, -⟩
      · rw [htx] at hr'
        obtain ⟨rfl, rfl⟩ : op = call.op ∧ st = .returned r' := by simpa using hr'
        exact Or.inl ⟨r', by rw [htx', hret r' rfl], hr⟩
      · rw [htx] at hnone
        cases hnone
  refused := h.refused

/-- The service call returns what its repository call did. -/
theorem Linked.respond (h : Linked s) {flagKey : String} {r : RepoResult}
    (hcall : s.calls t = some (call, .calling flagKey))
    (htx : s.db.txs t = some ⟨call.op, .returned r⟩) :
    Linked (s.setCall t call (.returned r.response)) where
  tx u tx hu := by
    by_cases hut : u = t
    · subst hut
      obtain rfl : ⟨call.op, .returned r⟩ = tx := Option.some.inj (htx.symm.trans hu)
      exact ⟨call, rfl, Or.inr ⟨r, rfl, s.setCall_calls_self u call _⟩⟩
    · rw [s.setCall_calls_of_ne call _ hut]
      exact h.tx u tx hu
  answered u call' r' hu := by
    rcases update_some_cases hu with ⟨rfl, heq⟩ | ⟨-, hu⟩
    · obtain ⟨rfl, hr⟩ := Prod.mk.inj heq
      exact Or.inl ⟨r, htx, ServiceStage.returned.inj hr⟩
    · exact h.answered u call' r' hu
  refused u call' stage' text hu htext := by
    rcases update_some_cases hu with ⟨rfl, heq⟩ | ⟨-, hu⟩
    · obtain ⟨rfl, -⟩ := Prod.mk.inj heq
      cases h.refused u _ _ text hcall htext
    · exact h.refused u call' stage' text hu htext

/-- **Every action keeps the link.** -/
theorem Linked.step (h : Linked s) (hs : serviceStep s a = some s') : Linked s' := by
  cases serviceStep_effect hs with
  | refuse hcall hcheck =>
      refine h.setCall (h.tx_none (Or.inl hcall)) (fun r hr => ?_) fun text htext => ?_
      · obtain rfl := ServiceStage.returned.inj hr
        exact .refused hcheck
      · rw [hcheck] at htext
        rw [Option.some.inj htext]
  | pass hcall hcheck =>
      refine h.setCall (h.tx_none (Or.inl hcall)) (fun r hr => by cases hr) fun text htext => ?_
      rw [hcheck] at htext
      cases htext
  | duplicate hcall _ =>
      refine h.setCall (h.tx_none (Or.inr ⟨_, hcall⟩)) (fun r hr => ?_) fun text htext => ?_
      · obtain rfl := ServiceStage.returned.inj hr
        exact .duplicate
      · cases h.refused _ _ _ text hcall htext
  | notFound hcall =>
      refine h.setCall (h.tx_none (Or.inr ⟨_, hcall⟩)) (fun r hr => ?_) fun text htext => ?_
      · obtain rfl := ServiceStage.returned.inj hr
        exact .notFound
      · cases h.refused _ _ _ text hcall htext
  | failLookup hcall =>
      refine h.setCall (h.tx_none (Or.inr ⟨_, hcall⟩)) (fun r hr => ?_) fun text htext => ?_
      · obtain rfl := ServiceStage.returned.inj hr
        exact .failLookup
      · cases h.refused _ _ _ text hcall htext
  | issue ha htx =>
      refine h.issue ?_ htx _
      rcases ha with ⟨-, -, hcheck⟩ | ⟨-, hcall⟩
      · exact hcheck
      · rw [Option.eq_none_iff_forall_ne_some]
        intro text htext
        cases h.refused _ _ _ text hcall htext
  | repo ha hdb => exact h.repo ha hdb
  | @respond t call flagKey op r hcall htx =>
      obtain ⟨call', hop, hlinked⟩ := h.tx t _ htx
      obtain rfl : call = call' := by
        rcases hlinked with ⟨_, hlinked⟩ | ⟨_, -, hlinked⟩ <;> rw [hcall] at hlinked <;>
          cases hlinked
        rfl
      exact h.respond hcall (by rw [htx, show op = call.op from hop])

theorem linked_migrated (rows : List FlagRow) : Linked (Service.migrated rows) where
  tx _ _ h := by cases h
  answered _ _ _ h := by cases h
  refused _ _ _ _ h := by cases h

end Linked

/-! ### What a service call has committed -/

/-- The statements of repository calls in a run of the service. -/
def statements (trs : List (Transition Service ServiceAction)) : List (Transition Db Action) :=
  trs.filterMap fun tr =>
    match tr.act with
    | .repo a => some ⟨tr.pre.db, a, tr.post.db⟩
    | _ => none

/-- What the service call is to return, once its repository call has returned. -/
def Service.outcome? (s : Service) (t : TxId) : Option (ServiceCall × ServiceResult) :=
  match s.calls t with
  | some (call, .returned r) => some (call, r)
  | some (call, .calling _) =>
    match s.db.txs t with
    | some ⟨_, .returned r⟩ => some (call, r.response)
    | _ => none
  | _ => none

/-- What a run of the service keeps. -/
structure ServiceAccount (trs : List (Transition Service ServiceAction)) (s : Service) : Prop where
  inv : ServiceInv s
  linked : Linked s
  calls : ∀ t, Accounted (committedBy t (statements trs)) (s.db.txs t)

section Account

variable {trs : List (Transition Service ServiceAction)} {s s' : Service} {a : ServiceAction}
  {t : TxId}

theorem statements_append_repo {a : Action} :
    statements (trs ++ [⟨s, .repo a, s'⟩]) = statements trs ++ [⟨s.db, a, s'.db⟩] := by
  simp [statements]

theorem statements_append_other (ha : ∀ b, a ≠ .repo b) :
    statements (trs ++ [⟨s, a, s'⟩]) = statements trs := by
  cases a with
  | repo b => exact absurd rfl (ha b)
  | _ => simp [statements]

theorem serviceStep_uuids {s s' : Service} {a : ServiceAction} (hs : serviceStep s a = some s')
    {id : String} (hid : id ∈ s.db.uuids) : id ∈ s'.db.uuids := by
  cases serviceStep_effect hs with
  | repo _ hdb => exact step_uuids hdb hid
  | _ => exact hid

/-- A call that begins is no statement. -/
theorem statements_append_issue {call : ServiceCall}
    (ha : (a = .request t call ∧ s.calls t = none ∧ call.check = none) ∨
      (a = .lookup t ∧ s.calls t = some (call, .checked))) :
    statements (trs ++ [⟨s, a, s'⟩]) = statements trs := by
  refine statements_append_other fun b hb => ?_
  subst hb
  rcases ha with ⟨ha, -⟩ | ⟨ha, -⟩ <;> cases ha

theorem mem_statements {tr : Transition Db Action} :
    tr ∈ statements trs ↔
      ∃ tr' ∈ trs, tr'.act = .repo tr.act ∧ tr'.pre.db = tr.pre ∧ tr'.post.db = tr.post := by
  rw [statements, List.mem_filterMap]
  constructor
  · intro h
    obtain ⟨tr', htr', heq⟩ := h
    split at heq
    · rename_i b hb
      obtain rfl := Option.some.inj heq
      exact ⟨tr', htr', hb, rfl, rfl⟩
    · cases heq
  · intro h
    obtain ⟨tr', htr', hact, hpre, hpost⟩ := h
    exact ⟨tr', htr', by rw [hact, hpre, hpost]⟩

/-- The statements of a run are steps of the database. -/
theorem step_of_mem_statements {as : List ServiceAction} {tr : Transition Db Action}
    (htr : tr ∈ statements (transitions serviceStep s as)) :
    step tr.pre tr.act = some tr.post := by
  obtain ⟨pre, a, post⟩ := tr
  obtain ⟨⟨pre', act', post'⟩, htr', hact, hpre, hpost⟩ := mem_statements.mp htr
  dsimp only at hact hpre hpost
  subst hact hpre hpost
  have hstep : serviceStep pre' (.repo a) = some post' := step_of_mem_transitions htr'
  obtain ⟨db', hdb, rfl⟩ := serviceStep_repo hstep
  exact hdb

/-- A call that has committed nothing has changed nothing. -/
theorem statements_unchanged {as : List ServiceAction}
    (h : committedBy t (statements (transitions serviceStep s as)) = [])
    {tr : Transition Db Action} (htr : tr ∈ statements (transitions serviceStep s as))
    (ht : tr.act.tx = t) : tr.post.flags = tr.pre.flags ∧ tr.post.events = tr.pre.events := by
  rcases step_tables (step_of_mem_statements htr) with ⟨-, hflags, hevents⟩ | ⟨u, c, -, -, hc, -⟩
  · exact ⟨hflags, hevents⟩
  · have hmem : c.event ∈ committedBy t (statements (transitions serviceStep s as)) :=
      List.mem_filterMap.mpr ⟨tr, htr, by rw [if_pos ht, hc]; rfl⟩
    rw [h] at hmem
    cases hmem

theorem ServiceAccount.step (h : ServiceAccount trs s) (hs : serviceStep s a = some s') :
    ServiceAccount (trs ++ [⟨s, a, s'⟩]) s' := by
  refine ⟨h.inv.serviceStep hs, h.linked.step hs, ?_⟩
  cases serviceStep_effect hs with
  | repo _ hdb =>
      rw [statements_append_repo]
      exact accounted_step h.inv.db h.calls hdb
  | @issue a t call flagKey ha htx =>
      rw [statements_append_issue ha]
      intro u
      by_cases hut : u = t
      · subst hut
        have hacc := h.calls u
        rw [htx] at hacc
        rw [Service.setCall_db, Db.setStage_txs_self]
        exact hacc
      · rw [Service.setCall_db, Db.setStage_txs_of_ne _ _ _ hut]
        exact h.calls u
  | _ =>
      rw [statements_append_other (by simp)]
      exact h.calls

/-- A state that the service reaches from some table that migration 002 can leave. -/
def Service.Reachable (s : Service) : Prop :=
  ∃ rows as, Migrated rows ∧ exec serviceStep (Service.migrated rows) as = some s

/-- What holds of a migrated service and what every action keeps holds of a reachable one. -/
theorem Service.Reachable.induct {I : Service → Prop} (hs : s.Reachable)
    (h₀ : ∀ rows, I (Service.migrated rows))
    (hstep : ∀ {s a s'}, ServiceInv s → I s → serviceStep s a = some s' → I s') : I s := by
  obtain ⟨rows, as, hrows, hrun⟩ := hs
  have hboth : ServiceInv s ∧ I s :=
    exec_preserves (I := fun s => ServiceInv s ∧ I s)
      (fun h hs => ⟨h.1.serviceStep hs, hstep h.1 h.2 hs⟩) ⟨hrows.serviceInv, h₀ rows⟩ hrun
  exact hboth.2

theorem Service.Reachable.resultsFit (hs : s.Reachable) : ResultsFit s.db := by
  refine hs.induct (I := fun s => ResultsFit s.db) (fun rows t op r h => by cases h) ?_
  intro s a s' hinv h hs
  rcases serviceStep_db hs with heq | ⟨b, hb⟩
  · rwa [heq]
  · exact h.step hinv.db hb

theorem Service.Reachable.linked (hs : s.Reachable) : Linked s :=
  hs.induct linked_migrated fun _ h hs => h.step hs

theorem ServiceAccount.of_exec {rows : List FlagRow} (hrows : Migrated rows)
    {as : List ServiceAction} (h : exec serviceStep (Service.migrated rows) as = some s) :
    ServiceAccount (transitions serviceStep (Service.migrated rows) as) s :=
  exec_history (fun h hs => ServiceAccount.step h hs)
    ⟨hrows.serviceInv, linked_migrated rows, fun _ => rfl⟩ h

/-- What a call is to return is what its repository call returned, or an answer of its own. -/
theorem Linked.outcome (h : Linked s) {call : ServiceCall} {r : ServiceResult}
    (hr : s.outcome? t = some (call, r)) :
    (∃ r', s.db.txs t = some ⟨call.op, .returned r'⟩ ∧ r = r'.response) ∨
      s.db.txs t = none ∧ OwnAnswer call r := by
  unfold Service.outcome? at hr
  split at hr
  · rename_i call' r' hcall
    obtain ⟨rfl, rfl⟩ := Prod.mk.inj (Option.some.inj hr)
    exact h.answered t call' r' hcall
  · rename_i call' flagKey hcall
    split at hr
    · rename_i op r' htx
      obtain ⟨rfl, rfl⟩ := Prod.mk.inj (Option.some.inj hr)
      obtain ⟨call, hop, hlinked⟩ := h.tx t _ htx
      obtain rfl : call' = call := by
        rcases hlinked with ⟨_, hlinked⟩ | ⟨_, -, hlinked⟩ <;> rw [hcall] at hlinked <;>
          cases hlinked
        rfl
      exact Or.inl ⟨r', by rw [htx, show op = call'.op from hop], rfl⟩
    · cases hr
  · cases hr

/-- A call that is to return no flag and not `deleted` has committed nothing. -/
theorem ServiceAccount.committedBy_nil (h : ServiceAccount trs s) {call : ServiceCall}
    {r : ServiceResult} (hr : s.outcome? t = some (call, r)) (hflag : ∀ flag, r ≠ .flag (some flag))
    (hdel : r ≠ .deleted) : committedBy t (statements trs) = [] := by
  have hacc := h.calls t
  rcases h.linked.outcome hr with ⟨r', htx, rfl⟩ | ⟨hnone, -⟩
  · rw [htx] at hacc
    rcases hacc with ⟨hnil, -⟩ | ⟨e, -, hv⟩
    · exact hnil
    · cases r' with
      | created f => exact absurd rfl (hflag f)
      | deleted v => exact absurd rfl hdel
      | error err => cases hv
      | flag f =>
          cases f with
          | none => cases hv
          | some f => exact absurd rfl (hflag f)
  · rw [hnone] at hacc
    exact hacc

/-- A request that fails a check is refused, and nothing is sent to the database. -/
theorem Linked.outcome_refused (h : Linked s) {call : ServiceCall} {r : ServiceResult}
    {text : String} (hr : s.outcome? t = some (call, r)) (hcheck : call.check = some text) :
    r = .invalid text ∧ s.db.txs t = none := by
  have hstage : s.calls t = some (call, .returned r) := by
    unfold Service.outcome? at hr
    split at hr
    · rename_i call' r' hcall
      obtain ⟨rfl, rfl⟩ := Prod.mk.inj (Option.some.inj hr)
      exact hcall
    · rename_i call' flagKey hcall
      split at hr
      · obtain ⟨rfl, -⟩ := Prod.mk.inj (Option.some.inj hr)
        cases h.refused t _ _ text hcall hcheck
      · cases hr
    · cases hr
  obtain rfl := ServiceStage.returned.inj (h.refused t call _ text hstage hcheck)
  refine ⟨rfl, ?_⟩
  rcases h.answered t call _ hstage with ⟨r', -, hr'⟩ | ⟨hnone, -⟩
  · cases r' with
    | created _ | deleted _ | error _ => cases hr'
    | flag f => cases hr'
  · exact hnone

/-! ### What stays -/

/-- A repository call that has returned stays as it is. -/
theorem serviceStep_returned {op : Op} {r : RepoResult} (hs : serviceStep s a = some s')
    (ht : s.db.txs t = some ⟨op, .returned r⟩) : s'.db.txs t = some ⟨op, .returned r⟩ := by
  cases serviceStep_effect hs with
  | repo ha hdb =>
      rcases step_tx ha hdb t with ⟨hnone, -⟩ | ⟨op', st, st', htx, htx', hret⟩
      · rw [ht] at hnone
        cases hnone
      · obtain ⟨rfl, rfl⟩ : op = op' ∧ .returned r = st := by simpa using ht.symm.trans htx
        rw [htx', hret r rfl]
  | @issue _ u _ _ _ htx =>
      have hne : t ≠ u := by
        intro htu
        rw [htu, htx] at ht
        cases ht
      rw [Service.setCall_db, Db.setStage_txs_of_ne _ _ _ hne]
      exact ht
  | _ => exact ht

theorem exec_returned {op : Op} {r : RepoResult} {as : List ServiceAction}
    (hrun : exec serviceStep s as = some s') (ht : s.db.txs t = some ⟨op, .returned r⟩) :
    s'.db.txs t = some ⟨op, .returned r⟩ :=
  exec_preserves (I := fun s => s.db.txs t = some ⟨op, .returned r⟩)
    (fun ht hs => serviceStep_returned hs ht) ht hrun

/-- A service call keeps its request. -/
theorem serviceStep_call {call : ServiceCall} {stage : ServiceStage}
    (hs : serviceStep s a = some s') (ht : s.calls t = some (call, stage)) :
    ∃ stage', s'.calls t = some (call, stage') := by
  have hset : ∀ {u call' stage'} (s₁ : Service), s₁.calls = s.calls →
      (s.calls u = none ∨ ∃ st, s.calls u = some (call', st)) →
      ∃ stage'', (s₁.setCall u call' stage').calls t = some (call, stage'') := by
    intro u call' stage' s₁ hcalls hu
    by_cases hne : t = u
    · subst hne
      rcases hu with hu | ⟨st, hu⟩
      · rw [hu] at ht
        cases ht
      · obtain rfl : call' = call := congrArg Prod.fst (Option.some.inj (hu.symm.trans ht))
        exact ⟨_, Service.setCall_calls_self ..⟩
    · exact ⟨stage, by rw [Service.setCall_calls_of_ne _ _ _ hne, hcalls, ht]⟩
  cases serviceStep_effect hs with
  | refuse hcall | pass hcall => exact hset s rfl (Or.inl hcall)
  | duplicate hcall | notFound hcall | failLookup hcall | respond hcall =>
      exact hset s rfl (Or.inr ⟨_, hcall⟩)
  | issue ha =>
      refine hset _ rfl ?_
      rcases ha with ⟨-, hcall, -⟩ | ⟨-, hcall⟩
      · exact Or.inl hcall
      · exact Or.inr ⟨_, hcall⟩
  | repo => exact ⟨stage, ht⟩

/-- A request begins a call. -/
theorem serviceStep_request {call : ServiceCall} (hs : serviceStep s (.request t call) = some s') :
    s.calls t = none ∧ ∃ stage, s'.calls t = some (call, stage) := by
  cases serviceStep_effect hs with
  | refuse hcall | pass hcall => exact ⟨hcall, _, Service.setCall_calls_self ..⟩
  | issue ha =>
      rcases ha with ⟨ha, hcall, -⟩ | ⟨ha, -⟩
      · cases ha
        exact ⟨hcall, _, Service.setCall_calls_self ..⟩
      · cases ha

/-- What a call is to return depends on its own stages alone. -/
theorem outcome?_congr (hcalls : s'.calls t = s.calls t) (htxs : s'.db.txs t = s.db.txs t) :
    s'.outcome? t = s.outcome? t := by
  rw [Service.outcome?, Service.outcome?, hcalls, htxs]

/-- It is settled once and for all. -/
theorem serviceStep_outcome {call : ServiceCall} {r : ServiceResult}
    (hs : serviceStep s a = some s') (hr : s.outcome? t = some (call, r)) :
    s'.outcome? t = some (call, r) := by
  have hstarted : ∀ {u}, s.calls u = none ∨ (∃ call, s.calls u = some (call, .checked)) →
      t ≠ u := by
    intro u hu htu
    subst htu
    rcases hu with hu | ⟨call, hu⟩ <;> simp [Service.outcome?, hu] at hr
  have hother : ∀ {u call' stage}, t ≠ u → (s.setCall u call' stage).outcome? t = some (call, r) :=
    fun hne => (outcome?_congr (Service.setCall_calls_of_ne s _ _ hne) rfl).trans hr
  cases serviceStep_effect hs with
  | refuse hcall | pass hcall => exact hother (hstarted (Or.inl hcall))
  | duplicate hcall | notFound hcall | failLookup hcall =>
      exact hother (hstarted (Or.inr ⟨_, hcall⟩))
  | @issue _ u _ _ ha htx =>
      have hne : t ≠ u := by
        rcases ha with ⟨-, hcall, -⟩ | ⟨-, hcall⟩
        · exact hstarted (Or.inl hcall)
        · exact hstarted (Or.inr ⟨_, hcall⟩)
      refine Eq.trans (outcome?_congr ?_ ?_) hr
      · exact Service.setCall_calls_of_ne _ _ _ hne
      · exact Db.setStage_txs_of_ne s.db _ _ hne
  | @repo b db' ha hdb =>
      have hcalls : (⟨db', s.calls⟩ : Service).calls t = s.calls t := rfl
      unfold Service.outcome? at hr
      split at hr
      · rename_i hcall
        rw [Service.outcome?, hcalls, hcall]
        exact hr
      · rename_i hcall
        split at hr
        · rename_i htx
          rw [Service.outcome?, hcalls, hcall, show db'.txs t = _ from serviceStep_returned hs htx]
          exact hr
        · cases hr
      · cases hr
  | @respond u call' flagKey op r' hcall htx =>
      by_cases hne : t = u
      · subst hne
        rw [Service.outcome?, hcall, htx] at hr
        rw [Service.outcome?, Service.setCall_calls_self]
        exact hr
      · exact hother hne

theorem exec_outcome {call : ServiceCall} {r : ServiceResult} {as : List ServiceAction}
    (hrun : exec serviceStep s as = some s') (hr : s.outcome? t = some (call, r)) :
    s'.outcome? t = some (call, r) :=
  exec_preserves (I := fun s => s.outcome? t = some (call, r))
    (fun hr hs => serviceStep_outcome hs hr) hr hrun

/-- A call that has committed has returned what it committed. -/
theorem returned_of_committing {as : List ServiceAction} {s₀ : Service}
    (hrun : exec serviceStep s₀ as = some s) {tr : Transition Db Action}
    (htr : tr ∈ statements (transitions serviceStep s₀ as)) {c : Commit}
    (hc : tr.pre.committing tr.act = some c) :
    s.db.txs tr.act.tx = some ⟨c.op, .returned (c.op.result c.locals c.write)⟩ := by
  have hdb := step_of_mem_statements htr
  obtain ⟨tr', htr', -, -, hpost⟩ := mem_statements.mp htr
  obtain ⟨bs, hbs⟩ := exec_of_mem_transitions htr' hrun
  refine exec_returned hbs ?_
  rw [hpost]
  rcases step_tables hdb with ⟨hnone, -⟩ | ⟨u, c', hact, -, hc', heq⟩
  · rw [hnone] at hc
    cases hc
  · obtain rfl : c' = c := Option.some.inj (hc'.symm.trans hc)
    rw [heq, hact]
    exact Function.update_self ..

end Account

end FlagPlane
