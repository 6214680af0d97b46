import FlagPlane.Repository.Serial
import FlagPlane.Service.Calls

/-!
# FlagPlane.Service.Outbox

**Every committed event is handed to `Publish` once.** The service publishes after its repository
call has returned, from the flag it got back and not from the log, so nothing in the code pairs a
publication with an event. The pairing is `Outbox`: the events committed so far are, as
envelopes, those handed over and those still owed, and an event is owed while its call stands
between `COMMIT` and `Publish`.

A crash in between loses the publication; that is what the log is for. An `UpdateFlag` with
nothing to change publishes the row it has read, and commits nothing: its envelope is none of
the outbox's.
-/

namespace FlagPlane

/-- The envelope that an action hands to `Publish` for a call that writes. -/
def Service.handing (s : Service) (a : ServiceAction) : Option Envelope :=
  match a with
  | .respond t =>
    match s.calls t with
    | some (call, _) => if call.op.nothingToChange then none else s.publishing (.respond t)
    | none => none
  | _ => none

/-- What a run has handed to `Publish` for the calls that write. -/
def handedOver (trs : List (Transition Service ServiceAction)) : List Envelope :=
  trs.filterMap fun tr => tr.pre.handing tr.act

/-- Call `t` has committed `e` and has not published it. -/
def Service.Owes (s : Service) (t : TxId) (e : FlagEvent) : Prop :=
  ∃ call flagKey r, s.calls t = some (call, .calling flagKey) ∧
    s.db.txs t = some ⟨call.op, .returned r⟩ ∧ call.op.nothingToChange = false ∧
    r.envelope flagKey = some e.envelope

/-- What a run keeps of the events it has committed. -/
structure Outbox (trs : List (Transition Service ServiceAction)) (owed : List (TxId × FlagEvent))
    (s : Service) : Prop where
  events : (s.db.events.map FlagEvent.envelope).Perm
    (handedOver trs ++ owed.map fun p => p.2.envelope)
  calls : (owed.map Prod.fst).Nodup
  logged : ∀ p ∈ owed, p.2 ∈ s.db.events
  owes : ∀ p ∈ owed, s.Owes p.1 p.2
  /-- A call that is to publish something is one that owes it. -/
  complete : ∀ t call flagKey r env, s.calls t = some (call, .calling flagKey) →
    s.db.txs t = some ⟨call.op, .returned r⟩ → call.op.nothingToChange = false →
    r.envelope flagKey = some env → ∃ e, (t, e) ∈ owed

section Step

variable {trs : List (Transition Service ServiceAction)} {owed : List (TxId × FlagEvent)}
  {s s' : Service} {a : ServiceAction} {t : TxId} {e : FlagEvent}

theorem handedOver_append (trs : List (Transition Service ServiceAction)) :
    handedOver (trs ++ [⟨s, a, s'⟩]) = handedOver trs ++ (s.handing a).toList := by
  rw [handedOver, List.filterMap_append, ← handedOver, List.filterMap_cons, List.filterMap_nil]
  cases s.handing a <;> rfl

theorem handing_eq_none (ha : ∀ t, a ≠ .respond t) : s.handing a = none := by
  cases a with
  | respond t => exact absurd rfl (ha t)
  | _ => rfl

/-- What a call owes depends on that call alone. -/
theorem Service.Owes.frame (h : s.Owes t e) (hcalls : s'.calls t = s.calls t)
    (htxs : s'.db.txs t = s.db.txs t) : s'.Owes t e := by
  obtain ⟨call, flagKey, r, hcall, htx, hop, henv⟩ := h
  exact ⟨call, flagKey, r, hcalls.trans hcall, htxs.trans htx, hop, henv⟩

/-- A step that publishes nothing, commits nothing and makes no call return a version. -/
theorem Outbox.frame (h : Outbox trs owed s) (ha : s.handing a = none)
    (hevents : s'.db.events = s.db.events) (howes : ∀ p ∈ owed, s'.Owes p.1 p.2)
    (hback : ∀ t call flagKey r env, s'.calls t = some (call, .calling flagKey) →
      s'.db.txs t = some ⟨call.op, .returned r⟩ → call.op.nothingToChange = false →
      r.envelope flagKey = some env →
      s.calls t = some (call, .calling flagKey) ∧ s.db.txs t = some ⟨call.op, .returned r⟩) :
    Outbox (trs ++ [⟨s, a, s'⟩]) owed s' where
  events := by
    rw [handedOver_append, ha, Option.toList_none, List.append_nil, hevents]
    exact h.events
  calls := h.calls
  logged p hp := hevents ▸ h.logged p hp
  owes := howes
  complete t call flagKey r env hcall htx hop henv := by
    obtain ⟨hcall', htx'⟩ := hback t call flagKey r env hcall htx hop henv
    exact h.complete t call flagKey r env hcall' htx' hop henv

/-- A call that has not reached its repository call moves. -/
theorem Outbox.setCall (h : Outbox trs owed s) {call : ServiceCall} {stage : ServiceStage}
    (ha : s.handing a = none) (hcall : ∀ call flagKey, s.calls t ≠ some (call, .calling flagKey))
    (hstage : ∀ flagKey, stage ≠ .calling flagKey) :
    Outbox (trs ++ [⟨s, a, s.setCall t call stage⟩]) owed (s.setCall t call stage) := by
  refine h.frame ha rfl (fun p hp => ?_) fun u call' flagKey r env hu htx _ _ => ?_
  · obtain ⟨call', flagKey, r, hcall', -⟩ := h.owes p hp
    have hne : p.1 ≠ t := fun heq => hcall call' flagKey (heq ▸ hcall')
    exact (h.owes p hp).frame (s.setCall_calls_of_ne call stage hne) rfl
  · rcases update_some_cases hu with ⟨-, heq⟩ | ⟨-, hu⟩
    · exact absurd (Prod.mk.inj heq).2.symm (hstage flagKey)
    · exact ⟨hu, htx⟩

/-- **What a commit's call is to publish is its event.** -/
theorem DbInv.envelope_commit {db : Db} (h : DbInv db) {c : Commit} {flagKey : String}
    (ht : db.txs t = some ⟨c.op, .logged c.locals c.write c.event⟩)
    (hkey : ∀ id, c.op = .delete id → c.locals.key = flagKey)
    (hs : FlagPlane.step db (.commit t) = some (db.committed t c)) :
    (c.op.result c.locals c.write).envelope flagKey = some c.event.envelope := by
  have hrec := h.recorded_commit ht hkey
  have hrecords := @DbInv.event_records db t c h ht
  have hv := h.result_version ht
  have hmem : c.event ∈ (db.committed t c).events :=
    List.mem_append_right _ (List.mem_singleton.mpr rfl)
  generalize c.op.result c.locals c.write = r at hrec hv hrecords
  cases r with
  | created f => exact congrArg some (publishFlagUpdate_eq (hrecords (Or.inl rfl)))
  | flag f =>
      cases f with
      | none => cases hv
      | some f => exact congrArg some (publishFlagUpdate_eq (hrecords (Or.inr rfl)))
  | deleted v =>
      obtain ⟨ev, hev, hevv, hty, hflag⟩ := hrec
      obtain rfl : ev = c.event := List.inj_on_of_nodup_map (h.step hs).versions hev hmem
        (hevv.trans (Option.some.inj hv))
      exact congrArg some (publishFlagDelete_eq hevv hty hflag)
  | error err => cases hv

/-- A repository call begins. -/
theorem Outbox.issue (h : Outbox trs owed s) {call : ServiceCall} {flagKey : String}
    (ha : s.handing a = none) (htx : s.db.txs t = none) :
    Outbox (trs ++ [⟨s, a,
        { s with db := s.db.setStage t call.op .called }.setCall t call (.calling flagKey)⟩]) owed
      ({ s with db := s.db.setStage t call.op .called }.setCall t call (.calling flagKey)) := by
  refine h.frame ha rfl (fun p hp => ?_) fun u call' flagKey' r env hu htx' _ _ => ?_
  · have hne : p.1 ≠ t := by
      obtain ⟨call', flagKey', r, -, htx', -⟩ := h.owes p hp
      intro heq
      rw [heq, htx] at htx'
      cases htx'
    exact (h.owes p hp).frame (Service.setCall_calls_of_ne _ _ _ hne)
      (Db.setStage_txs_of_ne _ _ _ hne)
  · by_cases hne : u = t
    · subst hne
      rw [Service.setCall_db, Db.setStage_txs_self] at htx'
      simp at htx'
    · rw [Service.setCall_calls_of_ne _ _ _ hne] at hu
      rw [Service.setCall_db, Db.setStage_txs_of_ne _ _ _ hne] at htx'
      exact ⟨hu, htx'⟩

/-- A statement other than a `COMMIT` that succeeds. -/
theorem Outbox.repo (h : Outbox trs owed s) {b : Action} {db' : Db} (hb : b.isCall = false)
    (hs : step s.db b = some db') (hc : s.db.committing b = none) :
    Outbox (trs ++ [⟨s, .repo b, { s with db := db' }⟩]) owed { s with db := db' } := by
  obtain ⟨-, -, hevents⟩ | ⟨t, c, -, -, hsome, -⟩ := step_tables hs
  swap
  · rw [hc] at hsome
    cases hsome
  refine h.frame (handing_eq_none fun t => by simp) hevents (fun p hp => ?_)
    fun u call flagKey r env hu htx hop henv => ⟨hu, ?_⟩
  · obtain ⟨call, flagKey, r, hcall, htx, hop, henv⟩ := h.owes p hp
    rcases step_tx hb hs p.1 with ⟨hnone, -⟩ | ⟨op, st, st', hst, hst', hret⟩
    · rw [htx] at hnone
      cases hnone
    · obtain ⟨rfl, rfl⟩ : call.op = op ∧ .returned r = st := by simpa using htx.symm.trans hst
      exact ⟨call, flagKey, r, hcall, by rw [hst', hret r rfl], hop, henv⟩
  · -- A call that returns now, without a commit, has no version to publish.
    rcases step_returns hs htx with hold | hreturns
    · exact hold
    · exfalso
      generalize call.op = op at hop hreturns
      cases hreturns with
      | read hnothing =>
          rw [hop] at hnothing
          cases hnothing
      | noRow =>
          have hnone := noRowResult_version s.db op
          cases hr : s.db.noRowResult op with
          | created f | deleted v => rw [hr] at hnone; cases hnone
          | error err => rw [hr] at henv; cases henv
          | flag f =>
              rw [hr] at hnone henv
              cases f with
              | none => cases henv
              | some f => cases hnone
      | commit ht => rw [committing_eq_some.mpr ⟨_, rfl, ht⟩] at hc; cases hc
      | gone | nilUsers | refused | duplicate | eventTaken | fail => cases henv

/-- A `COMMIT` that succeeds: its call now owes its event. -/
theorem Outbox.commit (h : Outbox trs owed s) (hinv : ServiceInv s) (hlinked : Linked s)
    (hway : Underway s.db) {db' : Db} (hs : step s.db (.commit t) = some db') :
    ∃ e, Outbox (trs ++ [⟨s, .repo (.commit t), { s with db := db' }⟩]) ((t, e) :: owed)
      { s with db := db' } := by
  obtain ⟨c, ht, rfl⟩ := step_commit hs
  obtain ⟨call, hop, hcall⟩ := hlinked.tx t _ ht
  obtain ⟨flagKey, hcall⟩ : ∃ flagKey, s.calls t = some (call, .calling flagKey) := by
    rcases hcall with hcall | ⟨r, hr, -⟩
    · exact hcall
    · cases hr
  have hop : c.op = call.op := hop
  have hchange : call.op.nothingToChange = false := by
    rcases hway.changing t _ _ ht with hst | hst | hchange
    · cases hst
    · cases hst
    · exact hop ▸ hchange
  obtain ⟨st, hst, hc⟩ := hinv.calls t call flagKey hcall
  obtain rfl : .logged c.locals c.write c.event = st :=
    congrArg Tx.stage (Option.some.inj (ht.symm.trans hst))
  have henv := hinv.db.envelope_commit ht (fun id hid => hc.read id _ (hop ▸ hid) rfl) hs
  have hself : (s.db.committed t c).txs t =
      some ⟨call.op, .returned (c.op.result c.locals c.write)⟩ :=
    hop ▸ Function.update_self ..
  have hother : ∀ {u}, u ≠ t → (s.db.committed t c).txs u = s.db.txs u :=
    fun hne => Function.update_of_ne hne _ _
  have hnew : ∀ p ∈ owed, p.1 ≠ t := by
    intro p hp heq
    obtain ⟨call', flagKey', r, -, htx, -⟩ := h.owes p hp
    rw [heq, ht] at htx
    simp at htx
  refine ⟨c.event, ?_, ?_, ?_, ?_, ?_⟩
  · rw [handedOver_append, handing_eq_none fun t => by simp, Option.toList_none, List.append_nil,
      List.map_cons]
    show ((s.db.events ++ [c.event]).map FlagEvent.envelope).Perm _
    rw [List.map_append]
    refine (h.events.append_right _).trans ?_
    rw [List.append_assoc]
    exact (List.perm_append_singleton _ _).append_left _
  · rw [List.map_cons, List.nodup_cons]
    exact ⟨by simpa using fun e he => hnew (t, e) he rfl, h.calls⟩
  · intro p hp
    rcases List.mem_cons.mp hp with rfl | hp
    · exact List.mem_append_right _ List.mem_cons_self
    · exact List.mem_append_left _ (h.logged p hp)
  · intro p hp
    rcases List.mem_cons.mp hp with rfl | hp
    · exact ⟨call, flagKey, _, hcall, hself, hchange, henv⟩
    · exact (h.owes p hp).frame rfl (hother (hnew p hp))
  · intro u call' flagKey' r env hu htx hop' henv'
    by_cases hut : u = t
    · exact ⟨c.event, by rw [hut]; exact List.mem_cons_self⟩
    · obtain ⟨e, he⟩ :=
        h.complete u call' flagKey' r env hu ((hother hut).symm.trans htx) hop' henv'
      exact ⟨e, List.mem_cons_of_mem _ he⟩

/-- A call returns, and what it owed is off the list. -/
theorem Outbox.answer (h : Outbox trs owed s) {owed' : List (TxId × FlagEvent)}
    {call : ServiceCall} {r : ServiceResult} (hsub : owed'.Sublist owed)
    (hgone : ∀ p ∈ owed', p.1 ≠ t) (hkept : ∀ p ∈ owed, p.1 ≠ t → p ∈ owed')
    (hevents : (owed.map fun p => p.2.envelope).Perm
      ((s.handing a).toList ++ owed'.map fun p => p.2.envelope)) :
    Outbox (trs ++ [⟨s, a, s.setCall t call (.returned r)⟩]) owed'
      (s.setCall t call (.returned r)) where
  events := by
    rw [handedOver_append, List.append_assoc]
    exact h.events.trans (hevents.append_left _)
  calls := h.calls.sublist (hsub.map _)
  logged p hp := h.logged p (hsub.subset hp)
  owes p hp := (h.owes p (hsub.subset hp)).frame (s.setCall_calls_of_ne call _ (hgone p hp)) rfl
  complete u call' flagKey r' env hu htx hop henv := by
    rcases update_some_cases hu with ⟨-, heq⟩ | ⟨hne, hu⟩
    · cases (Prod.mk.inj heq).2
    · obtain ⟨e, he⟩ := h.complete u call' flagKey r' env hu htx hop henv
      exact ⟨e, hkept _ he hne⟩

/-- The repository call has returned: what its call owes is published. -/
theorem Outbox.respond (h : Outbox trs owed s) {call : ServiceCall} {flagKey : String}
    {r : RepoResult} (hcall : s.calls t = some (call, .calling flagKey))
    (htx : s.db.txs t = some ⟨call.op, .returned r⟩) :
    ∃ owed', Outbox (trs ++ [⟨s, .respond t, s.setCall t call (.returned r.response)⟩]) owed'
      (s.setCall t call (.returned r.response)) := by
  have hhanding : s.handing (.respond t) =
      if call.op.nothingToChange then none else r.envelope flagKey := by
    rw [Service.handing, hcall]
    dsimp only
    rw [Service.publishing, hcall, htx]
  -- what `t` owes, if anything, is what it publishes
  have howes : ∀ e, (t, e) ∈ owed → s.handing (.respond t) = some e.envelope := by
    intro e he
    obtain ⟨call', flagKey', r', hcall', htx', hop, henv⟩ := h.owes _ he
    obtain ⟨rfl, hkey⟩ := Prod.mk.inj (Option.some.inj (hcall.symm.trans hcall'))
    obtain rfl := ServiceStage.calling.inj hkey
    obtain rfl : r = r' := by simpa using htx.symm.trans htx'
    rw [hhanding, hop]
    exact henv
  cases hh : s.handing (.respond t) with
  | none =>
      have hnot : ∀ p ∈ owed, p.1 ≠ t := by
        rintro ⟨u, e⟩ hp rfl
        rw [howes e hp] at hh
        cases hh
      exact ⟨owed, h.answer (List.Sublist.refl _) hnot (fun p hp _ => hp) (by rw [hh]; simp)⟩
  | some env =>
      obtain ⟨e, he⟩ : ∃ e, (t, e) ∈ owed := by
        rw [hhanding] at hh
        split at hh
        · cases hh
        · rename_i hop
          exact h.complete t call flagKey r env hcall htx (by simpa using hop) hh
      obtain rfl : env = e.envelope := Option.some.inj (hh.symm.trans (howes e he))
      obtain ⟨l₁, l₂, rfl⟩ := List.append_of_mem he
      have hcalls := h.calls
      rw [List.map_append, List.map_cons, List.nodup_middle, List.nodup_cons, ← List.map_append]
        at hcalls
      refine ⟨l₁ ++ l₂, h.answer ?_ (fun p hp heq => ?_) (fun p hp hne => ?_) ?_⟩
      · exact (List.Sublist.refl l₁).append (List.sublist_cons_self _ _)
      · have hmem := List.mem_map_of_mem (f := Prod.fst) hp
        rw [heq] at hmem
        exact hcalls.1 hmem
      · rw [List.mem_append, List.mem_cons] at hp
        rw [List.mem_append]
        rcases hp with hp | rfl | hp
        · exact Or.inl hp
        · exact absurd rfl hne
        · exact Or.inr hp
      · rw [hh, List.map_append, List.map_append, List.map_cons]
        exact List.perm_middle

/-- **Every action keeps the outbox.** -/
theorem Outbox.step (h : Outbox trs owed s) (hinv : ServiceInv s) (hlinked : Linked s)
    (hway : Underway s.db) (hs : serviceStep s a = some s') :
    ∃ owed', Outbox (trs ++ [⟨s, a, s'⟩]) owed' s' := by
  cases serviceStep_effect hs with
  | refuse hcall | pass hcall =>
      exact ⟨owed, h.setCall (handing_eq_none (by simp)) (by simp [hcall]) (by simp)⟩
  | duplicate hcall | notFound hcall | failLookup hcall =>
      exact ⟨owed, h.setCall (handing_eq_none (by simp)) (by simp [hcall]) (by simp)⟩
  | issue ha htx =>
      refine ⟨owed, h.issue (handing_eq_none fun t => ?_) htx⟩
      rcases ha with ⟨rfl, -⟩ | ⟨rfl, -⟩ <;> simp
  | @repo b db' hb hdb =>
      rcases step_tables hdb with ⟨hc, -⟩ | ⟨t, c, rfl, -⟩
      · exact ⟨owed, h.repo hb hdb hc⟩
      · obtain ⟨e, h'⟩ := h.commit hinv hlinked hway hdb
        exact ⟨_, h'⟩
  | @respond t call flagKey op r hcall htx =>
      obtain ⟨st, htx', -⟩ := hinv.calls t call flagKey hcall
      obtain ⟨rfl, -⟩ : op = call.op ∧ _ := by simpa using htx.symm.trans htx'
      exact h.respond hcall htx

end Step

/-! ### Runs -/

theorem Outbox.start (rows : List FlagRow) : Outbox [] [] (Service.migrated rows) :=
  ⟨List.Perm.refl _, List.nodup_nil, by simp, by simp, fun _ _ _ _ _ h => by cases h⟩

theorem Outbox.of_exec {rows : List FlagRow} (hrows : Migrated rows) {as : List ServiceAction}
    {s : Service} (hrun : exec serviceStep (Service.migrated rows) as = some s) :
    ∃ owed, Outbox (transitions serviceStep (Service.migrated rows) as) owed s := by
  have hall : (ServiceInv s ∧ Linked s ∧ Underway s.db) ∧
      ∃ owed, Outbox (transitions serviceStep (Service.migrated rows) as) owed s := by
    refine exec_history (P := fun trs s => (ServiceInv s ∧ Linked s ∧ Underway s.db) ∧
      ∃ owed, Outbox trs owed s) (fun h hs => ?_) ?_ hrun
    · obtain ⟨⟨hinv, hlinked, hway⟩, owed, h⟩ := h
      refine ⟨⟨hinv.serviceStep hs, hlinked.step hs, ?_⟩, h.step hinv hlinked hway hs⟩
      exact serviceStep_preserves (fun hway hs => hway.step hs) hway hs
    · exact ⟨⟨hrows.serviceInv, linked_migrated rows, underway_migrated rows⟩, [], .start rows⟩
  exact hall.2

/-- **Exactly once.** However the calls interleave, the envelopes of the committed events are those
that the writing calls have handed to `Publish`, each once, and one for each of some calls that
have committed and not yet published. Once no call is between its `COMMIT` and `Publish`, nothing is
owed. -/
theorem events_handed_over_once {rows : List FlagRow} (hrows : Migrated rows)
    {as : List ServiceAction} {s : Service}
    (hrun : exec serviceStep (Service.migrated rows) as = some s) :
    ∃ owed : List (TxId × FlagEvent),
      (s.db.events.map FlagEvent.envelope).Perm
        (handedOver (transitions serviceStep (Service.migrated rows) as) ++
          owed.map fun p => p.2.envelope) ∧
      (owed.map Prod.fst).Nodup ∧ (∀ p ∈ owed, p.2 ∈ s.db.events ∧ s.Owes p.1 p.2) ∧
      ((∀ t call flagKey, s.calls t ≠ some (call, .calling flagKey)) → owed = []) := by
  obtain ⟨owed, h⟩ := Outbox.of_exec hrows hrun
  refine ⟨owed, h.events, h.calls, fun p hp => ⟨h.logged p hp, h.owes p hp⟩, fun hquiet => ?_⟩
  rw [List.eq_nil_iff_forall_not_mem]
  intro p hp
  obtain ⟨call, flagKey, r, hcall, -⟩ := h.owes p hp
  exact hquiet p.1 call flagKey hcall

/-- Two toggles commit one way round and are published the other. -/
def crossedToggles : List ServiceAction :=
  [.request 0 (.toggleFlag "u"), .request 1 (.toggleFlag "u"), .repo (.begin 0 1),
    .repo (.begin 1 1), .repo (.nextval 0), .repo (.nextval 1), .repo (.scan 0), .repo (.lock 0),
    .repo (.appendEvent 0), .repo (.commit 0), .repo (.scan 1), .repo (.lock 1),
    .repo (.appendEvent 1), .repo (.commit 1), .respond 1]

theorem events_handed_over_once_crossedToggles :
    ∃ s, exec serviceStep (Service.migrated [checkoutRow]) crossedToggles = some s ∧
      ∃ owed : List (TxId × FlagEvent),
        (s.db.events.map FlagEvent.envelope).Perm
          (handedOver (transitions serviceStep (Service.migrated [checkoutRow]) crossedToggles) ++
            owed.map fun p => p.2.envelope) ∧
        (owed.map Prod.fst).Nodup ∧ (∀ p ∈ owed, p.2 ∈ s.db.events ∧ s.Owes p.1 p.2) ∧
        ((∀ t call flagKey, s.calls t ≠ some (call, .calling flagKey)) → owed = []) :=
  ⟨_, rfl, events_handed_over_once migrated_checkoutRow rfl⟩

end FlagPlane
