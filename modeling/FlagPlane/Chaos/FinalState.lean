import FlagPlane.Chaos.ConcurrentWriters
import FlagPlane.Repository.RowChain

/-!
# FlagPlane.Chaos.FinalState

**The final state that `concurrent-writers` expects.** Toggles may commit against the order of the
versions they have drawn, and then the row is left behind its log. Updates that name a version they
have read cannot: an update draws its version after its caller has read the one it names, and commits
on top of that one. So the events of guarded writers are committed in version order
(`guarded_updates_in_order`), and one guarded update that succeeds brings the row and the log together
again, whatever the toggles before it have done (`final_check_iff`).
-/

namespace FlagPlane

/-- The last check of `concurrentWriters`, of the flag's version and the server's. -/
def finalCheck (finalVersion latest : Int) : Option String :=
  if finalVersion ≠ latest then
    some ("final flag version " ++ toString finalVersion ++ " != server latest " ++ toString latest)
  else none

/-- A call of phase 2: an update of `id` that names a version which has been drawn, as every version
that can have been read has. -/
def ServiceCall.GuardedOn (id : String) (seq : Int) (call : ServiceCall) : Prop :=
  ∃ req v, call = .updateFlag id req ∧ req.expectedVersion = some v ∧ v ≤ seq

/-- The requests of phase 2. -/
def GuardedRequest (id : String) (s : Service) (a : ServiceAction) : Prop :=
  ∀ t call, a = .request t call → call.GuardedOn id s.db.seq

/-- The version after some events. -/
def lastVersion (v₀ : Int) (events : List FlagEvent) : Int :=
  (events.getLast?.map FlagEvent.version).getD v₀

/-- What guarded writers keep from `s₀` on, where the row `r₀` is there and nothing is under way;
`new` is what they have committed. -/
structure Guarded (s₀ : Service) (r₀ : FlagRow) (new : List FlagEvent) (s : Service) : Prop where
  inv : ServiceInv s
  seq : s₀.db.seq ≤ s.db.seq
  waiting : ∀ t call, s.calls t = some (call, .checked) → call.GuardedOn r₀.id s.db.seq
  events : s.db.events = s₀.db.events ++ new
  rising : (getLatestVersion s₀.db.events :: new.map FlagEvent.version).Pairwise (· < ·)
  top : ∀ e ∈ new, e.version ≤ lastVersion r₀.version new
  keys : ∀ e ∈ new, e.flagKey = r₀.key
  row : ∃ row ∈ s.db.flags, row.id = r₀.id ∧ row.key = r₀.key ∧
    row.version = lastVersion r₀.version new
  /-- A call under way is guarded, and draws a version above the one it names. -/
  flying : ∀ t tx, s.db.txs t = some tx → tx.stage.isReturned = false →
    ∃ req v, tx.op = .update r₀.id req ∧ req.expectedVersion = some v ∧ v ≤ s.db.seq ∧
      ∀ n, tx.stage.version? = some n → v < n ∧ s₀.db.seq < n

section Guarded

variable {s₀ s s' : Service} {r₀ : FlagRow} {new : List FlagEvent} {a : ServiceAction} {b : Action}
  {db' : Db} {c : Commit} {t : TxId}

@[simp] theorem lastVersion_nil (v₀ : Int) : lastVersion v₀ [] = v₀ := rfl

@[simp] theorem lastVersion_append (v₀ : Int) (events : List FlagEvent) (e : FlagEvent) :
    lastVersion v₀ (events ++ [e]) = e.version := by
  simp [lastVersion]

theorem ServiceCall.GuardedOn.mono {id : String} {seq seq' : Int} {call : ServiceCall}
    (h : call.GuardedOn id seq) (hle : seq ≤ seq') : call.GuardedOn id seq' := by
  obtain ⟨req, v, hcall, hv, hseq⟩ := h
  exact ⟨req, v, hcall, hv, hseq.trans hle⟩

/-- Calls under way stay guarded. -/
theorem Guarded.flying_step (h : Guarded s₀ r₀ new s) (ha : b.isCall = false)
    (hdb : step s.db b = some db') {tx : Tx} (ht : db'.txs t = some tx)
    (hret : tx.stage.isReturned = false) :
    ∃ req v, tx.op = .update r₀.id req ∧ req.expectedVersion = some v ∧ v ≤ db'.seq ∧
      ∀ n, tx.stage.version? = some n → v < n ∧ s₀.db.seq < n := by
  rcases step_tx ha hdb t with ⟨-, hnone⟩ | ⟨op, st, st', htx, htx', hstay⟩
  · rw [ht] at hnone
    cases hnone
  · obtain rfl : tx = ⟨op, st'⟩ := Option.some.inj (ht.symm.trans htx')
    have hopen : st.isReturned = false := by
      cases st with
      | returned r => rw [hstay r rfl] at hret; cases hret
      | _ => rfl
    obtain ⟨req, v, hop, hv, hle, hdrawn⟩ := h.flying t _ htx hopen
    have hseq := step_seq_le hdb
    refine ⟨req, v, hop, hv, hle.trans hseq, fun n hn => ?_⟩
    rcases step_version hdb htx' hn with rfl | ⟨tx₀, htx₀, hn₀⟩
    · have hbefore := h.seq
      omega
    · obtain rfl := Option.some.inj (htx.symm.trans htx₀)
      exact hdrawn n hn₀

/-- What a guarded update commits: a row above the one it found, which is the last one. -/
theorem Guarded.commit_update (h : Guarded s₀ r₀ new s)
    (ht : s.db.txs t = some ⟨c.op, .logged c.locals c.write c.event⟩) :
    ∃ row, c.write = .update row ∧ row.id = r₀.id ∧ row.key = r₀.key ∧
      row.version = c.event.version ∧ lastVersion r₀.version new < c.event.version ∧
      s₀.db.seq < c.event.version := by
  obtain ⟨req, v, hop, hv, -, hdrawn⟩ := h.flying t _ ht rfl
  have hop' : c.op = .update r₀.id req := hop
  obtain ⟨row, hw, hid⟩ := (h.inv.db.updates_iff ht).mp
    (show c.updates r₀.id = true by rw [Commit.updates, hop']; simp [Op.isCreate, Op.isDelete, Op.flagId])
  obtain ⟨prev, hprev, hprevid, hversion, -, hfollows⟩ := h.inv.db.follows ht hw
  rw [hop'] at hfollows
  obtain ⟨hrow, hexpected⟩ := hfollows
  obtain ⟨cur, hcur, hcurid, hcurkey, hcurv⟩ := h.row
  obtain rfl : prev = cur := h.inv.db.table.eq_of_id hprev hcur (by rw [hprevid, hid, hcurid])
  have hev := h.inv.db.event_version ht
  obtain ⟨hlt, hseq⟩ := hdrawn c.locals.version rfl
  refine ⟨row, hw, hid, ?_, hversion.trans hev.symm, ?_, hev ▸ hseq⟩
  · rw [hrow, ← hcurkey]
    rfl
  · rw [hev, ← hcurv, hexpected v hv]
    exact hlt

theorem Guarded.repo (h : Guarded s₀ r₀ new s) (hinv₀ : DbInv s₀.db) (ha : b.isCall = false)
    (hs : serviceStep s (.repo b) = some { s with db := db' }) (hdb : step s.db b = some db') :
    ∃ new', Guarded s₀ r₀ new' { s with db := db' } := by
  have hseq := h.seq.trans (step_seq_le hdb)
  have hwaiting : ∀ t call, s.calls t = some (call, .checked) → call.GuardedOn r₀.id db'.seq :=
    fun t call hcall => (h.waiting t call hcall).mono (step_seq_le hdb)
  rcases step_tables hdb with ⟨-, hflags, hevents⟩ | ⟨t, c, rfl, ht, -, rfl⟩
  · refine ⟨new, h.inv.serviceStep hs, hseq, hwaiting, hevents.trans h.events, h.rising, h.top,
      h.keys, ?_, fun _ _ => h.flying_step ha hdb⟩
    rw [show ({ s with db := db' } : Service).db.flags = s.db.flags from hflags]
    exact h.row
  · obtain ⟨row, hw, hid, hkey, hversion, habove, hnew⟩ := h.commit_update ht
    have hlatest := hinv₀.latest_le_seq
    refine ⟨new ++ [c.event], h.inv.serviceStep hs, hseq, hwaiting, ?_, ?_, ?_, ?_, ?_,
      fun _ _ => h.flying_step ha hdb⟩
    · rw [← List.append_assoc, ← h.events]
      rfl
    · rw [List.map_append, ← List.cons_append, List.pairwise_append]
      refine ⟨h.rising, List.pairwise_singleton _ _, fun x hx y hy => ?_⟩
      obtain rfl : y = c.event.version := by simpa using hy
      rcases List.mem_cons.mp hx with rfl | hx
      · omega
      · obtain ⟨e, he, rfl⟩ := List.mem_map.mp hx
        exact lt_of_le_of_lt (h.top e he) habove
    · intro e he
      rw [lastVersion_append]
      rcases List.mem_append.mp he with he | he
      · exact ((h.top e he).trans_lt habove).le
      · rw [List.mem_singleton.mp he]
    · intro e he
      rcases List.mem_append.mp he with he | he
      · exact h.keys e he
      · rw [List.mem_singleton.mp he, h.inv.db.event_key ht (show c.write.row? = some row by
          rw [hw]; rfl), hkey]
    · refine ⟨row, ?_, hid, hkey, by rw [lastVersion_append, hversion]⟩
      show row ∈ applyWrite s.db.flags c.write
      have hfits := h.inv.db.write_fits ht
      rw [hw] at hfits ⊢
      exact (mem_applyWrite_update hfits).mpr (Or.inr rfl)

/-- **Every action keeps it**, as long as the requests are guarded. -/
theorem Guarded.step (h : Guarded s₀ r₀ new s) (hinv₀ : DbInv s₀.db)
    (hguard : GuardedRequest r₀.id s a) (hs : serviceStep s a = some s') :
    ∃ new', Guarded s₀ r₀ new' s' := by
  -- a call moves, and the database stays
  have hset : ∀ {t call stage}, s' = s.setCall t call stage →
      (stage = .checked → call.GuardedOn r₀.id s.db.seq) → ∃ new', Guarded s₀ r₀ new' s' := by
    rintro t call stage rfl hcall
    refine ⟨new, h.inv.serviceStep hs, h.seq, fun u call' hu => ?_, h.events, h.rising, h.top,
      h.keys, h.row, h.flying⟩
    rcases update_some_cases hu with ⟨-, heq⟩ | ⟨-, hu⟩
    · obtain ⟨rfl, hstage⟩ := Prod.mk.inj heq
      exact hcall hstage.symm
    · exact h.waiting u call' hu
  cases serviceStep_effect hs with
  | refuse | respond => exact hset rfl (by simp)
  | pass => exact hset rfl fun _ => hguard _ _ rfl
  | duplicate | notFound | failLookup => exact hset rfl (by simp)
  | repo ha hdb => exact h.repo hinv₀ ha hs hdb
  | @issue a t call flagKey ha htx =>
      have hcall : call.GuardedOn r₀.id s.db.seq := by
        rcases ha with ⟨rfl, -⟩ | ⟨-, hcall⟩
        · exact hguard t call rfl
        · exact h.waiting t call hcall
      obtain ⟨req, v, rfl, hv, hle⟩ := hcall
      refine ⟨new, h.inv.serviceStep hs, h.seq, fun u call hu => ?_, h.events, h.rising, h.top,
        h.keys, h.row, fun u tx hu hret => ?_⟩
      · rcases update_some_cases hu with ⟨-, heq⟩ | ⟨-, hu⟩
        · cases (Prod.mk.inj heq).2
        · exact h.waiting u call hu
      · rcases update_some_cases hu with ⟨-, rfl⟩ | ⟨-, hu⟩
        · exact ⟨req, v, rfl, hv, hle, fun n hn => by cases hn⟩
        · exact h.flying u tx hu hret

/-- A service with nothing under way. -/
def Service.Quiet (s : Service) : Prop :=
  ∀ t call stage, s.calls t = some (call, stage) → ∃ r, stage = .returned r

theorem guarded_start {rows : List FlagRow} (hrows : Migrated rows) {as₀ : List ServiceAction}
    (h₀ : exec serviceStep (Service.migrated rows) as₀ = some s₀) (hquiet : s₀.Quiet)
    (hrow : r₀ ∈ s₀.db.flags) : Guarded s₀ r₀ [] s₀ where
  inv := (ServiceAccount.of_exec hrows h₀).inv
  seq := le_refl _
  waiting t call hcall := by
    obtain ⟨r, hr⟩ := hquiet t call _ hcall
    cases hr
  events := (List.append_nil _).symm
  rising := List.pairwise_singleton _ _
  top e he := by cases he
  keys e he := by cases he
  row := ⟨r₀, hrow, rfl, rfl, rfl⟩
  flying t tx ht hret := by
    obtain ⟨call, -, ⟨flagKey, hcall⟩ | ⟨r, hr, -⟩⟩ :=
      (ServiceAccount.of_exec hrows h₀).linked.tx t tx ht
    · obtain ⟨r, hr⟩ := hquiet t call _ hcall
      cases hr
    · rw [hr] at hret
      cases hret

/-- What guarded writers keep, they keep over a run. -/
theorem guarded_of_exec {rows : List FlagRow} (hrows : Migrated rows)
    {as₀ as : List ServiceAction} (h₀ : exec serviceStep (Service.migrated rows) as₀ = some s₀)
    (hquiet : s₀.Quiet) (hrow : r₀ ∈ s₀.db.flags) (hrun : exec serviceStep s₀ as = some s)
    (hguard : ∀ tr ∈ transitions serviceStep s₀ as, GuardedRequest r₀.id tr.pre tr.act) :
    ∃ new, Guarded s₀ r₀ new s := by
  have hinv₀ := (ServiceAccount.of_exec hrows h₀).inv.db
  refine exec_preserves_of (I := fun s => ∃ new, Guarded s₀ r₀ new s) ?_
    ⟨[], guarded_start hrows h₀ hquiet hrow⟩ hguard hrun
  intro s a s' h hC hs
  obtain ⟨new, h⟩ := h
  exact h.step hinv₀ hC hs

/-- After some guarded commits the row is at the latest version. -/
theorem Guarded.latest (h : Guarded s₀ r₀ new s) (hnew : new ≠ []) :
    getLatestVersion s.db.events = lastVersion r₀.version new := by
  obtain ⟨before, e, rfl⟩ := List.eq_nil_or_concat new |>.resolve_left hnew
  rw [List.concat_eq_append] at h ⊢
  rw [lastVersion_append]
  have hmem : e ∈ s.db.events := by
    rw [h.events]
    simp
  refine le_antisymm ?_ (le_getLatestVersion hmem)
  obtain ⟨e', he', hv⟩ := getLatestVersion_mem (List.ne_nil_of_mem hmem)
  rw [← hv]
  rw [h.events, List.mem_append] at he'
  rcases he' with he' | he'
  · have hle := le_getLatestVersion he'
    have hlt := (List.pairwise_cons.mp h.rising).1 e.version (by simp)
    exact (hle.trans_lt hlt).le
  · have htop := h.top e' he'
    rwa [lastVersion_append] at htop

/-- **Guarded writers commit in version order.** However updates interleave that name versions their
callers have read: their events are committed with rising versions, above all that were committed
before, and the row is at the version of the last. -/
theorem guarded_updates_in_order {rows : List FlagRow} (hrows : Migrated rows)
    {as₀ as : List ServiceAction} (h₀ : exec serviceStep (Service.migrated rows) as₀ = some s₀)
    (hquiet : s₀.Quiet) (hrow : r₀ ∈ s₀.db.flags) (hrun : exec serviceStep s₀ as = some s)
    (hguard : ∀ tr ∈ transitions serviceStep s₀ as, GuardedRequest r₀.id tr.pre tr.act) :
    ∃ new, s.db.events = s₀.db.events ++ new ∧
      (getLatestVersion s₀.db.events :: new.map FlagEvent.version).Pairwise (· < ·) ∧
      (∀ e ∈ new, e.flagKey = r₀.key) ∧
      ∃ row ∈ s.db.flags, row.id = r₀.id ∧ row.version = lastVersion r₀.version new := by
  obtain ⟨new, h⟩ := guarded_of_exec hrows h₀ hquiet hrow hrun hguard
  obtain ⟨row, hmem, hid, -, hversion⟩ := h.row
  exact ⟨new, h.events, h.rising, h.keys, row, hmem, hid, hversion⟩

/-- **The final check.** It passes exactly when a guarded update has succeeded, or the row had been
at the latest version before. -/
theorem final_check_iff {rows : List FlagRow} (hrows : Migrated rows)
    {as₀ as : List ServiceAction} (h₀ : exec serviceStep (Service.migrated rows) as₀ = some s₀)
    (hquiet : s₀.Quiet) (hrow : r₀ ∈ s₀.db.flags) (hrun : exec serviceStep s₀ as = some s)
    (hguard : ∀ tr ∈ transitions serviceStep s₀ as, GuardedRequest r₀.id tr.pre tr.act) :
    ∃ row, findById s.db.flags r₀.id = some row ∧
      (finalCheck row.version (getLatestVersion s.db.events) = none ↔
        s.db.events ≠ s₀.db.events ∨ r₀.version = getLatestVersion s₀.db.events) := by
  obtain ⟨new, h⟩ := guarded_of_exec hrows h₀ hquiet hrow hrun hguard
  obtain ⟨row, hmem, hid, -, hversion⟩ := h.row
  refine ⟨row, h.inv.db.table.findById_eq_some.mpr ⟨hmem, hid⟩, ?_⟩
  have hcheck : finalCheck row.version (getLatestVersion s.db.events) = none ↔
      row.version = getLatestVersion s.db.events := by
    rw [finalCheck]
    split <;> simp_all
  rw [hcheck, hversion]
  by_cases hnew : new = []
  · subst hnew
    rw [h.events, List.append_nil]
    simp
  · rw [h.latest hnew, h.events]
    simp [hnew]

end Guarded

/-- After `racingToggles` the row is at version 1 and the log at 2. -/
def behindRow : FlagRow := ⟨"u", "checkout", "", false, 0, [], 1, 0, 1⟩

def guardedUpdate : List ServiceAction :=
  [.request 2 (.updateFlag "u" ⟨none, some true, none, none, some 1⟩), .repo (.begin 2 3),
    .repo (.nextval 2), .repo (.scan 2), .repo (.lock 2), .repo (.appendEvent 2), .repo (.commit 2)]

theorem quiet_racingToggles {s₀ : Service}
    (h₀ : exec serviceStep (Service.migrated [checkoutRow]) racingToggles = some s₀) :
    s₀.Quiet := by
  obtain rfl := Option.some.inj (h₀.symm.trans rfl)
  intro t call stage hcall
  match t with
  | 0 | 1 => exact ⟨_, (Prod.mk.inj (Option.some.inj hcall)).2.symm⟩
  | t + 2 => cases hcall

/-- `GuardedRequest`, decided. -/
def guardedChecked (id : String) (s : Service) : ServiceAction → Bool
  | .request _ (.updateFlag id' req) => id' = id && req.expectedVersion.any (· ≤ s.db.seq)
  | .request _ _ => false
  | _ => true

theorem guardedRequest_of_checked {id : String} {s : Service} {a : ServiceAction}
    (h : guardedChecked id s a = true) : GuardedRequest id s a := by
  rintro t call rfl
  cases call with
  | updateFlag id' req =>
      rw [guardedChecked, Bool.and_eq_true, Option.any_eq_true] at h
      obtain ⟨hid, v, hv, hle⟩ := h
      obtain rfl := of_decide_eq_true hid
      exact ⟨req, v, rfl, hv, of_decide_eq_true hle⟩
  | createFlag req | toggleFlag id' | deleteFlag id' => cases h

theorem guarded_updates_in_order_guardedUpdate : ∃ s₀ s,
    exec serviceStep (Service.migrated [checkoutRow]) racingToggles = some s₀ ∧
      exec serviceStep s₀ guardedUpdate = some s ∧
      ∃ new, s.db.events = s₀.db.events ++ new ∧
        (getLatestVersion s₀.db.events :: new.map FlagEvent.version).Pairwise (· < ·) ∧
        (∀ e ∈ new, e.flagKey = behindRow.key) ∧
        ∃ row ∈ s.db.flags, row.id = behindRow.id ∧
          row.version = lastVersion behindRow.version new :=
  ⟨_, _, rfl, rfl, guarded_updates_in_order migrated_checkoutRow
    (show exec serviceStep (Service.migrated [checkoutRow]) racingToggles = some _ from rfl)
    (quiet_racingToggles rfl) (by decide) (show exec serviceStep _ guardedUpdate = some _ from rfl)
    fun tr htr => guardedRequest_of_checked (by revert tr; decide)⟩

theorem final_check_iff_guardedUpdate : ∃ s₀ s,
    exec serviceStep (Service.migrated [checkoutRow]) racingToggles = some s₀ ∧
      exec serviceStep s₀ guardedUpdate = some s ∧
      ∃ row, findById s.db.flags behindRow.id = some row ∧
        (finalCheck row.version (getLatestVersion s.db.events) = none ↔
          s.db.events ≠ s₀.db.events ∨ behindRow.version = getLatestVersion s₀.db.events) :=
  ⟨_, _, rfl, rfl, final_check_iff migrated_checkoutRow
    (show exec serviceStep (Service.migrated [checkoutRow]) racingToggles = some _ from rfl)
    (quiet_racingToggles rfl) (by decide) (show exec serviceStep _ guardedUpdate = some _ from rfl)
    fun tr htr => guardedRequest_of_checked (by revert tr; decide)⟩

end FlagPlane
