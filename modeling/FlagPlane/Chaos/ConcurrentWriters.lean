import FlagPlane.Chaos.EventCount
import FlagPlane.Handler.Admin
import FlagPlane.Repository.Watermark

/-!
# FlagPlane.Chaos.ConcurrentWriters

**The scenario `concurrent-writers` of `cmd/chaos`.** Any number of writers hammer one flag, by
toggles in the first phase and by reads followed by conditional updates in the second. After each
phase the asserter compares the versions it was answered with each other, with the version it had
read before, and with the number of events that have become durable.

`no_lost_updates` is the invariant the scenario is after: when every write was answered cleanly, the
answered versions are those of the flag's new events, one event for each success. `phase_passes_iff`
says what a phase reports on this backend: it fails when a write was not answered cleanly, or when
the page that counts the events leaves some of the flag's events out.
-/

namespace FlagPlane

/-! ### What the asserter makes of the answers -/

/-- `WriteResult`. -/
structure WriteResult where
  status : Int
  version : Int
  enabled : Bool
  deriving DecidableEq, Repr

/-- What `Toggle` and `Update` decode of a flag. -/
structure WrittenFlag where
  version : Int
  enabled : Bool

def WrittenFlag.setField (name : String) (v : Json) (f : WrittenFlag) : Option WrittenFlag :=
  match name with
  | "version" => (v.decodeInt f.version).map fun n => { f with version := n }
  | "enabled" => (v.decodeBool f.enabled).map fun b => { f with enabled := b }
  | _ => some f

def unmarshalWritten (body : Option Json) : Option WrittenFlag :=
  body.bind (Json.decodeStruct ⟨0, false⟩ WrittenFlag.setField)

/-- `Admin.Toggle`: its result, and whether it returns an error. An `answer` of `none` is one that
does not arrive. -/
def adminToggle (answer : Option HttpResponse) : WriteResult × Bool :=
  match answer with
  | none => (⟨0, 0, false⟩, true)
  | some resp =>
    if resp.status ≠ 200 then (⟨resp.status, 0, false⟩, true)
    else
      match unmarshalWritten resp.body with
      | none => (⟨resp.status, 0, false⟩, true)
      | some f => (⟨resp.status, f.version, f.enabled⟩, false)

/-- `Admin.Update`. -/
def adminUpdate (answer : Option HttpResponse) : WriteResult × Bool :=
  match answer with
  | none => (⟨0, 0, false⟩, true)
  | some resp =>
    if resp.status = 200 then
      match unmarshalWritten resp.body with
      | none => (⟨resp.status, 0, false⟩, true)
      | some f => (⟨resp.status, f.version, f.enabled⟩, false)
    else (⟨resp.status, 0, false⟩, false)

/-- What one iteration of phase 1 hands to `hammer`. -/
def toggleWork (answer : Option HttpResponse) : WriteResult :=
  if (adminToggle answer).2 then { (adminToggle answer).1 with status := -1 }
  else (adminToggle answer).1

/-- What one iteration of phase 2 hands to `hammer`. Without the flag that it reads first it makes
no request, and there is no answer. -/
def updateWork (answer : Option HttpResponse) : WriteResult :=
  if (adminUpdate answer).2 then ⟨-1, 0, false⟩ else (adminUpdate answer).1

def successVersions (versions statuses : List Int) (okStatus : Int) : List Int :=
  ((statuses.zip versions).filterMap fun x => if x.1 = okStatus then some x.2 else none).insertionSort
    (· ≤ ·)

def countStatus (statuses : List Int) (want : Int) : Nat :=
  statuses.countP (· = want)

/-- The loop of `assertStrictlyIncreasing` from `prev` on. -/
def strictlyIncreasingFrom (floor : Int) : Int → List Int → Option String
  | _, [] => none
  | prev, v :: sorted =>
    if v ≤ prev then
      some ("versions not strictly increasing above " ++ toString floor ++ ": saw " ++ toString v ++
        " after " ++ toString prev ++ " (lost update / duplicate)")
    else strictlyIncreasingFrom floor v sorted

def assertStrictlyIncreasing (sorted : List Int) (floor : Int) : Option String :=
  strictlyIncreasingFrom floor floor sorted

/-- How a phase ends. -/
inductive PhaseResult
  | passed
  | failed (text : String)
  /-- The error of `EventsSinceCount`, as it is. -/
  | notCounted
  deriving DecidableEq

/-- The checks of phase 1, of all the results that `hammer` has gathered; `events1` is what
`EventsSinceCount` returned. -/
def phaseOne (base1 : Int) (results : List WriteResult) (events1 : Option Nat) : PhaseResult :=
  let okVersions := successVersions (results.map (·.version)) (results.map (·.status)) 200
  let totalToggles := results.length
  if okVersions.length ≠ totalToggles then
    .failed ("atomic toggles lost updates: " ++ toString okVersions.length ++ "/" ++
      toString totalToggles ++ " succeeded (toggle must never conflict)")
  else
    match assertStrictlyIncreasing okVersions base1 with
    | some text => .failed ("phase 1 " ++ text)
    | none =>
      match events1 with
      | none => .notCounted
      | some n =>
        if n ≠ totalToggles then
          .failed ("phase 1: expected " ++ toString totalToggles ++ " durable events, found " ++
            toString n ++ " (lost updates)")
        else .passed

/-- The checks of phase 2. -/
def phaseTwo (base2 : Int) (results : List WriteResult) (events2 : Option Nat) : PhaseResult :=
  let s2 := results.map (·.status)
  let ok2 := successVersions (results.map (·.version)) s2 200
  let conflicts := countStatus s2 409
  let other : Int := s2.length - ok2.length - conflicts
  if other ≠ 0 then
    .failed ("phase 2: " ++ toString other ++
      " writes returned neither 200 nor 409 (unclean failure)")
  else
    match assertStrictlyIncreasing ok2 base2 with
    | some text => .failed ("phase 2 " ++ text)
    | none =>
      match events2 with
      | none => .notCounted
      | some n =>
        if n ≠ ok2.length then
          .failed ("phase 2: " ++ toString ok2.length ++ " successful writes but " ++ toString n ++
            " durable events (lost updates)")
        else .passed

section Results

variable {versions statuses : List Int} {results : List WriteResult} {floor prev base : Int}

theorem strictlyIncreasingFrom_eq_none {sorted : List Int} :
    strictlyIncreasingFrom floor prev sorted = none ↔ (prev :: sorted).Pairwise (· < ·) := by
  induction sorted generalizing prev with
  | nil => simp [strictlyIncreasingFrom]
  | cons v sorted ih =>
      rw [strictlyIncreasingFrom, List.pairwise_cons_cons_iff_of_trans, ← ih]
      split
      · simpa using fun h => absurd h (by omega)
      · simpa using fun _ => by omega

/-- Sorted versions pass exactly when they are distinct and above the floor. -/
theorem assertStrictlyIncreasing_eq_none {l sorted : List Int} (hperm : sorted.Perm l)
    (hsorted : sorted.Pairwise (· ≤ ·)) :
    assertStrictlyIncreasing sorted floor = none ↔ l.Nodup ∧ ∀ v ∈ l, floor < v := by
  rw [assertStrictlyIncreasing, strictlyIncreasingFrom_eq_none, List.pairwise_cons, and_comm,
    ← hperm.nodup_iff]
  refine and_congr ⟨fun h => h.imp fun hlt => hlt.ne, fun h => ?_⟩ ?_
  · exact (hsorted.and h).imp fun h => lt_of_le_of_ne h.1 h.2
  · exact forall_congr' fun v => by rw [hperm.mem_iff]

/-- The versions that count, before they are sorted. -/
def okVersions (results : List WriteResult) : List Int :=
  (results.filter fun r => r.status = 200).map (·.version)

theorem successVersions_perm :
    (successVersions (results.map (·.version)) (results.map (·.status)) 200).Perm
      (okVersions results) := by
  refine (List.perm_insertionSort _ _).trans (List.Perm.of_eq ?_)
  rw [okVersions]
  induction results with
  | nil => rfl
  | cons r results ih =>
      rw [List.map_cons, List.map_cons, List.zip_cons_cons, List.filterMap_cons, List.filter_cons]
      by_cases hr : r.status = 200
      · simp [hr, ih]
      · simp [hr, ih]

theorem successVersions_sorted :
    (successVersions (results.map (·.version)) (results.map (·.status)) 200).Pairwise (· ≤ ·) :=
  List.pairwise_insertionSort _ _

theorem okVersions_cons {r : WriteResult} :
    okVersions (r :: results) =
      if r.status = 200 then r.version :: okVersions results else okVersions results := by
  rw [okVersions, List.filter_cons]
  split
  · rename_i h
    rw [if_pos (of_decide_eq_true h)]
    rfl
  · rename_i h
    rw [if_neg (by simpa using h)]
    rfl

theorem length_okVersions :
    (okVersions results).length = results.length ↔ ∀ r ∈ results, r.status = 200 := by
  rw [okVersions, List.length_map, List.length_filter_eq_length_iff]
  simp

/-- The results of phase 2 that are neither 200 nor 409. -/
theorem length_okVersions_add_conflicts :
    (okVersions results).length + countStatus (results.map (·.status)) 409 ≤ results.length ∧
      ((okVersions results).length + countStatus (results.map (·.status)) 409 = results.length ↔
        ∀ r ∈ results, r.status = 200 ∨ r.status = 409) := by
  induction results with
  | nil => simp [okVersions, countStatus]
  | cons r results ih =>
      rw [okVersions_cons, List.forall_mem_cons, ← ih.2, countStatus, List.map_cons,
        List.countP_cons, List.length_cons, ← countStatus]
      have hle := ih.1
      by_cases h200 : r.status = 200
      · simp only [h200, if_true, List.length_cons]
        simp
        omega
      · by_cases h409 : r.status = 409
        · simp [h409]
          omega
        · simp [h200, h409]
          omega

/-- When phase 1 passes. -/
theorem phaseOne_eq_passed {events1 : Option Nat} :
    phaseOne base results events1 = .passed ↔
      (∀ r ∈ results, r.status = 200) ∧
        ((okVersions results).Nodup ∧ ∀ v ∈ okVersions results, base < v) ∧
        events1 = some (okVersions results).length := by
  rw [← assertStrictlyIncreasing_eq_none successVersions_perm successVersions_sorted,
    ← length_okVersions, phaseOne.eq_def]
  dsimp only
  rw [successVersions_perm.length_eq]
  by_cases hlen : (okVersions results).length = results.length
  · rw [if_neg (not_not_intro hlen), hlen]
    cases assertStrictlyIncreasing _ base with
    | some text => simp
    | none =>
        cases events1 with
        | none => simp
        | some n => by_cases hn : n = results.length <;> simp [hn]
  · rw [if_pos hlen]
    simp [hlen]

/-- When phase 2 passes. -/
theorem phaseTwo_eq_passed {events2 : Option Nat} :
    phaseTwo base results events2 = .passed ↔
      (∀ r ∈ results, r.status = 200 ∨ r.status = 409) ∧
        ((okVersions results).Nodup ∧ ∀ v ∈ okVersions results, base < v) ∧
        events2 = some (okVersions results).length := by
  rw [← assertStrictlyIncreasing_eq_none successVersions_perm successVersions_sorted,
    ← length_okVersions_add_conflicts.2, phaseTwo.eq_def]
  dsimp only
  rw [successVersions_perm.length_eq, List.length_map]
  by_cases hlen : (okVersions results).length + countStatus (results.map (·.status)) 409 =
      results.length
  · rw [if_neg (by omega)]
    cases assertStrictlyIncreasing _ base with
    | some text => simp
    | none =>
        cases events2 with
        | none => simp
        | some n => by_cases hn : n = (okVersions results).length <;> simp [hn, hlen]
  · rw [if_pos (by omega)]
    simp [hlen]

end Results

/-! ### What the answers are worth -/

/-- The answer that a call of the service has been given. -/
def Service.answer (s : Service) (driver : String) (t : TxId) : Option HttpResponse :=
  match s.calls t with
  | some (call, .returned r) => call.response driver r
  | _ => none

/-- One iteration of a writer. -/
structure Attempt where
  /-- The call that its request becomes. -/
  tx : TxId
  /-- The answer is there before the iteration's timeout. -/
  arrives : Bool

def Attempt.answer (a : Attempt) (s : Service) (driver : String) : Option HttpResponse :=
  if a.arrives then s.answer driver a.tx else none

inductive Phase
  | toggles
  | updates

namespace Phase

def work : Phase → Option HttpResponse → WriteResult
  | toggles => toggleWork
  | updates => updateWork

/-- The requests of the phase, for the flag `id`. -/
def Sends (id : String) : Phase → ServiceCall → Prop
  | toggles, call => call = .toggleFlag id
  | updates, call => ∃ req : UpdateFlagRequest, call = .updateFlag id req ∧ req.enabled.isSome

/-- The statuses that the phase lets pass. -/
def Clean : Phase → Int → Prop
  | toggles, status => status = 200
  | updates, status => status = 200 ∨ status = 409

instance (p : Phase) (status : Int) : Decidable (p.Clean status) :=
  match p with
  | toggles => inferInstanceAs (Decidable (status = 200))
  | updates => inferInstanceAs (Decidable (status = 200 ∨ status = 409))

def verdict : Phase → Int → List WriteResult → Option Nat → PhaseResult
  | toggles => phaseOne
  | updates => phaseTwo

/-- What `hammer` gathers, as the calls stand in `s`. -/
def hammer (p : Phase) (s : Service) (driver : String) (attempts : List Attempt) :
    List WriteResult :=
  attempts.map fun a => p.work (a.answer s driver)

end Phase

section Answers

variable {p : Phase} {id : String} {call : ServiceCall} {r : ServiceResult} {flag : Flag}
  {driver : String} {answer : Option HttpResponse}

theorem decodeStruct_writtenFlag (hv : Json.InInt64 flag.version) :
    Json.decodeStruct ⟨0, false⟩ WrittenFlag.setField flag.toResponse.toJson =
      some ⟨flag.version, flag.enabled⟩ := by
  simp (disch := decide) [FlagResponse.toJson, Flag.toResponse, Json.decodeStruct,
    WrittenFlag.setField, Json.decodeInt_int hv, Json.foldName_of_plain]

theorem unmarshalWritten_flag (hv : Json.InInt64 flag.version) (status : Nat) :
    unmarshalWritten (writeFlag status flag).body = some ⟨flag.version, flag.enabled⟩ := by
  rw [unmarshalWritten, writeFlag, Option.bind_some]
  exact decodeStruct_writtenFlag hv

/-- Without an answer, or with an error, there is no clean status. -/
theorem Phase.work_none (p : Phase) : (p.work none).status = -1 := by
  cases p <;> rfl

/-- The result of a flag that has arrived. -/
theorem Phase.work_flag (hv : Json.InInt64 flag.version) :
    p.work (some (writeFlag 200 flag)) = ⟨200, flag.version, flag.enabled⟩ := by
  have hbody := unmarshalWritten_flag hv 200
  have hstatus : (writeFlag 200 flag).status = 200 := rfl
  cases p with
  | toggles =>
      rw [work, toggleWork, adminToggle]
      simp only [hstatus, ne_eq, not_true_eq_false, if_false, hbody]
      rfl
  | updates =>
      rw [work, updateWork, adminUpdate]
      simp only [hstatus, if_true, hbody]
      rfl

/-- The result of any other answer. -/
theorem Phase.work_other {resp : HttpResponse} (hstatus : resp.status ≠ 200) :
    (p.work (some resp)).status ≠ 200 ∧
      (p.Clean (p.work (some resp)).status → resp.status = 409) := by
  have hcast : ∀ n : Nat, (resp.status : Int) = n ↔ resp.status = n := fun n => Int.natCast_inj
  cases p with
  | toggles => simp [work, toggleWork, adminToggle, hstatus, Clean]
  | updates =>
      simp only [work, updateWork, adminUpdate, hstatus, if_false, Bool.false_eq_true, Clean]
      have h200 := hcast 200
      have h409 := hcast 409
      omega

theorem updateFlagError_status (text : String) : (updateFlagError text).status ≠ 409 := by
  rw [updateFlagError]
  split <;> simp [writeError]

/-- When a phase passes. -/
theorem Phase.verdict_eq_passed {base : Int} {results : List WriteResult} {count : Option Nat} :
    p.verdict base results count = .passed ↔
      (∀ r ∈ results, p.Clean r.status) ∧
        ((okVersions results).Nodup ∧ ∀ v ∈ okVersions results, base < v) ∧
        count = some (okVersions results).length := by
  cases p with
  | toggles => exact phaseOne_eq_passed
  | updates => exact phaseTwo_eq_passed

/-- **What the answers mean.** A flag is answered 200, and 409 stands for a version conflict. -/
theorem Phase.response_cases (hsends : p.Sends id call) {resp : HttpResponse}
    (hresp : call.response driver r = some resp) :
    (∃ flag, r = .flag (some flag) ∧ resp = writeFlag 200 flag) ∨
      resp.status ≠ 200 ∧ (∀ flag, r ≠ .flag (some flag)) ∧
        (resp.status = 409 → r = .failed .versionConflict) := by
  cases p with
  | toggles =>
      obtain rfl := hsends
      rw [ServiceCall.response, toggleFlagResponse.eq_def] at hresp
      split at hresp
      · rename_i flag
        exact Or.inl ⟨flag, rfl, (Option.some.inj hresp).symm⟩
      · obtain rfl := Option.some.inj hresp
        simp [notFoundResponse, writeError]
      · rename_i hflag _
        obtain ⟨text, -, rfl⟩ := Option.map_eq_some_iff.mp hresp
        exact Or.inr ⟨by simp [writeError], hflag, by simp [writeError]⟩
  | updates =>
      obtain ⟨req, rfl, -⟩ := hsends
      rw [ServiceCall.response, updateFlagResponse.eq_def] at hresp
      split at hresp
      · rename_i flag
        exact Or.inl ⟨flag, rfl, (Option.some.inj hresp).symm⟩
      · obtain rfl := Option.some.inj hresp
        simp [notFoundResponse, writeError]
      · obtain rfl := Option.some.inj hresp
        simp [writeError]
      · rename_i hflag _ _
        obtain ⟨text, -, rfl⟩ := Option.map_eq_some_iff.mp hresp
        refine Or.inr ⟨?_, hflag, fun h => absurd h (updateFlagError_status text)⟩
        rw [updateFlagError]
        split <;> simp [writeError]

end Answers

/-! ### Which calls have committed what -/

/-- Elements in buckets: those of some bucket are the contents of the buckets. -/
theorem filter_mem_perm_flatMap {α κ : Type*} [DecidableEq κ] (key : α → κ) (l : List α)
    {ks : List κ} (hks : ks.Nodup) :
    (l.filter fun x => key x ∈ ks).Perm (ks.flatMap fun k => l.filter fun x => key x = k) := by
  induction ks with
  | nil => simp
  | cons k ks ih =>
      rw [List.nodup_cons] at hks
      rw [List.flatMap_cons]
      refine (List.filter_append_perm (fun x => key x = k) _).symm.trans
        ((List.Perm.of_eq ?_).trans ((ih hks.2).append_left _))
      rw [List.filter_filter, List.filter_filter]
      refine congrArg₂ (· ++ ·) (List.filter_congr fun x _ => ?_) (List.filter_congr fun x _ => ?_)
      · rw [Bool.eq_iff_iff]
        simpa using fun h => Or.inl h
      · rw [Bool.eq_iff_iff]
        simp only [Bool.and_eq_true, Bool.not_eq_true', decide_eq_false_iff_not, decide_eq_true_eq,
          List.mem_cons]
        constructor
        · intro h
          exact h.2.resolve_left h.1
        · intro h
          exact ⟨fun heq => hks.1 (heq ▸ h), Or.inr h⟩

/-- The events that a run has committed, with the calls they are from. -/
def commits (trs : List (Transition Db Action)) : List (TxId × FlagEvent) :=
  trs.filterMap fun tr => (tr.pre.committing tr.act).map fun c => (tr.act.tx, c.event)

section Commits

variable {trs : List (Transition Db Action)} {db db' : Db} {b : Action} {t : TxId}

theorem commits_append :
    commits (trs ++ [⟨db, b, db'⟩]) =
      commits trs ++ ((db.committing b).map fun c => (b.tx, c.event)).toList := by
  rw [commits, List.filterMap_append, ← commits, List.filterMap_cons, List.filterMap_nil]
  dsimp only
  cases db.committing b <;> rfl

theorem mem_commits {x : TxId × FlagEvent} :
    x ∈ commits trs ↔ ∃ tr ∈ trs, ∃ c, tr.pre.committing tr.act = some c ∧ x = (tr.act.tx, c.event) := by
  rw [commits, List.mem_filterMap]
  refine exists_congr fun tr => and_congr_right fun _ => ?_
  rw [Option.map_eq_some_iff]
  exact exists_congr fun c => and_congr_right fun _ => eq_comm

theorem committedBy_eq :
    committedBy t trs = ((commits trs).filter fun x => x.1 = t).map Prod.snd := by
  induction trs with
  | nil => rfl
  | cons tr trs ih =>
      rw [committedBy, commits, List.filterMap_cons, List.filterMap_cons, ← committedBy, ← commits,
        ih]
      cases tr.pre.committing tr.act with
      | none => simp
      | some c =>
          by_cases htx : tr.act.tx = t
          · simp [htx]
          · simp [htx]

end Commits

/-- What a run keeps that begins in `s₀`. -/
structure Continued (s₀ : Service) (trs : List (Transition Service ServiceAction)) (s : Service) :
    Prop where
  inv : ServiceInv s
  linked : Linked s
  seq : s₀.db.seq ≤ s.db.seq
  events : s.db.events = s₀.db.events ++ (commits (statements trs)).map Prod.snd
  /-- A call that begins in the run draws a version above all that were drawn before it. -/
  held : ∀ t, s₀.db.txs t = none → ∀ tx v, s.db.txs t = some tx → tx.stage.version? = some v →
    s₀.db.seq < v
  above : ∀ x ∈ commits (statements trs), s₀.db.txs x.1 = none → s₀.db.seq < x.2.version
  known : ∀ id key, KeyKnown s₀.db id key → KeyKnown s.db id key
  /-- Updates and toggles commit events of their row's key. -/
  keys : ∀ tr ∈ statements trs, ∀ c, tr.pre.committing tr.act = some c → c.op.isCreate = false →
    c.op.isDelete = false → ∀ key, KeyKnown s₀.db c.op.flagId key → c.event.flagKey = key

section Continued

variable {s₀ s s' : Service} {trs : List (Transition Service ServiceAction)} {a : ServiceAction}
  {t : TxId}

theorem DbInv.latest_le_seq {db : Db} (h : DbInv db) : getLatestVersion db.events ≤ db.seq := by
  by_cases hempty : db.events = []
  · rw [hempty]
    exact h.seq.1
  · obtain ⟨e, he, hv⟩ := getLatestVersion_mem hempty
    exact hv ▸ (h.eventBound e he).2

/-- An `UPDATE` or a toggle commits an event of its row's key. -/
theorem DbInv.event_flagKey {db : Db} (h : DbInv db) {c : Commit} {key : String}
    (ht : db.txs t = some ⟨c.op, .logged c.locals c.write c.event⟩)
    (hcreate : c.op.isCreate = false) (hdelete : c.op.isDelete = false)
    (hkey : KeyKnown db c.op.flagId key) : c.event.flagKey = key := by
  have hwrite := h.writeInv ht
  cases hw : c.write with
  | insert row =>
      rw [hw] at hwrite
      obtain ⟨⟨flag, _, _, hop, -⟩, -⟩ := hwrite
      rw [hop] at hcreate
      cases hcreate
  | update row =>
      rw [h.event_key ht (show c.write.row? = some row by rw [hw]; rfl)]
      rw [hw] at hwrite
      obtain ⟨r, hr, -, hwhere, rfl, -⟩ := hwrite
      rw [postImage_key]
      exact hkey.key r hr (Op.whereClause_id hwhere)
  | delete row =>
      rw [hw] at hwrite
      rw [hwrite.2.1] at hdelete
      cases hdelete
  | nothing =>
      rw [hw] at hwrite
      obtain ⟨id, hop, -⟩ := hwrite
      rw [hop] at hdelete
      cases hdelete

/-- The statement after it. -/
theorem Continued.repo (h : Continued s₀ trs s) {b : Action} {db' : Db}
    (hs : serviceStep s (.repo b) = some { s with db := db' }) (hdb : step s.db b = some db') :
    Continued s₀ (trs ++ [⟨s, .repo b, { s with db := db' }⟩]) { s with db := db' } where
  inv := h.inv.serviceStep hs
  linked := h.linked.step hs
  seq := h.seq.trans (step_seq_le hdb)
  events := by
    rw [statements_append_repo, commits_append, List.map_append, ← List.append_assoc, ← h.events]
    rcases step_tables hdb with ⟨hnone, -, hevents⟩ | ⟨u, c, rfl, -, hc, rfl⟩
    · rw [hnone]
      simpa using hevents
    · rw [hc]
      rfl
  held t ht tx v htx hv := by
    rcases step_version hdb htx hv with rfl | ⟨tx₀, htx₀, hv₀⟩
    · have hseq := h.seq
      omega
    · exact h.held t ht tx₀ v htx₀ hv₀
  above x hx ht := by
    rw [statements_append_repo, commits_append, List.mem_append] at hx
    rcases hx with hx | hx
    · exact h.above x hx ht
    · rcases step_tables hdb with ⟨hnone, -⟩ | ⟨u, c, rfl, hu, hc, -⟩
      · rw [hnone] at hx
        cases hx
      · rw [hc] at hx
        obtain rfl : x = ((Action.commit u).tx, c.event) := by simpa using hx
        rw [show c.event.version = c.locals.version from h.inv.db.event_version hu]
        exact h.held u ht _ _ hu rfl
  known id key hkey := (h.known id key hkey).step h.inv.db hdb
  keys tr htr c hc hcreate hdelete key hkey := by
    rw [statements_append_repo, List.mem_append, List.mem_singleton] at htr
    rcases htr with htr | rfl
    · exact h.keys tr htr c hc hcreate hdelete key hkey
    · obtain ⟨u, -, hu⟩ := committing_eq_some.mp hc
      exact h.inv.db.event_flagKey hu hcreate hdelete (h.known _ _ hkey)

theorem Continued.step (h : Continued s₀ trs s) (hs : serviceStep s a = some s') :
    Continued s₀ (trs ++ [⟨s, a, s'⟩]) s' := by
  -- an action that is no statement of the database
  have hother : (∀ b, a ≠ .repo b) → s'.db.seq = s.db.seq → s'.db.events = s.db.events →
      (∀ t tx v, s'.db.txs t = some tx → tx.stage.version? = some v → s.db.txs t = some tx) →
      (∀ id key, KeyKnown s.db id key → KeyKnown s'.db id key) →
      Continued s₀ (trs ++ [⟨s, a, s'⟩]) s' := by
    intro ha hseq hevents htxs hknown
    have hsame : statements (trs ++ [⟨s, a, s'⟩]) = statements trs := statements_append_other ha
    refine ⟨h.inv.serviceStep hs, h.linked.step hs, hseq ▸ h.seq, ?_, ?_, ?_, ?_, ?_⟩
    · rw [hsame, hevents, h.events]
    · exact fun t ht tx v htx hv => h.held t ht tx v (htxs t tx v htx hv) hv
    · rw [hsame]
      exact h.above
    · exact fun id key hkey => hknown id key (h.known id key hkey)
    · rw [hsame]
      exact h.keys
  cases serviceStep_effect hs with
  | repo ha hdb => exact h.repo hs hdb
  | @issue a t call flagKey ha htx =>
      refine hother ?_ rfl rfl ?_ ?_
      · rintro b rfl
        rcases ha with ⟨ha, -⟩ | ⟨ha, -⟩ <;> cases ha
      · intro u tx v hu hv
        rcases update_some_cases hu with ⟨-, rfl⟩ | ⟨-, hu⟩
        · cases hv
        · exact hu
      · intro id key hkey
        exact hkey.step h.inv.db (show FlagPlane.step s.db (.call t call.op) = some _ by
          rw [FlagPlane.step, htx]; rfl)
  | _ => exact hother (by simp) rfl rfl (fun _ _ _ h _ => h) fun _ _ h => h

theorem continued_of_exec {rows : List FlagRow} (hrows : Migrated rows)
    {as₀ as : List ServiceAction} (h₀ : exec serviceStep (Service.migrated rows) as₀ = some s₀)
    (hrun : exec serviceStep s₀ as = some s) :
    Continued s₀ (transitions serviceStep s₀ as) s := by
  have hacc := ServiceAccount.of_exec hrows h₀
  refine exec_history (fun h hs => Continued.step h hs) ?_ hrun
  refine ⟨hacc.inv, hacc.linked, le_refl _, (List.append_nil _).symm, ?_, ?_, ?_, ?_⟩
  · intro t ht tx v htx
    rw [ht] at htx
    cases htx
  · exact fun x hx => absurd hx List.not_mem_nil
  · exact fun _ _ hkey => hkey
  · exact fun tr htr => absurd htr List.not_mem_nil

/-- What a call has committed is in the log. -/
theorem Continued.mem_events (h : Continued s₀ trs s) {e : FlagEvent}
    (he : e ∈ committedBy t (statements trs)) : e ∈ s.db.events := by
  rw [committedBy_eq] at he
  obtain ⟨x, hx, rfl⟩ := List.mem_map.mp he
  rw [h.events, List.mem_append]
  exact Or.inr (List.mem_map_of_mem (List.mem_filter.mp hx).1)

/-- What a call has committed, when it begins in the run. -/
theorem accounted_of_fresh {rows : List FlagRow} (hrows : Migrated rows)
    {as₀ as : List ServiceAction} (h₀ : exec serviceStep (Service.migrated rows) as₀ = some s₀)
    (hrun : exec serviceStep s₀ as = some s) (ht : s₀.db.txs t = none) :
    Accounted (committedBy t (statements (transitions serviceStep s₀ as))) (s.db.txs t) := by
  have hwhole := (ServiceAccount.of_exec hrows (exec_append_eq_some.mpr ⟨s₀, h₀, hrun⟩)).calls t
  have hbefore := (ServiceAccount.of_exec hrows h₀).calls t
  rw [ht] at hbefore
  rw [transitions_append h₀, statements, List.filterMap_append, ← statements, ← statements,
    committedBy, List.filterMap_append, ← committedBy, ← committedBy,
    show committedBy t (statements _) = [] from hbefore, List.nil_append] at hwhole
  exact hwhole

end Continued

/-! ### The phases -/

/-- A phase from `s₀`, where the asserter reads the latest version, to `s`, where it counts the
events. The flag is there, and nobody else writes to its key. -/
structure Hammered (p : Phase) (id key : String) (s₀ : Service) (as : List ServiceAction)
    (s : Service) (attempts : List Attempt) : Prop where
  run : exec serviceStep s₀ as = some s
  row : ∃ r ∈ s₀.db.flags, r.id = id ∧ r.key = key
  named : key ≠ ""
  fresh : ∀ a ∈ attempts, s₀.calls a.tx = none
  distinct : (attempts.map Attempt.tx).Nodup
  sends : ∀ a ∈ attempts, ∀ call stage, s.calls a.tx = some (call, stage) → p.Sends id call
  alone : ∀ tr ∈ statements (transitions serviceStep s₀ as), ∀ c,
    tr.pre.committing tr.act = some c → c.event.flagKey = key →
    tr.act.tx ∈ attempts.map Attempt.tx

section Phases

variable {p : Phase} {id key driver : String} {s₀ s : Service} {as₀ as : List ServiceAction}
  {attempts : List Attempt} {rows : List FlagRow}

theorem Phase.Sends.op {call : ServiceCall} (h : p.Sends id call) :
    call.op.flagId = id ∧ call.op.isCreate = false ∧ call.op.isDelete = false ∧
      call.op.nothingToChange = false := by
  cases p with
  | toggles =>
      obtain rfl := h
      exact ⟨rfl, rfl, rfl, rfl⟩
  | updates =>
      obtain ⟨req, rfl, henabled⟩ := h
      refine ⟨rfl, rfl, rfl, ?_⟩
      obtain ⟨b, hb⟩ := Option.isSome_iff_exists.mp henabled
      simp [ServiceCall.op, Op.nothingToChange, setClauses, hb]

/-- **A clean answer tells what its call has committed**: one event, of the version it carries, or
nothing. -/
theorem Hammered.attempt_cases (hrows : Migrated rows)
    (h₀ : exec serviceStep (Service.migrated rows) as₀ = some s₀)
    (h : Hammered p id key s₀ as s attempts) {a : Attempt} (ha : a ∈ attempts) (driver : String)
    (hclean : p.Clean (p.work (a.answer s driver)).status) :
    ((p.work (a.answer s driver)).status = 200 ∧
      ∃ e, committedBy a.tx (statements (transitions serviceStep s₀ as)) = [e] ∧
        e.version = (p.work (a.answer s driver)).version) ∨
      (p.work (a.answer s driver)).status ≠ 200 ∧
        committedBy a.tx (statements (transitions serviceStep s₀ as)) = [] := by
  have hcont := continued_of_exec hrows h₀ h.run
  have hacc := accounted_of_fresh hrows h₀ h.run
    ((ServiceAccount.of_exec hrows h₀).linked.tx_none (Or.inl (h.fresh a ha)))
  cases hanswer : a.answer s driver with
  | none =>
      rw [hanswer, p.work_none] at hclean
      cases p <;> simp [Phase.Clean] at hclean
  | some resp =>
      rw [hanswer] at hclean
      obtain ⟨call, r, hcall, hresp⟩ :
          ∃ call r, s.calls a.tx = some (call, .returned r) ∧
            call.response driver r = some resp := by
        rw [Attempt.answer] at hanswer
        split at hanswer
        · rw [Service.answer.eq_def] at hanswer
          split at hanswer
          · rename_i call r hcall
            exact ⟨call, r, hcall, hanswer⟩
          · cases hanswer
        · cases hanswer
      have hsends := h.sends a ha call _ hcall
      have hnothing := hsends.op.2.2.2
      rcases Phase.response_cases hsends hresp with ⟨flag, rfl, rfl⟩ | ⟨hstatus, hflag, hconflict⟩
      · left
        rcases hcont.linked.answered a.tx call _ hcall with ⟨r', htx, hr'⟩ | ⟨-, hown⟩
        · have hversion : r'.version? = some flag.version := by
            cases r' with
            | created f => cases hr'; rfl
            | flag f => cases hr'; rfl
            | deleted _ => cases hr'
            | error _ => cases hr'
          rw [htx] at hacc
          rcases hacc with ⟨-, hnone | hnone⟩ | ⟨e, he, hev⟩
          · rw [hversion] at hnone
            cases hnone
          · rw [hnothing] at hnone
            cases hnone
          · have heq : flag.version = e.version := Option.some.inj (hversion.symm.trans hev)
            have hmem : e ∈ s.db.events :=
              hcont.mem_events (t := a.tx) (by rw [he]; exact List.mem_singleton_self e)
            have hwork := Phase.work_flag (p := p)
              (hcont.inv.db.inInt64_of_logged (Or.inr ⟨e, hmem, heq.symm⟩))
            rw [hwork]
            exact ⟨rfl, e, he, heq.symm⟩
        · cases hown
      · right
        obtain ⟨hne, h409⟩ := Phase.work_other (p := p) hstatus
        obtain rfl := hconflict (h409 hclean)
        refine ⟨hne, ?_⟩
        rcases hcont.linked.answered a.tx call _ hcall with ⟨r', htx, hr'⟩ | ⟨hnone, -⟩
        · rw [htx] at hacc
          rcases hacc with ⟨hnil, -⟩ | ⟨e, -, hev⟩
          · exact hnil
          · cases r' with
            | error _ => cases hev
            | created _ | deleted _ | flag _ => cases hr'
        · rw [hnone] at hacc
          exact hacc

/-- The key's events above the version that was read are those that the writers' calls have
committed. -/
theorem Hammered.committedSince_eq (hrows : Migrated rows)
    (h₀ : exec serviceStep (Service.migrated rows) as₀ = some s₀)
    (h : Hammered p id key s₀ as s attempts) :
    committedSince s.db.events (getLatestVersion s₀.db.events) key =
      ((commits (statements (transitions serviceStep s₀ as))).filter fun x =>
        x.1 ∈ attempts.map Attempt.tx).map Prod.snd := by
  have hcont := continued_of_exec hrows h₀ h.run
  have hacc₀ := ServiceAccount.of_exec hrows h₀
  have hbase := hacc₀.inv.db.latest_le_seq
  have hold : (s₀.db.events.filter fun e =>
      getLatestVersion s₀.db.events < e.version && ofKey key e.flagKey) = [] := by
    rw [List.filter_eq_nil_iff]
    intro e he
    have hle := le_getLatestVersion he
    simp only [Bool.and_eq_true, decide_eq_true_eq]
    omega
  have hkey : ∀ k, ofKey key k = true ↔ k = key := by simp [ofKey, h.named]
  rw [committedSince, hcont.events, List.filter_append, hold, List.nil_append, List.filter_map]
  refine congrArg _ (List.filter_congr fun x hx => ?_)
  obtain ⟨tr, htr, c, hc, rfl⟩ := mem_commits.mp hx
  rw [Bool.eq_iff_iff]
  simp only [Function.comp_apply, Bool.and_eq_true, decide_eq_true_eq, hkey]
  constructor
  · intro h'
    exact h.alone tr htr c hc h'.2
  · intro hmem
    obtain ⟨a, ha, hatx⟩ := List.mem_map.mp hmem
    have hfresh : s₀.db.txs tr.act.tx = none := by
      rw [← hatx]
      exact hacc₀.linked.tx_none (Or.inl (h.fresh a ha))
    refine ⟨lt_of_le_of_lt hbase (hcont.above _ hx hfresh), ?_⟩
    obtain ⟨call, hop, hcall⟩ := hcont.linked.tx _ _ (returned_of_committing h.run htr hc)
    have hsends : p.Sends id call := by
      rw [← hatx] at hcall
      rcases hcall with ⟨_, hcall⟩ | ⟨_, -, hcall⟩ <;> exact h.sends a ha call _ hcall
    obtain ⟨hid, hcreate, hdelete, -⟩ := hsends.op
    rw [← show c.op = call.op from hop] at hid hcreate hdelete
    obtain ⟨r, hr, hrid, rfl⟩ := h.row
    exact hcont.keys tr htr c hc hcreate hdelete _ (by
      rw [hid, ← hrid]
      exact hacc₀.inv.db.keyKnown hr)

/-- The versions that were answered are those that the calls have committed. -/
theorem Hammered.committedBy_versions (hrows : Migrated rows)
    (h₀ : exec serviceStep (Service.migrated rows) as₀ = some s₀)
    (h : Hammered p id key s₀ as s attempts)
    (hclean : ∀ r ∈ p.hammer s driver attempts, p.Clean r.status) :
    ((attempts.map Attempt.tx).flatMap fun t =>
        committedBy t (statements (transitions serviceStep s₀ as))).map FlagEvent.version =
      okVersions (p.hammer s driver attempts) := by
  have hcases := fun a (ha : a ∈ attempts) => h.attempt_cases hrows h₀ ha driver
    (hclean _ (List.mem_map_of_mem ha))
  clear hclean h
  rw [Phase.hammer]
  induction attempts with
  | nil => rfl
  | cons a attempts ih =>
      rw [List.forall_mem_cons] at hcases
      rw [List.map_cons, List.flatMap_cons, List.map_append, ih hcases.2, List.map_cons,
        okVersions_cons]
      rcases hcases.1 with ⟨hstatus, e, he, hv⟩ | ⟨hstatus, hnil⟩
      · rw [he, if_pos hstatus, ← hv]
        rfl
      · rw [hnil, if_neg hstatus]
        rfl

/-- They are, one for one, the versions of the key's new events. -/
theorem Hammered.okVersions_perm (hrows : Migrated rows)
    (h₀ : exec serviceStep (Service.migrated rows) as₀ = some s₀)
    (h : Hammered p id key s₀ as s attempts)
    (hclean : ∀ r ∈ p.hammer s driver attempts, p.Clean r.status) :
    ((committedSince s.db.events (getLatestVersion s₀.db.events) key).map FlagEvent.version).Perm
      (okVersions (p.hammer s driver attempts)) := by
  rw [← h.committedBy_versions hrows h₀ hclean, h.committedSince_eq hrows h₀]
  refine ((filter_mem_perm_flatMap Prod.fst _ h.distinct).map Prod.snd).map _ |>.trans ?_
  rw [List.map_flatMap]
  simp only [committedBy_eq]
  exact List.Perm.refl _

/-- So they are distinct, and above the version that was read. -/
theorem Hammered.okVersions_new (hrows : Migrated rows)
    (h₀ : exec serviceStep (Service.migrated rows) as₀ = some s₀)
    (h : Hammered p id key s₀ as s attempts)
    (hclean : ∀ r ∈ p.hammer s driver attempts, p.Clean r.status) :
    (okVersions (p.hammer s driver attempts)).Nodup ∧
      ∀ v ∈ okVersions (p.hammer s driver attempts), getLatestVersion s₀.db.events < v := by
  have hperm := h.okVersions_perm hrows h₀ hclean
  constructor
  · refine hperm.nodup_iff.mp ?_
    exact (continued_of_exec hrows h₀ h.run).inv.db.versions.sublist (List.filter_sublist.map _)
  · intro v hv
    obtain ⟨e, he, rfl⟩ := List.mem_map.mp (hperm.mem_iff.mpr hv)
    have habove := (List.mem_filter.mp he).2
    rw [Bool.and_eq_true] at habove
    exact of_decide_eq_true habove.1

/-- **No lost update.** However the writers' calls interleave with each other and with the rest of
the system: when every write of a phase was answered cleanly, the versions that were answered are
distinct, above the version that was read before, and one for one those of the flag's new events. -/
theorem no_lost_updates (hrows : Migrated rows)
    (h₀ : exec serviceStep (Service.migrated rows) as₀ = some s₀)
    (h : Hammered p id key s₀ as s attempts)
    (hclean : ∀ r ∈ p.hammer s driver attempts, p.Clean r.status) :
    (okVersions (p.hammer s driver attempts)).Nodup ∧
      (∀ v ∈ okVersions (p.hammer s driver attempts), getLatestVersion s₀.db.events < v) ∧
      ((committedSince s.db.events (getLatestVersion s₀.db.events) key).map FlagEvent.version).Perm
        (okVersions (p.hammer s driver attempts)) := by
  obtain ⟨hnodup, habove⟩ := h.okVersions_new hrows h₀ hclean
  exact ⟨hnodup, habove, h.okVersions_perm hrows h₀ hclean⟩

/-- **What a phase reports.** It passes exactly when every write was answered cleanly and none of
the flag's new events comes after the first 500 events above the version that was read. -/
theorem phase_passes_iff (hrows : Migrated rows)
    (h₀ : exec serviceStep (Service.migrated rows) as₀ = some s₀)
    (h : Hammered p id key s₀ as s attempts) :
    p.verdict (getLatestVersion s₀.db.events) (p.hammer s driver attempts)
        (countedSince s.db.events (getLatestVersion s₀.db.events) key) = .passed ↔
      (∀ r ∈ p.hammer s driver attempts, p.Clean r.status) ∧
        ∀ e ∈ (backlog s.db.events (getLatestVersion s₀.db.events)).drop 500, e.flagKey ≠ key := by
  have hcont := continued_of_exec hrows h₀ h.run
  obtain ⟨hpos, hmax⟩ := (ServiceAccount.of_exec hrows h₀).inv.db.latest_bounds
  rw [Phase.verdict_eq_passed]
  refine and_congr_right fun hclean => ?_
  have hlength := (h.okVersions_perm hrows h₀ hclean).length_eq
  rw [List.length_map, length_committedSince] at hlength
  have hbehind : (((backlog s.db.events (getLatestVersion s₀.db.events)).drop 500).filter fun e =>
      ofKey key e.flagKey) = [] ↔
      ∀ e ∈ (backlog s.db.events (getLatestVersion s₀.db.events)).drop 500, e.flagKey ≠ key := by
    simp [List.filter_eq_nil_iff, ofKey, h.named]
  rw [countedSince_eq (fun e he => hcont.inv.db.inInt64_of_logged (Or.inr ⟨e, he, rfl⟩))
    (inInt64_of_version hpos hmax), if_pos hpos, ← hlength, ← hbehind, ← List.length_eq_zero_iff,
    and_iff_right (h.okVersions_new hrows h₀ hclean), Option.some_inj]
  omega

end Phases

/-- Two toggles of one flag at once; their answers have arrived. -/
def twoTogglers : List Attempt := [⟨0, true⟩, ⟨1, true⟩]

def racingToggles : List ServiceAction :=
  [.request 0 (.toggleFlag "u"), .request 1 (.toggleFlag "u"), .repo (.begin 0 1),
    .repo (.begin 1 1), .repo (.nextval 0), .repo (.nextval 1), .repo (.scan 1), .repo (.lock 1),
    .repo (.appendEvent 1), .repo (.commit 1), .repo (.scan 0), .repo (.lock 0),
    .repo (.appendEvent 0), .repo (.commit 0), .respond 0, .respond 1]

theorem hammered_racingToggles {s : Service}
    (hrun : exec serviceStep (Service.migrated [checkoutRow]) racingToggles = some s) :
    Hammered .toggles "u" "checkout" (Service.migrated [checkoutRow]) racingToggles s twoTogglers where
  run := hrun
  row := ⟨checkoutRow, List.mem_singleton_self _, rfl, rfl⟩
  named := by decide
  fresh _ _ := rfl
  distinct := by decide
  sends a ha call stage hcall := by
    have hcalls : ∀ t < 2, (s.calls t).map Prod.fst = some (.toggleFlag "u") := by
      obtain rfl := Option.some.inj (hrun.symm.trans rfl)
      decide
    have htx : ∀ a ∈ twoTogglers, a.tx < 2 := by decide
    have hsame := hcalls a.tx (htx a ha)
    rw [hcall] at hsame
    exact Option.some.inj hsame
  alone tr htr _ _ _ := by
    have htxs : ∀ tr ∈ statements (transitions serviceStep (Service.migrated [checkoutRow])
        racingToggles), tr.act.tx ∈ twoTogglers.map Attempt.tx := by decide
    exact htxs tr htr

theorem no_lost_updates_racingToggles :
    ∃ s, exec serviceStep (Service.migrated [checkoutRow]) racingToggles = some s ∧
      (okVersions (Phase.toggles.hammer s "" twoTogglers)).Nodup ∧
      (∀ v ∈ okVersions (Phase.toggles.hammer s "" twoTogglers), getLatestVersion [] < v) ∧
      ((committedSince s.db.events (getLatestVersion []) "checkout").map FlagEvent.version).Perm
        (okVersions (Phase.toggles.hammer s "" twoTogglers)) :=
  ⟨_, rfl, no_lost_updates migrated_checkoutRow (exec_nil _) (hammered_racingToggles rfl)
    (by decide)⟩

theorem phase_passes_iff_racingToggles :
    ∃ s, exec serviceStep (Service.migrated [checkoutRow]) racingToggles = some s ∧
      (Phase.toggles.verdict (getLatestVersion []) (Phase.toggles.hammer s "" twoTogglers)
          (countedSince s.db.events (getLatestVersion []) "checkout") = .passed ↔
        (∀ r ∈ Phase.toggles.hammer s "" twoTogglers, Phase.toggles.Clean r.status) ∧
          ∀ e ∈ (backlog s.db.events (getLatestVersion [])).drop 500, e.flagKey ≠ "checkout") :=
  ⟨_, rfl, phase_passes_iff migrated_checkoutRow (exec_nil _) (hammered_racingToggles rfl)⟩

end FlagPlane
