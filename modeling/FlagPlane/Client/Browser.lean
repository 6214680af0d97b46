import FlagPlane.Machine
import FlagPlane.Client.Reconcile

/-!
# FlagPlane.Client.Browser

**The browser's client over its whole life.** One `FeatureFlagClient`, its public calls, and what
the event loop runs for it in between: the continuations of `init` and `reconcile` after each of
their awaits, the callbacks of its event sources, the ticks of its intervals. The calls of `init`
may overlap, in any number; the server's log grows meanwhile, and a request reads it some time
between being sent and its promise being resolved.

A step is what runs without interruption. The client's listeners are left out.
-/

namespace FlagPlane

/-- `ConnectionStatus`. -/
inductive Status
  | connecting
  | live
  | reconnecting
  | reconciling
  | offline
  deriving DecidableEq

/-- `EventSource.readyState`. -/
inductive ReadyState
  | connecting
  | open
  | closed
  deriving DecidableEq

/-- An `EventSource`. -/
structure Source where
  readyState : ReadyState
  /-- The last `id:` it has read. -/
  lastEventId : Option Int

abbrev SourceId := Nat

abbrev TimerId := Nat

/-- A call of `init`. -/
abbrev InitId := Nat

/-- What became of a request. -/
inductive Answer (α : Type)
  /-- A response with `res.ok`, and what `res.json()` makes of its body. -/
  | body (data : α)
  | notOk
  /-- `fetch` or `res.json()` rejects. -/
  | rejected

/-- What the server answers to `GET /api/client/flags`. -/
structure Snapshot where
  /-- The flags, each by its members. -/
  flags : List (List (String × Json))
  version : Int

def Snapshot.body (s : Snapshot) : FlagsBody :=
  ⟨some (s.flags.map .obj), some s.version⟩

/-- Where a call of `init` is. -/
inductive InitStage
  /-- The request of `bootstrap` is under way. -/
  | fetching
  | answered (a : Answer Snapshot)
  /-- `bootstrap` has returned, `init` has not yet gone on. -/
  | bootstrapped
  | finished

/-- The call of `reconcile` that set `reconciling`. -/
structure Reconciling where
  prevStatus : Status
  guard : Nat
  /-- The `since` of its request. -/
  since : Int
  /-- `none` while the request is under way. -/
  answer : Option (Answer (List FlagEvent))

/-- The status that `reconcile` puts back when its response is not OK. -/
def Reconciling.restored (r : Reconciling) : Status :=
  if r.prevStatus = .reconciling then .reconnecting else r.prevStatus

/-- The bound of the loop in `reconcile`. -/
def reconcileLimit : Nat := 10000

/-- A client, what the browser and the server hold for it, and the history of its life. -/
structure Browser where
  /-- The flags and `configVersion`. -/
  sdk : FeatureFlagClient
  status : Status
  /-- `none` when `reconciling` is false. -/
  reconciling : Option Reconciling
  manuallyClosed : Bool
  eventSource : Option SourceId
  refreshTimer : Option TimerId
  /-- Whether the config has a `refreshInterval`. -/
  polls : Bool
  /-- The event sources created so far are those below `nextSource`. -/
  sources : SourceId → Source
  nextSource : SourceId
  /-- The intervals that are not cleared. -/
  timers : TimerId → Bool
  nextTimer : TimerId
  inits : InitId → Option InitStage
  /-- The server's log. -/
  log : EventLog
  /-- The versions of the frames that were received. -/
  received : List Int
  /-- `disconnect` or `destroy` was called, and no `reconnect` or `init` since. -/
  hungUp : Bool
  /-- `destroy` was called, and no `reconnect` or `init` since. -/
  destroyed : Bool

theorem EventLog.nil_ascending : ([] : List FlagEvent).Pairwise fun a b => a.version < b.version :=
  List.Pairwise.nil

theorem EventLog.nil_wellFormed : ∀ e ∈ ([] : List FlagEvent), e.WellFormed := by
  simp

namespace Browser

/-- `new FeatureFlagClient(config)`, with a server whose log is empty. -/
def new (polls : Bool) : Browser where
  sdk := ⟨fun _ => none, 0⟩
  status := .offline
  reconciling := none
  manuallyClosed := false
  eventSource := none
  refreshTimer := none
  polls := polls
  sources := fun _ => ⟨.closed, none⟩
  nextSource := 0
  timers := fun _ => false
  nextTimer := 0
  inits := fun _ => none
  log := ⟨[], EventLog.nil_ascending, EventLog.nil_wellFormed⟩
  received := []
  hungUp := false
  destroyed := false

def setReadyState (b : Browser) (es : SourceId) (state : ReadyState) : Browser :=
  { b with sources := Function.update b.sources es { b.sources es with readyState := state } }

/-- `closeStream`. -/
def closeStream (b : Browser) : Browser :=
  { b with
    sources := match b.eventSource with
      | some es => Function.update b.sources es { b.sources es with readyState := .closed }
      | none => b.sources
    eventSource := none }

/-- `connectSSE`. -/
def connectSSE (b : Browser) : Browser :=
  let b := b.closeStream
  { b with
    sources := Function.update b.sources b.nextSource ⟨.connecting, none⟩
    nextSource := b.nextSource + 1
    eventSource := some b.nextSource }

/-- `setInterval` in `init`. -/
def setInterval (b : Browser) : Browser :=
  { b with
    timers := Function.update b.timers b.nextTimer true
    nextTimer := b.nextTimer + 1
    refreshTimer := some b.nextTimer }

/-- `if (this.refreshTimer) clearInterval(…)` in `destroy`. -/
def clearInterval (b : Browser) : Browser :=
  { b with
    timers := match b.refreshTimer with
      | some t => Function.update b.timers t false
      | none => b.timers
    refreshTimer := none }

/-- A call of `reconcile`, up to its first await. -/
def reconcile (b : Browser) : Browser :=
  match b.reconciling with
  | some _ => b
  | none =>
    { b with
      status := .reconciling
      reconciling := some ⟨b.status, 0, b.sdk.configVersion, none⟩ }

/-- `reconcile` comes to its end. -/
def reconciled (b : Browser) (status : Status) : Browser :=
  { b with status := status, reconciling := none }

/-- `reconcile` goes on when its request is answered. -/
def resumeReconcile (b : Browser) (r : Reconciling) : Answer (List FlagEvent) → Browser
  | .notOk => b.reconciled r.restored
  | .rejected => b.reconciled .reconnecting
  | .body page =>
    if page.isEmpty then b.reconciled .live
    else
      let (sdk, advanced) := b.sdk.applyPage page
      let b := { b with sdk := sdk }
      if advanced && decide (r.guard + 1 < reconcileLimit) then
        { b with reconciling := some ⟨r.prevStatus, r.guard + 1, sdk.configVersion, none⟩ }
      else b.reconciled .live

/-- `applyEvent`. -/
def applyEvent (b : Browser) (version : Int)
    (mutate : FeatureFlagClient → Option FeatureFlagClient) : Browser :=
  if version ≤ b.sdk.configVersion then b
  else if version > b.sdk.nextVersion then b.reconcile
  else
    match mutate b.sdk with
    | some sdk => { b with sdk := { sdk with configVersion := version }, status := .live }
    | none => b

/-- The listeners of an event source. -/
def onMessage (b : Browser) (event : String) (lastEventId : Option Int) (data : Json) : Browser :=
  let version := b.sdk.eventVersion lastEventId
  if event = "flag_updated" then b.applyEvent version (FeatureFlagClient.setParsed data)
  else if event = "flag_deleted" then
    match data with
    | .null => b
    | _ => b.applyEvent version fun sdk =>
      some (match data.stringProp "key" with
        | some key => sdk.delete key
        | none => sdk)
  else b

/-- `onerror`, of the event source `es`. -/
def onError (b : Browser) (es : SourceId) : Browser :=
  if b.manuallyClosed then b
  else
    { b with
      eventSource :=
        if (b.sources es).readyState = .closed ∧ b.eventSource = some es then none else b.eventSource
      status := .reconnecting }

end Browser

inductive BrowserAction
  /-- The server commits an event. -/
  | append (e : FlagEvent)
  | init (i : InitId)
  | disconnect
  | reconnect
  | destroy
  | reconcile
  /-- The server answers a call of `init` with its flags and its version. -/
  | answerInit (i : InitId) (flags : List (List (String × Json)))
  | failInit (i : InitId) (ok : Bool)
  /-- `bootstrap` goes on when its request is answered. -/
  | resumeInit (i : InitId)
  /-- `init` goes on when `bootstrap` has returned. -/
  | continueInit (i : InitId)
  /-- The server answers `reconcile` with `n` events of its log above `since`. -/
  | answerReconcile (n : Nat)
  | failReconcile (ok : Bool)
  | resumeReconcile
  /-- The stream is open: `onopen`. -/
  | opened (es : SourceId)
  /-- The stream is lost, for good or for a while: `onerror`. -/
  | error (es : SourceId) (fatal : Bool)
  /-- The frame of the `i`-th event of the log arrives. -/
  | message (es : SourceId) (i : Nat)
  /-- An interval fires. -/
  | tick (t : TimerId)

def browserStep (b : Browser) : BrowserAction → Option Browser
  | .append e =>
    if h : b.log.version < e.version ∧ e.WellFormed then
      some { b with log := b.log.push e h.1 h.2 }
    else none
  | .init i =>
    match b.inits i with
    | none =>
      some { b with
        status := .connecting
        inits := Function.update b.inits i (some .fetching)
        hungUp := false
        destroyed := false }
    | some _ => none
  | .disconnect =>
    some { b.closeStream with manuallyClosed := true, status := .offline, hungUp := true }
  | .reconnect =>
    some { b with
      manuallyClosed := false
      status := .reconnecting
      hungUp := false
      destroyed := false }.connectSSE
  | .destroy =>
    some { b.closeStream.clearInterval with
      manuallyClosed := true
      status := .offline
      hungUp := true
      destroyed := true }
  | .reconcile => some b.reconcile
  | .answerInit i flags =>
    match b.inits i with
    | some .fetching =>
      some { b with
        inits := Function.update b.inits i (some (.answered (.body ⟨flags, b.log.version⟩))) }
    | _ => none
  | .failInit i ok =>
    match b.inits i with
    | some .fetching =>
      some { b with
        inits := Function.update b.inits i (some (.answered (if ok then .rejected else .notOk))) }
    | _ => none
  | .resumeInit i =>
    match b.inits i with
    | some (.answered (.body snapshot)) =>
      some { b with
        sdk := (b.sdk.bootstrap snapshot.body).1
        inits := Function.update b.inits i (some .bootstrapped) }
    | some (.answered _) =>
      -- `init` throws
      some { b with inits := Function.update b.inits i (some .finished) }
    | _ => none
  | .continueInit i =>
    match b.inits i with
    | some .bootstrapped =>
      let b := { b with inits := Function.update b.inits i (some .finished) }.connectSSE
      some (if b.polls then b.setInterval else b)
    | _ => none
  | .answerReconcile n =>
    match b.reconciling with
    | some ⟨prevStatus, guard, since, none⟩ =>
      let page := (b.log.since since).take n
      if page.isEmpty && !(b.log.since since).isEmpty then none
      else some { b with reconciling := some ⟨prevStatus, guard, since, some (.body page)⟩ }
    | _ => none
  | .failReconcile ok =>
    match b.reconciling with
    | some ⟨prevStatus, guard, since, none⟩ =>
      some { b with
        reconciling := some ⟨prevStatus, guard, since, some (if ok then .rejected else .notOk)⟩ }
    | _ => none
  | .resumeReconcile =>
    match b.reconciling with
    | some r => r.answer.map (b.resumeReconcile r)
    | none => none
  | .opened es =>
    if (b.sources es).readyState = .connecting then some (b.setReadyState es .open).reconcile
    else none
  | .error es fatal =>
    if (b.sources es).readyState = .closed then none
    else some ((b.setReadyState es (if fatal then .closed else .connecting)).onError es)
  | .message es i =>
    match b.log.events[i]? with
    | some e =>
      if (b.sources es).readyState = .open then
        let frame := e.envelope.sseEvent.frame
        let lastEventId := frame.id.or (b.sources es).lastEventId
        some ({ b with
          sources := Function.update b.sources es { b.sources es with lastEventId := lastEventId }
          received := b.received ++ [b.sdk.eventVersion lastEventId] }.onMessage
            frame.event lastEventId frame.data)
      else none
    | none => none
  | .tick t => if b.timers t then some b.reconcile else none

/-! ### What each step does -/

section Spec

variable {b b' : Browser} {e : FlagEvent} {es : SourceId} {i : InitId}

theorem Browser.reconcile_of_idle (h : b.reconciling = none) :
    b.reconcile = { b with
      status := .reconciling
      reconciling := some ⟨b.status, 0, b.sdk.configVersion, none⟩ } := by
  rw [reconcile, h]

theorem Browser.reconcile_of_running (h : b.reconciling ≠ none) : b.reconcile = b := by
  rw [reconcile]
  split
  · rfl
  · rename_i hnone
    exact absurd hnone h

/-- Only `null` has no properties to read. -/
theorem FeatureFlagClient.setParsed_isSome {flag : Json} (hnull : flag ≠ .null)
    (c : FeatureFlagClient) : ∃ c', setParsed flag c = some c' := by
  unfold setParsed
  split
  · exact absurd rfl hnull
  · exact ⟨_, rfl⟩

theorem FeatureFlagClient.setParsed_configVersion {flag : Json} {c c' : FeatureFlagClient}
    (h : setParsed flag c = some c') : c'.configVersion = c.configVersion := by
  unfold setParsed at h
  split at h
  · cases h
  · obtain rfl := Option.some.inj h
    split <;> rfl

/-- A frame of a logged event: stale, a gap, or the next one. -/
theorem Browser.onMessage_cases (b : Browser) (hwf : e.WellFormed) :
    (jsNumber e.version ≤ b.sdk.configVersion ∧
        b.onMessage e.frame.1 (some e.version) e.frame.2 = b) ∨
      (b.sdk.configVersion < jsNumber e.version ∧ b.sdk.nextVersion < jsNumber e.version ∧
        b.onMessage e.frame.1 (some e.version) e.frame.2 = b.reconcile) ∨
      (b.sdk.Expects (jsNumber e.version) ∧ ∃ sdk, sdk.configVersion = jsNumber e.version ∧
        sdk = (b.sdk.onMessage e.frame.1 (some e.version) e.frame.2).1 ∧
        b.onMessage e.frame.1 (some e.version) e.frame.2 =
          { b with sdk := sdk, status := .live }) := by
  -- each listener applies the event by a `mutate` that does not throw
  obtain ⟨mutate, sdk, hmutate, hsdk, heq⟩ : ∃ mutate sdk, mutate b.sdk = some sdk ∧
      b.sdk.onMessage e.frame.1 (some e.version) e.frame.2 =
        b.sdk.applyEvent (jsNumber e.version) mutate ∧
      b.onMessage e.frame.1 (some e.version) e.frame.2 =
        b.applyEvent (jsNumber e.version) mutate := by
    rw [FlagEvent.frame]
    by_cases hty : e.eventType = .deleted
    · rw [if_pos hty]
      exact ⟨fun sdk => some (sdk.delete e.flagKey), _, rfl, rfl, rfl⟩
    · rw [if_neg hty]
      obtain ⟨f, hf, -⟩ := hwf.resolve_left hty
      have hnull : e.payload ≠ .null := by
        intro hpayload
        rw [hpayload] at hf
        cases hf
      obtain ⟨sdk, hsdk⟩ := FeatureFlagClient.setParsed_isSome hnull b.sdk
      exact ⟨FeatureFlagClient.setParsed e.payload, sdk, hsdk, rfl, rfl⟩
  rw [heq, hsdk, applyEvent, FeatureFlagClient.applyEvent, hmutate]
  by_cases hstale : jsNumber e.version ≤ b.sdk.configVersion
  · rw [if_pos hstale]
    exact Or.inl ⟨hstale, rfl⟩
  rw [if_neg hstale, if_neg hstale]
  by_cases hgap : jsNumber e.version > b.sdk.nextVersion
  · rw [if_pos hgap]
    exact Or.inr (Or.inl ⟨not_le.mp hstale, hgap, rfl⟩)
  · rw [if_neg hgap, if_neg hgap]
    exact Or.inr (Or.inr ⟨⟨not_le.mp hstale, not_lt.mp hgap⟩, _, rfl, rfl, rfl⟩)

/-- A page that is applied leads from a version to a later one. -/
theorem FeatureFlagClient.applyPage_le (c : FeatureFlagClient) (page : List FlagEvent) :
    c.configVersion ≤ (c.applyPage page).1.configVersion := by
  suffices H : ∀ s : FeatureFlagClient × Bool,
      s.1.configVersion ≤ (page.foldl applyNext s).1.configVersion from H (c, false)
  induction page with
  | nil => exact fun s => le_refl _
  | cons e page ih =>
      intro s
      refine le_trans ?_ (ih (applyNext s e))
      rw [applyNext]
      split
      · exact le_refl _
      · rename_i hnew
        exact (not_le.mp hnew).le

/-- A snapshot replaces the flags and the version. -/
theorem FeatureFlagClient.setAll_objects (c : FeatureFlagClient)
    (flags : List (List (String × Json))) :
    (c.setAll (flags.map .obj)).2 = true ∧
      (c.setAll (flags.map .obj)).1.configVersion = c.configVersion := by
  induction flags generalizing c with
  | nil => exact ⟨rfl, rfl⟩
  | cons members flags ih =>
      obtain ⟨c', hset⟩ := setParsed_isSome (show Json.obj members ≠ .null by simp) c
      obtain ⟨hok, hversion⟩ := ih c'
      rw [List.map_cons, setAll, hset]
      exact ⟨hok, hversion.trans (setParsed_configVersion hset)⟩

theorem FeatureFlagClient.bootstrap_snapshot (c : FeatureFlagClient) (s : Snapshot) :
    (c.bootstrap s.body).1.configVersion = jsNumber s.version := by
  obtain ⟨hok, -⟩ := setAll_objects { c with flags := fun _ => none } s.flags
  unfold bootstrap Snapshot.body
  dsimp only
  split
  · rename_i c' heq
    rw [heq] at hok
    cases hok
  · rfl

/-- What `reconcile` does to a client: nothing to its streams and timers. -/
theorem Browser.reconcile_frame (b : Browser) :
    ∃ status r, b.reconcile = { b with status := status, reconciling := r } := by
  unfold reconcile
  split
  · exact ⟨b.status, b.reconciling, rfl⟩
  · exact ⟨_, _, rfl⟩

theorem Browser.resumeReconcile_frame (b : Browser) (r : Reconciling)
    (a : Answer (List FlagEvent)) :
    ∃ sdk status r', b.sdk.configVersion ≤ sdk.configVersion ∧
      b.resumeReconcile r a = { b with sdk := sdk, status := status, reconciling := r' } := by
  cases a with
  | notOk | rejected => exact ⟨b.sdk, _, none, le_refl _, rfl⟩
  | body page =>
      rw [resumeReconcile]
      split
      · exact ⟨b.sdk, .live, none, le_refl _, rfl⟩
      have hle := b.sdk.applyPage_le page
      dsimp only
      split
      · exact ⟨_, b.status, _, hle, rfl⟩
      · exact ⟨_, .live, none, hle, rfl⟩

/-- A page leads up to its last version, if that is above the client's. -/
theorem FeatureFlagClient.le_applyPage_iff {v : Int} (c : FeatureFlagClient)
    (page : List FlagEvent) :
    v ≤ (c.applyPage page).1.configVersion ↔
      v ≤ c.configVersion ∨ ∃ e ∈ page, v ≤ jsNumber e.version := by
  suffices H : ∀ s : FeatureFlagClient × Bool,
      v ≤ (page.foldl applyNext s).1.configVersion ↔
        v ≤ s.1.configVersion ∨ ∃ e ∈ page, v ≤ jsNumber e.version from H (c, false)
  induction page with
  | nil => simp
  | cons e page ih =>
      intro s
      rw [List.foldl_cons, ih, applyNext, List.exists_mem_cons_iff, ← or_assoc]
      refine or_congr_left ?_
      split
      · omega
      · show v ≤ jsNumber e.version ↔ _
        omega

/-- A page advances the client when one of its events is above its version. -/
theorem FeatureFlagClient.applyPage_advanced_iff (c : FeatureFlagClient) (page : List FlagEvent) :
    (c.applyPage page).2 = true ↔ ∃ e ∈ page, c.configVersion < jsNumber e.version := by
  suffices H : ∀ s : FeatureFlagClient × Bool,
      (page.foldl applyNext s).2 = true ↔
        s.2 = true ∨ ∃ e ∈ page, s.1.configVersion < jsNumber e.version by
    exact (H (c, false)).trans (or_iff_right Bool.false_ne_true)
  induction page with
  | nil => simp
  | cons e page ih =>
      intro s
      rw [List.foldl_cons, ih, applyNext, List.exists_mem_cons_iff]
      split
      · rename_i hstale
        rw [or_iff_right (a := s.1.configVersion < jsNumber e.version) (by omega)]
      · rename_i hnew
        simp [not_le.mp hnew]

/-- The page that `reconcile` stops at: it brings nothing new, or the loop is at its bound. -/
def Browser.LastPage (b : Browser) (r : Reconciling) (page : List FlagEvent) : Prop :=
  (∀ e ∈ page, jsNumber e.version ≤ b.sdk.configVersion) ∨ reconcileLimit ≤ r.guard + 1

/-- What `reconcile` does with a page. -/
theorem Browser.resumeReconcile_page (b : Browser) (r : Reconciling) (page : List FlagEvent) :
    (b.LastPage r page ∧ b.resumeReconcile r (.body page) =
      { b with sdk := (b.sdk.applyPage page).1, status := .live, reconciling := none }) ∨
    (¬ b.LastPage r page ∧ b.resumeReconcile r (.body page) =
      { b with
        sdk := (b.sdk.applyPage page).1
        reconciling :=
          some ⟨r.prevStatus, r.guard + 1, (b.sdk.applyPage page).1.configVersion, none⟩ }) := by
  have hadvanced := b.sdk.applyPage_advanced_iff page
  rw [resumeReconcile]
  split
  · rename_i hempty
    obtain rfl := List.isEmpty_iff.mp hempty
    exact Or.inl ⟨Or.inl (by simp), rfl⟩
  dsimp only
  split
  · rename_i hgoes
    obtain ⟨hnew, hguard⟩ := Bool.and_eq_true_iff.mp hgoes
    obtain ⟨e, he, hlt⟩ := hadvanced.mp hnew
    refine Or.inr ⟨?_, rfl⟩
    intro hcase
    rcases hcase with hall | hlimit
    · exact absurd (hall e he) (not_le.mpr hlt)
    · exact absurd (of_decide_eq_true hguard) (not_lt.mpr hlimit)
  · rename_i hstops
    refine Or.inl ⟨?_, rfl⟩
    by_contra hnot
    obtain ⟨hnew, hguard⟩ := not_or.mp hnot
    refine hstops (Bool.and_eq_true_iff.mpr ⟨hadvanced.mpr ?_, decide_eq_true (not_le.mp hguard)⟩)
    simpa using hnew

theorem browserStep_append (hs : browserStep b (.append e) = some b') :
    ∃ log : EventLog, log.events = b.log.events ++ [e] ∧ b.log.version < e.version ∧
      b' = { b with log := log } := by
  rw [browserStep] at hs
  split at hs
  · rename_i h
    obtain rfl := Option.some.inj hs
    exact ⟨_, rfl, h.1, rfl⟩
  · cases hs

theorem browserStep_init (hs : browserStep b (.init i) = some b') :
    b' = { b with
      status := .connecting
      inits := Function.update b.inits i (some .fetching)
      hungUp := false
      destroyed := false } := by
  rw [browserStep] at hs
  split at hs
  · exact (Option.some.inj hs).symm
  · cases hs

/-- The server answers with the version its log is at. -/
theorem browserStep_answerInit {flags : List (List (String × Json))}
    (hs : browserStep b (.answerInit i flags) = some b') :
    b' = { b with
      inits := Function.update b.inits i (some (.answered (.body ⟨flags, b.log.version⟩))) } := by
  rw [browserStep] at hs
  split at hs
  · exact (Option.some.inj hs).symm
  · cases hs

theorem browserStep_failInit {ok : Bool} (hs : browserStep b (.failInit i ok) = some b') :
    b' = { b with
      inits := Function.update b.inits i
        (some (.answered (if ok then .rejected else .notOk))) } := by
  rw [browserStep] at hs
  split at hs
  · exact (Option.some.inj hs).symm
  · cases hs

theorem browserStep_resumeInit (hs : browserStep b (.resumeInit i) = some b') :
    (∃ snapshot, b.inits i = some (.answered (.body snapshot)) ∧
      b' = { b with
        sdk := (b.sdk.bootstrap snapshot.body).1
        inits := Function.update b.inits i (some .bootstrapped) }) ∨
    (∀ snapshot, b.inits i ≠ some (.answered (.body snapshot))) ∧
      b' = { b with inits := Function.update b.inits i (some .finished) } := by
  rw [browserStep] at hs
  split at hs
  · rename_i snapshot hi
    exact Or.inl ⟨snapshot, hi, (Option.some.inj hs).symm⟩
  · rename_i a hnot hi
    refine Or.inr ⟨fun snapshot hsnapshot => ?_, (Option.some.inj hs).symm⟩
    obtain rfl : a = .body snapshot := by simpa using hi.symm.trans hsnapshot
    exact hnot snapshot rfl
  · cases hs

theorem browserStep_continueInit (hs : browserStep b (.continueInit i) = some b') :
    b' = if b.polls then
        ({ b with inits := Function.update b.inits i (some .finished) }.connectSSE).setInterval
      else { b with inits := Function.update b.inits i (some .finished) }.connectSSE := by
  rw [browserStep] at hs
  split at hs
  · exact (Option.some.inj hs).symm
  · cases hs

/-- A page: the beginning of the log above `since`, and empty only where that is. -/
theorem browserStep_answerReconcile {n : Nat} (hs : browserStep b (.answerReconcile n) = some b') :
    ∃ r, b.reconciling = some r ∧
      ((b.log.since r.since).take n = [] → b.log.since r.since = []) ∧
      b' = { b with
        reconciling := some { r with answer := some (.body ((b.log.since r.since).take n)) } } := by
  rw [browserStep] at hs
  split at hs
  · rename_i prevStatus guard since hr
    dsimp only at hs
    split at hs
    · cases hs
    · rename_i hpage
      refine ⟨_, hr, fun hempty => ?_, (Option.some.inj hs).symm⟩
      simpa [hempty] using hpage
  · cases hs

theorem browserStep_failReconcile {ok : Bool} (hs : browserStep b (.failReconcile ok) = some b') :
    ∃ r, b.reconciling = some r ∧
      b' = { b with
        reconciling := some { r with answer := some (if ok then .rejected else .notOk) } } := by
  rw [browserStep] at hs
  split at hs
  · rename_i prevStatus guard since hr
    exact ⟨_, hr, (Option.some.inj hs).symm⟩
  · cases hs

theorem browserStep_resumeReconcile (hs : browserStep b .resumeReconcile = some b') :
    ∃ r a, b.reconciling = some r ∧ r.answer = some a ∧ b' = b.resumeReconcile r a := by
  rw [browserStep] at hs
  split at hs
  · rename_i r hr
    obtain ⟨a, ha, rfl⟩ := Option.map_eq_some_iff.mp hs
    exact ⟨r, a, hr, ha, rfl⟩
  · cases hs

theorem browserStep_opened (hs : browserStep b (.opened es) = some b') :
    (b.sources es).readyState = .connecting ∧ b' = (b.setReadyState es .open).reconcile := by
  rw [browserStep] at hs
  split at hs
  · rename_i hstate
    exact ⟨hstate, (Option.some.inj hs).symm⟩
  · cases hs

theorem browserStep_error {fatal : Bool} (hs : browserStep b (.error es fatal) = some b') :
    (b.sources es).readyState ≠ .closed ∧
      ∃ state, b' = (b.setReadyState es state).onError es := by
  rw [browserStep] at hs
  split at hs
  · cases hs
  · rename_i hstate
    exact ⟨hstate, _, (Option.some.inj hs).symm⟩

theorem browserStep_tick {t : TimerId} (hs : browserStep b (.tick t) = some b') :
    b.timers t = true ∧ b' = b.reconcile := by
  rw [browserStep] at hs
  split at hs
  · rename_i ht
    exact ⟨ht, (Option.some.inj hs).symm⟩
  · cases hs

/-- A frame: it is recorded, and then stale, a gap, or the next one. -/
theorem browserStep_message {n : Nat} (hpos : ∀ e ∈ b.log.events, 0 < e.version)
    (hs : browserStep b (.message es n) = some b') :
    ∃ e b₁, b.log.events[n]? = some e ∧ (b.sources es).readyState = .open ∧
      b₁ = { b with
        sources := Function.update b.sources es { b.sources es with lastEventId := some e.version }
        received := b.received ++ [jsNumber e.version] } ∧
      ((jsNumber e.version ≤ b.sdk.configVersion ∧ b' = b₁) ∨
        (b.sdk.configVersion < jsNumber e.version ∧ b.sdk.nextVersion < jsNumber e.version ∧
          b' = b₁.reconcile) ∨
        (b.sdk.Expects (jsNumber e.version) ∧ ∃ sdk, sdk.configVersion = jsNumber e.version ∧
          sdk = (b.sdk.onMessage e.frame.1 (some e.version) e.frame.2).1 ∧
          b' = { b₁ with sdk := sdk, status := .live })) := by
  rw [browserStep] at hs
  split at hs
  · rename_i e he
    split at hs
    · rename_i hopen
      have hmem : e ∈ b.log.events := List.mem_of_getElem? he
      rw [FlagEvent.envelope, frame_eq (hpos e hmem)] at hs
      obtain rfl := Option.some.inj hs
      let b₁ : Browser := { b with
        sources := Function.update b.sources es { b.sources es with lastEventId := some e.version }
        received := b.received ++ [jsNumber e.version] }
      exact ⟨e, b₁, he, hopen, rfl, b₁.onMessage_cases (b.log.wellFormed e hmem)⟩
    · cases hs
  · cases hs

end Spec

/-! ### What always holds -/

/-- The invariant of the client. -/
structure BrowserInv (b : Browser) : Prop where
  /-- A stream that is not closed is the one the client holds. -/
  held : ∀ es, (b.sources es).readyState ≠ .closed → b.eventSource = some es
  created : ∀ t, b.timers t = true → t < b.nextTimer
  hungUp : b.hungUp = true → b.manuallyClosed = true
  positive : ∀ e ∈ b.log.events, 0 < e.version

theorem EventLog.zero_le_version {log : EventLog} (h : ∀ e ∈ log.events, 0 < e.version) :
    0 ≤ log.version := by
  by_cases hnil : log.events = []
  · rw [EventLog.version, hnil]
    exact le_refl _
  · obtain ⟨e, he, hv⟩ := getLatestVersion_mem hnil
    rw [EventLog.version, ← hv]
    exact (h e he).le

section Inv

variable {b b' : Browser} {es es' : SourceId}

theorem Browser.setReadyState_of_ne {state : ReadyState} (hne : es' ≠ es) :
    ((b.setReadyState es state).sources es').readyState = (b.sources es').readyState := by
  simp [setReadyState, hne]

/-- A stream that is not closed after another state of an open one was not closed before. -/
theorem Browser.setReadyState_open {state : ReadyState}
    (hstate : (b.sources es).readyState ≠ .closed)
    (hopen : ((b.setReadyState es state).sources es').readyState ≠ .closed) :
    (b.sources es').readyState ≠ .closed := by
  by_cases heq : es' = es
  · rwa [heq]
  · rwa [setReadyState_of_ne heq] at hopen

theorem Browser.clearInterval_timers {t : TimerId} (ht : b.clearInterval.timers t = true) :
    b.timers t = true ∧ b.refreshTimer ≠ some t := by
  unfold clearInterval at ht
  cases htimer : b.refreshTimer with
  | none => simpa [htimer] using ht
  | some t' =>
      by_cases heq : t = t'
      · simp [htimer, heq] at ht
      · simpa [htimer, heq, Ne.symm heq] using ht

/-- After `closeStream` every stream is closed. -/
theorem Browser.closeStream_closed
    (held : ∀ es, (b.sources es).readyState ≠ .closed → b.eventSource = some es) (es : SourceId) :
    (b.closeStream.sources es).readyState = .closed := by
  unfold closeStream
  cases hsource : b.eventSource with
  | none =>
      by_contra hopen
      cases hsource.symm.trans (held es hopen)
  | some es' =>
      by_cases heq : es = es'
      · subst heq
        simp
      · by_contra hopen
        have hopen' : (b.sources es).readyState ≠ .closed := by
          simpa [heq] using hopen
        exact heq (Option.some.inj ((held es hopen').symm.trans hsource))

/-- After `connectSSE` the one stream that is not closed is the new one. -/
theorem Browser.connectSSE_held
    (held : ∀ es, (b.sources es).readyState ≠ .closed → b.eventSource = some es)
    (hopen : (b.connectSSE.sources es).readyState ≠ .closed) : es = b.nextSource := by
  by_contra hne
  refine hopen (Eq.trans ?_ (closeStream_closed held es))
  simp [connectSSE, hne, closeStream]

theorem Browser.setInterval_timers {t : TimerId} :
    b.setInterval.timers t = if t = b.nextTimer then true else b.timers t := by
  simp [setInterval, Function.update_apply]

/-- A step that leaves streams, intervals and the log alone. -/
theorem BrowserInv.frame (h : BrowserInv b) (hsources : b'.sources = b.sources)
    (hsource : b'.eventSource = b.eventSource) (htimers : b'.timers = b.timers)
    (hnext : b'.nextTimer = b.nextTimer) (hhungUp : b'.hungUp = true → b'.manuallyClosed = true)
    (hlog : b'.log = b.log) : BrowserInv b' := by
  refine ⟨?_, ?_, hhungUp, ?_⟩
  · rw [hsources, hsource]
    exact h.held
  · rw [htimers, hnext]
    exact h.created
  · rw [hlog]
    exact h.positive

/-- A call of `reconcile`. -/
theorem BrowserInv.reconcile (h : BrowserInv b) : BrowserInv b.reconcile := by
  obtain ⟨status, r, heq⟩ := b.reconcile_frame
  rw [heq]
  exact h.frame rfl rfl rfl rfl h.hungUp rfl

/-- The streams become no less closed. -/
theorem BrowserInv.withSources (h : BrowserInv b) {sources : SourceId → Source}
    {received : List Int}
    (hsources : ∀ es, (sources es).readyState ≠ .closed → (b.sources es).readyState ≠ .closed) :
    BrowserInv { b with sources := sources, received := received } :=
  ⟨fun es hopen => h.held es (hsources es hopen), h.created, h.hungUp, h.positive⟩

/-- The log grows. -/
theorem BrowserInv.append (h : BrowserInv b) {log : EventLog} {e : FlagEvent}
    (hlog : log.events = b.log.events ++ [e]) (hversion : b.log.version < e.version) :
    BrowserInv { b with log := log } := by
  refine ⟨h.held, h.created, h.hungUp, fun x hx => ?_⟩
  rcases List.mem_append.mp (hlog ▸ hx) with hx | hx
  · exact h.positive x hx
  · rw [List.mem_singleton.mp hx]
    exact (EventLog.zero_le_version h.positive).trans_lt hversion

/-- A new stream. -/
theorem BrowserInv.connectSSE (h : BrowserInv b) : BrowserInv b.connectSSE := by
  refine ⟨fun es hopen => ?_, h.created, h.hungUp, h.positive⟩
  obtain rfl := Browser.connectSSE_held h.held hopen
  rfl

/-- A new interval. -/
theorem BrowserInv.setInterval (h : BrowserInv b) : BrowserInv b.setInterval := by
  refine ⟨h.held, fun t ht => ?_, h.hungUp, h.positive⟩
  rw [Browser.setInterval_timers] at ht
  show t < b.nextTimer + 1
  split at ht
  · rename_i heq
    rw [heq]
    exact Nat.lt_succ_self _
  · exact Nat.lt_succ_of_lt (h.created t ht)

/-- `onerror` drops the reference to a stream only when that is closed. -/
theorem BrowserInv.onError (h : BrowserInv b) : BrowserInv (b.onError es) := by
  unfold Browser.onError
  split
  · exact h
  refine ⟨fun es' hopen => ?_, h.created, h.hungUp, h.positive⟩
  have hheld := h.held es' hopen
  refine (if_neg ?_).trans hheld
  intro hboth
  obtain rfl : es' = es := Option.some.inj (hheld.symm.trans hboth.2)
  exact hopen hboth.1

/-- **Every step keeps the invariant.** -/
theorem BrowserInv.step (h : BrowserInv b) {a : BrowserAction} (hs : browserStep b a = some b') :
    BrowserInv b' := by
  cases a with
  | append e =>
      obtain ⟨log, hlog, hversion, rfl⟩ := browserStep_append hs
      exact h.append hlog hversion
  | init i =>
      obtain rfl := browserStep_init hs
      exact h.frame rfl rfl rfl rfl (by simp) rfl
  | disconnect =>
      obtain rfl := Option.some.inj hs
      exact ⟨fun es hopen => absurd (Browser.closeStream_closed h.held es) hopen, h.created,
        fun _ => rfl, h.positive⟩
  | reconnect =>
      obtain rfl := Option.some.inj hs
      exact BrowserInv.connectSSE (h.frame rfl rfl rfl rfl (by simp) rfl)
  | destroy =>
      obtain rfl := Option.some.inj hs
      refine ⟨fun es hopen => absurd (Browser.closeStream_closed h.held es) hopen, fun t ht => ?_,
        fun _ => rfl, h.positive⟩
      exact h.created t (Browser.clearInterval_timers ht).1
  | reconcile =>
      obtain rfl := Option.some.inj hs
      exact h.reconcile
  | answerInit i flags =>
      obtain rfl := browserStep_answerInit hs
      exact h.frame rfl rfl rfl rfl h.hungUp rfl
  | failInit i ok =>
      obtain rfl := browserStep_failInit hs
      exact h.frame rfl rfl rfl rfl h.hungUp rfl
  | resumeInit i =>
      obtain ⟨snapshot, -, rfl⟩ | ⟨-, rfl⟩ := browserStep_resumeInit hs
      · exact h.frame rfl rfl rfl rfl h.hungUp rfl
      · exact h.frame rfl rfl rfl rfl h.hungUp rfl
  | continueInit i =>
      obtain rfl := browserStep_continueInit hs
      have hconnected : BrowserInv
          ({ b with inits := Function.update b.inits i (some .finished) }.connectSSE) :=
        BrowserInv.connectSSE (h.frame rfl rfl rfl rfl h.hungUp rfl)
      split
      · exact hconnected.setInterval
      · exact hconnected
  | answerReconcile n =>
      obtain ⟨r, -, -, rfl⟩ := browserStep_answerReconcile hs
      exact h.frame rfl rfl rfl rfl h.hungUp rfl
  | failReconcile ok =>
      obtain ⟨r, -, rfl⟩ := browserStep_failReconcile hs
      exact h.frame rfl rfl rfl rfl h.hungUp rfl
  | resumeReconcile =>
      obtain ⟨r, a, -, -, rfl⟩ := browserStep_resumeReconcile hs
      obtain ⟨sdk, status, r', -, heq⟩ := b.resumeReconcile_frame r a
      rw [heq]
      exact h.frame rfl rfl rfl rfl h.hungUp rfl
  | opened es =>
      obtain ⟨hstate, rfl⟩ := browserStep_opened hs
      have hwas : (b.sources es).readyState ≠ .closed := by simp [hstate]
      have hopened : BrowserInv (b.setReadyState es .open) :=
        h.withSources fun es' hopen => Browser.setReadyState_open hwas hopen
      exact hopened.reconcile
  | error es fatal =>
      obtain ⟨hstate, state, rfl⟩ := browserStep_error hs
      have hset : BrowserInv (b.setReadyState es state) :=
        h.withSources fun es' hopen => Browser.setReadyState_open hstate hopen
      exact hset.onError
  | message es n =>
      obtain ⟨e, b₁, -, -, rfl, hb'⟩ := browserStep_message h.positive hs
      have hreceived : BrowserInv { b with
          sources := Function.update b.sources es
            { b.sources es with lastEventId := some e.version }
          received := b.received ++ [jsNumber e.version] } := by
        refine h.withSources fun es' hopen => ?_
        rwa [Function.apply_update (fun _ => Source.readyState), Function.update_eq_self] at hopen
      obtain ⟨-, rfl⟩ | ⟨-, -, rfl⟩ | ⟨-, sdk, -, -, rfl⟩ := hb'
      · exact hreceived
      · exact hreceived.reconcile
      · exact hreceived.frame rfl rfl rfl rfl h.hungUp rfl
  | tick t =>
      obtain ⟨-, rfl⟩ := browserStep_tick hs
      exact h.reconcile

theorem browserInv_new {polls : Bool} : BrowserInv (Browser.new polls) :=
  ⟨by simp [Browser.new], by simp [Browser.new], by simp [Browser.new], by simp [Browser.new]⟩

end Inv

end FlagPlane
