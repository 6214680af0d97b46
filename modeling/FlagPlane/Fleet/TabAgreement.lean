import FlagPlane.Client.Evaluate
import FlagPlane.Client.Simulation
import FlagPlane.Client.Version
import FlagPlane.Fleet.Agreement
import FlagPlane.Fleet.Tabs

/-!
# FlagPlane.Fleet.TabAgreement

**When tabs and Go clients agree.** In an orderly run (`Floor.Orderly`, the order that
`Fleet.Agreement` asks of Go clients) a tab is a Go client in other words. `Tab.Follows` carries
that Go client along, one that runs a single goroutine: it is in the same state as the tab
(`SameState`) and in step with the log (`SessionInv`). A frame and a page keep both, by the
lemmas of `Client.Simulation` and `Client.Reconcile`.

So a tab's flags are the log up to its version too, and whichever clients are at one version hold
the same flags and give the same verdicts, where their hashes agree (`tabs_agree`), as long as the
versions of the log are numbers.
-/

namespace FlagPlane

/-- `Plane.Orderly`, and no commit between the two queries of a tab's `GetAllFlags`. -/
def Floor.Orderly (s : Floor) : FloorAction → Prop
  | .plane a => s.plane.Orderly a
  | .tab g .version =>
    ∀ flags, s.tabs g = .listed flags → flags = listFlags s.plane.service.db.flags
  | .tab _ _ => True

/-- `reconcile` of a tab, as a goroutine. -/
def TabRun.run : TabRun → ReconcileRun
  | idle => .idle
  | asked guard since => .asked guard since
  | answered guard page => .answered guard page

/-- Some Go client is in the same state and in step with the log, at a version that is a number. -/
def FeatureFlagClient.Follows (m₀ : String → Option ClientFlag) (log : EventLog)
    (sdk : FeatureFlagClient) (run : TabRun) : Prop :=
  ∃ c : Client, SameState c sdk ∧ ExactInt c.configVersion ∧
    SessionInv m₀ ⟨log, c, fun _ => run.run⟩

def Tab.Follows (m₀ : String → Option ClientFlag) (log : EventLog) : Tab → Prop
  | fresh | listed _ => True
  | answered body => ∃ sdk, Tab.ofBody body = .running sdk .idle ∧ sdk.Follows m₀ log .idle
  | running sdk run => sdk.Follows m₀ log run

/-! ### Flags that are held alike -/

section Flags

variable {rows : List FlagRow} {events : List FlagEvent} {r : FlagRow} {record : Json}
  {c : Client} {t : FeatureFlagClient} {key userId : String}

/-- A row as the server sends it, and as the Go client decodes it. -/
theorem FlagRow.Sent.sameFields (h : r.Sent record) : (clientFlag r).SameFields record := by
  rcases h with rfl | rfl
  · exact ⟨rfl, rfl, rfl, rfl, rfl, rfl, rfl⟩
  · exact ⟨rfl, rfl, rfl, rfl, rfl, rfl, rfl⟩

theorem ClientFlag.SameFields.isRecord {f : ClientFlag} (h : f.SameFields record) :
    f.IsRecord record :=
  ⟨h.enabled, h.targetedUsers, h.rolloutPercentage⟩

/-- In the same state, the clients' verdicts agree where their hashes do. -/
theorem SameState.isEnabled (h : SameState c t)
    (hhash : ∀ percentage, isInRollout key userId percentage = inRollout key userId percentage) :
    t.isEnabled key userId = some (c.isEnabled key userId) := by
  have hrel := h.flags key
  cases hgo : c.flags key with
  | none =>
      rw [hgo] at hrel
      have hts : t.flags key = none := by
        cases hts : t.flags key with
        | none => rfl
        | some record =>
            rw [hts] at hrel
            cases hrel
      rw [Client.isEnabled, FeatureFlagClient.isEnabled, hgo, hts]
  | some f =>
      rw [hgo] at hrel
      cases hts : t.flags key with
      | none =>
          rw [hts] at hrel
          cases hrel
      | some record =>
          rw [hts] at hrel
          cases hrel with
          | some hsame =>
              have hboth : HoldBoth c t key f := ⟨hgo, record, hts, hsame.isRecord⟩
              exact hboth.isEnabled_iff.mpr (Or.inr (Or.inr (hhash f.rolloutPercentage)))

/-- Two bootstraps from the same rows. -/
theorem SameFlags.setAll {flags : String → Option ClientFlag} (h : SameFlags flags t.flags)
    (rows : List FlagRow) :
    SameFlags
      ((rows.map clientFlag).foldl
        (fun (m : String → Option ClientFlag) f => Function.update m f.key (some f)) flags)
      ((rows.map scanFlag).foldl (fun t f => t.set f.key (clientFlagJson f)) t).flags := by
  induction rows generalizing flags t with
  | nil => exact h
  | cons r rows ih =>
      have hsent : r.Sent (clientFlagJson (scanFlag r)) := Or.inl rfl
      exact ih (h.update (Option.Rel.some hsent.sameFields))

/-- What `bootstrap` makes of the table. -/
theorem DbInv.sameFlags_bootstrap {db : Db} (h : DbInv db) :
    SameFlags (clientView.table db)
      ((listFlags db.flags).foldl (fun t f => t.set f.key (clientFlagJson f))
        FeatureFlagClient.new).flags := by
  have hperm : (db.flags.insertionSort fun a b => b.createdAt ≤ a.createdAt).Perm db.flags :=
    List.perm_insertionSort _ _
  have hempty : SameFlags (fun _ => none) FeatureFlagClient.new.flags := fun _ => Option.Rel.none
  have hsame := hempty.setAll (db.flags.insertionSort fun a b => b.createdAt ≤ a.createdAt)
  have hnodup : ((((db.flags.insertionSort fun a b => b.createdAt ≤ a.createdAt).map
      clientFlag)).map ClientFlag.key).Nodup := by
    rw [List.map_map]
    exact (hperm.map FlagRow.key).nodup_iff.mpr h.table.keys
  intro key
  have hkey := hsame key
  rw [bootstrap_flags hnodup, find?_clientFlag h.table hperm, Option.or_none] at hkey
  exact hkey

/-- An event of a row, that clients can use, is one that both of them can. -/
theorem FlagEvent.OfRow.carriesFlag {e : FlagEvent} (h : e.OfRow rows events)
    (hwell : e.WellFormed) : e.CarriesFlag := by
  by_cases hty : e.eventType = .deleted
  · exact Or.inl hty
  obtain ⟨r, hr, hevent⟩ := h.resolve_left hty
  obtain ⟨f, hf, hkey⟩ := hwell.resolve_left hty
  have hne : f.key ≠ "" := by
    rw [decodeFlag, Option.filter_eq_some_iff] at hf
    simpa using hf.2
  have hrow : (scanFlag r).key ≠ "" := by
    rw [hkey, hevent.2.2.1] at hne
    exact hne
  have hrecords : e.Records (scanFlag r) := hevent
  exact carriesFlag_of_records hrecords hrow (inInt64_of_columnsOk (r := r.stored) hr.columns)
    (inInt64_of_version hr.version.1 hr.version.2)

end Flags

/-! ### The Go client in a tab -/

section Follows

variable {m₀ : String → Option ClientFlag} {log log' : EventLog} {sdk : FeatureFlagClient}
  {run : TabRun} {e : FlagEvent} {tab tab' : Tab}

/-- The Go client's move on a live frame, by its version. -/
theorem Client.sdkStep_live (c : Client) (hpos : 0 < e.version) (lastEventId : Option Int) :
    c.sdkStep (.live e lastEventId) = c.applyLiveEvent e.frame.1 e.frame.2 e.version := by
  rw [Client.sdkStep, FlagEvent.envelope, frame_eq hpos]
  rfl

/-- `reconcile` alone moves. -/
theorem FeatureFlagClient.Follows.setRun (h : sdk.Follows m₀ log run) {run' : TabRun}
    (hrun : ∀ c : Client, c.configVersion = sdk.configVersion → run'.run.Inv log c) :
    sdk.Follows m₀ log run' := by
  obtain ⟨c, hsame, hc, hsession⟩ := h
  exact ⟨c, hsame, hc, hsession.inStep, hsession.version, fun _ => hrun c hsame.version⟩

theorem FeatureFlagClient.Follows.idle (h : sdk.Follows m₀ log run) : sdk.Follows m₀ log .idle :=
  h.setRun fun _ _ => trivial

/-- A request for what is above the client's version. -/
theorem FeatureFlagClient.Follows.ask (h : sdk.Follows m₀ log run) (guard : Nat) :
    sdk.Follows m₀ log (.asked guard sdk.configVersion) :=
  h.setRun fun _ hversion => hversion.ge

theorem FeatureFlagClient.Follows.start (h : sdk.Follows m₀ log run) :
    sdk.Follows m₀ log (run.start sdk) := by
  cases run with
  | idle => exact h.ask 0
  | asked guard since => exact h
  | answered guard page => exact h

/-- **A frame.** -/
theorem FeatureFlagClient.Follows.message (h : sdk.Follows m₀ log run) (he : e ∈ log.events)
    (hcarries : e.CarriesFlag) (hexact : ∀ e ∈ log.events, ExactInt e.version)
    (hpos : 0 < e.version) (lastEventId : Option Int) :
    (Tab.message sdk run lastEventId e.envelope.sseEvent.frame).Follows m₀ log := by
  obtain ⟨c, hsame, hc, hsession⟩ := h
  obtain ⟨hstate, -⟩ := hsame.live hc hcarries (hexact e he) hpos lastEventId
  have hlive := hsession.live he
  have hc' := Client.exactInt_sdkStep (s := .live e lastEventId) hexact ⟨he, hpos⟩ hc
  rw [c.sdkStep_live hpos] at hstate hc'
  have hfollows : (sdk.onFrame lastEventId e.envelope.sseEvent.frame).1.Follows m₀ log run :=
    ⟨_, hstate, hc', hlive⟩
  rw [Tab.message]
  generalize sdk.onFrame lastEventId e.envelope.sseEvent.frame = out at hfollows
  show out.1.Follows m₀ log (if out.2 then run.start out.1 else run)
  split
  · exact hfollows.start
  · exact hfollows

/-- **A page.** -/
theorem FeatureFlagClient.Follows.resume {guard : Nat} {page : List FlagEvent}
    (h : sdk.Follows m₀ log (.answered guard page)) (hcarries : ∀ e ∈ log.events, e.CarriesFlag)
    (hexact : ∀ e ∈ log.events, ExactInt e.version) :
    (Tab.resume sdk guard page).Follows m₀ log := by
  rw [Tab.resume]
  split
  · exact h.idle
  obtain ⟨c, hsame, hc, hsession⟩ := h
  obtain ⟨v, hv, hsub⟩ : ∃ v ≤ c.configVersion, page <+: log.since v := hsession.runs 0
  have hmem : ∀ e ∈ page, e ∈ log.events := fun e he => List.mem_of_mem_filter (hsub.subset he)
  obtain ⟨hstate, -⟩ := hsame.page fun e he => ⟨hcarries e (hmem e he), hexact e (hmem e he)⟩
  have hpage := hsession.applyPage hv hsub
  have hc' := Client.exactInt_sdkStep (s := .page page) hexact hmem hc
  have hfollows : (sdk.applyPage page).1.Follows m₀ log .idle :=
    ⟨_, hstate, hc', hpage.inStep, hpage.version, fun _ => trivial⟩
  show (sdk.applyPage page).1.Follows m₀ log _
  split
  · exact hfollows.ask (guard + 1)
  · exact hfollows

/-- **One step of a tab**, when the answers of its `GetAllFlags` are made between two commits. -/
theorem Tab.Follows.step {db : Db} {published : List Envelope} {a : TabAction}
    (h : tab.Follows m₀ log) (hevents : log.events = db.events)
    (hcarries : ∀ e ∈ log.events, e.CarriesFlag) (hexact : ∀ e ∈ log.events, ExactInt e.version)
    (hpos : ∀ e ∈ log.events, 0 < e.version)
    (hpublished : ∀ env ∈ published, ∃ e ∈ log.events, env = e.envelope)
    (hanswer : a = .version →
      (Tab.answered (flagsBody (listFlags db.flags) (getLatestVersion db.events))).Follows m₀ log)
    (hlisted : a = .version → ∀ flags, tab = .listed flags → flags = listFlags db.flags)
    (hs : tabStep db published tab a = some tab') : tab'.Follows m₀ log := by
  cases tabStep_effect hs with
  | list => trivial
  | @version flags =>
      obtain rfl := hlisted rfl flags rfl
      exact hanswer rfl
  | load =>
      obtain ⟨sdk, hbody, hfollows⟩ := h
      rw [hbody]
      exact hfollows
  | lose => trivial
  | message henv =>
      obtain ⟨e, he, rfl⟩ := hpublished _ henv
      exact FeatureFlagClient.Follows.message h he (hcarries e he) hexact (hpos e he) _
  | reconcile => exact FeatureFlagClient.Follows.start h
  | @answer sdk guard since =>
      obtain ⟨c, hsame, hc, hsession⟩ := h
      have hsince : since ≤ c.configVersion := hsession.runs 0
      refine ⟨c, hsame, hc, hsession.inStep, hsession.version, fun _ => ⟨since, hsince, ?_⟩⟩
      rw [← hevents, EventLog.listEventsSince]
      exact List.take_prefix 500 _
  | failRequest => exact FeatureFlagClient.Follows.idle h
  | resume => exact FeatureFlagClient.Follows.resume h hcarries hexact

/-- The log with one more event. -/
theorem FeatureFlagClient.Follows.append (h : sdk.Follows m₀ log run)
    (hv : log.version < e.version) (he : e.WellFormed) :
    sdk.Follows m₀ (log.push e hv he) run := by
  obtain ⟨c, hsame, hc, hsession⟩ := h
  exact ⟨c, hsame, hc, hsession.append hv he⟩

theorem Tab.Follows.append (h : tab.Follows m₀ log) (hv : log.version < e.version)
    (he : e.WellFormed) : tab.Follows m₀ (log.push e hv he) := by
  cases tab with
  | fresh | listed flags => trivial
  | answered body =>
      obtain ⟨sdk, hbody, hfollows⟩ := h
      exact ⟨sdk, hbody, hfollows.append hv he⟩
  | running sdk run => exact FeatureFlagClient.Follows.append h hv he

/-- A log with one event more is a push. -/
theorem EventLog.eq_push (h : log'.events = log.events ++ [e]) (hpos : 0 < e.version) :
    ∃ hv he, log' = log.push e hv he := by
  have hv : log.version < e.version := by
    rw [EventLog.version]
    by_cases hempty : log.events = []
    · rw [hempty]
      exact hpos
    · obtain ⟨e₀, he₀, heq⟩ := getLatestVersion_mem hempty
      have hascending := log'.ascending
      rw [h, List.pairwise_append] at hascending
      exact heq ▸ hascending.2.2 e₀ he₀ e (List.mem_singleton_self e)
  have he : e.WellFormed := log'.wellFormed e (h ▸ List.mem_append_right _ (by simp))
  exact ⟨hv, he, EventLog.ext_events h⟩

/-- A log that has grown by one event, or not at all. -/
theorem Tab.Follows.grow (h : tab.Follows m₀ log)
    (hgrow : log'.events = log.events ∨ ∃ e, log'.events = log.events ++ [e])
    (hpos : ∀ e ∈ log'.events, 0 < e.version) : tab.Follows m₀ log' := by
  rcases hgrow with hsame | ⟨e, hpush⟩
  · rwa [EventLog.ext_events hsame]
  · obtain ⟨hv, he, rfl⟩ := EventLog.eq_push hpush (hpos e (hpush ▸ by simp))
    exact h.append hv he

end Follows

/-! ### The floor in order -/

/-- What orderly steps keep. -/
structure FloorInOrder (rows : List FlagRow) (log : EventLog) (s : Floor) : Prop where
  plane : InOrder rows log s.plane
  inv : PlaneInv rows s.plane
  tabs : ∀ g, (s.tabs g).Follows (keyMap clientFlag rows) log

section Order

variable {rows : List FlagRow} {log : EventLog} {s s' : Floor} {sdk : FeatureFlagClient}
  {run : TabRun}

/-- A step of the plane logs one event at most. -/
theorem planeStep_log {p p' : Plane} {a : PlaneAction} (hs : planeStep p a = some p') :
    p'.service.db.events = p.service.db.events ∨
      ∃ e, p'.service.db.events = p.service.db.events ++ [e] := by
  rcases planeStep_db hs with hdb | ⟨b, hb⟩
  · exact Or.inl (congrArg Db.events hdb)
  rcases step_tables hb with ⟨-, -, hevents⟩ | ⟨t, c, -, -, -, hdb⟩
  · exact Or.inl hevents
  · exact Or.inr ⟨c.event, congrArg Db.events hdb⟩

theorem InOrder.positive {p : Plane} (h : InOrder rows log p) :
    ∀ e ∈ log.events, 0 < e.version :=
  fun e he => (h.service.db.eventBound e (h.events ▸ he)).1

theorem FloorInOrder.carriesFlag (h : FloorInOrder rows log s) :
    ∀ e ∈ log.events, e.CarriesFlag :=
  fun e he => (h.inv.db.events e (h.plane.events ▸ he)).carriesFlag (log.wellFormed e he)

/-- An answer made between two commits is in step. -/
theorem FloorInOrder.bootstrap (h : FloorInOrder rows log s)
    (hexact : ∀ e ∈ log.events, ExactInt e.version) :
    (Tab.answered (flagsBody (listFlags s.plane.service.db.flags)
      (getLatestVersion s.plane.service.db.events))).Follows (keyMap clientFlag rows) log := by
  have hdb := h.plane.service.db
  obtain ⟨c, hbody, hstep, hle, -⟩ := h.plane.bootstrap
  obtain rfl := Option.some.inj ((bootstrapFrom_response hdb hdb).symm.trans hbody)
  have hlatest : ExactInt (getLatestVersion s.plane.service.db.events) := by
    rw [← h.plane.events]
    exact log.reaches_version.exactInt hexact
  exact ⟨_, Tab.ofBody_flags _ _, _, ⟨(jsNumber_of_exact hlatest).symm, hdb.sameFlags_bootstrap⟩,
    hlatest, hstep, hle, fun _ => trivial⟩

/-- **Every orderly step keeps the order.** -/
theorem FloorInOrder.step (h : FloorInOrder rows log s) {a : FloorAction} (hord : s.Orderly a)
    (hexact : ∀ e ∈ s.plane.service.db.events, ExactInt e.version)
    (hs : floorStep s a = some s') : ∃ log', FloorInOrder rows log' s' := by
  have hexact : ∀ e ∈ log.events, ExactInt e.version := h.plane.events ▸ hexact
  cases a with
  | plane a =>
      obtain ⟨plane, hplane, rfl⟩ := Option.map_eq_some_iff.mp hs
      obtain ⟨log', h'⟩ := h.plane.step hord hplane
      refine ⟨log', h', h.inv.step hplane, fun g => (h.tabs g).grow ?_ h'.positive⟩
      rw [h.plane.events, h'.events]
      exact planeStep_log hplane
  | tab g a =>
      obtain ⟨tab, htab, rfl⟩ := Option.map_eq_some_iff.mp hs
      refine ⟨log, h.plane, h.inv, fun g' => ?_⟩
      dsimp only
      rw [Function.update_apply]
      split
      · refine (h.tabs g).step h.plane.events h.carriesFlag hexact h.plane.positive
          h.plane.published (fun _ => h.bootstrap hexact) (fun ha => ?_) htab
        subst ha
        exact hord
      · exact h.tabs g'

/-- A running tab's flags are the log up to its version. -/
theorem FloorInOrder.inStep (h : FloorInOrder rows log s) {g : Nat}
    (hg : s.tabs g = .running sdk run) :
    SameState ⟨replay (keyMap clientFlag rows) (upTo sdk.configVersion log.entries),
        sdk.configVersion⟩ sdk ∧ sdk.configVersion ≤ log.version := by
  have hfollows := h.tabs g
  rw [hg] at hfollows
  obtain ⟨c, hsame, -, hsession⟩ := hfollows
  have hflags : c.flags = replay (keyMap clientFlag rows) (upTo c.configVersion log.entries) :=
    hsession.inStep
  rw [← hsame.version, ← hflags]
  exact ⟨hsame, hsession.version⟩

end Order

section Runs

/-- The checkable part of `Orderly`, on one action. -/
def Floor.orderlyChecked (s : Floor) : FloorAction → Bool
  | .plane a => s.plane.orderlyChecked a
  | .tab g .version =>
    match s.tabs g with
    | .listed flags => flags = listFlags s.plane.service.db.flags
    | _ => true
  | .tab _ _ => true

theorem Floor.orderly_of_checked {s : Floor} {a : FloorAction} (h : s.orderlyChecked a = true) :
    s.Orderly a := by
  cases a with
  | plane a => exact Plane.orderly_of_checked h
  | tab g a =>
      cases a with
      | version =>
          intro flags hflags
          simpa [orderlyChecked, hflags] using h
      | _ => trivial

/-- The version that tab `g` is at. -/
def Floor.versionOf (s : Floor) (g : Nat) : Option Int :=
  match s.tabs g with
  | .running sdk _ => some sdk.configVersion
  | _ => none

theorem Floor.versionOf_eq_some {s : Floor} {g : Nat} {v : Int} (h : s.versionOf g = some v) :
    ∃ sdk run, s.tabs g = .running sdk run ∧ sdk.configVersion = v := by
  rw [versionOf] at h
  split at h
  · rename_i sdk run hg
    exact ⟨sdk, run, hg, Option.some.inj h⟩
  · cases h

end Runs

end FlagPlane
