import FlagPlane.Machine
import FlagPlane.LogReader
import FlagPlane.Sse.Wire

/-!
# FlagPlane.Client.Reconcile

**The Go client against the log.** Any number of goroutines share one client: some run
`Reconcile`, others apply live frames. A step is what happens under one acquisition of
the client's mutex, or one answer of the server; everything else may interleave.

`SessionInv` is the invariant: the client's flags are the replay of the log up to its
version. It survives a page, however old, because the page holds *every* event above
the version it was asked for up to its last one (`CatchesUp`), and it survives a live
frame because only the exact next version is applied.
-/

namespace FlagPlane

/-! ### Logs that clients read -/

/-- A log as clients see it: in version order, with payloads they can use. -/
structure EventLog where
  events : List FlagEvent
  ascending : events.Pairwise fun a b => a.version < b.version
  wellFormed : ∀ e ∈ events, e.WellFormed

instance (e : FlagEvent) : Decidable e.WellFormed :=
  decidable_of_iff (e.eventType = .deleted ∨
    (decodeFlag e.payload).map ClientFlag.key = some e.flagKey)
    (or_congr_right Option.map_eq_some_iff)

namespace EventLog

/-- The log as a keyed log of client flags. -/
def entries (log : EventLog) : List (Entry Int String ClientFlag) :=
  log.events.map (FlagEvent.entry decodeFlag)

/-- The log's version. -/
def version (log : EventLog) : Int := getLatestVersion log.events

/-- The events above a version. -/
def since (log : EventLog) (v : Int) : List FlagEvent :=
  log.events.filter fun e => v < e.version

/-- The log grown by an event above its version. -/
def push (log : EventLog) (e : FlagEvent) (hv : log.version < e.version) (he : e.WellFormed) :
    EventLog where
  events := log.events ++ [e]
  ascending := by
    rw [List.pairwise_append]
    refine ⟨log.ascending, List.pairwise_singleton _ _, fun x hx y hy => ?_⟩
    rw [List.mem_singleton.mp hy]
    exact (le_getLatestVersion hx).trans_lt hv
  wellFormed := by
    intro x hx
    rcases List.mem_append.mp hx with hx | hx
    · exact log.wellFormed x hx
    · exact List.mem_singleton.mp hx ▸ he

theorem entries_ascending (log : EventLog) : Ascending log.entries :=
  List.pairwise_map.mpr log.ascending

end EventLog

/-! ### One client, many goroutines -/

/-- Where a goroutine is in `Reconcile`. -/
inductive ReconcileRun
  | idle
  /-- At the head of the loop. -/
  | looping (guard : Nat)
  /-- The request with this `since` is under way. -/
  | asked (guard : Nat) (since : Int)
  /-- The page is there and not yet applied. -/
  | answered (guard : Nat) (page : List FlagEvent)

/-- The bound of the loop in `Reconcile`. -/
def guardLimit : Nat := 100000

/-- The server's log, the client, and the goroutines that run `Reconcile`. -/
structure Session where
  log : EventLog
  client : Client
  runs : Nat → ReconcileRun

def Session.setRun (s : Session) (g : Nat) (r : ReconcileRun) : Session :=
  { s with runs := Function.update s.runs g r }

inductive SessionAction
  /-- The log grows. -/
  | append (e : FlagEvent)
  /-- `applyLiveEvent` on the frame of the `i`-th event of the log, whenever it arrives. -/
  | live (i : Nat)
  | startReconcile (g : Nat)
  /-- `since := c.ConfigVersion()`. -/
  | readVersion (g : Nat)
  /-- The server answers with `n` events of the log above `since`. -/
  | answer (g : Nat) (n : Nat)
  /-- The request fails, or its answer does not decode. -/
  | failRequest (g : Nat)
  /-- The page is applied. -/
  | applyPage (g : Nat)

def sessionStep (s : Session) : SessionAction → Option Session
  | .append e =>
    if h : s.log.version < e.version ∧ e.WellFormed then
      some { s with log := s.log.push e h.1 h.2 }
    else none
  | .live i =>
    (s.log.events[i]?).map fun e =>
      { s with client := (s.client.applyLiveEvent e.frame.1 e.frame.2 e.version).1 }
  | .startReconcile g =>
    match s.runs g with
    | .idle => some (s.setRun g (.looping 0))
    | _ => none
  | .readVersion g =>
    match s.runs g with
    | .looping k =>
      some (s.setRun g (if k < guardLimit then .asked k s.client.configVersion else .idle))
    | _ => none
  | .answer g n =>
    match s.runs g with
    | .asked k v =>
      let page := (s.log.since v).take n
      if page.isEmpty && !(s.log.since v).isEmpty then none else some (s.setRun g (.answered k page))
    | _ => none
  | .failRequest g =>
    match s.runs g with
    | .asked _ _ => some (s.setRun g .idle)
    | _ => none
  | .applyPage g =>
    match s.runs g with
    | .answered k page =>
      if page.isEmpty then some (s.setRun g .idle)
      else
        let (client, advanced) := s.client.applyPage page
        some ({ s with client := client }.setRun g (if advanced then .looping (k + 1) else .idle))
    | _ => none

/-! ### The client as a reader of the log -/

/-- The client as a reader. -/
def Client.reader (c : Client) : Reader Int String ClientFlag := ⟨c.flags, c.configVersion⟩

section Reader

variable {c : Client} {e : FlagEvent}

theorem Client.applyLocked_reader (h : e.WellFormed) :
    (c.applyLocked e.eventType e.flagKey e.payload e.version).reader =
      c.reader.apply (e.entry decodeFlag) := by
  rw [Client.reader, Client.applyLocked_flags h]
  rfl

theorem Client.applyNext_reader (h : e.WellFormed) (advanced : Bool) :
    (applyNext (c, advanced) e).1.reader = c.reader.next (e.entry decodeFlag) := by
  rw [applyNext, Reader.next]
  by_cases hle : e.version ≤ c.configVersion
  · rw [if_pos hle, if_pos (show (e.entry decodeFlag).version ≤ c.reader.version from hle)]
  · rw [if_neg hle, if_neg (show ¬ (e.entry decodeFlag).version ≤ c.reader.version from hle)]
    exact applyLocked_reader h

/-- `Reconcile`'s loop over a page reads the page. -/
theorem Client.applyPage_reader (c : Client) {page : List FlagEvent}
    (h : ∀ e ∈ page, e.WellFormed) :
    (c.applyPage page).1.reader = c.reader.read (page.map (FlagEvent.entry decodeFlag)) := by
  suffices H : ∀ (s : Client × Bool), (page.foldl applyNext s).1.reader =
      s.1.reader.read (page.map (FlagEvent.entry decodeFlag)) from H (c, false)
  induction page with
  | nil => exact fun _ => rfl
  | cons e page ih =>
      rw [List.forall_mem_cons] at h
      intro s
      rw [List.foldl_cons, ih h.2, Client.applyNext_reader h.1]
      rfl

/-- The frame of an event, taken by the live path: the exact next version is applied,
everything else leaves the client alone. -/
theorem Client.applyLiveEvent_reader (h : e.WellFormed) :
    (c.applyLiveEvent e.frame.1 e.frame.2 e.version).1.reader =
      if e.version = c.configVersion + 1 then c.reader.apply (e.entry decodeFlag)
      else c.reader := by
  by_cases hle : e.version ≤ c.configVersion
  · rw [applyLiveEvent, if_pos hle, if_neg (by omega)]
  by_cases hgap : e.version > c.configVersion + 1
  · rw [applyLiveEvent, if_neg hle, if_pos hgap, if_neg (by omega)]
  have hnext : e.version = c.configVersion + 1 := by omega
  rw [applyLiveEvent, if_neg hle, if_neg hgap, if_pos hnext]
  cases hty : e.eventType with
  | deleted =>
      have hframe : e.frame = ("flag_deleted", .obj [("key", .str e.flagKey)]) := by
        rw [FlagEvent.frame, if_pos hty]
      rw [hframe]
      simp [unmarshalKey_key, reader, Reader.apply, Entry.apply, FlagEvent.entry, deleteFlag, hty]
  | created | updated =>
      have hne : e.eventType ≠ .deleted := by rw [hty]; decide
      have hframe : e.frame = ("flag_updated", e.payload) := by
        rw [FlagEvent.frame, if_neg hne]
      rw [hframe]
      simp [reader, Reader.apply, Entry.apply, FlagEvent.entry,
        setDecoded_flags (h.resolve_left hne), hty]

/-- `configVersion` never decreases: a frame. -/
theorem Client.le_applyLiveEvent (c : Client) (ty : String) (data : Json) (v : Int) :
    c.configVersion ≤ (c.applyLiveEvent ty data v).1.configVersion := by
  rw [applyLiveEvent]
  split
  · exact le_refl _
  split
  · exact le_refl _
  · dsimp only
    omega

/-- `configVersion` never decreases: a page. -/
theorem Client.le_applyPage (c : Client) (page : List FlagEvent) :
    c.configVersion ≤ (c.applyPage page).1.configVersion := by
  suffices H : ∀ s : Client × Bool,
      s.1.configVersion ≤ (page.foldl applyNext s).1.configVersion from
    H (c, false)
  induction page with
  | nil => exact fun _ => le_refl _
  | cons e page ih =>
      intro s
      refine le_trans ?_ (ih (applyNext s e))
      rw [applyNext]
      split
      · exact le_refl _
      · rw [applyLocked_configVersion]
        omega

end Reader

theorem EventLog.since_entries (log : EventLog) (v : Int) :
    (log.since v).map (FlagEvent.entry decodeFlag) = above v log.entries := by
  rw [EventLog.since, above, EventLog.entries, List.filter_map]
  rfl

theorem EventLog.push_entries {log : EventLog} {e : FlagEvent} {hv : log.version < e.version}
    {he : e.WellFormed} : (log.push e hv he).entries = log.entries ++ [e.entry decodeFlag] := by
  simp [EventLog.entries, EventLog.push]

theorem EventLog.version_le_push {log : EventLog} {e : FlagEvent} (hv : log.version < e.version)
    (he : e.WellFormed) : log.version ≤ (log.push e hv he).version := by
  have hmem : e ∈ (log.push e hv he).events := List.mem_append_right _ (List.mem_singleton.mpr rfl)
  have hle : e.version ≤ (log.push e hv he).version := le_getLatestVersion hmem
  omega

/-! ### The invariant -/

/-- What a goroutine may rely on: it asked from a version the client has reached, and its page
has no hole above that version. -/
def ReconcileRun.Inv (log : EventLog) (c : Client) : ReconcileRun → Prop
  | idle | looping _ => True
  | asked _ v => v ≤ c.configVersion
  | answered _ page => ∃ v ≤ c.configVersion, page <+: log.since v

/-- The client is in step with the log and every goroutine with the client. -/
structure SessionInv (m₀ : String → Option ClientFlag) (s : Session) : Prop where
  inStep : InStep m₀ s.log.entries s.client.reader
  version : s.client.configVersion ≤ s.log.version
  runs : ∀ g, (s.runs g).Inv s.log s.client

section Session

variable {m₀ : String → Option ClientFlag} {s s' : Session} {log log' : EventLog} {c c' : Client}

theorem ReconcileRun.Inv.mono {r : ReconcileRun} (h : r.Inv log c)
    (hlog : ∀ v, log.since v <+: log'.since v) (hc : c.configVersion ≤ c'.configVersion) :
    r.Inv log' c' := by
  cases r with
  | idle | looping k => trivial
  | asked k v => exact Int.le_trans h hc
  | answered k page =>
      obtain ⟨v, hv, hpage⟩ := h
      exact ⟨v, hv.trans hc, hpage.trans (hlog v)⟩

/-- One goroutine moves, the client and the log stay. -/
theorem SessionInv.setRun (h : SessionInv m₀ s) (g : Nat) {r : ReconcileRun}
    (hr : r.Inv s.log s.client) : SessionInv m₀ (s.setRun g r) := by
  refine ⟨h.inStep, h.version, fun g' => ?_⟩
  show (Function.update s.runs g r g').Inv s.log s.client
  by_cases hg : g' = g
  · subst hg
    rw [Function.update_self]
    exact hr
  · rw [Function.update_of_ne hg]
    exact h.runs g'

/-- The client moves up and stays in step. -/
theorem SessionInv.setClient (h : SessionInv m₀ s) (hc : InStep m₀ s.log.entries c.reader)
    (hle : s.client.configVersion ≤ c.configVersion) (hv : c.configVersion ≤ s.log.version) :
    SessionInv m₀ { s with client := c } :=
  ⟨hc, hv, fun g => (h.runs g).mono (fun _ => List.prefix_refl _) hle⟩

theorem SessionInv.append (h : SessionInv m₀ s) {e : FlagEvent} (hv : s.log.version < e.version)
    (he : e.WellFormed) : SessionInv m₀ { s with log := s.log.push e hv he } := by
  refine ⟨?_, h.version.trans (EventLog.version_le_push hv he),
    fun g => (h.runs g).mono (fun v => ?_) le_rfl⟩
  · show InStep m₀ (s.log.push e hv he).entries s.client.reader
    rw [EventLog.push_entries]
    refine h.inStep.append fun x hx => ?_
    rw [List.mem_singleton.mp hx]
    exact h.version.trans_lt hv
  · exact (List.prefix_append s.log.events [e]).filter _

theorem SessionInv.live (h : SessionInv m₀ s) {e : FlagEvent} (he : e ∈ s.log.events) :
    SessionInv m₀
      { s with client := (s.client.applyLiveEvent e.frame.1 e.frame.2 e.version).1 } := by
  have hreader := Client.applyLiveEvent_reader (c := s.client) (s.log.wellFormed e he)
  by_cases hnext : e.version = s.client.configVersion + 1
  · rw [if_pos hnext] at hreader
    have hversion := congrArg Reader.version hreader
    refine h.setClient ?_ ?_ ?_
    · rw [hreader]
      refine h.inStep.apply s.log.entries_ascending (List.mem_map_of_mem he) ?_ fun x _ hx => ?_
      · exact lt_of_lt_of_eq (Int.lt_succ _) hnext.symm
      · -- versions are integers: nothing lies between the client's and the next one
        exact le_of_eq_of_le hnext hx
    · refine le_of_le_of_eq (Int.lt_succ _).le ?_
      exact hnext.symm.trans hversion.symm
    · exact le_of_eq_of_le hversion (le_getLatestVersion he)
  · rw [if_neg hnext] at hreader
    have hversion := congrArg Reader.version hreader
    refine h.setClient (hreader ▸ h.inStep) (le_of_eq hversion.symm) ?_
    exact le_of_eq_of_le hversion h.version

theorem SessionInv.applyPage (h : SessionInv m₀ s) {v : Int} {page : List FlagEvent}
    (hv : v ≤ s.client.configVersion) (hpage : page <+: s.log.since v) :
    SessionInv m₀ { s with client := (s.client.applyPage page).1 } := by
  have hmem : ∀ e ∈ page, e ∈ s.log.events := fun e he => List.mem_of_mem_filter (hpage.subset he)
  have hreader := s.client.applyPage_reader fun e he => s.log.wellFormed e (hmem e he)
  have hpage' : page.map (FlagEvent.entry decodeFlag) <+: above v s.log.entries := by
    rw [← EventLog.since_entries]
    exact hpage.map _
  have hversion := congrArg Reader.version hreader
  refine h.setClient ?_ ?_ ?_
  · rw [hreader]
    exact h.inStep.read s.log.entries_ascending hv hpage'
  · exact le_of_le_of_eq (s.client.reader.le_read _) hversion.symm
  · refine le_of_eq_of_le hversion ?_
    refine Reader.read_version_le (h.version) fun x hx => ?_
    obtain ⟨e, he, rfl⟩ := List.mem_map.mp hx
    exact le_getLatestVersion (hmem e he)

/-- **Every step keeps the invariant.** -/
theorem SessionInv.step (h : SessionInv m₀ s) {a : SessionAction} (hs : sessionStep s a = some s') :
    SessionInv m₀ s' ∧ s.client.configVersion ≤ s'.client.configVersion := by
  cases a with
  | append e =>
      rw [sessionStep] at hs
      split at hs
      · rename_i hgrow
        obtain rfl := Option.some.inj hs
        exact ⟨h.append hgrow.1 hgrow.2, le_refl _⟩
      · cases hs
  | live i =>
      obtain ⟨e, he, rfl⟩ := Option.map_eq_some_iff.mp hs
      exact ⟨h.live (List.mem_of_getElem? he), Client.le_applyLiveEvent ..⟩
  | startReconcile g =>
      rw [sessionStep] at hs
      split at hs
      · obtain rfl := Option.some.inj hs
        exact ⟨h.setRun g trivial, le_refl _⟩
      · cases hs
  | readVersion g =>
      rw [sessionStep] at hs
      split at hs
      · obtain rfl := Option.some.inj hs
        refine ⟨h.setRun g ?_, le_refl _⟩
        split
        · exact le_refl _
        · trivial
      · cases hs
  | answer g n =>
      rw [sessionStep] at hs
      split at hs
      · rename_i k v hrun
        -- the version only grew since the request was sent
        have hv : v ≤ s.client.configVersion := by simpa [ReconcileRun.Inv, hrun] using h.runs g
        dsimp only at hs
        split at hs
        · cases hs
        · obtain rfl := Option.some.inj hs
          exact ⟨h.setRun g ⟨v, hv, List.take_prefix _ _⟩, le_refl _⟩
      · cases hs
  | failRequest g =>
      rw [sessionStep] at hs
      split at hs
      · obtain rfl := Option.some.inj hs
        exact ⟨h.setRun g trivial, le_refl _⟩
      · cases hs
  | applyPage g =>
      rw [sessionStep] at hs
      split at hs
      · rename_i k page hrun
        split at hs
        · obtain rfl := Option.some.inj hs
          exact ⟨h.setRun g trivial, le_refl _⟩
        · obtain rfl := Option.some.inj hs
          -- so the page begins at or below the version, with no gap above it
          obtain ⟨v, hv, hpage⟩ : ∃ v ≤ s.client.configVersion, page <+: s.log.since v := by
            simpa [ReconcileRun.Inv, hrun] using h.runs g
          refine ⟨(h.applyPage hv hpage).setRun g ?_, s.client.le_applyPage page⟩
          split <;> trivial
      · cases hs

end Session

/-! ### Runs -/

/-- **The Go client is in step after every step.** Start from a snapshot that is the replay of
the log up to its version. However goroutines interleave, whatever frames are dropped,
duplicated, delayed or reordered, the flags stay the replay of the log up to
`configVersion`, and `configVersion` never decreases. -/
theorem session_in_step {m₀ : String → Option ClientFlag} {s₀ s : Session} {as : List SessionAction}
    (hflags : s₀.client.flags = replay m₀ (upTo s₀.client.configVersion s₀.log.entries))
    (hversion : s₀.client.configVersion ≤ s₀.log.version) (hidle : ∀ g, s₀.runs g = .idle)
    (hrun : exec sessionStep s₀ as = some s) :
    s.client.flags = replay m₀ (upTo s.client.configVersion s.log.entries) ∧
      ∀ tr ∈ transitions sessionStep s₀ as,
        tr.pre.client.configVersion ≤ tr.post.client.configVersion := by
  have h₀ : SessionInv m₀ s₀ := ⟨hflags, hversion, fun g => by rw [hidle g]; trivial⟩
  have hkeep : ∀ {s a s'}, SessionInv m₀ s → sessionStep s a = some s' → SessionInv m₀ s' :=
    fun h hs => (h.step hs).1
  refine ⟨(exec_preserves hkeep h₀ hrun).inStep, fun tr htr => ?_⟩
  exact ((transitions_preserves hkeep h₀ htr).1.step (step_of_mem_transitions htr)).2

/-- An event that sets the flag of a row. -/
def eventOf (ty : EventType) (r : FlagRow) (v : Int) : FlagEvent :=
  ⟨v, ty, r.key, flagPayload (scanFlag { r with version := v }), v⟩

/-- Version 1 arrives live. Version 4 follows it in the log; its frame comes twice, while a
`Reconcile` is fetching it. -/
def gapSession : List SessionAction :=
  [.append (eventOf .created checkoutRow 1), .live 0, .append (eventOf .updated checkoutRow 4), .live 1,
    .startReconcile 0, .readVersion 0, .answer 0 500, .live 1, .applyPage 0, .live 0,
    .readVersion 0, .answer 0 500, .applyPage 0]

/-- An empty log and a client that has bootstrapped from it. -/
def emptySession : Session :=
  ⟨⟨[], List.Pairwise.nil, by simp⟩, ⟨fun _ => none, 0⟩, fun _ => .idle⟩

theorem gapSession_in_step :
    ∃ s, exec sessionStep emptySession gapSession = some s ∧ s.client.configVersion = 4 ∧
      s.client.flags = replay (fun _ => none) (upTo s.client.configVersion s.log.entries) ∧
      ∀ tr ∈ transitions sessionStep emptySession gapSession,
        tr.pre.client.configVersion ≤ tr.post.client.configVersion := by
  have hversion : (exec sessionStep emptySession gapSession).map (fun s => s.client.configVersion) =
      some 4 := by
    decide
  obtain ⟨s, hrun, hversion⟩ := Option.map_eq_some_iff.mp hversion
  exact ⟨s, hrun, hversion, session_in_step rfl (le_refl _) (fun _ => rfl) hrun⟩

end FlagPlane
