import Mathlib.Data.Set.Basic
import FlagPlane.Client.Responses

/-!
# FlagPlane.Client.LastKnownGood

**What a failure leaves of the last known good flags.** A response is genuine or has some of the
`Fault`s, and a client is good when its flags are the replay of the log up to its version. Each of
the four calls (`Bootstrap` and `Reconcile`, in either SDK) keeps a client good under some
faults and not under others, and `lastKnownGood_iff` says under which: a fault that keeps the
response from being decoded at all is harmless, wherever in the backlog it strikes, and what is
missing inside a decoded body is not, since nothing checks for it, unless the call does not read
it: a deletion's payload, or the key and the type of another event in Go.
-/

namespace FlagPlane

/-! ### Genuine responses and broken ones -/

/-- A way in which a response is not the genuine one. -/
inductive Fault
  | transport
  /-- A status that is no success. -/
  | status
  /-- A status of success other than 200, with no JSON value but the one that is due. -/
  | otherSuccess
  /-- A status of success other than 200, with any body. -/
  | otherSuccessBody
  /-- The body is cut short, or is no JSON from its beginning. -/
  | unreadable
  /-- The body is the JSON value that is due, and something after it. -/
  | trailing
  /-- The body is any JSON value, and something after it. -/
  | trailingBody
  | noFlags
  | noConfigVersion
  /-- A flag of the snapshot lacks a field. -/
  | noFlagField
  | noEvents
  | noVersion
  /-- A deletion lacks its type, or an event of another type does; likewise below. -/
  | noEventType (ofDeletion : Bool)
  | noFlagKey (ofDeletion : Bool)
  | noPayload (ofDeletion : Bool)
  /-- The payload does not decode to a flag. -/
  | badPayload (ofDeletion : Bool)
  deriving DecidableEq

inductive SdkCall
  | goBootstrap
  | goReconcile
  | browserBootstrap
  | browserReconcile

/-- The faults that cost the client its last known good flags. -/
def SdkCall.harmedBy : SdkCall → List Fault
  | goBootstrap => [.trailingBody, .noFlags, .noConfigVersion, .noFlagField]
  | goReconcile => [.trailingBody, .noVersion, .noEventType true, .noFlagKey true,
    .noPayload false, .badPayload false]
  | browserBootstrap => [.otherSuccessBody, .noFlags, .noConfigVersion, .noFlagField]
  | browserReconcile => [.otherSuccessBody, .noVersion, .noEventType true, .noFlagKey true,
    .noFlagKey false, .noPayload false, .badPayload false]

/-- The member has its value, or is missing by a fault of `K`. -/
def MemberOf {α : Type} (K : Set Fault) (f : Fault) (member : Option α) (value : α) : Prop :=
  member = some value ∨ f ∈ K ∧ member = none

/-- The response has a body that `P` allows, or is broken by a fault of `K`. -/
inductive Answers {β : Type} (K : Set Fault) (P : β → Prop) : Option (Response β) → Prop
  | genuine {b : β} (h : P b) : Answers K P (some ⟨200, .json b⟩)
  | transport (hK : .transport ∈ K) : Answers K P none
  | status {r : Response β} (hK : .status ∈ K) (h : r.ok = false) : Answers K P (some r)
  | otherSuccess {r : Response β} (hK : .otherSuccess ∈ K) (hok : r.ok = true)
      (h : r.status ≠ 200) (hbody : ∀ b, r.body = .json b → P b) : Answers K P (some r)
  | otherSuccessBody {r : Response β} (hK : .otherSuccessBody ∈ K) (hok : r.ok = true)
      (h : r.status ≠ 200) : Answers K P (some r)
  | unreadable (hK : .unreadable ∈ K) : Answers K P (some ⟨200, .unreadable⟩)
  | trailing {b : β} (hK : .trailing ∈ K) (h : P b) : Answers K P (some ⟨200, .followed b⟩)
  | trailingBody {b : β} (hK : .trailingBody ∈ K) : Answers K P (some ⟨200, .followed b⟩)

/-- A log of events that both SDKs can read. -/
structure FlagLog extends EventLog where
  carriesFlag : ∀ e ∈ events, e.CarriesFlag

/-- The flags are the replay of the log up to the version, which is that of an event, and no lower
than `floor`. -/
structure Client.Good (log : EventLog) (floor : Int) (c : Client) : Prop where
  inStep : InStep (fun _ => none) log.entries c.reader
  version : c.configVersion = 0 ∨ ∃ e ∈ log.events, e.version = c.configVersion
  floor_le : floor ≤ c.configVersion

/-- The browser's client holds what a good Go client holds. -/
def UntypedClient.Good (log : EventLog) (floor : Int) (t : UntypedClient) : Prop :=
  ∃ c : Client, c.Good log floor ∧ SameFlags c.flags t.flags ∧
    t.configVersion = some c.configVersion

/-- The snapshot of a server that is at `floor` or above. -/
structure Snapshot.Genuine (log : EventLog) (floor : Int) (s : Snapshot) : Prop where
  objects : ∀ members ∈ s.flags, FlagObject members
  good : ∃ flags, s.flags.mapM (fun members => unmarshalFlag (.obj members)) = some flags ∧
    (Client.bootstrap flags s.version).Good log floor

/-- The body of a snapshot, up to the faults of `K`. -/
def SnapshotBody (K : Set Fault) (log : EventLog) (floor : Int) (b : FlagsBody) : Prop :=
  ∃ (s : Snapshot) (flags : List Json), s.Genuine log floor ∧
    List.Forall₂ (fun flag members => flag = .obj members ∨ .noFlagField ∈ K ∧
      ∃ name ∈ flagFields, flag = .obj (members.filter fun m => m.1 ≠ name)) flags s.flags ∧
    MemberOf K .noFlags b.flags flags ∧ MemberOf K .noConfigVersion b.configVersion s.version

def FlagEvent.isDeletion (e : FlagEvent) : Bool := e.eventType = .deleted

/-- An event of a page, up to the faults of `K`. -/
structure EventOf (K : Set Fault) (ev : EventBody) (e : FlagEvent) : Prop where
  version : MemberOf K .noVersion ev.version e.version
  eventType : MemberOf K (.noEventType e.isDeletion) ev.eventType e.eventType.name
  flagKey : MemberOf K (.noFlagKey e.isDeletion) ev.flagKey e.flagKey
  payload : MemberOf K (.noPayload e.isDeletion) ev.payload e.payload ∨
    .badPayload e.isDeletion ∈ K ∧ ∃ data, decodeFlag data = none ∧ ev.payload = some data

/-- The body of a page of the events above `since`, up to the faults of `K`. -/
def PageBody (K : Set Fault) (log : EventLog) (since : Int) (b : EventsBody) : Prop :=
  ∃ (page : List FlagEvent) (events : List EventBody), page <+: log.since since ∧
    (page = [] → log.since since = []) ∧ List.Forall₂ (EventOf K) events page ∧
    MemberOf K .noEvents b.events events

/-- A server of the log, up to the faults of `K`: a `since` that is no number is a bad request. -/
structure ServerOf (K : Set Fault) (log : EventLog)
    (server : Nat → Option Int → Option (Response EventsBody)) : Prop where
  page : ∀ n v, Answers K (PageBody K log v) (server n (some v))
  badRequest : ∀ n, (∃ body, server n none = some ⟨400, body⟩) ∨
    Answers K (fun _ => False) (server n none)

/-- The call leaves every good client good, whatever it returns, when all responses are genuine or
have faults of `K`. The browser's clients are asked only about logs whose integers are numbers. -/
def SdkCall.Survives (K : Set Fault) : SdkCall → Prop
  | goBootstrap => ∀ (log : FlagLog) (c : Client) (response : Option (Response FlagsBody)),
    c.Good log.toEventLog c.configVersion →
      Answers K (SnapshotBody K log.toEventLog c.configVersion) response →
        (c.bootstrapOn response).1.Good log.toEventLog c.configVersion
  | goReconcile => ∀ (log : FlagLog) (c : Client)
    (server : Nat → Option Int → Option (Response EventsBody)),
    c.Good log.toEventLog c.configVersion → ServerOf K log.toEventLog server →
      (c.reconcile server).1.Good log.toEventLog c.configVersion
  | browserBootstrap =>
    ∀ (log : FlagLog) (t : FeatureFlagClient) (response : Option (Response FlagsBody)),
    (∀ e ∈ log.events, e.Exact) → t.untyped.Good log.toEventLog t.configVersion →
      Answers K (SnapshotBody K log.toEventLog t.configVersion) response →
        (t.bootstrapOn response).1.untyped.Good log.toEventLog t.configVersion
  | browserReconcile => ∀ (log : FlagLog) (t : FeatureFlagClient)
    (server : Nat → Option Int → Option (Response EventsBody)),
    (∀ e ∈ log.events, e.Exact) → t.untyped.Good log.toEventLog t.configVersion →
      ServerOf K log.toEventLog server →
      (t.untyped.reconcile server).1.Good log.toEventLog t.configVersion

/-! ### What gets through to the client -/

section Receive

variable {K : Set Fault} {β : Type} {P : β → Prop} {response : Option (Response β)} {b : β}
  {log : EventLog} {floor : Int}

theorem MemberOf.eq_some {α : Type} {f : Fault} {member : Option α} {value : α}
    (h : MemberOf K f member value) (hK : f ∉ K) : member = some value :=
  h.resolve_right fun hmissing => hK hmissing.1

/-- The Go client takes no JSON value but the one that is due, unless one that text follows. -/
theorem Answers.receive_go (h : Answers K P response) (hK : .trailingBody ∉ K)
    (hb : Client.receive response = some b) : P b := by
  cases h with
  | genuine h =>
      obtain rfl : _ = b := by simpa [Client.receive, Body.decoded] using hb
      exact h
  | transport => cases hb
  | status _ hstatus =>
      rw [Client.receive, Option.bind_some] at hb
      split at hb
      · rename_i h200
        rw [Response.ok, h200] at hstatus
        cases hstatus
      · cases hb
  | otherSuccess _ _ hstatus | otherSuccessBody _ _ hstatus =>
      simp [Client.receive, hstatus] at hb
  | unreadable => simp [Client.receive, Body.decoded] at hb
  | trailing _ h =>
      obtain rfl : _ = b := by simpa [Client.receive, Body.decoded] using hb
      exact h
  | trailingBody htrailing => exact absurd htrailing hK

/-- Nor does the browser's client, unless under another status of success. -/
theorem Answers.receive_browser (h : Answers K P response) (hK : .otherSuccessBody ∉ K)
    (hb : FeatureFlagClient.receive response = some b) : P b := by
  cases h with
  | genuine h =>
      obtain rfl : _ = b := by
        simpa [FeatureFlagClient.receive, Response.ok, Body.parsed] using hb
      exact h
  | transport => cases hb
  | status _ hstatus => simp [FeatureFlagClient.receive, hstatus] at hb
  | @otherSuccess r _ hok _ hbody =>
      rw [FeatureFlagClient.receive, Option.bind_some, if_pos hok] at hb
      cases hr : r.body with
      | json b' =>
          obtain rfl : b' = b := by simpa [hr, Body.parsed] using hb
          exact hbody b' hr
      | followed _ | unreadable => simp [hr, Body.parsed] at hb
  | otherSuccessBody hsuccess => exact absurd hsuccess hK
  | unreadable | trailing | trailingBody => simp [FeatureFlagClient.receive, Body.parsed] at hb

/-- A snapshot that lacks nothing is a genuine one. -/
theorem SnapshotBody.genuine {b : FlagsBody} (h : SnapshotBody K log floor b)
    (hflags : .noFlags ∉ K) (hversion : .noConfigVersion ∉ K) (hfield : .noFlagField ∉ K) :
    ∃ s : Snapshot, s.Genuine log floor ∧ b = s.body := by
  obtain ⟨s, flags, hs, hall, hb, hv⟩ := h
  refine ⟨s, hs, ?_⟩
  have hobjects : flags = s.flags.map .obj := by
    rw [← List.forall₂_eq_eq_eq, List.forall₂_map_right_iff]
    exact hall.imp fun _ _ hflag => hflag.resolve_right fun hbroken => hfield hbroken.1
  rw [Snapshot.body, ← hobjects, ← hb.eq_some hflags, ← hv.eq_some hversion]

/-- What `Reconcile` makes of an event that decodes. -/
theorem unmarshalEvent_json {ev : EventBody} {ce : ClientEvent}
    (h : unmarshalEvent ev.json = some ce) :
    ce = ⟨ev.version.getD 0, ev.eventType.getD "", ev.flagKey.getD "", ev.payload.getD .null⟩ := by
  obtain ⟨version, eventType, flagKey, payload⟩ := ev
  cases version with
  | none =>
      cases eventType <;> cases flagKey <;> cases payload <;>
        simpa (disch := decide) [unmarshalEvent, EventBody.json, jsonMember, Json.decodeStruct,
          ClientEvent.setField, ClientEvent.zero, Json.foldName_of_plain] using h.symm
  | some version =>
      by_cases hv : Json.InInt64 version
      · cases eventType <;> cases flagKey <;> cases payload <;>
          simpa (disch := decide) [unmarshalEvent, EventBody.json, jsonMember, Json.decodeStruct,
            ClientEvent.setField, ClientEvent.zero, Json.decodeInt_int hv,
            Json.foldName_of_plain] using h.symm
      · simp (disch := decide) [unmarshalEvent, EventBody.json, jsonMember, Json.decodeStruct,
          ClientEvent.setField, ClientEvent.zero, Json.decodeInt, hv, Json.foldName_of_plain] at h

/-- A deletion whose type and key are there, or another event whose payload is, is applied by Go
like the genuine one. -/
theorem EventOf.applyDecoded {ev : EventBody} {e : FlagEvent} {ce : ClientEvent}
    (h : EventOf K ev e)
    (hK : ∀ f ∈ [Fault.noVersion, .noEventType true, .noFlagKey true, .noPayload false,
      .badPayload false], f ∉ K)
    (hce : unmarshalEvent ev.json = some ce) (s : Client × Bool) :
    Client.applyDecoded s ce = Client.applyNext s e := by
  simp only [List.forall_mem_cons] at hK
  obtain ⟨hversion, htype, hkey, hpayload, hbad, -⟩ := hK
  obtain rfl := unmarshalEvent_json hce
  unfold Client.applyDecoded Client.applyNext
  simp only [h.version.eq_some hversion, Option.getD_some]
  refine if_congr Iff.rfl rfl (congrArg (·, true) ?_)
  by_cases hty : e.eventType = .deleted
  · -- `applyLocked` does not look at a deletion's payload
    have hdeletion : e.isDeletion = true := decide_eq_true hty
    have hname := h.eventType.eq_some (hdeletion ▸ htype)
    rw [hty] at hname
    simp [h.flagKey.eq_some (hdeletion ▸ hkey), hname, hty, ClientEvent.type, EventType.name,
      Client.applyLocked]
  · -- any type but `deleted` sets the flag, under the key that its payload has
    have hother : e.isDeletion = false := decide_eq_false hty
    have hdata := (h.payload.resolve_right fun hbroken => hbad (hother ▸ hbroken.1)).eq_some
      (hother ▸ hpayload)
    have hname : ev.eventType.getD "" ≠ "deleted" := by
      rcases h.eventType with hname | ⟨-, hname⟩
      · rw [hname]
        cases hev : e.eventType with
        | deleted => exact absurd hev hty
        | created | updated => simp [EventType.name]
      · rw [hname]
        decide
    rw [hdata, ClientEvent.type, if_neg hname]
    cases hev : e.eventType with
    | deleted => exact absurd hev hty
    | created | updated => rfl

/-- So it is by the browser, when the key of the other event is there too. -/
theorem EventOf.applyNext {ev : EventBody} {e : FlagEvent} (h : EventOf K ev e)
    (hK : ∀ f ∈ [Fault.noVersion, .noEventType true, .noFlagKey true, .noFlagKey false,
      .noPayload false, .badPayload false], f ∉ K) (s : UntypedClient × Bool) :
    UntypedClient.applyNext s ev = UntypedClient.applyNext s e.body := by
  simp only [List.forall_mem_cons] at hK
  obtain ⟨hversion, htype, hkey, hother, hpayload, hbad, -⟩ := hK
  have hflagKey : ev.flagKey = some e.flagKey := by
    refine h.flagKey.eq_some ?_
    cases e.isDeletion
    · exact hother
    · exact hkey
  unfold UntypedClient.applyNext
  simp only [h.version.eq_some hversion, hflagKey, FlagEvent.body]
  by_cases hty : e.eventType = .deleted
  · have hdeletion : e.isDeletion = true := decide_eq_true hty
    have hname := h.eventType.eq_some (hdeletion ▸ htype)
    simp [hname, hty, EventType.name]
  · have hnot : e.isDeletion = false := decide_eq_false hty
    have hdata := (h.payload.resolve_right fun hbroken => hbad (hnot ▸ hbroken.1)).eq_some
      (hnot ▸ hpayload)
    have hgenuine : e.eventType.name ≠ "deleted" := by
      cases hev : e.eventType with
      | deleted => exact absurd hev hty
      | created | updated => simp [EventType.name]
    have hname : ev.eventType ≠ some "deleted" := by
      rcases h.eventType with hname | ⟨-, hname⟩
      · rw [hname]
        simpa using hgenuine
      · rw [hname]
        simp
    simp [hdata, hname, hgenuine]

/-- The Go client does with a page what it does with the genuine one; a missing `events` is the
empty page. -/
theorem PageBody.decoded {b : EventsBody} {since : Int} {events : List ClientEvent}
    (h : PageBody K log since b)
    (hK : ∀ f ∈ [Fault.noVersion, .noEventType true, .noFlagKey true, .noPayload false,
      .badPayload false], f ∉ K)
    (hdecode : unmarshalEvents b.json = some events) :
    ∃ page, page <+: log.since since ∧ ∀ c : Client, c.applyEvents events = c.applyPage page := by
  obtain ⟨page, evs, hpage, -, hall, hevents⟩ := h
  obtain ⟨events'⟩ := b
  rcases hevents with hevents | ⟨-, hevents⟩
  · obtain rfl : events' = some evs := hevents
    refine ⟨page, hpage, fun c => ?_⟩
    have hmap : (evs.map EventBody.json).mapM unmarshalEvent = some events := by
      simpa (disch := decide) [unmarshalEvents, EventsBody.json, jsonMember, Json.decodeStruct,
        Json.foldName_of_plain] using hdecode
    rw [Client.applyEvents, Client.applyPage]
    -- event by event, from any state of the loop
    generalize (c, false) = s
    clear hpage hdecode
    induction hall generalizing events s with
    | nil =>
        obtain rfl : events = [] := by simpa using hmap.symm
        rfl
    | cons hev _ ih =>
        rw [List.map_cons, List.mapM_cons] at hmap
        obtain ⟨ce, hce, hmap⟩ := Option.bind_eq_some_iff.mp hmap
        obtain ⟨rest, hrest, hcons⟩ := Option.bind_eq_some_iff.mp hmap
        obtain rfl := Option.some.inj hcons
        rw [List.foldl_cons, List.foldl_cons, hev.applyDecoded hK hce, ih hrest]
  · obtain rfl : events' = none := hevents
    rw [unmarshalEvents_missing] at hdecode
    exact ⟨[], List.nil_prefix, fun c => by rw [← Option.some.inj hdecode]; rfl⟩

/-- So does the browser with one that has `events`. -/
theorem PageBody.parsed {b : EventsBody} {since : Int} {events : List EventBody}
    (h : PageBody K log since b) (hb : b.events = some events)
    (hK : ∀ f ∈ [Fault.noVersion, .noEventType true, .noFlagKey true, .noFlagKey false,
      .noPayload false, .badPayload false], f ∉ K) :
    ∃ page, page <+: log.since since ∧
      ∀ t : UntypedClient, t.applyPage events = t.applyPage (page.map FlagEvent.body) := by
  obtain ⟨page, events', hpage, -, hall, hevents⟩ := h
  refine ⟨page, hpage, fun t => ?_⟩
  obtain rfl : events = events' := by
    rcases hevents with hevents | ⟨-, hevents⟩
    · exact Option.some.inj (hb.symm.trans hevents)
    · cases hb.symm.trans hevents
  rw [UntypedClient.applyPage, UntypedClient.applyPage, List.foldl_map]
  generalize (t, false) = s
  clear hb hpage hevents
  induction hall generalizing s with
  | nil => rfl
  | cons hev _ ih => rw [List.foldl_cons, List.foldl_cons, hev.applyNext hK, ih]

end Receive

/-! ### What harmless faults leave -/

section Keep

variable {K : Set Fault} {log : EventLog} {floor : Int} {c : Client} {t : FeatureFlagClient}

/-- A genuine page. -/
theorem Client.Good.applyPage (h : c.Good log floor) {page : List FlagEvent}
    (hpage : page <+: log.since c.configVersion) : (c.applyPage page).1.Good log floor := by
  have hmem : ∀ e ∈ page, e ∈ log.events := fun e he => List.mem_of_mem_filter (hpage.subset he)
  have hentries : page.map (FlagEvent.entry decodeFlag) <+: above c.configVersion log.entries := by
    rw [← EventLog.since_entries]
    exact hpage.map _
  refine ⟨?_, ?_, h.floor_le.trans (c.le_applyPage page)⟩
  · rw [c.applyPage_reader fun e he => log.wellFormed e (hmem e he)]
    exact h.inStep.read log.entries_ascending (le_refl _) hentries
  · -- the version is that of the last event applied
    suffices H : ∀ s : Client × Bool,
        (s.1.configVersion = 0 ∨ ∃ e ∈ log.events, e.version = s.1.configVersion) →
          (page.foldl applyNext s).1.configVersion = 0 ∨
            ∃ e ∈ log.events, e.version = (page.foldl applyNext s).1.configVersion from
      H (c, false) h.version
    clear hentries hpage
    induction page with
    | nil => exact fun s hs => hs
    | cons e page ih =>
        rw [List.forall_mem_cons] at hmem
        refine fun s hs => ih hmem.2 _ ?_
        rw [applyNext]
        split
        · exact hs
        · exact Or.inr ⟨e, hmem.1, rfl⟩

/-- The browser's client after a genuine page: what the Go client holds after it. -/
theorem UntypedClient.Good.applyPage (h : t.untyped.Good log floor)
    (hlog : ∀ e ∈ log.events, e.CarriesFlag ∧ ExactInt e.version) {page : List FlagEvent}
    (hpage : page <+: log.since t.configVersion) : (t.applyPage page).1.untyped.Good log floor := by
  obtain ⟨c, hc, hflags, hversion⟩ := h
  have hsame : SameState c t := ⟨(Option.some.inj hversion).symm, hflags⟩
  rw [← hsame.version] at hpage
  have hafter := (hsame.page fun e he => hlog e (List.mem_of_mem_filter (hpage.subset he))).1
  exact ⟨_, hc.applyPage hpage, hafter.flags, congrArg some hafter.version.symm⟩

/-- The client after a snapshot, if Go accepts it. -/
theorem bootstrapFrom_body {s : Snapshot} {flags : List ClientFlag}
    (hflags : s.flags.mapM (fun members => unmarshalFlag (.obj members)) = some flags)
    (h : Client.bootstrapFrom s.body.json = some c) : c = Client.bootstrap flags s.version := by
  have hdecode : unmarshalFlags (.arr (s.flags.map .obj)) = some flags := by
    rw [unmarshalFlags, List.mapM_map]
    exact hflags
  by_cases hv : Json.InInt64 s.version
  · simpa (disch := decide) [Client.bootstrapFrom, Snapshot.body, FlagsBody.json, jsonMember,
      Json.decodeStruct, BootstrapBody.setField, Json.foldName_of_plain, Json.decodeInt_int hv,
      hdecode, eq_comm] using h
  · simp (disch := decide) [Client.bootstrapFrom, Snapshot.body, FlagsBody.json, jsonMember,
      Json.decodeStruct, BootstrapBody.setField, Json.foldName_of_plain, Json.decodeInt, hv] at h

theorem bootstrapOn_good (h : c.Good log c.configVersion)
    {response : Option (Response FlagsBody)}
    (hresponse : Answers K (SnapshotBody K log c.configVersion) response)
    (hK : ∀ f ∈ K, f ∉ SdkCall.goBootstrap.harmedBy) :
    (c.bootstrapOn response).1.Good log c.configVersion := by
  have hout : ∀ f ∈ SdkCall.goBootstrap.harmedBy, f ∉ K := fun f hf hfK => hK f hfK hf
  simp only [SdkCall.harmedBy, List.forall_mem_cons] at hout
  obtain ⟨htrailing, hflags, hversion, hfield, -⟩ := hout
  rw [Client.bootstrapOn]
  cases hreceive : (Client.receive response).bind fun b => Client.bootstrapFrom b.json with
  | none => exact h
  | some c' =>
      obtain ⟨b, hb, hc'⟩ := Option.bind_eq_some_iff.mp hreceive
      obtain ⟨s, hs, rfl⟩ := (hresponse.receive_go htrailing hb).genuine hflags hversion hfield
      obtain ⟨flags, hdecode, hgood⟩ := hs.good
      rw [bootstrapFrom_body hdecode hc']
      exact hgood

/-- Setting the records of a snapshot, when both clients hold the same. -/
theorem setAll_sameFlags {objects : List (List (String × Json))} {flags : List ClientFlag}
    (hobjects : ∀ members ∈ objects, FlagObject members)
    (hflags : objects.mapM (fun members => unmarshalFlag (.obj members)) = some flags)
    {m : String → Option ClientFlag} (h : SameFlags m t.flags) :
    ∃ t', t.setAll (objects.map .obj) = (t', true) ∧ SameFlags
      (flags.foldl (fun (m : String → Option ClientFlag) f => Function.update m f.key (some f)) m)
      t'.flags := by
  induction objects generalizing flags m t with
  | nil =>
      obtain rfl : flags = [] := by simpa using hflags.symm
      exact ⟨t, rfl, h⟩
  | cons members objects ih =>
      rw [List.forall_mem_cons] at hobjects
      rw [List.mapM_cons] at hflags
      obtain ⟨f, hf, hflags⟩ := Option.bind_eq_some_iff.mp hflags
      obtain ⟨rest, hrest, hcons⟩ := Option.bind_eq_some_iff.mp hflags
      obtain rfl := Option.some.inj hcons
      -- Go decodes the record to the flag whose key the browser stores it under
      obtain ⟨f', hf', hsame⟩ := unmarshalFlag_flagObject hobjects.1
      obtain rfl : f = f' := Option.some.inj (hf.symm.trans hf')
      have hset : FeatureFlagClient.setParsed (.obj members) t =
          some (t.set f.key (.obj members)) := by
        simp [FeatureFlagClient.setParsed, Json.stringProp, hsame.key]
      rw [List.map_cons, FeatureFlagClient.setAll, hset]
      exact ih hobjects.2 hrest (h.update (Option.Rel.some hsame))

/-- **A genuine snapshot.** -/
theorem Snapshot.Genuine.bootstrap {s : Snapshot} (hs : s.Genuine log floor)
    (hexact : ∀ e ∈ log.events, ExactInt e.version) (t : FeatureFlagClient) :
    (t.bootstrap s.body).1.untyped.Good log floor := by
  obtain ⟨flags, hdecode, hgood⟩ := hs.good
  have hversion : jsNumber s.version = s.version := by
    refine jsNumber_of_exact ?_
    obtain hzero | ⟨e, he, heq⟩ := hgood.version
    · have hzero : s.version = 0 := hzero
      rw [hzero]
      decide
    · have heq : e.version = s.version := heq
      exact heq ▸ hexact e he
  have hempty : SameFlags (fun _ => none)
      ({ t with flags := fun _ => none } : FeatureFlagClient).flags := fun _ => Option.Rel.none
  obtain ⟨t', hset, hsame⟩ := setAll_sameFlags hs.objects hdecode hempty
  refine ⟨_, hgood, ?_⟩
  simp only [FeatureFlagClient.bootstrap, Snapshot.body, hset]
  exact ⟨hsame, congrArg some hversion⟩

theorem browserBootstrapOn_good (hexact : ∀ e ∈ log.events, ExactInt e.version)
    (h : t.untyped.Good log t.configVersion)
    {response : Option (Response FlagsBody)}
    (hresponse : Answers K (SnapshotBody K log t.configVersion) response)
    (hK : ∀ f ∈ K, f ∉ SdkCall.browserBootstrap.harmedBy) :
    (t.bootstrapOn response).1.untyped.Good log t.configVersion := by
  have hout : ∀ f ∈ SdkCall.browserBootstrap.harmedBy, f ∉ K := fun f hf hfK => hK f hfK hf
  simp only [SdkCall.harmedBy, List.forall_mem_cons] at hout
  obtain ⟨hsuccess, hflags, hversion, hfield, -⟩ := hout
  rw [FeatureFlagClient.bootstrapOn]
  cases hreceive : FeatureFlagClient.receive response with
  | none => exact h
  | some b =>
      have hbody := hresponse.receive_browser hsuccess hreceive
      obtain ⟨s, hs, rfl⟩ := hbody.genuine hflags hversion hfield
      exact hs.bootstrap hexact t

/-- `Reconcile`, by induction on the rounds to go. -/
theorem reconcileLoop_good {server : Nat → Option Int → Option (Response EventsBody)}
    (hserver : ServerOf K log server) (hK : ∀ f ∈ K, f ∉ SdkCall.goReconcile.harmedBy)
    (fuel n : Nat) (h : c.Good log floor) :
    (Client.reconcileLoop server fuel n c).1.Good log floor := by
  have hout : ∀ f ∈ SdkCall.goReconcile.harmedBy, f ∉ K := fun f hf hfK => hK f hfK hf
  rw [SdkCall.harmedBy, List.forall_mem_cons] at hout
  induction fuel generalizing n c with
  | zero => exact h
  | succ fuel ih =>
      rw [Client.reconcileLoop]
      -- whatever does not decode ends the call before anything is written
      cases hreceive : (Client.receive (server n (some c.configVersion))).bind
          fun b => unmarshalEvents b.json with
      | none => exact h
      | some events =>
          obtain ⟨b, hb, hdecode⟩ := Option.bind_eq_some_iff.mp hreceive
          have hbody := (hserver.page n c.configVersion).receive_go hout.1 hb
          obtain ⟨page, hpage, happly⟩ := hbody.decoded hout.2 hdecode
          have hgood := h.applyPage hpage
          rw [← happly c] at hgood
          cases events with
          | nil => exact h
          | cons ev rest =>
              dsimp only
              cases hstep : c.applyEvents (ev :: rest) with
              | mk c' advanced =>
                  rw [hstep] at hgood
                  cases advanced with
                  | true => exact ih (n + 1) hgood
                  | false => exact hgood

/-- `reconcile` of the browser, likewise. -/
theorem browserReconcileLoop_good {server : Nat → Option Int → Option (Response EventsBody)}
    (hlog : ∀ e ∈ log.events, e.CarriesFlag ∧ ExactInt e.version) (hserver : ServerOf K log server)
    (hK : ∀ f ∈ K, f ∉ SdkCall.browserReconcile.harmedBy) (fuel n : Nat)
    (h : t.untyped.Good log floor) :
    (UntypedClient.reconcileLoop server fuel n t.untyped).1.Good log floor := by
  have hout : ∀ f ∈ SdkCall.browserReconcile.harmedBy, f ∉ K := fun f hf hfK => hK f hfK hf
  rw [SdkCall.harmedBy, List.forall_mem_cons] at hout
  induction fuel generalizing n t with
  | zero => exact h
  | succ fuel ih =>
      rw [UntypedClient.reconcileLoop]
      -- the same way out, when `events` cannot be iterated over
      cases hreceive : (FeatureFlagClient.receive (server n t.untyped.configVersion)).bind
          EventsBody.events with
      | none => exact h
      | some events =>
          obtain ⟨b, hb, hevents⟩ := Option.bind_eq_some_iff.mp hreceive
          have hbody := (hserver.page n t.configVersion).receive_browser hout.1 hb
          obtain ⟨page, hpage, happly⟩ := hbody.parsed hevents hout.2
          have hgood := UntypedClient.Good.applyPage h hlog hpage
          have happly := (happly t.untyped).trans (UntypedClient.applyPage_body t page)
          cases events with
          | nil => exact h
          | cons ev rest =>
              dsimp only
              rw [happly]
              cases hadvanced : (t.applyPage page).2 with
              | true => exact ih (n + 1) hgood
              | false => exact hgood

end Keep

/-! ### What the other faults cost -/

section Harm

variable {K : Set Fault} {log : EventLog} {floor : Int} {c : Client} {t : UntypedClient}

/-- A good client has the right flag under a key. -/
def Client.agreesAt (log : EventLog) (c : Client) (key : String) : Bool :=
  c.flags key = replay (fun _ => none) (upTo c.configVersion log.entries) key

/-- A good client of the browser has a flag under a key when there is one, with its fields. -/
def UntypedClient.agreesAt (log : EventLog) (t : UntypedClient) (key : String) : Bool :=
  t.configVersion.any fun v =>
    let there := (replay (fun _ => none) (upTo v log.entries) key).isSome
    (t.flags key).isSome = there && ((t.flags key).bind (Json.prop "enabled")).isSome = there

theorem Client.Good.agreesAt (h : c.Good log floor) (key : String) : c.agreesAt log key = true :=
  decide_eq_true (congrFun h.inStep key)

theorem UntypedClient.Good.agreesAt (h : t.Good log floor) (key : String) :
    t.agreesAt log key = true := by
  obtain ⟨c, hc, hflags, hversion⟩ := h
  have hstep : c.flags key = _ := congrFun hc.inStep key
  have hkey := hflags key
  rw [UntypedClient.agreesAt, hversion, Option.any_some]
  change _ = replay _ (upTo c.configVersion log.entries) key at hstep
  rw [← hstep]
  cases hf : c.flags key <;> cases ht : t.flags key <;> rw [hf, ht] at hkey <;> cases hkey
  · simp
  · rename_i hsame
    simp [hsame.enabled]

/-- An empty client, before the log begins. -/
theorem good_zero (hpos : ∀ e ∈ log.events, 0 < e.version) :
    (⟨fun _ => none, 0⟩ : Client).Good log 0 := by
  refine ⟨?_, Or.inl rfl, le_refl _⟩
  have hnone : upTo 0 log.entries = [] := by
    rw [upTo, List.filter_eq_nil_iff]
    intro x hx
    obtain ⟨e, he, rfl⟩ := List.mem_map.mp hx
    exact fun hle => absurd (of_decide_eq_true hle) (not_le.mpr (hpos e he))
  rw [InStep]
  show _ = replay _ (upTo 0 log.entries)
  rw [hnone]
  rfl

theorem untyped_good_zero (hpos : ∀ e ∈ log.events, 0 < e.version) :
    (⟨fun _ => none, 0⟩ : FeatureFlagClient).untyped.Good log 0 :=
  ⟨_, good_zero hpos, fun _ => Option.Rel.none, rfl⟩

/-! ### Runs that go wrong -/

def bannerFlag : Flag := ⟨"v", "banner", "", true, 100, none, 3, 0, 0⟩

/-- `checkout` comes and goes, then comes `banner`. -/
def shopEvents : List FlagEvent :=
  [ ⟨1, .created, "checkout", flagPayload checkoutFlag, 0⟩,
    ⟨2, .deleted, "checkout", .obj [("id", .str "u"), ("key", .str "checkout")], 0⟩,
    ⟨3, .created, "banner", flagPayload bannerFlag, 0⟩ ]

theorem shopEvents_ascending : shopEvents.Pairwise fun a b => a.version < b.version := by decide

theorem shopEvents_wellFormed : ∀ e ∈ shopEvents, e.WellFormed := by decide

theorem shopEvents_carriesFlag : ∀ e ∈ shopEvents, e.CarriesFlag := by
  simp only [shopEvents, List.forall_mem_cons]
  refine ⟨?_, Or.inl rfl, ?_, by simp⟩
  · exact carriesFlag_of_records ⟨rfl, by decide, rfl, rfl⟩ (by decide) (by decide) (by decide)
  · exact carriesFlag_of_records ⟨rfl, by decide, rfl, rfl⟩ (by decide) (by decide) (by decide)

def shopLog : FlagLog where
  events := shopEvents
  ascending := shopEvents_ascending
  wellFormed := shopEvents_wellFormed
  carriesFlag := shopEvents_carriesFlag

/-- The event with the fault, if it is one of such an event. -/
def Fault.breakEvent (e : FlagEvent) : Fault → EventBody
  | noVersion => { e.body with version := none }
  | noEventType d => if e.isDeletion = d then { e.body with eventType := none } else e.body
  | noFlagKey d => if e.isDeletion = d then { e.body with flagKey := none } else e.body
  | noPayload d => if e.isDeletion = d then { e.body with payload := none } else e.body
  | badPayload d => if e.isDeletion = d then { e.body with payload := some .null } else e.body
  | _ => e.body

/-- A server that sends all events at once, the one of version `v` with the fault. -/
def brokenAt (v : Int) (f : Fault) (_n : Nat) : Option Int → Option (Response EventsBody)
  | some since => some ⟨200, .json ⟨some ((shopLog.since since).map fun e =>
      if e.version = v then f.breakEvent e else e.body)⟩⟩
  | none => some ⟨400, .unreadable⟩

theorem eventOf_body (e : FlagEvent) : EventOf K e.body e :=
  ⟨Or.inl rfl, Or.inl rfl, Or.inl rfl, Or.inl (Or.inl rfl)⟩

theorem eventOf_breakEvent {f : Fault} (hK : f ∈ K) (e : FlagEvent) :
    EventOf K (f.breakEvent e) e := by
  have hbody : EventOf K e.body e := eventOf_body e
  unfold Fault.breakEvent
  split
  · exact { hbody with version := Or.inr ⟨hK, rfl⟩ }
  · split
    · rename_i hd
      exact { hbody with eventType := Or.inr ⟨hd ▸ hK, rfl⟩ }
    · exact hbody
  · split
    · rename_i hd
      exact { hbody with flagKey := Or.inr ⟨hd ▸ hK, rfl⟩ }
    · exact hbody
  · split
    · rename_i hd
      exact { hbody with payload := Or.inl (Or.inr ⟨hd ▸ hK, rfl⟩) }
    · exact hbody
  · split
    · rename_i hd
      exact { hbody with payload := Or.inr ⟨hd ▸ hK, .null, by decide, rfl⟩ }
    · exact hbody
  · exact hbody

theorem serverOf_brokenAt {f : Fault} (v : Int) (hK : f ∈ K) :
    ServerOf K shopLog.toEventLog (brokenAt v f) := by
  refine ⟨fun n since => Answers.genuine ?_, fun n => Or.inl ⟨_, rfl⟩⟩
  refine ⟨shopLog.since since, _, List.prefix_refl _, id, ?_, Or.inl rfl⟩
  rw [List.forall₂_map_left_iff, List.forall₂_same]
  intro e he
  split
  · exact eventOf_breakEvent hK e
  · exact eventOf_body e

theorem shopLog_positive : ∀ e ∈ shopLog.events, 0 < e.version := by decide

/-- A created flag of small numbers. -/
theorem exact_created (flag : Flag) (hversion : ExactInt flag.version)
    (hrollout : ExactInt flag.rolloutPercentage) :
    (⟨flag.version, .created, flag.key, flagPayload flag, 0⟩ : FlagEvent).Exact := by
  refine ⟨hversion, fun members heq m hm n hn => ?_⟩
  obtain rfl := Json.obj.inj heq
  simp only [List.mem_cons, List.not_mem_nil, or_false] at hm
  rcases hm with rfl | rfl | rfl | rfl | rfl | rfl | rfl | rfl | rfl <;> cases hn
  · exact hrollout
  · exact hversion

theorem shopLog_exact : ∀ e ∈ shopLog.events, e.Exact := by
  simp only [shopLog, shopEvents, List.forall_mem_cons]
  refine ⟨exact_created checkoutFlag (by decide) (by decide), ⟨by decide, ?_⟩,
    exact_created bannerFlag (by decide) (by decide), by simp⟩
  rintro members heq m hm n hn
  obtain rfl := Json.obj.inj heq
  simp only [List.mem_cons, List.not_mem_nil, or_false] at hm
  rcases hm with rfl | rfl <;> cases hn

/-- A run of `Reconcile` from the beginning of the log that ends with the wrong flag. -/
theorem goReconcile_fails (server : Nat → Option Int → Option (Response EventsBody)) (key : String)
    (hserver : ServerOf K shopLog.toEventLog server)
    (hbad : ((⟨fun _ => none, 0⟩ : Client).reconcile server).1.agreesAt
      shopLog.toEventLog key = false) : ¬ SdkCall.goReconcile.Survives K := by
  intro h
  have hgood := h shopLog ⟨fun _ => none, 0⟩ server (good_zero shopLog_positive) hserver
  have hkey := hgood.agreesAt key
  rw [hbad] at hkey
  cases hkey

theorem browserReconcile_fails (server : Nat → Option Int → Option (Response EventsBody))
    (key : String) (hserver : ServerOf K shopLog.toEventLog server)
    (hbad : ((⟨fun _ => none, 0⟩ : FeatureFlagClient).untyped.reconcile server).1.agreesAt
      shopLog.toEventLog key = false) : ¬ SdkCall.browserReconcile.Survives K := by
  intro h
  have hgood := h shopLog ⟨fun _ => none, 0⟩ server shopLog_exact
    (untyped_good_zero shopLog_positive) hserver
  have hkey := hgood.agreesAt key
  rw [hbad] at hkey
  cases hkey

/-- A page with an event that is not in the log. -/
def strangePage : EventsBody := ⟨some [⟨some 4, some "deleted", some "x", some .null⟩]⟩

theorem goReconcile_harmed {f : Fault} (hf : f ∈ SdkCall.goReconcile.harmedBy) (hK : f ∈ K) :
    ¬ SdkCall.goReconcile.Survives K := by
  simp only [SdkCall.harmedBy, List.mem_cons, List.not_mem_nil, or_false] at hf
  rcases hf with rfl | rfl | rfl | rfl | rfl | rfl
  · exact goReconcile_fails (fun _ _ => some ⟨200, .followed strangePage⟩) "banner"
      ⟨fun _ _ => .trailingBody hK, fun _ => Or.inr (.trailingBody hK)⟩ (by decide)
  · -- the event is skipped, and the next one is not
    exact goReconcile_fails _ "checkout" (serverOf_brokenAt 2 hK) (by decide)
  · exact goReconcile_fails _ "checkout" (serverOf_brokenAt 2 hK) (by decide)
  · exact goReconcile_fails _ "checkout" (serverOf_brokenAt 2 hK) (by decide)
  · exact goReconcile_fails _ "banner" (serverOf_brokenAt 3 hK) (by decide)
  · exact goReconcile_fails _ "banner" (serverOf_brokenAt 3 hK) (by decide)

theorem browserReconcile_harmed {f : Fault} (hf : f ∈ SdkCall.browserReconcile.harmedBy)
    (hK : f ∈ K) : ¬ SdkCall.browserReconcile.Survives K := by
  simp only [SdkCall.harmedBy, List.mem_cons, List.not_mem_nil, or_false] at hf
  rcases hf with rfl | rfl | rfl | rfl | rfl | rfl | rfl
  · exact browserReconcile_fails (fun _ _ => some ⟨202, .json strangePage⟩) "banner"
      ⟨fun _ _ => .otherSuccessBody hK rfl (by decide),
        fun _ => Or.inr (.otherSuccessBody hK rfl (by decide))⟩ (by decide)
  · -- the last event leaves the version undefined
    exact browserReconcile_fails _ "banner" (serverOf_brokenAt 3 hK) (by decide)
  · exact browserReconcile_fails _ "checkout" (serverOf_brokenAt 2 hK) (by decide)
  · exact browserReconcile_fails _ "checkout" (serverOf_brokenAt 2 hK) (by decide)
  · exact browserReconcile_fails _ "banner" (serverOf_brokenAt 3 hK) (by decide)
  · exact browserReconcile_fails _ "banner" (serverOf_brokenAt 3 hK) (by decide)
  · exact browserReconcile_fails _ "banner" (serverOf_brokenAt 3 hK) (by decide)

/-! ### Snapshots that go wrong -/

def checkoutEvents : List FlagEvent := [⟨1, .created, "checkout", flagPayload checkoutFlag, 0⟩]

theorem checkoutEvents_ascending : checkoutEvents.Pairwise fun a b => a.version < b.version := by
  decide

theorem checkoutEvents_wellFormed : ∀ e ∈ checkoutEvents, e.WellFormed := by decide

theorem checkoutEvents_carriesFlag : ∀ e ∈ checkoutEvents, e.CarriesFlag := by
  simp only [checkoutEvents, List.forall_mem_cons]
  refine ⟨?_, by simp⟩
  exact carriesFlag_of_records ⟨rfl, by decide, rfl, rfl⟩ (by decide) (by decide) (by decide)

/-- `checkout` is created. -/
def createdLog : FlagLog where
  events := checkoutEvents
  ascending := checkoutEvents_ascending
  wellFormed := checkoutEvents_wellFormed
  carriesFlag := checkoutEvents_carriesFlag

theorem createdLog_positive : ∀ e ∈ createdLog.events, 0 < e.version := by decide

theorem createdLog_exact : ∀ e ∈ createdLog.events, e.Exact := by
  simp only [createdLog, checkoutEvents, List.forall_mem_cons]
  exact ⟨exact_created checkoutFlag (by decide) (by decide), by simp⟩

/-- The members of `checkout` in a snapshot. -/
def checkoutMembers : List (String × Json) :=
  [("id", .str "u"), ("key", .str "checkout"), ("description", .str ""), ("enabled", .bool true),
    ("rollout_percentage", .int 100), ("targeted_users", .arr []), ("version", .int 1)]

def checkoutSnapshot : Snapshot := ⟨[checkoutMembers], 1⟩

theorem checkoutSnapshot_genuine {floor : Int} (h : floor ≤ 1) :
    checkoutSnapshot.Genuine createdLog.toEventLog floor := by
  refine ⟨?_, [⟨"u", "checkout", "", true, 100, [], 1⟩], by rfl, ?_, ?_, h⟩
  · simp only [checkoutSnapshot, List.forall_mem_cons]
    refine ⟨⟨by decide, ?_, ?_⟩, by simp⟩
    · intro m hm _
      have hplain : ∀ m ∈ checkoutMembers.map Prod.fst, Json.plainName m = true := by decide
      exact Json.foldName_of_plain (hplain m.1 (List.mem_map_of_mem hm))
    · simp [checkoutMembers, flagFieldType]
      decide
  · rfl
  · exact Or.inr ⟨_, List.mem_singleton_self _, rfl⟩

theorem snapshotBody_checkout {floor : Int} (h : floor ≤ 1) {b : FlagsBody}
    (hflags : MemberOf K .noFlags b.flags [.obj checkoutMembers])
    (hversion : MemberOf K .noConfigVersion b.configVersion 1) :
    SnapshotBody K createdLog.toEventLog floor b :=
  ⟨checkoutSnapshot, _, checkoutSnapshot_genuine h,
    List.Forall₂.cons (Or.inl rfl) List.Forall₂.nil, hflags, hversion⟩

/-- The flag without its `enabled`. -/
theorem snapshotBody_noField {floor : Int} (h : floor ≤ 1) (hK : .noFlagField ∈ K) :
    SnapshotBody K createdLog.toEventLog floor
      ⟨some [.obj (checkoutMembers.filter fun m => m.1 ≠ "enabled")], some 1⟩ :=
  ⟨checkoutSnapshot, _, checkoutSnapshot_genuine h,
    List.Forall₂.cons (Or.inr ⟨hK, "enabled", by decide, rfl⟩) List.Forall₂.nil, Or.inl rfl,
    Or.inl rfl⟩

/-- A `Bootstrap` of an empty client that ends with the wrong flag. -/
theorem goBootstrap_fails (response : Option (Response FlagsBody))
    (hresponse : Answers K (SnapshotBody K createdLog.toEventLog 0) response)
    (hbad : ((⟨fun _ => none, 0⟩ : Client).bootstrapOn response).1.agreesAt createdLog.toEventLog
      "checkout" = false) : ¬ SdkCall.goBootstrap.Survives K := by
  intro h
  have hgood := (h createdLog ⟨fun _ => none, 0⟩ response (good_zero createdLog_positive)
    hresponse).agreesAt "checkout"
  rw [hbad] at hgood
  cases hgood

theorem goBootstrap_harmed {f : Fault} (hf : f ∈ SdkCall.goBootstrap.harmedBy) (hK : f ∈ K) :
    ¬ SdkCall.goBootstrap.Survives K := by
  simp only [SdkCall.harmedBy, List.mem_cons, List.not_mem_nil, or_false] at hf
  rcases hf with rfl | rfl | rfl | rfl
  · exact goBootstrap_fails (some ⟨200, .followed ⟨none, some 1⟩⟩) (.trailingBody hK) (by decide)
  · exact goBootstrap_fails (some ⟨200, .json ⟨none, some 1⟩⟩)
      (.genuine (snapshotBody_checkout (by decide) (Or.inr ⟨hK, rfl⟩) (Or.inl rfl))) (by decide)
  · exact goBootstrap_fails (some ⟨200, .json ⟨some [.obj checkoutMembers], none⟩⟩)
      (.genuine (snapshotBody_checkout (by decide) (Or.inl rfl) (Or.inr ⟨hK, rfl⟩))) (by decide)
  · exact goBootstrap_fails _ (.genuine (snapshotBody_noField (by decide) hK)) (by decide)

/-- The browser's client with the snapshot. -/
def checkoutClient : FeatureFlagClient :=
  ((⟨fun _ => none, 0⟩ : FeatureFlagClient).bootstrap checkoutSnapshot.body).1

theorem checkoutClient_good : checkoutClient.untyped.Good createdLog.toEventLog 1 :=
  (checkoutSnapshot_genuine (le_refl _)).bootstrap (fun e he => (createdLog_exact e he).version) _

theorem browserBootstrap_fails (t : FeatureFlagClient) (response : Option (Response FlagsBody))
    (hgood : t.untyped.Good createdLog.toEventLog t.configVersion)
    (hresponse : Answers K (SnapshotBody K createdLog.toEventLog t.configVersion) response)
    (hbad : (t.bootstrapOn response).1.untyped.agreesAt createdLog.toEventLog "checkout" = false) :
    ¬ SdkCall.browserBootstrap.Survives K := by
  intro h
  have hkept := (h createdLog t response createdLog_exact hgood hresponse).agreesAt "checkout"
  rw [hbad] at hkept
  cases hkept

theorem browserBootstrap_harmed {f : Fault} (hf : f ∈ SdkCall.browserBootstrap.harmedBy)
    (hK : f ∈ K) : ¬ SdkCall.browserBootstrap.Survives K := by
  have hempty := untyped_good_zero createdLog_positive
  simp only [SdkCall.harmedBy, List.mem_cons, List.not_mem_nil, or_false] at hf
  rcases hf with rfl | rfl | rfl | rfl
  · exact browserBootstrap_fails checkoutClient (some ⟨202, .json ⟨none, none⟩⟩)
      checkoutClient_good (.otherSuccessBody hK rfl (by decide)) (by decide)
  · -- the map is cleared before `data.flags` is read
    exact browserBootstrap_fails checkoutClient (some ⟨200, .json ⟨none, some 1⟩⟩)
      checkoutClient_good
      (.genuine (snapshotBody_checkout (le_refl _) (Or.inr ⟨hK, rfl⟩) (Or.inl rfl))) (by decide)
  · exact browserBootstrap_fails ⟨fun _ => none, 0⟩
      (some ⟨200, .json ⟨some [.obj checkoutMembers], none⟩⟩) hempty
      (.genuine (snapshotBody_checkout (by decide) (Or.inl rfl) (Or.inr ⟨hK, rfl⟩))) (by decide)
  · exact browserBootstrap_fails ⟨fun _ => none, 0⟩ _ hempty
      (.genuine (snapshotBody_noField (by decide) hK)) (by decide)

/-! ### The result -/

theorem SdkCall.survives_of_harmless (call : SdkCall) (hK : ∀ f ∈ K, f ∉ call.harmedBy) :
    call.Survives K := by
  cases call with
  | goBootstrap => exact fun log c response h hresponse => bootstrapOn_good h hresponse hK
  | goReconcile => exact fun log c server h hserver => reconcileLoop_good hserver hK _ _ h
  | browserBootstrap =>
      exact fun log t response hexact h hresponse =>
        browserBootstrapOn_good (fun e he => (hexact e he).version) h hresponse hK
  | browserReconcile =>
      exact fun log t server hexact h hserver =>
        browserReconcileLoop_good (fun e he => ⟨log.carriesFlag e he, (hexact e he).version⟩)
          hserver hK _ _ h

theorem SdkCall.not_survives (call : SdkCall) {f : Fault} (hf : f ∈ call.harmedBy) (hK : f ∈ K) :
    ¬ call.Survives K := by
  cases call with
  | goBootstrap => exact goBootstrap_harmed hf hK
  | goReconcile => exact goReconcile_harmed hf hK
  | browserBootstrap => exact browserBootstrap_harmed hf hK
  | browserReconcile => exact browserReconcile_harmed hf hK

/-- **Which failures the last known good flags survive.** For each call and any set of faults:
the call leaves every good client good, over every log and whichever of its responses have which
of the faults, exactly when none of them is one it is harmed by. -/
theorem lastKnownGood_iff (call : SdkCall) (K : Set Fault) :
    call.Survives K ↔ ∀ f ∈ K, f ∉ call.harmedBy :=
  ⟨fun h _ hK hf => call.not_survives hf hK h, call.survives_of_harmless⟩

/-- The browser's client has `checkout` at version 1. The response of its `bootstrap` lacks `flags`:
the map is cleared, and the version stays. -/
theorem clearedMap_lost :
    checkoutClient.untyped.Good createdLog.toEventLog checkoutClient.configVersion ∧
      Answers {.noFlags}
        (SnapshotBody {.noFlags} createdLog.toEventLog checkoutClient.configVersion)
        (some ⟨200, .json ⟨none, some 1⟩⟩) ∧
      ¬ (checkoutClient.bootstrapOn (some ⟨200, .json ⟨none, some 1⟩⟩)).1.untyped.Good
        createdLog.toEventLog checkoutClient.configVersion := by
  refine ⟨checkoutClient_good, .genuine ?_, fun h => ?_⟩
  · exact snapshotBody_checkout (le_refl _) (Or.inr ⟨rfl, rfl⟩) (Or.inl rfl)
  · have hbad := h.agreesAt "checkout"
    revert hbad
    decide

end Harm

end FlagPlane
