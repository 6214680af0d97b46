import FlagPlane.Handler.Events

/-!
# FlagPlane.Chaos.EventCount

**`EventsSinceCount` of `chaoskit.go`.** The chaos asserter counts a flag's events on one page of
the events endpoint. The page has 500 rows of any key, so what it counts is what lies among the
first 500 events above `since`.
-/

namespace FlagPlane

/-! ### The count -/

/-- An event as `EventsSinceCount` decodes it. -/
structure CountedEvent where
  version : Int
  flagKey : String

def CountedEvent.setField (name : String) (v : Json) (e : CountedEvent) : Option CountedEvent :=
  match name with
  | "version" => (Json.decodeInt e.version v).map fun n => { e with version := n }
  | "flag_key" => (Json.decodeString e.flagKey v).map fun key => { e with flagKey := key }
  | _ => some e

def unmarshalCountedEvent (data : Json) : Option CountedEvent :=
  Json.decodeStruct ⟨0, ""⟩ CountedEvent.setField data

/-- The body of the page, as `EventsSinceCount` decodes it. -/
def unmarshalCounted (data : Json) : Option (List CountedEvent) :=
  Json.decodeStruct []
    (fun name v events =>
      if name = "events" then
        match v with
        | .arr items => items.mapM unmarshalCountedEvent
        | .null => some []
        | _ => none
      else some events)
    data

/-- The events that count for a key: with an empty key, all. -/
def ofKey (flagKey key : String) : Bool :=
  flagKey = "" || key = flagKey

/-- `EventsSinceCount`, from the response it gets; `none` is an error. -/
def eventsSinceCount (flagKey : String) (response : Option (Response EventsBody)) : Option Nat :=
  (Client.receive response).bind fun b =>
    (unmarshalCounted b.json).map fun events =>
      (events.filter fun e => ofKey flagKey e.flagKey).length

/-- What `EventsSinceCount` returns when `flag_events` is `events`. -/
def countedSince (events : List FlagEvent) (since : Int) (flagKey : String) : Option Nat :=
  eventsSinceCount flagKey (some (eventsResponse events (renderInt since)))

/-- The check of `concurrentWriters` after `writes` successful writes; an error of the request is
an error of the scenario. -/
def durableEventsCheck (count : Option Nat) (writes : Nat) : Bool :=
  count = some writes

/-- The events of the key above `since`. -/
def committedSince (events : List FlagEvent) (since : Int) (flagKey : String) : List FlagEvent :=
  events.filter fun e => since < e.version && ofKey flagKey e.flagKey

/-- **Every durable event is counted**, and the check passes exactly when there is one for each
write. -/
structure CountsEveryEvent (events : List FlagEvent) (since : Int) (flagKey : String) : Prop where
  count : countedSince events since flagKey = some (committedSince events since flagKey).length
  check : ∀ writes, durableEventsCheck (countedSince events since flagKey) writes = true ↔
    (committedSince events since flagKey).length = writes

section Count

variable {events page : List FlagEvent} {since : Int} {flagKey : String}

theorem unmarshalCountedEvent_body {e : FlagEvent} (h : Json.InInt64 e.version) :
    unmarshalCountedEvent e.body.json = some ⟨e.version, e.flagKey⟩ := by
  simp (disch := decide) [unmarshalCountedEvent, FlagEvent.body, EventBody.json, jsonMember,
    Json.decodeStruct, CountedEvent.setField, Json.decodeInt_int h, Json.foldName_of_plain]

theorem unmarshalCounted_page (h : ∀ e ∈ page, Json.InInt64 e.version) :
    unmarshalCounted (⟨some (page.map FlagEvent.body)⟩ : EventsBody).json =
      some (page.map fun e => ⟨e.version, e.flagKey⟩) := by
  have hevents : (page.map FlagEvent.body).mapM (unmarshalCountedEvent ∘ EventBody.json) =
      some (page.map fun e => ⟨e.version, e.flagKey⟩) := by
    rw [List.mapM_map]
    exact mapM_eq_some_map fun e he => unmarshalCountedEvent_body (h e he)
  simpa (disch := decide) [unmarshalCounted, EventsBody.json, jsonMember, Json.decodeStruct,
    Json.foldName_of_plain, Function.comp_def] using hevents

/-- From 0 on, what is counted is the page; below 0 the request is refused. -/
theorem countedSince_eq (hevents : ∀ e ∈ events, Json.InInt64 e.version)
    (hsince : Json.InInt64 since) (flagKey : String) :
    countedSince events since flagKey =
      if 0 ≤ since then
        some ((eventsPage events since 500).filter fun e => ofKey flagKey e.flagKey).length
      else none := by
  rw [countedSince, eventsSinceCount]
  split
  · rename_i hpos
    have hdecode := unmarshalCounted_page fun e (he : e ∈ eventsPage events since 500) =>
      hevents e (mem_of_mem_eventsPage he).1
    rw [eventsResponse_of_nonneg hsince hpos, Client.receive]
    simp only [pageResponse, Option.bind_some, Body.decoded, if_true, hdecode, Option.map_some,
      List.filter_map, List.length_map, Function.comp_def]
  · rename_i hneg
    rw [Client.receive, Option.bind_some,
      if_neg (by rw [eventsResponse_of_neg hsince (by omega)]; decide)]
    rfl

/-- The events of the key, on the page and behind it. -/
theorem length_committedSince (events : List FlagEvent) (since : Int) (flagKey : String) :
    (committedSince events since flagKey).length =
      ((eventsPage events since 500).filter fun e => ofKey flagKey e.flagKey).length +
        (((backlog events since).drop 500).filter fun e => ofKey flagKey e.flagKey).length := by
  have hperm := (backlog_perm events since).filter fun e => ofKey flagKey e.flagKey
  rw [List.filter_filter] at hperm
  have hlength : (committedSince events since flagKey).length =
      ((backlog events since).filter fun e => ofKey flagKey e.flagKey).length := by
    rw [hperm.length_eq, committedSince]
    simp only [Bool.and_comm]
  rw [hlength, eventsPage, ← List.length_append, ← List.filter_append, List.take_append_drop]

/-- **The chaos asserter's count.** Every durable event of the key is counted exactly when `since`
is not negative and no event of the key comes after the first 500 events above it. -/
theorem counts_every_event_iff (hevents : ∀ e ∈ events, Json.InInt64 e.version)
    (hsince : Json.InInt64 since) (flagKey : String) :
    CountsEveryEvent events since flagKey ↔
      0 ≤ since ∧ ∀ e ∈ (backlog events since).drop 500, ofKey flagKey e.flagKey = false := by
  have hbehind : (((backlog events since).drop 500).filter fun e => ofKey flagKey e.flagKey) = [] ↔
      ∀ e ∈ (backlog events since).drop 500, ofKey flagKey e.flagKey = false := by
    simp [List.filter_eq_nil_iff]
  have hcount := countedSince_eq hevents hsince flagKey
  have hlength := length_committedSince events since flagKey
  rw [← hbehind, ← List.length_eq_zero_iff]
  constructor
  · intro h
    have hright := h.count
    rw [hcount] at hright
    split at hright
    · rename_i hpos
      have heq := Option.some.inj hright
      exact ⟨hpos, by omega⟩
    · cases hright
  · intro h
    obtain ⟨hpos, hnone⟩ := h
    rw [if_pos hpos] at hcount
    rw [hnone, Nat.add_zero] at hlength
    rw [← hlength] at hcount
    refine ⟨hcount, fun writes => ?_⟩
    rw [durableEventsCheck, hcount]
    simp

end Count

/-- `n` updates of one flag. -/
def updatesLog (n : Nat) : List FlagEvent :=
  (List.range n).map fun i : Nat => ⟨(i : Int) + 1, .updated, "checkout", .null, 0⟩

theorem counts_every_event_iff_updatesLog :
    CountsEveryEvent (updatesLog 3) 1 "checkout" ↔
      (0 : Int) ≤ 1 ∧
        ∀ e ∈ (backlog (updatesLog 3) 1).drop 500, ofKey "checkout" e.flagKey = false :=
  counts_every_event_iff (by decide) (by decide) "checkout"

theorem mem_updatesLog {n : Nat} {e : FlagEvent} (h : e ∈ updatesLog n) :
    0 < e.version ∧ e.version ≤ n ∧ e.flagKey = "checkout" := by
  obtain ⟨i, hi, rfl⟩ := List.mem_map.mp h
  rw [List.mem_range] at hi
  exact ⟨by dsimp only; omega, by dsimp only; omega, rfl⟩

/-- Of 501 updates, one for each of 501 writes, the asserter counts 500, and reports a lost one. -/
theorem updatesLog_undercounted :
    (committedSince (updatesLog 501) 0 "checkout").length = 501 ∧
      countedSince (updatesLog 501) 0 "checkout" = some 500 ∧
      durableEventsCheck (countedSince (updatesLog 501) 0 "checkout") 501 = false ∧
      ¬ CountsEveryEvent (updatesLog 501) 0 "checkout" := by
  have hlog : (updatesLog 501).length = 501 := by
    rw [updatesLog, List.length_map, List.length_range]
  have hcommitted : (committedSince (updatesLog 501) 0 "checkout").length = 501 := by
    rw [committedSince, List.filter_eq_self.mpr, hlog]
    intro e he
    simp [(mem_updatesLog he).1, (mem_updatesLog he).2.2, ofKey]
  have hbacklog : (backlog (updatesLog 501) 0).length = 501 := by
    rw [(backlog_perm _ _).length_eq, List.filter_eq_self.mpr, hlog]
    intro e he
    simpa using (mem_updatesLog he).1
  have hcounted : countedSince (updatesLog 501) 0 "checkout" = some 500 := by
    have hevents : ∀ e ∈ updatesLog 501, Json.InInt64 e.version := by
      intro e he
      obtain ⟨hpos, hle, -⟩ := mem_updatesLog he
      exact ⟨by omega, by omega⟩
    rw [countedSince_eq hevents (by decide) "checkout", if_pos (le_refl 0), List.filter_eq_self.mpr]
    · rw [eventsPage, List.length_take, hbacklog]
      rfl
    · intro e he
      simp [(mem_updatesLog (mem_of_mem_eventsPage he).1).2.2, ofKey]
  refine ⟨hcommitted, hcounted, ?_, fun h => ?_⟩
  · rw [hcounted]
    decide
  · have hright := h.count
    rw [hcounted, hcommitted] at hright
    exact absurd (Option.some.inj hright) (by decide)

end FlagPlane
