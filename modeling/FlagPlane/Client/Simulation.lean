import Mathlib.Data.Option.Basic
import FlagPlane.Machine
import FlagPlane.Sse.Wire

/-!
# FlagPlane.Client.Simulation

**The two SDKs side by side.** The Go client decodes a payload into a struct, the browser keeps
what `JSON.parse` made of it; Go finds a member by its name without case, the browser by the exact
name. On the JSON of a flag both find the same: `unmarshalFlag_flagObject` is the induction over
its members.

From there the two are one state machine, as long as the integers are ones that a JavaScript number
holds. `SameState` relates their states, and every live frame and every page keeps it and is
answered alike, whether the client asks for a reconcile (a frame) or for another page (a page). Past
`2 ^ 53` the browser rounds a version and takes it for the one before.
-/

namespace FlagPlane

/-! ### The JSON of a flag -/

/-- The members that both clients hold. -/
def flagFields : List String :=
  ["id", "key", "description", "enabled", "rollout_percentage", "targeted_users", "version"]

/-- The type of a member. -/
def flagFieldType (name : String) (v : Json) : Prop :=
  match name with
  | "id" | "key" | "description" => ∃ s, v = .str s
  | "enabled" => ∃ b, v = .bool b
  | "rollout_percentage" | "version" => ∃ n, v = .int n ∧ Json.InInt64 n
  | "targeted_users" => ∃ users : List String, v = .arr (users.map .str)
  | _ => True

/-- The members of a flag's JSON object: each field is there, under its exact name and of its
type. -/
structure FlagObject (members : List (String × Json)) : Prop where
  fields : ∀ name ∈ flagFields, name ∈ members.map Prod.fst
  exact : ∀ m ∈ members, Json.foldName m.1 ∈ flagFields → Json.foldName m.1 = m.1
  typed : ∀ m ∈ members, flagFieldType m.1 m.2

/-- The browser's record of a flag that Go holds as `f`. -/
structure ClientFlag.SameFields (f : ClientFlag) (record : Json) : Prop where
  id : record.prop "id" = some (.str f.id)
  key : record.prop "key" = some (.str f.key)
  description : record.prop "description" = some (.str f.description)
  enabled : record.prop "enabled" = some (.bool f.enabled)
  rolloutPercentage : record.prop "rollout_percentage" = some (.int f.rolloutPercentage)
  targetedUsers : record.prop "targeted_users" = some (.arr (f.targetedUsers.map .str))
  version : record.prop "version" = some (.int f.version)

/-- The event carries a flag under its own key. -/
def FlagEvent.CarriesFlag (e : FlagEvent) : Prop :=
  e.eventType = .deleted ∨ e.flagKey ≠ "" ∧ ∃ members, e.payload = .obj members ∧
    FlagObject members ∧ e.payload.prop "key" = some (.str e.flagKey)

/-- The integers of the event are numbers: `JSON.parse` leaves them as they are. -/
structure FlagEvent.Exact (e : FlagEvent) : Prop where
  version : ExactInt e.version
  payload : ∀ members, e.payload = .obj members → ∀ m ∈ members, ∀ n, m.2 = .int n → ExactInt n

/-- What Go decoded so far: where a member is there, the field has its value. -/
structure ClientFlag.Reads (f : ClientFlag) (record : Json) : Prop where
  id : ∀ v, record.prop "id" = some v → v = .str f.id
  key : ∀ v, record.prop "key" = some v → v = .str f.key
  description : ∀ v, record.prop "description" = some v → v = .str f.description
  enabled : ∀ v, record.prop "enabled" = some v → v = .bool f.enabled
  rolloutPercentage : ∀ v, record.prop "rollout_percentage" = some v → v = .int f.rolloutPercentage
  targetedUsers : ∀ v, record.prop "targeted_users" = some v → v = .arr (f.targetedUsers.map .str)
  version : ∀ v, record.prop "version" = some v → v = .int f.version

section Decode

variable {members : List (String × Json)} {name field : String} {v : Json}

theorem Json.prop_append :
    (Json.obj (members ++ [(name, v)])).prop field =
      if name = field then some v else (Json.obj members).prop field := by
  rw [prop, prop, List.reverse_append, List.reverse_singleton, List.singleton_append,
    List.find?_cons]
  by_cases heq : name = field
  · simp [heq]
  · simp [heq]

theorem Json.prop_isSome (h : name ∈ members.map Prod.fst) :
    ∃ v, (Json.obj members).prop name = some v := by
  obtain ⟨m, hm, rfl⟩ := List.mem_map.mp h
  have hfind : (members.reverse.find? fun m' => m'.1 = m.1).isSome = true :=
    List.find?_isSome.mpr ⟨m, List.mem_reverse.mpr hm, by simp⟩
  obtain ⟨m', hm'⟩ := Option.isSome_iff_exists.mp hfind
  exact ⟨m'.2, by rw [prop, hm']; rfl⟩

/-- One member more. -/
theorem ClientFlag.Reads.setField {f : ClientFlag} (h : f.Reads (.obj members))
    (hexact : Json.foldName name ∈ flagFields → Json.foldName name = name)
    (htyped : flagFieldType name v) (spare : List String) :
    ∃ f' spare', ClientFlag.setField (Json.foldName name) v (f, spare) = some (f', spare') ∧
      f'.Reads (.obj (members ++ [(name, v)])) := by
  obtain ⟨hid, hkey, hdescription, henabled, hrollout, husers, hversion⟩ := h
  by_cases hfield : Json.foldName name ∈ flagFields
  · have hname := hexact hfield
    rw [hname] at hfield ⊢
    simp only [flagFields, List.mem_cons, List.not_mem_nil, or_false] at hfield
    rcases hfield with rfl | rfl | rfl | rfl | rfl | rfl | rfl
    · obtain ⟨s, rfl⟩ := htyped
      refine ⟨{ f with id := s }, spare, rfl, ?_⟩
      constructor <;> simp [Json.prop_append] <;> assumption
    · obtain ⟨s, rfl⟩ := htyped
      refine ⟨{ f with key := s }, spare, rfl, ?_⟩
      constructor <;> simp [Json.prop_append] <;> assumption
    · obtain ⟨s, rfl⟩ := htyped
      refine ⟨{ f with description := s }, spare, rfl, ?_⟩
      constructor <;> simp [Json.prop_append] <;> assumption
    · obtain ⟨b, rfl⟩ := htyped
      refine ⟨{ f with enabled := b }, spare, rfl, ?_⟩
      constructor <;> simp [Json.prop_append] <;> assumption
    · obtain ⟨n, rfl, hn⟩ := htyped
      refine ⟨{ f with rolloutPercentage := n }, spare, ?_, ?_⟩
      · simp [setField, Json.decodeInt_int hn]
      · constructor <;> simp [Json.prop_append] <;> assumption
    · obtain ⟨users, rfl⟩ := htyped
      obtain ⟨spare', husers'⟩ := Json.decodeStrings_strs ⟨f.targetedUsers, spare⟩ users
      refine ⟨{ f with targetedUsers := users }, spare', ?_, ?_⟩
      · simp [ClientFlag.setField, husers']
      · constructor <;> simp [Json.prop_append] <;> assumption
    · obtain ⟨n, rfl, hn⟩ := htyped
      refine ⟨{ f with version := n }, spare, ?_, ?_⟩
      · simp [setField, Json.decodeInt_int hn]
      · constructor <;> simp [Json.prop_append] <;> assumption
  · have hplain : ∀ field ∈ flagFields, Json.plainName field = true := by decide
    -- a name that equals a field's would fold to it
    have hne : ∀ field ∈ flagFields, name ≠ field := by
      rintro field hmem rfl
      exact hfield (by rwa [Json.foldName_of_plain (hplain name hmem)])
    refine ⟨f, spare, ?_, ?_⟩
    · simp only [ClientFlag.setField]
      split
      case h_8 => rfl
      all_goals
        rename_i heq
        rw [heq] at hfield
        exact absurd (by decide) hfield
    · simp only [flagFields, List.forall_mem_cons] at hne
      constructor <;> simp [Json.prop_append, hne] <;> assumption

/-- **Both clients find the same fields in the JSON of a flag.** -/
theorem unmarshalFlag_flagObject (h : FlagObject members) :
    ∃ f, unmarshalFlag (.obj members) = some f ∧ f.SameFields (.obj members) := by
  obtain ⟨f, spare, hf, hreads⟩ : ∃ f spare,
      Json.decodeStruct (ClientFlag.zero, []) ClientFlag.setField (.obj members) = some (f, spare) ∧
        f.Reads (.obj members) := by
    have hexact := h.exact
    have htyped := h.typed
    clear h
    induction members using List.reverseRecOn with
    | nil => exact ⟨ClientFlag.zero, [], rfl, by constructor <;> simp [Json.prop]⟩
    | append_singleton members m ih =>
        obtain ⟨f, spare, hf, hreads⟩ := ih (fun m hm => hexact m (List.mem_append_left _ hm))
          (fun m hm => htyped m (List.mem_append_left _ hm))
        have hm : m ∈ members ++ [m] := List.mem_append_right _ (List.mem_singleton_self m)
        obtain ⟨f', spare', hf', hreads'⟩ := hreads.setField (hexact m hm) (htyped m hm) spare
        refine ⟨f', spare', ?_, hreads'⟩
        rw [Json.decodeStruct] at hf ⊢
        rw [List.foldlM_append, hf]
        simpa using hf'
  have hthere : ∀ name ∈ flagFields, ∃ v, (Json.obj members).prop name = some v :=
    fun name hname => Json.prop_isSome (h.fields name hname)
  simp only [flagFields, List.forall_mem_cons] at hthere
  obtain ⟨⟨id, hid⟩, ⟨key, hkey⟩, ⟨description, hdescription⟩, ⟨enabled, henabled⟩,
    ⟨rollout, hrollout⟩, ⟨users, husers⟩, ⟨version, hversion⟩, -⟩ := hthere
  exact ⟨f, congrArg (Option.map Prod.fst) hf, hid.trans (congrArg some (hreads.id id hid)),
    hkey.trans (congrArg some (hreads.key key hkey)),
    hdescription.trans (congrArg some (hreads.description description hdescription)),
    henabled.trans (congrArg some (hreads.enabled enabled henabled)),
    hrollout.trans (congrArg some (hreads.rolloutPercentage rollout hrollout)),
    husers.trans (congrArg some (hreads.targetedUsers users husers)),
    hversion.trans (congrArg some (hreads.version version hversion))⟩

end Decode

/-! ### One state machine -/

/-- The same flags, on the fields both clients hold. -/
def SameFlags (flags : String → Option ClientFlag) (records : String → Option Json) : Prop :=
  ∀ key, Option.Rel ClientFlag.SameFields (flags key) (records key)

structure SameState (c : Client) (t : FeatureFlagClient) : Prop where
  version : c.configVersion = t.configVersion
  flags : SameFlags c.flags t.flags

inductive SdkStep
  /-- A frame. `lastEventId` is the last id that the browser's connection had before it. -/
  | live (e : FlagEvent) (lastEventId : Option Int)
  /-- A page of `reconcile`. -/
  | page (events : List FlagEvent)

/-- The step is about events of the log; a frame has an `id:` line. -/
def SdkStep.OfLog (log : List FlagEvent) : SdkStep → Prop
  | live e _ => e ∈ log ∧ 0 < e.version
  | page events => ∀ e ∈ events, e ∈ log

/-- The Go client: after a frame, whether it must reconcile; after a page, whether it asks for
another. -/
def Client.sdkStep (c : Client) : SdkStep → Client × Bool
  | .live e _ => c.onFrame e.envelope.sseEvent.frame
  | .page events => c.applyPage events

/-- The browser's client, likewise. -/
def FeatureFlagClient.sdkStep (t : FeatureFlagClient) : SdkStep → FeatureFlagClient × Bool
  | .live e lastEventId => t.onFrame lastEventId e.envelope.sseEvent.frame
  | .page events => t.applyPage events

section Step

variable {c : Client} {t : FeatureFlagClient} {e : FlagEvent} {key : String}
  {flags : String → Option ClientFlag} {records : String → Option Json}

theorem SameFlags.update
    (h : SameFlags flags records) {f : Option ClientFlag} {record : Option Json}
    (hf : Option.Rel ClientFlag.SameFields f record) :
    SameFlags (Function.update flags key f) (Function.update records key record) := by
  intro key'
  by_cases heq : key' = key
  · subst heq
    simpa using hf
  · simpa [heq] using h key'

/-- What an event sets, both set. -/
theorem FlagEvent.CarriesFlag.set (h : e.CarriesFlag) (hty : e.eventType ≠ .deleted)
    (hflags : SameFlags c.flags t.flags) :
    SameFlags (c.setDecoded e.payload).flags (t.set e.flagKey e.payload).flags := by
  obtain ⟨hkey, members, hpayload, hobject, hprop⟩ := h.resolve_left hty
  obtain ⟨f, hf, hsame⟩ := unmarshalFlag_flagObject hobject
  rw [← hpayload] at hf hsame
  have hfkey : f.key = e.flagKey := by
    have heq : some (Json.str f.key) = some (.str e.flagKey) := hsame.key.symm.trans hprop
    simpa using heq
  have hdecode : decodeFlag e.payload = some f := by
    rw [decodeFlag, hf, Option.filter_some, if_pos (by simp [hfkey, hkey])]
  rw [Client.setDecoded, hdecode]
  show SameFlags (Function.update c.flags f.key (some f)) _
  rw [hfkey]
  exact hflags.update (Option.Rel.some hsame)

theorem FlagEvent.CarriesFlag.setParsed (h : e.CarriesFlag) (hty : e.eventType ≠ .deleted) :
    FeatureFlagClient.setParsed e.payload t = some (t.set e.flagKey e.payload) := by
  obtain ⟨-, members, hpayload, -, hprop⟩ := h.resolve_left hty
  rw [hpayload] at hprop ⊢
  simp [FeatureFlagClient.setParsed, Json.stringProp, hprop]

/-- A frame of the same version passes both gates or neither. -/
theorem SameState.gate (h : SameState c t) {v : Int} (hc : ExactInt c.configVersion)
    (hv : ExactInt v) {type : String} {data : Json}
    {mutate : FeatureFlagClient → Option FeatureFlagClient} {t' : FeatureFlagClient}
    (hmutate : mutate t = some t')
    (hnext : c.configVersion = v - 1 → SameFlags (c.applyLiveEvent type data v).1.flags t'.flags) :
    SameState (c.applyLiveEvent type data v).1 (t.applyEvent v mutate).1 ∧
      (c.applyLiveEvent type data v).2 = (t.applyEvent v mutate).2 := by
  have hversion := h.version
  rw [FeatureFlagClient.applyEvent, ← hversion, hmutate]
  -- both compare with the same version, in the same order
  by_cases hstale : v ≤ c.configVersion
  · rw [if_pos hstale, Client.applyLiveEvent, if_pos hstale]
    exact ⟨h, rfl⟩
  have hone : t.nextVersion = c.configVersion + 1 := by
    rw [FeatureFlagClient.nextVersion_of_lt (hversion ▸ hc) hv (hversion ▸ not_le.mp hstale),
      hversion]
  rw [if_neg hstale, hone]
  by_cases hgap : v > c.configVersion + 1
  · rw [if_pos hgap, Client.applyLiveEvent, if_neg hstale, if_pos hgap]
    exact ⟨h, rfl⟩
  rw [if_neg hgap]
  have hflags := hnext (by omega)
  rw [Client.applyLiveEvent, if_neg hstale, if_neg hgap] at hflags ⊢
  exact ⟨⟨rfl, hflags⟩, rfl⟩

/-- **A live frame.** -/
theorem SameState.live (h : SameState c t) (hc : ExactInt c.configVersion) (he : e.CarriesFlag)
    (hexact : ExactInt e.version) (hpos : 0 < e.version) (lastEventId : Option Int) :
    SameState (c.sdkStep (.live e lastEventId)).1 (t.sdkStep (.live e lastEventId)).1 ∧
      (c.sdkStep (.live e lastEventId)).2 = (t.sdkStep (.live e lastEventId)).2 := by
  have hgo : c.sdkStep (.live e lastEventId) = c.applyLiveEvent e.frame.1 e.frame.2 e.version := by
    rw [Client.sdkStep, FlagEvent.envelope, frame_eq hpos]
    rfl
  have hts : t.sdkStep (.live e lastEventId) =
      t.onMessage e.frame.1 (some e.version) e.frame.2 := by
    rw [FeatureFlagClient.sdkStep, FlagEvent.envelope, frame_eq hpos]
    rfl
  rw [hgo, hts, FlagEvent.frame]
  have hnumber := jsNumber_of_exact hexact
  -- a deletion carries its key only; the other two carry the flag
  by_cases hty : e.eventType = .deleted
  · rw [if_pos hty]
    have hdelete : t.onMessage "flag_deleted" (some e.version) (.obj [("key", .str e.flagKey)]) =
        t.applyEvent (jsNumber e.version) fun t => some (t.delete e.flagKey) := rfl
    rw [hdelete, hnumber]
    refine h.gate hc hexact rfl fun hnext => ?_
    rw [Client.applyLiveEvent_next_delete hnext (unmarshalKey_key e.flagKey)]
    exact h.flags.update Option.Rel.none
  · rw [if_neg hty]
    have hset : t.onMessage "flag_updated" (some e.version) e.payload =
        t.applyEvent (jsNumber e.version) (FeatureFlagClient.setParsed e.payload) := rfl
    rw [hset, hnumber]
    refine h.gate hc hexact (he.setParsed hty) fun hnext => ?_
    rw [Client.applyLiveEvent_next_set hnext (by simp)]
    exact he.set hty h.flags

/-- One event of a page. -/
theorem SameState.applyNext {s : Client × Bool} {r : FeatureFlagClient × Bool}
    (h : SameState s.1 r.1 ∧ s.2 = r.2) (he : e.CarriesFlag) (hexact : ExactInt e.version) :
    SameState (Client.applyNext s e).1 (FeatureFlagClient.applyNext r e).1 ∧
      (Client.applyNext s e).2 = (FeatureFlagClient.applyNext r e).2 := by
  unfold Client.applyNext FeatureFlagClient.applyNext
  rw [← h.1.version, jsNumber_of_exact hexact]
  -- the skip comes first in both loops, and both advance the version whatever the type
  by_cases hstale : e.version ≤ s.1.configVersion
  · rw [if_pos hstale, if_pos hstale]
    exact h
  rw [if_neg hstale, if_neg hstale]
  refine ⟨⟨rfl, ?_⟩, rfl⟩
  by_cases hty : e.eventType = .deleted
  · rw [if_pos hty, hty]
    exact h.1.flags.update Option.Rel.none
  · rw [if_neg hty]
    have hset := he.set hty h.1.flags
    cases hev : e.eventType with
    | deleted => exact absurd hev hty
    | created | updated => exact hset

/-- **A page.** -/
theorem SameState.page (h : SameState c t) {events : List FlagEvent}
    (hevents : ∀ e ∈ events, e.CarriesFlag ∧ ExactInt e.version) :
    SameState (c.applyPage events).1 (t.applyPage events).1 ∧
      (c.applyPage events).2 = (t.applyPage events).2 := by
  suffices H : ∀ (s : Client × Bool) (r : FeatureFlagClient × Bool), SameState s.1 r.1 ∧ s.2 = r.2 →
      SameState (events.foldl Client.applyNext s).1 (events.foldl FeatureFlagClient.applyNext r).1 ∧
        (events.foldl Client.applyNext s).2 = (events.foldl FeatureFlagClient.applyNext r).2 from
    H (c, false) (t, false) ⟨h, rfl⟩
  induction events with
  | nil => exact fun s r hs => hs
  | cons e events ih =>
      rw [List.forall_mem_cons] at hevents
      exact fun s r hs => ih hevents.2 _ _ (SameState.applyNext hs hevents.1.1 hevents.1.2)

/-- A page leaves the Go client's version or leads to one of the page. -/
theorem Client.applyPage_version (c : Client) (events : List FlagEvent) :
    (c.applyPage events).1.configVersion = c.configVersion ∨
      ∃ e ∈ events, (c.applyPage events).1.configVersion = e.version := by
  suffices H : ∀ s : Client × Bool,
      (events.foldl Client.applyNext s).1.configVersion = s.1.configVersion ∨
        ∃ e ∈ events, (events.foldl Client.applyNext s).1.configVersion = e.version from
    H (c, false)
  induction events with
  | nil => exact fun s => Or.inl rfl
  | cons e events ih =>
      intro s
      rw [List.foldl_cons, List.exists_mem_cons_iff]
      rcases ih (Client.applyNext s e) with hsame | hlater
      · rw [hsame, Client.applyNext]
        split
        · exact Or.inl rfl
        · exact Or.inr (Or.inl rfl)
      · exact Or.inr (Or.inr hlater)

/-- Steps of exact versions keep the Go client at one. -/
theorem Client.exactInt_sdkStep {log : List FlagEvent} {s : SdkStep}
    (hexact : ∀ e ∈ log, ExactInt e.version) (hs : s.OfLog log) (hc : ExactInt c.configVersion) :
    ExactInt (c.sdkStep s).1.configVersion := by
  cases s with
  | live e lastEventId =>
      have hgo : c.sdkStep (.live e lastEventId) =
          c.applyLiveEvent e.frame.1 e.frame.2 e.version := by
        rw [Client.sdkStep, FlagEvent.envelope, frame_eq hs.2]
        rfl
      rw [hgo]
      rcases c.applyLiveEvent_configVersion (v := e.version) with hsame | hnext
      · rw [hsame]
        exact hc
      · rw [hnext]
        exact hexact e hs.1
  | page events =>
      rcases c.applyPage_version events with hsame | ⟨e, he, heq⟩
      · rw [Client.sdkStep, hsame]
        exact hc
      · rw [Client.sdkStep, heq]
        exact hexact e (hs e he)

/-- **The two SDKs are one state machine**: from the same state, the same steps lead to the same
state, and each of them is answered alike, as long as the integers are numbers. -/
theorem sdks_agree {log : List FlagEvent} {steps : List SdkStep}
    (hlog : ∀ e ∈ log, e.CarriesFlag) (hexact : ∀ e ∈ log, e.Exact)
    (hsteps : ∀ s ∈ steps, s.OfLog log) (hc : ExactInt c.configVersion) (h : SameState c t) :
    SameState (respond Client.sdkStep c steps).1 (respond FeatureFlagClient.sdkStep t steps).1 ∧
      (respond Client.sdkStep c steps).2 = (respond FeatureFlagClient.sdkStep t steps).2 := by
  have hboth := respond_related (R := fun c t => SameState c t ∧ ExactInt c.configVersion)
    (C := SdkStep.OfLog log) (f := Client.sdkStep) (g := FeatureFlagClient.sdkStep) ?_ ⟨h, hc⟩
    hsteps
  · exact ⟨hboth.1.1, hboth.2⟩
  intro c t s hs hof
  have hafter := Client.exactInt_sdkStep (fun e he => (hexact e he).version) hof hs.2
  cases s with
  | live e lastEventId =>
      have hlive := hs.1.live hs.2 (hlog e hof.1) (hexact e hof.1).version hof.2 lastEventId
      exact ⟨⟨hlive.1, hafter⟩, hlive.2⟩
  | page events =>
      have hpage := hs.1.page fun e he => ⟨hlog e (hof e he), (hexact e (hof e he)).version⟩
      exact ⟨⟨hpage.1, hafter⟩, hpage.2⟩

/-- What the repository logs for a flag is such an event. -/
theorem carriesFlag_of_records {flag : Flag} (hrec : e.Records flag) (hkey : flag.key ≠ "")
    (hrollout : Json.InInt64 flag.rolloutPercentage) (hversion : Json.InInt64 flag.version) :
    e.CarriesFlag := by
  obtain ⟨-, -, hkey', hpayload⟩ := hrec
  refine Or.inr ⟨hkey' ▸ hkey, _, hpayload, ⟨?_, ?_, ?_⟩, ?_⟩
  · simp [flagFields, Flag.toResponse]
  · intro m hm hfield
    have hplain : ∀ name ∈ ["id", "key", "description", "enabled", "rollout_percentage",
        "targeted_users", "version", "created_at", "updated_at"], Json.plainName name = true := by
      decide
    exact Json.foldName_of_plain (hplain m.1 (List.mem_map_of_mem hm))
  · simp [flagFieldType, Flag.toResponse, hrollout, hversion]
  · rw [hpayload, hkey']
    rfl

/-- `checkout`, switched on for everybody. -/
def checkoutFlag : Flag := ⟨"u", "checkout", "", true, 100, none, 1, 0, 0⟩

/-- It is created and deleted, and another one created under its key. -/
def checkoutLog : List FlagEvent :=
  [ ⟨1, .created, "checkout", flagPayload checkoutFlag, 0⟩, ⟨2, .deleted, "checkout", .null, 0⟩,
    ⟨3, .created, "checkout", flagPayload { checkoutFlag with version := 3 }, 0⟩ ]

/-- The first event arrives live, the third as a gap, and a page brings the rest. -/
def checkoutSteps : List SdkStep :=
  [ .live ⟨1, .created, "checkout", flagPayload checkoutFlag, 0⟩ none,
    .live ⟨3, .created, "checkout", flagPayload { checkoutFlag with version := 3 }, 0⟩ (some 1),
    .page checkoutLog ]

theorem checkoutLog_carriesFlag : ∀ e ∈ checkoutLog, e.CarriesFlag := by
  simp only [checkoutLog, List.forall_mem_cons]
  refine ⟨?_, Or.inl rfl, ?_, by simp⟩
  · exact carriesFlag_of_records ⟨rfl, by decide, rfl, rfl⟩ (by decide) (by decide) (by decide)
  · exact carriesFlag_of_records ⟨rfl, by decide, rfl, rfl⟩ (by decide) (by decide) (by decide)

theorem checkoutLog_exact : ∀ e ∈ checkoutLog, e.Exact := by
  have hpayload : ∀ {v : Int} {members : List (String × Json)}, ExactInt v →
      flagPayload { checkoutFlag with version := v } = .obj members →
        ∀ m ∈ members, ∀ n, m.2 = .int n → ExactInt n := by
    rintro v members hv heq m hm n hn
    obtain rfl := Json.obj.inj heq
    simp only [List.mem_cons, List.not_mem_nil, or_false] at hm
    rcases hm with rfl | rfl | rfl | rfl | rfl | rfl | rfl | rfl | rfl <;> cases hn
    · show ExactInt 100
      decide
    · exact hv
  simp only [checkoutLog, List.forall_mem_cons]
  refine ⟨⟨by decide, fun members heq => ?_⟩, ⟨by decide, nofun⟩, ⟨by decide, fun members heq => ?_⟩,
    by simp⟩
  · exact hpayload (v := 1) (by decide) heq
  · exact hpayload (v := 3) (by decide) heq

theorem sdks_agree_checkout :
    SameState (respond Client.sdkStep ⟨fun _ => none, 0⟩ checkoutSteps).1
        (respond FeatureFlagClient.sdkStep ⟨fun _ => none, 0⟩ checkoutSteps).1 ∧
      (respond Client.sdkStep ⟨fun _ => none, 0⟩ checkoutSteps).2 =
        (respond FeatureFlagClient.sdkStep ⟨fun _ => none, 0⟩ checkoutSteps).2 := by
  have hof : ∀ s ∈ checkoutSteps, s.OfLog checkoutLog := by
    simp only [checkoutSteps, List.forall_mem_cons]
    exact ⟨⟨by simp [checkoutLog], by decide⟩, ⟨by simp [checkoutLog], by decide⟩,
      fun e he => he, by simp⟩
  exact sdks_agree checkoutLog_carriesFlag checkoutLog_exact hof (by decide)
    ⟨rfl, fun _ => Option.Rel.none⟩

/-- A deletion at the first version that is no number. -/
def pastNumbers : FlagEvent := ⟨2 ^ 53 + 1, .deleted, "checkout", .null, 0⟩

/-- Go applies it; the browser reads the version before, which it is at. -/
theorem pastNumbers_disagree :
    pastNumbers.CarriesFlag ∧ (SdkStep.live pastNumbers none).OfLog [pastNumbers] ∧
      SameState ⟨fun _ => none, 2 ^ 53⟩ ⟨fun _ => none, 2 ^ 53⟩ ∧
      ¬ SameState (respond Client.sdkStep ⟨fun _ => none, 2 ^ 53⟩ [.live pastNumbers none]).1
        (respond FeatureFlagClient.sdkStep ⟨fun _ => none, 2 ^ 53⟩ [.live pastNumbers none]).1 := by
  refine ⟨Or.inl rfl, ⟨List.mem_singleton_self _, by decide⟩, ⟨rfl, fun _ => Option.Rel.none⟩,
    fun h => ?_⟩
  have hversion := h.version
  revert hversion
  decide

end Step

end FlagPlane
