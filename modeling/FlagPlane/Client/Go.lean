import FlagPlane.Repository.Tables

/-!
# FlagPlane.Client.Go

**The Go SDK**, `pkg/ffclient/ffclient.go`: the client's state and the three ways it
changes (`Bootstrap`, a page of `Reconcile`, a live frame). Each definition is what the
client does while it holds its mutex.
-/

namespace FlagPlane

/-- `ffclient.Flag`, the client-side view of a flag. -/
structure ClientFlag where
  id : String
  key : String
  description : String
  enabled : Bool
  rolloutPercentage : Int
  targetedUsers : List String
  version : Int
  deriving DecidableEq, Repr

/-- The zero value of `ffclient.Flag`. -/
def ClientFlag.zero : ClientFlag := ⟨"", "", "", false, 0, [], 0⟩

/-- `json.Unmarshal` of one member into a flag, under its field tags. -/
def ClientFlag.setField (name : String) (v : Json) :
    Json.Decoding ClientFlag → Option (Json.Decoding ClientFlag)
  | (f, spare) =>
    match name with
    | "id" => (Json.decodeString f.id v).map fun id => ({ f with id := id }, spare)
    | "key" => (Json.decodeString f.key v).map fun key => ({ f with key := key }, spare)
    | "description" =>
      (Json.decodeString f.description v).map fun d => ({ f with description := d }, spare)
    | "enabled" => (Json.decodeBool f.enabled v).map fun b => ({ f with enabled := b }, spare)
    | "rollout_percentage" =>
      (Json.decodeInt f.rolloutPercentage v).map fun p => ({ f with rolloutPercentage := p }, spare)
    | "targeted_users" =>
      (Json.decodeStrings ⟨f.targetedUsers, spare⟩ v).map fun users =>
        ({ f with targetedUsers := users.elems }, users.spare)
    | "version" => (Json.decodeInt f.version v).map fun n => ({ f with version := n }, spare)
    | _ => some (f, spare)

/-- `json.Unmarshal(data, &f)`. -/
def unmarshalFlag (data : Json) : Option ClientFlag :=
  (Json.decodeStruct (ClientFlag.zero, []) ClientFlag.setField data).map Prod.fst

/-- The flag a payload stands for: `err == nil && f.Key != ""`. -/
def decodeFlag (data : Json) : Option ClientFlag :=
  (unmarshalFlag data).filter fun f => f.key ≠ ""

/-- `json.Unmarshal(data, &d)` for `d struct{ Key string }`. -/
def unmarshalKey (data : Json) : Option String :=
  Json.decodeStruct ""
    (fun name v key => if name = "key" then Json.decodeString key v else some key) data

/-- `ffclient.Client`: what its mutex guards. -/
structure Client where
  flags : String → Option ClientFlag
  configVersion : Int

namespace Client

def setFlag (c : Client) (f : ClientFlag) : Client :=
  { c with flags := Function.update c.flags f.key (some f) }

def deleteFlag (c : Client) (key : String) : Client :=
  { c with flags := Function.update c.flags key none }

/-- The flag of a payload, if it stands for one. -/
def setDecoded (c : Client) (data : Json) : Client :=
  match decodeFlag data with
  | some f => c.setFlag f
  | none => c

/-- `applyLocked`. -/
def applyLocked (c : Client) (eventType : EventType) (flagKey : String) (payload : Json)
    (version : Int) : Client :=
  let c' := match eventType with
    | .deleted => c.deleteFlag flagKey
    | .created | .updated => c.setDecoded payload
  { c' with configVersion := version }

/-- One event of a page, with the `advanced` flag: skipped when it is not above the
client's version. -/
def applyNext (s : Client × Bool) (ev : FlagEvent) : Client × Bool :=
  if ev.version ≤ s.1.configVersion then s
  else (s.1.applyLocked ev.eventType ev.flagKey ev.payload ev.version, true)

/-- The locked section of `Reconcile`: the client after a page, and whether it advanced. -/
def applyPage (c : Client) (events : List FlagEvent) : Client × Bool :=
  events.foldl applyNext (c, false)

/-- `applyLiveEvent`: the client after the frame, and whether it must reconcile. -/
def applyLiveEvent (c : Client) (eventType : String) (data : Json) (version : Int) :
    Client × Bool :=
  if version ≤ c.configVersion then (c, false)
  else if version > c.configVersion + 1 then (c, true)
  else
    let c' :=
      if eventType = "flag_deleted" then
        match unmarshalKey data with
        | some key => c.deleteFlag key
        | none => c
      else c.setDecoded data
    ({ c' with configVersion := version }, false)

/-- `Bootstrap`: the client after a response. -/
def bootstrap (flags : List ClientFlag) (configVersion : Int) : Client where
  flags := flags.foldl (fun (m : String → Option ClientFlag) f => Function.update m f.key (some f))
    fun _ => none
  configVersion := configVersion

end Client

/-! ### Events as the client reads them -/

/-- The event has a payload the client can use: a flag of the event's own key. -/
def FlagEvent.WellFormed (e : FlagEvent) : Prop :=
  e.eventType = .deleted ∨ ∃ f, decodeFlag e.payload = some f ∧ f.key = e.flagKey

theorem unmarshalKey_key (key : String) : unmarshalKey (.obj [("key", .str key)]) = some key := by
  simp (disch := decide) [unmarshalKey, Json.decodeStruct, Json.foldName_of_plain]

section Apply

variable {c : Client} {e : FlagEvent}

@[simp] theorem Client.setDecoded_configVersion (c : Client) (data : Json) :
    (c.setDecoded data).configVersion = c.configVersion := by
  unfold Client.setDecoded
  split <;> rfl

@[simp] theorem Client.applyLocked_configVersion (ty : EventType) (key : String) (payload : Json)
    (v : Int) : (c.applyLocked ty key payload v).configVersion = v := rfl

/-- Setting the flag of a well-formed payload is setting the value of its entry. -/
theorem Client.setDecoded_flags (h : ∃ f, decodeFlag e.payload = some f ∧ f.key = e.flagKey) :
    (c.setDecoded e.payload).flags = Function.update c.flags e.flagKey (decodeFlag e.payload) := by
  obtain ⟨f, hf, hkey⟩ := h
  rw [setDecoded, hf, ← hkey]
  rfl

/-- **`applyLocked` applies the event's entry.** -/
theorem Client.applyLocked_flags (h : e.WellFormed) :
    (c.applyLocked e.eventType e.flagKey e.payload e.version).flags =
      (e.entry decodeFlag).apply c.flags := by
  cases hty : e.eventType with
  | deleted =>
      rw [Entry.apply, FlagEvent.entry, hty]
      rfl
  | created | updated =>
      have hf := h.resolve_left (by rw [hty]; decide)
      rw [Entry.apply, FlagEvent.entry, hty, if_neg (by decide)]
      exact setDecoded_flags hf

end Apply

/-! ### The client's view of a row -/

/-- The flag the client makes of a row. -/
def clientFlag (r : FlagRow) : ClientFlag where
  id := r.id
  key := r.key
  description := r.description
  enabled := r.enabled
  rolloutPercentage := r.rolloutPercentage
  targetedUsers := r.targetedUsers
  version := r.version

/-- A row's payload decodes to the client's view of the row. -/
theorem unmarshalFlag_payload {r : FlagRow} (hp : Json.InInt64 r.rolloutPercentage)
    (hv : Json.InInt64 r.version) :
    unmarshalFlag (flagPayload (scanFlag r)) = some (clientFlag r) := by
  simp (disch := decide) [unmarshalFlag, flagPayload, FlagResponse.toJson, Flag.toResponse,
    scanFlag, clientFlag, Json.decodeStruct, ClientFlag.setField, ClientFlag.zero,
    Json.decodeInt_int hp, Json.decodeInt_int hv, Json.foldName_of_plain]

end FlagPlane
