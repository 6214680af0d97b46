import FlagPlane.Handler.Bootstrap
import FlagPlane.Client.Browser
import FlagPlane.Client.Simulation

/-!
# FlagPlane.Client.Responses

**Responses, good and bad, and what the SDKs do with them.** `Bootstrap` and `Reconcile` of the
Go client and `bootstrap` and `reconcile` of the browser's, as functions of the responses they
get: a response may not arrive, have another status than 200, a body that is no JSON, or one that
lacks a member the code reads.

The two decode differently. A member that is missing leaves Go with the zero value and the
browser with `undefined`; Go reads the first JSON value of a body and does not look at what
follows it, `res.json()` takes the body as a whole; Go wants status 200, the browser `res.ok`.
-/

namespace FlagPlane

/-! ### Responses -/

/-- The body of a response. -/
inductive Body (β : Type)
  | json (value : β)
  /-- A JSON value, and then something else. -/
  | followed (value : β)
  /-- It does not begin with a JSON value: it is cut short, or another kind of text. -/
  | unreadable

structure Response (β : Type) where
  status : Nat
  body : Body β

/-- `json.NewDecoder(resp.Body).Decode`: the first value of the body. -/
def Body.decoded {β : Type} : Body β → Option β
  | json value | followed value => some value
  | unreadable => none

/-- `res.json()`. -/
def Body.parsed {β : Type} : Body β → Option β
  | json value => some value
  | followed _ | unreadable => none

/-- `res.ok`. -/
def Response.ok {β : Type} (r : Response β) : Bool :=
  200 ≤ r.status && r.status ≤ 299

/-- What the Go client gets out of a request before it looks at the members. `none` is a request
that fails. -/
def Client.receive {β : Type} (response : Option (Response β)) : Option β :=
  response.bind fun r => if r.status = 200 then r.body.decoded else none

/-- What the browser's client gets out of a request. -/
def FeatureFlagClient.receive {β : Type} (response : Option (Response β)) : Option β :=
  response.bind fun r => if r.ok then r.body.parsed else none

/-- An event of a page; a member may be missing. -/
structure EventBody where
  version : Option Int
  eventType : Option String
  flagKey : Option String
  payload : Option Json

/-- The body of `GET /api/client/events`; the member may be missing. -/
structure EventsBody where
  events : Option (List EventBody)

/-- The member `name`, if it is there. -/
def jsonMember (name : String) (value : Option Json) : List (String × Json) :=
  (value.map fun v => (name, v)).toList

def FlagsBody.json (b : FlagsBody) : Json :=
  .obj (jsonMember "config_version" (b.configVersion.map .int) ++
    jsonMember "flags" (b.flags.map .arr))

def EventBody.json (e : EventBody) : Json :=
  .obj (jsonMember "version" (e.version.map .int) ++
    jsonMember "event_type" (e.eventType.map .str) ++
    jsonMember "flag_key" (e.flagKey.map .str) ++ jsonMember "payload" e.payload)

def EventsBody.json (b : EventsBody) : Json :=
  .obj (jsonMember "events" (b.events.map fun events => .arr (events.map EventBody.json)))

/-- The `event_type` column. -/
def EventType.name : EventType → String
  | .created => "created"
  | .updated => "updated"
  | .deleted => "deleted"

/-- An event as the server sends it. -/
def FlagEvent.body (e : FlagEvent) : EventBody :=
  ⟨some e.version, some e.eventType.name, some e.flagKey, some e.payload⟩

/-! ### The Go client -/

/-- `event` of `ffclient.go`. -/
structure ClientEvent where
  version : Int
  eventType : String
  flagKey : String
  payload : Json

/-- The zero value of `event`. Its payload is empty, which `json.Unmarshal` rejects; `null` is
as good, since it leaves the flag without a key. -/
def ClientEvent.zero : ClientEvent := ⟨0, "", "", .null⟩

def ClientEvent.setField (name : String) (v : Json) (e : ClientEvent) : Option ClientEvent :=
  match name with
  | "version" => (Json.decodeInt e.version v).map fun n => { e with version := n }
  | "event_type" => (Json.decodeString e.eventType v).map fun ty => { e with eventType := ty }
  | "flag_key" => (Json.decodeString e.flagKey v).map fun key => { e with flagKey := key }
  | "payload" => some { e with payload := v }
  | _ => some e

def unmarshalEvent (data : Json) : Option ClientEvent :=
  Json.decodeStruct ClientEvent.zero ClientEvent.setField data

/-- The body of a page, as `Reconcile` decodes it. -/
def unmarshalEvents (data : Json) : Option (List ClientEvent) :=
  Json.decodeStruct []
    (fun name v events =>
      if name = "events" then
        match v with
        | .arr items => items.mapM unmarshalEvent
        | .null => some []
        | _ => none
      else some events)
    data

/-- The cases of the `switch` in `applyLocked`. -/
def ClientEvent.type (e : ClientEvent) : EventType :=
  if e.eventType = "deleted" then .deleted else .updated

namespace Client

/-- `Bootstrap`: the client after it, and whether it returns no error. -/
def bootstrapOn (c : Client) (response : Option (Response FlagsBody)) : Client × Bool :=
  match (receive response).bind fun b => bootstrapFrom b.json with
  | none => (c, false)
  | some c' => (c', true)

/-- One decoded event of a page, with the `advanced` flag. -/
def applyDecoded (s : Client × Bool) (ev : ClientEvent) : Client × Bool :=
  if ev.version ≤ s.1.configVersion then s
  else (s.1.applyLocked ev.type ev.flagKey ev.payload ev.version, true)

/-- A decoded page. -/
def applyEvents (c : Client) (events : List ClientEvent) : Client × Bool :=
  events.foldl applyDecoded (c, false)

/-- The loop of `Reconcile` with `fuel` rounds to go, when it has made `n` requests: the client
after it, and whether it returns no error. -/
def reconcileLoop (server : Nat → Option Int → Option (Response EventsBody)) :
    Nat → Nat → Client → Client × Bool
  | 0, _, c => (c, true)
  | fuel + 1, n, c =>
    match (receive (server n (some c.configVersion))).bind fun b => unmarshalEvents b.json with
    | none => (c, false)
    | some [] => (c, true)
    | some (ev :: rest) =>
      match c.applyEvents (ev :: rest) with
      | (c', true) => reconcileLoop server fuel (n + 1) c'
      | (c', false) => (c', true)

/-- `Reconcile`, when the server answers the `n`-th request, asked with `since`, by
`server n since`. -/
def reconcile (c : Client) (server : Nat → Option Int → Option (Response EventsBody)) :
    Client × Bool :=
  reconcileLoop server guardLimit 0 c

end Client

/-! ### The browser's client -/

/-- `bootstrap`: the client after it, and whether it does not throw. -/
def FeatureFlagClient.bootstrapOn (c : FeatureFlagClient) (response : Option (Response FlagsBody)) :
    FeatureFlagClient × Bool :=
  match receive response with
  | none => (c, false)
  | some b => c.bootstrap b

/-- The client as it is at run time, where no type is checked: applying an event that has no
`version` leaves `configVersion` undefined. -/
structure UntypedClient where
  flags : String → Option Json
  configVersion : Option Int

def FeatureFlagClient.untyped (c : FeatureFlagClient) : UntypedClient :=
  ⟨c.flags, some c.configVersion⟩

/-- `a <= b` for numbers, or `undefined`, which is in no order with anything. -/
def jsLe : Option Int → Option Int → Bool
  | some a, some b => a ≤ b
  | _, _ => false

namespace UntypedClient

/-- One event of a page in `reconcile`, with the `advanced` flag. A flag set to `undefined` is
one that `get` does not find, and no one asks for the key `undefined`. -/
def applyNext (s : UntypedClient × Bool) (ev : EventBody) : UntypedClient × Bool :=
  let version := ev.version.map jsNumber
  if jsLe version s.1.configVersion then s
  else
    let flags := match ev.flagKey with
      | some key =>
        Function.update s.1.flags key (if ev.eventType = some "deleted" then none else ev.payload)
      | none => s.1.flags
    (⟨flags, version⟩, true)

/-- A page in `reconcile`. -/
def applyPage (c : UntypedClient) (events : List EventBody) : UntypedClient × Bool :=
  events.foldl applyNext (c, false)

/-- The loop of `reconcile`: the client after it, and whether it gets to `live`. -/
def reconcileLoop (server : Nat → Option Int → Option (Response EventsBody)) :
    Nat → Nat → UntypedClient → UntypedClient × Bool
  | 0, _, c => (c, true)
  | fuel + 1, n, c =>
    -- where there is no `events`, `data.events.length` throws
    match (FeatureFlagClient.receive (server n c.configVersion)).bind EventsBody.events with
    | none => (c, false)
    | some [] => (c, true)
    | some (ev :: rest) =>
      match c.applyPage (ev :: rest) with
      | (c', true) => reconcileLoop server fuel (n + 1) c'
      | (c', false) => (c', true)

/-- `reconcile`. -/
def reconcile (c : UntypedClient) (server : Nat → Option Int → Option (Response EventsBody)) :
    UntypedClient × Bool :=
  reconcileLoop server reconcileLimit 0 c

end UntypedClient

/-! ### Decoding what the server sends -/

section Decode

variable {e : FlagEvent} {page : List FlagEvent}

/-- The event as Go decodes it. -/
def FlagEvent.decoded (e : FlagEvent) : ClientEvent :=
  ⟨e.version, e.eventType.name, e.flagKey, e.payload⟩

theorem unmarshalEvent_body (h : Json.InInt64 e.version) :
    unmarshalEvent e.body.json = some e.decoded := by
  simp (disch := decide) [unmarshalEvent, FlagEvent.body, EventBody.json, jsonMember,
    Json.decodeStruct, ClientEvent.setField, ClientEvent.zero, FlagEvent.decoded,
    Json.decodeInt_int h, Json.foldName_of_plain]

/-- A page of `BIGINT` versions decodes. -/
theorem unmarshalEvents_page (h : ∀ e ∈ page, Json.InInt64 e.version) :
    unmarshalEvents (⟨some (page.map FlagEvent.body)⟩ : EventsBody).json =
      some (page.map FlagEvent.decoded) := by
  have hevents : (page.map FlagEvent.body).mapM (unmarshalEvent ∘ EventBody.json) =
      some (page.map FlagEvent.decoded) := by
    rw [List.mapM_map]
    exact mapM_eq_some_map fun e he => unmarshalEvent_body (h e he)
  simpa (disch := decide) [unmarshalEvents, EventsBody.json, jsonMember, Json.decodeStruct,
    Json.foldName_of_plain, Function.comp_def] using hevents

theorem unmarshalEvents_missing : unmarshalEvents (⟨none⟩ : EventsBody).json = some [] := by
  simp [unmarshalEvents, EventsBody.json, jsonMember, Json.decodeStruct]

theorem Client.applyDecoded_decoded (s : Client × Bool) (e : FlagEvent) :
    applyDecoded s e.decoded = applyNext s e := by
  unfold applyDecoded applyNext
  have htype : ∀ c : Client, c.applyLocked e.decoded.type e.decoded.flagKey e.decoded.payload
      e.decoded.version = c.applyLocked e.eventType e.flagKey e.payload e.version := by
    intro c
    cases hty : e.eventType <;>
      simp [FlagEvent.decoded, ClientEvent.type, EventType.name, applyLocked, hty]
  rw [htype]
  rfl

theorem Client.applyEvents_decoded (c : Client) (page : List FlagEvent) :
    c.applyEvents (page.map FlagEvent.decoded) = c.applyPage page := by
  rw [applyEvents, applyPage, List.foldl_map]
  simp only [applyDecoded_decoded]

theorem UntypedClient.applyNext_body (s : FeatureFlagClient × Bool) (e : FlagEvent) :
    applyNext (s.1.untyped, s.2) e.body =
      ((FeatureFlagClient.applyNext s e).1.untyped, (FeatureFlagClient.applyNext s e).2) := by
  unfold applyNext FeatureFlagClient.applyNext
  by_cases hstale : jsNumber e.version ≤ s.1.configVersion
  · simp [FlagEvent.body, FeatureFlagClient.untyped, jsLe, hstale]
  · cases hty : e.eventType <;>
      simp [FlagEvent.body, FeatureFlagClient.untyped, jsLe, hstale, hty, EventType.name,
        FeatureFlagClient.delete, FeatureFlagClient.set]

/-- What the browser does with a page that the server sent as it is. -/
theorem UntypedClient.applyPage_body (c : FeatureFlagClient) (page : List FlagEvent) :
    c.untyped.applyPage (page.map FlagEvent.body) =
      ((c.applyPage page).1.untyped, (c.applyPage page).2) := by
  suffices H : ∀ s : FeatureFlagClient × Bool,
      (page.map FlagEvent.body).foldl applyNext (s.1.untyped, s.2) =
        ((page.foldl FeatureFlagClient.applyNext s).1.untyped,
          (page.foldl FeatureFlagClient.applyNext s).2) from H (c, false)
  induction page with
  | nil => exact fun s => rfl
  | cons e page ih =>
      intro s
      rw [List.map_cons, List.foldl_cons, List.foldl_cons, applyNext_body]
      exact ih _

end Decode

end FlagPlane
