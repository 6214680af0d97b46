import FlagPlane.Client.Go
import FlagPlane.Client.TypeScript
import FlagPlane.Repository.Invariant

/-!
# FlagPlane.Sse.Wire

**An envelope's way to the clients**: `Publish` and `Subscribe` of `wire.go`, the frame that the
broker's `ServeHTTP` writes, and what each SDK does with it. The frame is the parsed one: its
`id:` line as a number, its `data:` line as a JSON value.

A frame of version 0 has no `id:` line. The Go SDK then takes the next version for it; the
browser takes the last id the connection has seen, if any, and the next version otherwise.
-/

namespace FlagPlane

/-- `sse.Envelope`. -/
structure Envelope where
  type : String
  version : Int
  data : Json

/-- `SSEEvent`. -/
structure SSEEvent where
  event : String
  data : Json
  version : Int

/-- One frame of the stream. -/
structure SSEFrame where
  id : Option Int
  event : String
  data : Json

/-- What `Subscribe` broadcasts for an envelope. -/
def Envelope.sseEvent (env : Envelope) : SSEEvent :=
  ⟨env.type, env.data, env.version⟩

/-- What `ServeHTTP` writes for an event. -/
def SSEEvent.frame (e : SSEEvent) : SSEFrame :=
  ⟨if e.version > 0 then some e.version else none, e.event, e.data⟩

/-- `stream` of the Go SDK on one frame. -/
def Client.onFrame (c : Client) (frame : SSEFrame) : Client × Bool :=
  c.applyLiveEvent frame.event frame.data (frame.id.getD (c.configVersion + 1))

/-- The browser's `EventSource` on one frame, when `lastEventId` is the last id before it. -/
def FeatureFlagClient.onFrame (c : FeatureFlagClient) (lastEventId : Option Int)
    (frame : SSEFrame) :
    FeatureFlagClient × Bool :=
  c.onMessage frame.event (frame.id.or lastEventId) frame.data

/-! ### An event by both paths -/

/-- `applyEvent` applies an event of this version: it is neither stale nor a gap. -/
def FeatureFlagClient.Expects (c : FeatureFlagClient) (version : Int) : Prop :=
  c.configVersion < version ∧ version ≤ c.nextVersion

/-- `publishFlagUpdate`: the envelope for a flag. -/
def publishFlagUpdate (flag : Flag) : Envelope :=
  ⟨"flag_updated", flag.version, flag.toResponse.toJson⟩

/-- `publishFlagDelete`. -/
def publishFlagDelete (key : String) (version : Int) : Envelope :=
  ⟨"flag_deleted", version, .obj [("key", .str key)]⟩

/-- What `publishFlagUpdate` and `publishFlagDelete` send for an event: the SSE event name
and the data of the frame. -/
def FlagEvent.frame (e : FlagEvent) : String × Json :=
  if e.eventType = .deleted then ("flag_deleted", .obj [("key", .str e.flagKey)])
  else ("flag_updated", e.payload)

/-- The envelope of a committed event. -/
def FlagEvent.envelope (e : FlagEvent) : Envelope :=
  ⟨e.frame.1, e.version, e.frame.2⟩

/-- The envelope is the event's, or that of the flag as the column has cut it. -/
def Envelope.OfEvent (env : Envelope) (ev : FlagEvent) : Prop :=
  env = ev.envelope ∨ ∃ flag, ev.RecordsUncut flag ∧ env = publishFlagUpdate flag

theorem Envelope.OfEvent.version {env : Envelope} {ev : FlagEvent} (h : env.OfEvent ev) :
    env.version = ev.version := by
  rcases h with rfl | ⟨flag, ⟨d, -, -, hv, -⟩, rfl⟩
  · rfl
  · exact Eq.symm hv

section Frames

variable {ev : FlagEvent} {flag : Flag} {key : String} {v : Int} {type : String} {data : Json}

/-- The service's envelopes are those of the events it has committed. -/
theorem publishFlagUpdate_eq (hrec : ev.Records flag) : publishFlagUpdate flag = ev.envelope := by
  obtain ⟨hv, hty, -, hpayload⟩ := hrec
  rw [FlagEvent.envelope, FlagEvent.frame, if_neg hty, hv, hpayload]
  rfl

theorem publishFlagDelete_eq (hv : ev.version = v) (hty : ev.eventType = .deleted)
    (hkey : ev.flagKey = key) : publishFlagDelete key v = ev.envelope := by
  rw [FlagEvent.envelope, FlagEvent.frame, if_pos hty, hv, hkey]
  rfl

theorem frame_eq (hpos : 0 < v) :
    (Envelope.mk type v data).sseEvent.frame = ⟨some v, type, data⟩ := by
  rw [Envelope.sseEvent, SSEEvent.frame, if_pos (show (v : Int) > 0 from hpos)]

/-- A live frame leaves a client's version or moves it to the frame's. -/
theorem Client.applyLiveEvent_configVersion (c : Client) :
    (c.applyLiveEvent type data v).1.configVersion = c.configVersion ∨
      (c.applyLiveEvent type data v).1.configVersion = v := by
  rw [applyLiveEvent]
  split
  · exact Or.inl rfl
  split
  · exact Or.inl rfl
  · exact Or.inr rfl

/-- The exact next version, by the four paths. -/
theorem Client.applyLiveEvent_next_set {c : Client} (hc : c.configVersion = v - 1)
    (htype : type ≠ "flag_deleted") :
    (c.applyLiveEvent type data v).1 = ⟨(c.setDecoded data).flags, v⟩ := by
  have happlied : ¬ v ≤ c.configVersion := by omega
  have hgap : ¬ v > c.configVersion + 1 := by omega
  simp [applyLiveEvent, happlied, hgap, htype]

theorem Client.applyLiveEvent_next_delete {c : Client} (hc : c.configVersion = v - 1)
    (hkey : unmarshalKey data = some key) :
    (c.applyLiveEvent "flag_deleted" data v).1 = ⟨(c.deleteFlag key).flags, v⟩ := by
  have happlied : ¬ v ≤ c.configVersion := by omega
  have hgap : ¬ v > c.configVersion + 1 := by omega
  simp [applyLiveEvent, happlied, hgap, hkey]

variable {events : List FlagEvent}

end Frames

end FlagPlane
