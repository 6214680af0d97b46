import FlagPlane.Lines
import FlagPlane.Client.Responses

/-!
# FlagPlane.Sse.WireText

**An envelope's way to the Go client, as text**: the JSON that `Publish` sends through Redis, what
`Subscribe` makes of it, the lines `ServeHTTP` writes, and the loop of `Client.stream` that reads
them. `Wire` has the same way with parsed frames.

A frame survives because rendered JSON has no newline, begins and ends with a brace and comes back
from the envelope as it was put there; a comment survives because it changes none of the loop's
variables. `StreamLoop.foldl_writes` says this of any frames and comments: the loop over the
lines is a loop over the events.
-/

namespace FlagPlane

/-! ### The envelope -/

/-- `sse.Envelope` as it is marshalled: `Data` is text. -/
structure RawEnvelope where
  type : String
  version : Int
  data : List Char
  ts : Int
  traceparent : String

/-- The zero value. -/
def RawEnvelope.zero : RawEnvelope := ⟨"", 0, [], 0, ""⟩

/-- `json.Marshal(env)`. The last two members are left out when they are zero. -/
def RawEnvelope.marshal (env : RawEnvelope) : Option (List Char) :=
  (compactJson (if env.data = [] then Json.null.render else env.data)).map fun data =>
    renderObject ([("type", renderString env.type), ("version", renderInt env.version),
      ("data", data)] ++
      (if env.ts = 0 then [] else [("ts", renderInt env.ts)]) ++
      (if env.traceparent = "" then [] else [("traceparent", renderString env.traceparent)]))

/-- `Publish`: what it sends, `none` when the envelope does not marshal. -/
def publish (eventType : String) (version : Int) (data : List Char) (ts : Int)
    (traceparent : String) :
    Option (List Char) :=
  RawEnvelope.marshal ⟨eventType, version, data, ts, traceparent⟩

def RawEnvelope.setField (name : String) (raw : List Char) (env : RawEnvelope) :
    Option RawEnvelope :=
  match name with
  | "type" => ((parseJson raw).bind (Json.decodeString env.type)).map fun s =>
    { env with type := s }
  | "version" => ((parseJson raw).bind (Json.decodeInt env.version)).map fun n =>
    { env with version := n }
  | "data" => some { env with data := raw }
  | "ts" => ((parseJson raw).bind (Json.decodeInt env.ts)).map fun n => { env with ts := n }
  | "traceparent" =>
    ((parseJson raw).bind (Json.decodeString env.traceparent)).map fun s =>
      { env with traceparent := s }
  | _ => some env

/-- `json.Unmarshal([]byte(msg.Payload), &env)`. -/
def RawEnvelope.unmarshal (payload : List Char) : Option RawEnvelope :=
  match rawObject payload with
  | some members => members.foldlM (fun env m => env.setField (Json.foldName m.1) m.2) zero
  | none =>
    match parseJson payload with
    | some .null => some zero
    | _ => none

/-- `SSEEvent`, with its data as text. -/
structure RawSSEEvent where
  event : String
  data : List Char
  version : Int

/-- `Subscribe`: what it broadcasts for a payload, `none` when it skips it. -/
def subscribe (payload : List Char) : Option RawSSEEvent :=
  (RawEnvelope.unmarshal payload).map fun env => ⟨env.type, env.data, env.version⟩

/-! ### The stream -/

/-- What `ServeHTTP` writes between two flushes. -/
inductive Written
  /-- The comment that opens the stream. -/
  | connected
  | heartbeat
  | event (e : RawSSEEvent)

def Written.event? : Written → Option RawSSEEvent
  | event e => some e
  | connected | heartbeat => none

/-- The lines of a frame. -/
def RawSSEEvent.lines (e : RawSSEEvent) : List (List Char) :=
  (if e.version > 0 then ["id: ".toList ++ renderInt e.version] else []) ++
    ["event: ".toList ++ e.event.toList, "data: ".toList ++ e.data, []]

def Written.lines : Written → List (List Char)
  | connected => [": connected".toList, []]
  | heartbeat => [": heartbeat".toList, []]
  | event e => e.lines

/-- The bytes. -/
def Written.text (w : Written) : List Char :=
  w.lines.flatMap fun line => line ++ ['\n']

/-- A call of `applyLiveEvent`. -/
structure LiveCall where
  eventType : String
  data : List Char
  version : Int

/-- The loop of `stream`: its variables, the client, and what has happened. -/
structure StreamLoop where
  eventType : List Char
  data : List Char
  id : List Char
  client : Client
  /-- The calls of `applyLiveEvent` so far. -/
  calls : List LiveCall
  /-- The calls of `Reconcile` so far. -/
  reconciles : Nat
  /-- The last `Reconcile` has returned an error, and so has `stream`. -/
  returned : Bool

/-- `parseSSEVersion`. -/
def parseSSEVersion (id : List Char) : Option Int :=
  let id := trimSpace id
  if id = [] then none else parseInt64 id

/-- `applyLiveEvent` on text. `json.Unmarshal` fails on text that is no JSON as it does on a value
of the wrong type. -/
def Client.applyLiveText (c : Client) (call : LiveCall) : Client × Bool :=
  c.applyLiveEvent call.eventType ((parseJson call.data).getD (.bool false)) call.version

namespace StreamLoop

variable (servers : Nat → Nat → Option Int → Option (Response EventsBody))

/-- The inline `Reconcile`: `servers i` answers the requests of the `i`-th one. -/
def reconcile (s : StreamLoop) : StreamLoop :=
  { s with
    client := (s.client.reconcile (servers s.reconciles)).1
    reconciles := s.reconciles + 1
    returned := !(s.client.reconcile (servers s.reconciles)).2 }

/-- `applyLiveEvent`, and `Reconcile` when it asks for it. -/
def apply (s : StreamLoop) (call : LiveCall) : StreamLoop :=
  let s' := { s with client := (s.client.applyLiveText call).1, calls := s.calls ++ [call] }
  if (s.client.applyLiveText call).2 then s'.reconcile servers else s'

/-- A blank line. When `stream` returns from here, the variables are not read again. -/
def dispatch (s : StreamLoop) : StreamLoop :=
  let s' :=
    if s.data = [] then s
    else
      let version := (parseSSEVersion s.id).getD (s.client.configVersion + 1)
      s.apply servers ⟨String.ofList s.eventType, s.data, version⟩
  { s' with eventType := [], data := [], id := [] }

/-- The body of the loop. -/
def line (s : StreamLoop) (line : List Char) : StreamLoop :=
  if s.returned then s
  else
    match line with
    | [] => s.dispatch servers
    | ':' :: _ => s
    | 'e' :: 'v' :: 'e' :: 'n' :: 't' :: ':' :: rest => { s with eventType := trimSpace rest }
    | 'd' :: 'a' :: 't' :: 'a' :: ':' :: rest => { s with data := s.data ++ trimSpace rest }
    | 'i' :: 'd' :: ':' :: rest => { s with id := trimSpace rest }
    | _ => s

/-- The loop before its first line. -/
def start (c : Client) : StreamLoop := ⟨[], [], [], c, [], 0, false⟩

end StreamLoop

/-- The buffer of the scanner. -/
def scanLimit : Nat := 1024 * 1024

/-- `stream` on a connection whose bytes are `text`. -/
def Client.stream (servers : Nat → Nat → Option Int → Option (Response EventsBody)) (c : Client)
    (text : List Char) : StreamLoop :=
  (scanLines scanLimit text).foldl (StreamLoop.line servers) (StreamLoop.start c)

/-! ### The envelope comes back -/

section Envelope

variable {v : Json}

theorem parseJson_renderString (s : String) : parseJson (renderString s) = some (.str s) :=
  parseJson_render (.str s)

theorem parseJson_renderInt (n : Int) : parseJson (renderInt n) = some (.int n) :=
  parseJson_render (.int n)

/-- **`Subscribe` gets back what `Publish` was given.** -/
theorem publish_subscribe (h : v.Writable) (type : String) {version ts : Int} (traceparent : String)
    (hversion : Json.InInt64 version) (hts : Json.InInt64 ts) :
    (publish type version v.render ts traceparent).bind subscribe =
      some ⟨type, v.render, version⟩ := by
  have hne : v.render ≠ [] := List.ne_nil_of_length_pos h.render_pos
  rw [publish, RawEnvelope.marshal, if_neg hne, compactJson_render h, Option.map_some,
    Option.bind_some, subscribe, RawEnvelope.unmarshal, rawObject_render]
  · -- `ts` and `traceparent` are left out of the text when they are zero
    by_cases hzero : ts = 0 <;> by_cases hempty : traceparent = "" <;>
      simp (disch := decide) [hzero, hempty, Json.foldName_of_plain, RawEnvelope.setField,
        RawEnvelope.zero, parseJson_renderString, parseJson_renderInt, Json.decodeInt_int hversion,
        Json.decodeInt_int hts]
  · -- each member of the envelope is the text of a value
    intro m hm
    simp only [List.mem_append, List.mem_cons, List.not_mem_nil, or_false] at hm
    rcases hm with (((rfl | rfl | rfl) | hm) | hm)
    · exact ⟨_, .str type, rfl⟩
    · exact ⟨_, .int version, rfl⟩
    · exact ⟨v, h, rfl⟩
    · split at hm
      · cases hm
      · obtain rfl := List.mem_singleton.mp hm
        exact ⟨_, .int ts, rfl⟩
    · split at hm
      · cases hm
      · obtain rfl := List.mem_singleton.mp hm
        exact ⟨_, .str traceparent, rfl⟩

end Envelope

/-! ### The lines come back -/

section Lines

variable {servers : Nat → Nat → Option Int → Option (Response EventsBody)} {s : StreamLoop}
  {e : RawSSEEvent} {rest : List Char}

/-- Lines that fit and have no control characters are the next tokens. -/
theorem scanLines_lines {limit : Nat} {lines : List (List Char)}
    (h : ∀ line ∈ lines, Printable line ∧ utf8Length line < limit) :
    scanLines limit ((lines.flatMap fun line => line ++ ['\n']) ++ rest) =
      lines ++ scanLines limit rest := by
  induction lines with
  | nil => rfl
  | cons line lines ih =>
      rw [List.forall_mem_cons] at h
      have hcut : ((line :: lines).flatMap fun line => line ++ ['\n']) ++ rest =
          line ++ '\n' :: ((lines.flatMap fun line => line ++ ['\n']) ++ rest) := by
        simp
      rw [hcut, scanLines_line h.1.1 h.1.2, ih h.2]
      rfl

theorem utf8Length_short {line : List Char} (h : line.length ≤ 1000) :
    utf8Length line < scanLimit := by
  have hle := utf8Length_le line
  rw [scanLimit]
  omega

/-- An event whose frame the client's loop can read. -/
structure RawSSEEvent.Framed (e : RawSSEEvent) : Prop where
  event : e.event = "flag_updated" ∨ e.event = "flag_deleted"
  version_pos : 0 < e.version
  version_int64 : Json.InInt64 e.version
  printable : Printable e.data
  head : e.data.head? = some '{'
  last : e.data.getLast? = some '}'
  fits : utf8Length ("data: ".toList ++ e.data) < scanLimit

/-- The call that the loop makes for a frame. -/
def RawSSEEvent.call (e : RawSSEEvent) : LiveCall := ⟨e.event, e.data, e.version⟩

theorem length_renderInt {n : Int} (h : Json.InInt64 n) : (renderInt n).length ≤ 20 := by
  have hdigits : (Nat.toDigits 10 n.natAbs).length ≤ 19 := by
    rw [Nat.length_toDigits_le_iff (by decide) (by decide)]
    obtain ⟨hlow, hhigh⟩ := h
    omega
  unfold renderInt
  split
  · rw [List.length_cons]
    omega
  · omega

theorem RawSSEEvent.Framed.lines (h : e.Framed) :
    ∀ line ∈ e.lines, Printable line ∧ utf8Length line < scanLimit := by
  have hint := length_renderInt h.version_int64
  have hprintable : Printable (renderInt e.version) := fun c hc =>
    (isNumberChar_toNat (isNumberChar_renderInt _ c hc)).1
  rw [RawSSEEvent.lines, if_pos h.version_pos]
  simp only [List.singleton_append, List.forall_mem_cons]
  refine ⟨⟨?_, utf8Length_short ?_⟩, ?_, ⟨?_, h.fits⟩,
    ⟨by decide, utf8Length_short (by decide)⟩, by simp⟩
  · exact printable_closed.append (by decide) hprintable
  · have hid : "id: ".toList.length = 4 := by decide
    rw [List.length_append, hid]
    omega
  · rcases h.event with hevent | hevent
    · rw [hevent]
      exact ⟨by decide, utf8Length_short (by decide)⟩
    · rw [hevent]
      exact ⟨by decide, utf8Length_short (by decide)⟩
  · exact printable_closed.append (by decide) h.printable

theorem Written.lines_fit {w : Written} (h : ∀ e, w.event? = some e → e.Framed) :
    ∀ line ∈ w.lines, Printable line ∧ utf8Length line < scanLimit := by
  cases w with
  | connected | heartbeat =>
      simp only [Written.lines, List.forall_mem_cons]
      exact ⟨⟨by decide, utf8Length_short (by decide)⟩, ⟨by decide, utf8Length_short (by decide)⟩,
        by simp⟩
  | event e => exact (h e rfl).lines

/-! ### The loop over the lines is a loop over the events -/

/-- No line of a frame has been read since the last blank line. -/
structure StreamLoop.Clean (s : StreamLoop) : Prop where
  eventType : s.eventType = []
  data : s.data = []
  id : s.id = []

/-- What a frame does. -/
def StreamLoop.take (servers : Nat → Nat → Option Int → Option (Response EventsBody))
    (s : StreamLoop) (call : LiveCall) : StreamLoop :=
  if s.returned then s else s.apply servers call

/-- `apply` does not look at the variables. -/
theorem StreamLoop.apply_frame (s : StreamLoop) (call : LiveCall) (eventType data id : List Char) :
    ({ s with eventType := eventType, data := data, id := id } : StreamLoop).apply servers call =
      { s.apply servers call with eventType := eventType, data := data, id := id } := by
  cases hgap : (s.client.applyLiveText call).2 with
  | true =>
      simp only [apply, hgap]
      rfl
  | false =>
      simp only [apply, hgap]
      rfl

theorem StreamLoop.apply_clean (h : s.Clean) (call : LiveCall) : (s.apply servers call).Clean := by
  unfold apply
  split
  · exact ⟨h.eventType, h.data, h.id⟩
  · exact ⟨h.eventType, h.data, h.id⟩

theorem StreamLoop.Clean.take (h : s.Clean) (call : LiveCall) : (s.take servers call).Clean := by
  unfold StreamLoop.take
  split
  · exact h
  · exact StreamLoop.apply_clean h call

/-- Once `stream` has returned, nothing more is read. -/
theorem StreamLoop.foldl_returned (h : s.returned = true) (lines : List (List Char)) :
    lines.foldl (line servers) s = s := by
  induction lines with
  | nil => rfl
  | cons l lines ih =>
      have hline : s.line servers l = s := by
        unfold line
        rw [if_pos h]
      rw [List.foldl_cons, hline]
      exact ih

section Steps

variable (servers) (h : s.returned = false)

include h

theorem StreamLoop.line_id : s.line servers ('i' :: 'd' :: ':' :: rest) =
    { s with id := trimSpace rest } := by
  unfold line
  rw [if_neg (by simp [h])]
  rfl

theorem StreamLoop.line_event :
    s.line servers ('e' :: 'v' :: 'e' :: 'n' :: 't' :: ':' :: rest) =
      { s with eventType := trimSpace rest } := by
  unfold line
  rw [if_neg (by simp [h])]
  rfl

theorem StreamLoop.line_data : s.line servers ('d' :: 'a' :: 't' :: 'a' :: ':' :: rest) =
    { s with data := s.data ++ trimSpace rest } := by
  unfold line
  rw [if_neg (by simp [h])]
  rfl

theorem StreamLoop.line_comment : s.line servers (':' :: rest) = s := by
  unfold line
  rw [if_neg (by simp [h])]
  rfl

theorem StreamLoop.line_blank : s.line servers [] = s.dispatch servers := by
  unfold line
  rw [if_neg (by simp [h])]

end Steps

/-- The blank line after a frame. -/
theorem StreamLoop.dispatch_frame (hs : s.Clean) {event : String} {data id : List Char} {v : Int}
    (hne : data ≠ []) (hv : parseSSEVersion id = some v) :
    ({ s with eventType := event.toList, data := data, id := id } : StreamLoop).dispatch servers =
      s.apply servers ⟨event, data, v⟩ := by
  have hclean : (s.apply servers ⟨event, data, v⟩).Clean := StreamLoop.apply_clean hs _
  unfold dispatch
  dsimp only
  rw [if_neg hne, hv, Option.getD_some, String.ofList_toList, StreamLoop.apply_frame]
  generalize s.apply servers ⟨event, data, v⟩ = applied at hclean
  obtain ⟨eventType, data, id, client, calls, reconciles, returned⟩ := applied
  obtain ⟨rfl, rfl, rfl⟩ := hclean
  rfl

theorem isSpace_of_mem_renderInt {n : Int} {c : Char} (hc : c ∈ renderInt n) :
    isSpace c = false := isSpace_of_isNumberChar (isNumberChar_renderInt _ c hc)

/-- The value of each line, with the space after the colon taken off. -/
theorem trimSpace_version (n : Int) : trimSpace (' ' :: renderInt n) = renderInt n :=
  trimSpace_space (fun _ hc => isSpace_of_mem_renderInt (List.mem_of_mem_head? hc))
    (fun _ hc => isSpace_of_mem_renderInt (List.mem_of_getLast? hc))

theorem RawSSEEvent.Framed.trimSpace_event (h : e.Framed) :
    trimSpace (' ' :: e.event.toList) = e.event.toList := by
  rcases h.event with hevent | hevent
  · rw [hevent]
    decide
  · rw [hevent]
    decide

/-- The data is an object: a brace stands at either end. -/
theorem RawSSEEvent.Framed.trimSpace_data (h : e.Framed) : trimSpace (' ' :: e.data) = e.data := by
  refine trimSpace_space (fun c hc => ?_) (fun c hc => ?_)
  · obtain rfl := Option.some.inj (h.head.symm.trans hc)
    decide
  · obtain rfl := Option.some.inj (h.last.symm.trans hc)
    decide

theorem RawSSEEvent.Framed.data_ne_nil (h : e.Framed) : e.data ≠ [] := by
  intro hnil
  have hhead := h.head
  rw [hnil] at hhead
  cases hhead

/-- The version of the `id:` line is the event's. -/
theorem parseSSEVersion_renderInt {n : Int} (h : Json.InInt64 n) :
    parseSSEVersion (renderInt n) = some n := by
  rw [parseSSEVersion, trimSpace_self
    (fun _ hc => isSpace_of_mem_renderInt (List.mem_of_mem_head? hc))
    (fun _ hc => isSpace_of_mem_renderInt (List.mem_of_getLast? hc))]
  exact (if_neg (renderInt_ne_nil _)).trans (parseInt64_renderInt h)

theorem RawSSEEvent.lines_eq (hpos : 0 < e.version) :
    e.lines = ['i' :: 'd' :: ':' :: ' ' :: renderInt e.version,
      'e' :: 'v' :: 'e' :: 'n' :: 't' :: ':' :: ' ' :: e.event.toList,
      'd' :: 'a' :: 't' :: 'a' :: ':' :: ' ' :: e.data, []] := by
  rw [RawSSEEvent.lines, if_pos hpos]
  rfl

/-- **A frame is one call**: its id, event and data lines set the three variables, and the blank
line dispatches them. -/
theorem StreamLoop.foldl_frame (h : e.Framed) (hs : s.Clean) :
    e.lines.foldl (line servers) s = s.take servers e.call := by
  cases hreturned : s.returned with
  | true => rw [StreamLoop.foldl_returned hreturned, take, if_pos hreturned]
  | false =>
      have hversion := parseSSEVersion_renderInt h.version_int64
      rw [RawSSEEvent.lines_eq h.version_pos, List.foldl_cons,
        StreamLoop.line_id servers hreturned, trimSpace_version, List.foldl_cons,
        StreamLoop.line_event, h.trimSpace_event, List.foldl_cons, StreamLoop.line_data,
        h.trimSpace_data]
      · -- the blank line is left
        show ({ s with
            eventType := e.event.toList, data := s.data ++ e.data, id := renderInt e.version } :
          StreamLoop).line servers [] = _
        rw [hs.data, List.nil_append, StreamLoop.line_blank,
          StreamLoop.dispatch_frame hs h.data_ne_nil hversion, take, hreturned]
        · rfl
        · exact hreturned
      · exact hreturned
      · exact hreturned

/-- A comment between two frames changes nothing. -/
theorem StreamLoop.foldl_comment (hs : s.Clean) (comment : List Char) :
    [':' :: comment, []].foldl (line servers) s = s := by
  cases hreturned : s.returned with
  | true => exact StreamLoop.foldl_returned hreturned _
  | false =>
      rw [List.foldl_cons, StreamLoop.line_comment servers hreturned, List.foldl_cons,
        StreamLoop.line_blank servers hreturned, List.foldl_nil, dispatch]
      obtain ⟨eventType, data, id, client, calls, reconciles, returned⟩ := s
      obtain ⟨rfl, rfl, rfl⟩ := hs
      rfl

/-- What is written between two flushes. -/
theorem StreamLoop.foldl_written {w : Written} (h : ∀ e, w.event? = some e → e.Framed)
    (hs : s.Clean) :
    w.lines.foldl (line servers) s =
      (w.event?.toList.map RawSSEEvent.call).foldl (take servers) s := by
  cases w with
  | connected | heartbeat => exact StreamLoop.foldl_comment hs _
  | event e => exact StreamLoop.foldl_frame (h e rfl) hs

/-- **The loop over the lines is a loop over the events**, whatever comments stand between the
frames. -/
theorem StreamLoop.foldl_writes {writes : List Written}
    (h : ∀ w ∈ writes, ∀ e, w.event? = some e → e.Framed) (hs : s.Clean) :
    (scanLines scanLimit (writes.flatMap Written.text)).foldl (line servers) s =
      ((writes.filterMap Written.event?).map RawSSEEvent.call).foldl (take servers) s := by
  induction writes generalizing s with
  | nil => rfl
  | cons w writes ih =>
      rw [List.forall_mem_cons] at h
      -- a frame ends in a blank line, so the next one finds the variables empty
      have hclean : ((w.event?.toList.map RawSSEEvent.call).foldl (take servers) s).Clean := by
        cases w.event? with
        | none => exact hs
        | some e => exact hs.take e.call
      rw [List.flatMap_cons, Written.text, scanLines_lines (Written.lines_fit h.1),
        List.foldl_append, StreamLoop.foldl_written h.1 hs, ih h.2 hclean]
      cases hw : w.event? with
      | none => rw [List.filterMap_cons_none hw, Option.toList_none, List.map_nil, List.foldl_nil]
      | some e => rw [List.filterMap_cons_some hw]; rfl

theorem StreamLoop.apply_calls (s : StreamLoop) (call : LiveCall) :
    (s.apply servers call).calls = s.calls ++ [call] := by
  unfold apply
  split <;> rfl

theorem StreamLoop.foldl_take_returned (h : s.returned = true) (calls : List LiveCall) :
    calls.foldl (take servers) s = s := by
  induction calls with
  | nil => rfl
  | cons call calls ih => rw [List.foldl_cons, take, if_pos h, ih]

/-- At this call the loop shows a gap to a client whose inline `Reconcile` then returns an error. -/
structure StreamLoop.FailsAt (servers : Nat → Nat → Option Int → Option (Response EventsBody))
    (s : StreamLoop) (call : LiveCall) : Prop where
  reading : s.returned = false
  gap : (s.client.applyLiveText call).2 = true
  failed : ((s.client.applyLiveText call).1.reconcile (servers s.reconciles)).2 = false

/-- The error of the inline `Reconcile` is what `stream` returns, and nothing else is. -/
theorem StreamLoop.take_returned_iff (hreading : s.returned = false) (call : LiveCall) :
    (s.take servers call).returned = true ↔ s.FailsAt servers call := by
  rw [take, hreading, if_neg Bool.false_ne_true, apply]
  cases hgap : (s.client.applyLiveText call).2 with
  | false =>
      rw [if_neg Bool.false_ne_true]
      refine ⟨fun h => ?_, fun h => ?_⟩
      · rw [hreading] at h
        cases h
      · cases hgap.symm.trans h.gap
  | true =>
      rw [if_pos rfl]
      refine ⟨fun h => ⟨hreading, hgap, by simpa [reconcile] using h⟩, fun h => ?_⟩
      simpa [reconcile] using h.failed

/-- While it reads, the loop makes every call. -/
theorem StreamLoop.foldl_take_calls (calls : List LiveCall) {s : StreamLoop}
    (h : (calls.foldl (take servers) s).returned = false) :
    (calls.foldl (take servers) s).calls = s.calls ++ calls := by
  induction calls generalizing s with
  | nil => simp
  | cons call calls ih =>
      have hreading : s.returned = false := by
        cases hreturned : s.returned with
        | false => rfl
        | true =>
            rw [StreamLoop.foldl_take_returned hreturned] at h
            exact hreturned.symm.trans h
      rw [List.foldl_cons, ih h, take, hreading, if_neg Bool.false_ne_true,
        StreamLoop.apply_calls, List.append_assoc, List.singleton_append]

/-- A failing inline `Reconcile` is the end of the loop: its call is the last. -/
theorem StreamLoop.foldl_take_failsAt {before : List LiveCall} {call : LiveCall}
    (h : (before.foldl (take servers) s).FailsAt servers call) (after : List LiveCall) :
    ((before ++ call :: after).foldl (take servers) s).returned = true ∧
      ((before ++ call :: after).foldl (take servers) s).calls = s.calls ++ (before ++ [call]) := by
  have hreturned := (StreamLoop.take_returned_iff h.reading call).mpr h
  rw [List.foldl_append, List.foldl_cons, StreamLoop.foldl_take_returned hreturned]
  refine ⟨hreturned, ?_⟩
  rw [take, h.reading, if_neg Bool.false_ne_true, StreamLoop.apply_calls,
    StreamLoop.foldl_take_calls before h.reading, List.append_assoc]

/-- A loop that has returned did so at one of its calls. -/
theorem StreamLoop.exists_failsAt (hreading : s.returned = false) {calls : List LiveCall}
    (h : (calls.foldl (take servers) s).returned = true) :
    ∃ before call after, calls = before ++ call :: after ∧
      (before.foldl (take servers) s).FailsAt servers call := by
  induction calls generalizing s with
  | nil =>
      rw [List.foldl_nil, hreading] at h
      cases h
  | cons call calls ih =>
      cases hstep : (s.take servers call).returned with
      | true => exact ⟨[], call, calls, rfl, (StreamLoop.take_returned_iff hreading call).mp hstep⟩
      | false =>
          obtain ⟨before, call', after, rfl, hfails⟩ := ih hstep h
          exact ⟨call :: before, call', after, rfl, hfails⟩

end Lines

/-! ### The whole way -/

/-- A publication: an envelope, and what `Publish` adds to it. -/
structure Publication where
  env : Envelope
  ts : Int
  traceparent : String

namespace Publication

/-- What `Publish` sends. `data` is the marshalled flag or key. -/
def payload (p : Publication) : Option (List Char) :=
  publish p.env.type p.env.version p.env.data.render p.ts p.traceparent

/-- The publication of an update or a delete that fits the wire's types and the client's buffer. -/
structure Sendable (p : Publication) : Prop where
  message : (∃ flag, p.env = publishFlagUpdate flag) ∨
    ∃ key version, p.env = publishFlagDelete key version
  version_pos : 0 < p.env.version
  version_int64 : Json.InInt64 p.env.version
  ts_int64 : Json.InInt64 p.ts
  fits : utf8Length ("data: ".toList ++ p.env.data.render) < scanLimit

/-- What `Subscribe` makes of it. -/
def event (p : Publication) : RawSSEEvent := ⟨p.env.type, p.env.data.render, p.env.version⟩

/-- Its data is an object that can be written. -/
theorem Sendable.data {p : Publication} (h : p.Sendable) :
    ∃ members, p.env.data = .obj members ∧ ∀ m ∈ members, m.2.Writable := by
  rcases h.message with ⟨flag, hp⟩ | ⟨key, version, hp⟩
  · rw [hp]
    refine ⟨_, rfl, ?_⟩
    simp only [List.forall_mem_cons]
    refine ⟨.str _, .str _, .str _, .bool _, .int _, .arr fun item hitem => ?_, .int _, .str _,
      .str _, by simp⟩
    obtain ⟨user, -, rfl⟩ := List.mem_map.mp hitem
    exact .str user
  · rw [hp]
    refine ⟨_, rfl, ?_⟩
    simp only [List.forall_mem_cons]
    exact ⟨.str _, by simp⟩

theorem Sendable.writable {p : Publication} (h : p.Sendable) : p.env.data.Writable := by
  obtain ⟨members, hdata, hmembers⟩ := h.data
  rw [hdata]
  exact .obj hmembers

theorem Sendable.subscribe {p : Publication} (h : p.Sendable) :
    p.payload.bind FlagPlane.subscribe = some p.event :=
  publish_subscribe h.writable p.env.type p.traceparent h.version_int64 h.ts_int64

theorem Sendable.framed {p : Publication} (h : p.Sendable) : p.event.Framed := by
  obtain ⟨members, hdata, hmembers⟩ := h.data
  have hrender : p.env.data.render = renderObject (memberTexts members) := by
    rw [hdata, Json.render]
  refine ⟨?_, h.version_pos, h.version_int64, printable_closed.render h.writable, ?_, ?_, h.fits⟩
  · rcases h.message with ⟨flag, hp⟩ | ⟨key, version, hp⟩
    · exact Or.inl (by rw [event, hp]; rfl)
    · exact Or.inr (by rw [event, hp]; rfl)
  · rw [event, hrender]
    rfl
  · rw [event, hrender]
    exact renderObject_last _

end Publication

section WholeWay

variable {pubs : List Publication} {writes : List Written}

/-- What is broadcast for the publications. -/
theorem broadcast_publications (hpubs : ∀ p ∈ pubs, p.Sendable) :
    (pubs.filterMap fun p => p.payload.bind subscribe) = pubs.map Publication.event := by
  rw [← List.filterMap_eq_map]
  exact List.filterMap_congr fun p hp => (hpubs p hp).subscribe

/-- **The four layers are one loop over the publications.** -/
theorem stream_publications (hpubs : ∀ p ∈ pubs, p.Sendable)
    (hwrites : writes.filterMap Written.event? = pubs.filterMap fun p => p.payload.bind subscribe)
    (servers : Nat → Nat → Option Int → Option (Response EventsBody)) (c : Client) :
    c.stream servers (writes.flatMap Written.text) =
      (pubs.map fun p => p.event.call).foldl (StreamLoop.take servers) (StreamLoop.start c) := by
  have hevents : writes.filterMap Written.event? = pubs.map Publication.event :=
    hwrites.trans (broadcast_publications hpubs)
  have hframed : ∀ w ∈ writes, ∀ e, w.event? = some e → e.Framed := by
    intro w hw e he
    have hmem : e ∈ pubs.map Publication.event := by
      rw [← hevents]
      exact List.mem_filterMap.mpr ⟨w, hw, he⟩
    obtain ⟨p, hp, rfl⟩ := List.mem_map.mp hmem
    exact (hpubs p hp).framed
  rw [Client.stream, StreamLoop.foldl_writes hframed ⟨rfl, rfl, rfl⟩, hevents, List.map_map]
  rfl

/-- The bytes of the frames of `pubs`, one after another. -/
def framesText (pubs : List Publication) : List Char :=
  pubs.flatMap fun p => (Written.event p.event).text

/-- The frames before `p` leave `stream` reading, the frame of `p` shows it a gap, and the
`Reconcile` that it then runs returns an error. -/
def Publication.FailsAfter (servers : Nat → Nat → Option Int → Option (Response EventsBody))
    (c : Client) (before : List Publication) (p : Publication) : Prop :=
  (c.stream servers (framesText before)).FailsAt servers p.event.call

theorem stream_framesText (hpubs : ∀ p ∈ pubs, p.Sendable)
    (servers : Nat → Nat → Option Int → Option (Response EventsBody)) (c : Client) :
    c.stream servers (framesText pubs) =
      (pubs.map fun p => p.event.call).foldl (StreamLoop.take servers) (StreamLoop.start c) := by
  have hwrites : (pubs.map fun p => Written.event p.event).filterMap Written.event? =
      pubs.filterMap fun p => p.payload.bind subscribe := by
    rw [broadcast_publications hpubs, List.filterMap_map, ← List.filterMap_eq_map]
    rfl
  rw [← stream_publications hpubs hwrites, List.flatMap_map]
  rfl

/-- The call of a publication is its type, its version and its data. -/
theorem calls_of_publications (hpubs : ∀ p ∈ pubs, p.Sendable) :
    (pubs.map fun p => p.event.call).map
        (fun call => (call.eventType, call.version, parseJson call.data)) =
      pubs.map fun p => (p.env.type, p.env.version, some p.env.data) := by
  rw [List.map_map]
  refine List.map_congr_left fun p hp => ?_
  simp [RawSSEEvent.call, Publication.event, parseJson_render (hpubs p hp).writable]

/-- **Wire round trip.** Whatever was published, and whatever comments stand between the frames:
`stream` calls `applyLiveEvent` with the type, the version and the data of the publications, all of
them and in their order, unless a `Reconcile` that it runs in between returns an error. Then it
returns, and its calls are those up to the frame that showed the gap. -/
theorem wire_roundTrip (hpubs : ∀ p ∈ pubs, p.Sendable)
    (hwrites : writes.filterMap Written.event? = pubs.filterMap fun p => p.payload.bind subscribe)
    (servers : Nat → Nat → Option Int → Option (Response EventsBody)) (c : Client) :
    ((c.stream servers (writes.flatMap Written.text)).returned = false →
      (c.stream servers (writes.flatMap Written.text)).calls.map
          (fun call => (call.eventType, call.version, parseJson call.data)) =
        pubs.map fun p => (p.env.type, p.env.version, some p.env.data)) ∧
    (∀ before p after, pubs = before ++ p :: after → p.FailsAfter servers c before →
      (c.stream servers (writes.flatMap Written.text)).returned = true ∧
        (c.stream servers (writes.flatMap Written.text)).calls.map
            (fun call => (call.eventType, call.version, parseJson call.data)) =
          (before ++ [p]).map fun p => (p.env.type, p.env.version, some p.env.data)) ∧
    ((c.stream servers (writes.flatMap Written.text)).returned = true →
      ∃ before p after, pubs = before ++ p :: after ∧ p.FailsAfter servers c before) := by
  rw [stream_publications hpubs hwrites]
  refine ⟨fun h => ?_, ?_, fun h => ?_⟩
  · rw [StreamLoop.foldl_take_calls _ h]
    exact calls_of_publications hpubs
  · rintro before p after rfl hfails
    have hbefore : ∀ q ∈ before, q.Sendable := fun q hq => hpubs q (List.mem_append_left _ hq)
    have hmade : ∀ q ∈ before ++ [p], q.Sendable := fun q hq => hpubs q (by
      simp only [List.mem_append, List.mem_cons, List.not_mem_nil, or_false] at hq ⊢
      tauto)
    rw [Publication.FailsAfter, stream_framesText hbefore] at hfails
    obtain ⟨hreturned, hcalls⟩ := StreamLoop.foldl_take_failsAt hfails
      (after.map fun p => p.event.call)
    rw [List.map_append, List.map_cons]
    refine ⟨hreturned, ?_⟩
    have hlast : (before ++ [p]).map (fun p => p.event.call) =
        before.map (fun p => p.event.call) ++ [p.event.call] := List.map_append
    rw [hcalls, ← calls_of_publications hmade, hlast]
    rfl
  · obtain ⟨before, call, after, hsplit, hfails⟩ := StreamLoop.exists_failsAt rfl h
    obtain ⟨pubs₁, pubs₂, rfl, rfl, hrest⟩ := List.map_eq_append_iff.mp hsplit
    obtain ⟨p, pubs₃, rfl, rfl, rfl⟩ := List.map_eq_cons_iff.mp hrest
    refine ⟨pubs₁, p, pubs₃, rfl, ?_⟩
    rw [Publication.FailsAfter, stream_framesText fun q hq => hpubs q (List.mem_append_left _ hq)]
    exact hfails

/-- Two deletes, far above a client that is at version 0. -/
def farDeletes : List Publication :=
  [⟨publishFlagDelete "checkout" 5, 0, ""⟩, ⟨publishFlagDelete "banner" 6, 1, "00-a-b-01"⟩]

theorem farDeletes_sendable : ∀ p ∈ farDeletes, p.Sendable := by
  simp only [farDeletes, List.forall_mem_cons]
  refine ⟨?_, ?_, by simp⟩
  · exact ⟨Or.inr ⟨_, _, rfl⟩, by decide, by decide, by decide, utf8Length_short (by decide)⟩
  · exact ⟨Or.inr ⟨_, _, rfl⟩, by decide, by decide, by decide, utf8Length_short (by decide)⟩

/-- Their frames, with comments. -/
def farWrites : List Written :=
  [.connected, .heartbeat] ++ farDeletes.flatMap fun p => [.event p.event, .heartbeat]

theorem farWrites_events :
    farWrites.filterMap Written.event? = farDeletes.filterMap fun p =>
      p.payload.bind subscribe := by
  rw [broadcast_publications farDeletes_sendable]
  rfl

/-- The client is at version 0 and the request of its `Reconcile` fails: the first delete is the
last that is applied. -/
theorem wire_roundTrip_deletes :
    ((⟨fun _ => none, 0⟩ : Client).stream (fun _ _ _ => none)
        (farWrites.flatMap Written.text)).returned = true ∧
      ((⟨fun _ => none, 0⟩ : Client).stream (fun _ _ _ => none)
          (farWrites.flatMap Written.text)).calls.map
          (fun call => (call.eventType, call.version, parseJson call.data)) =
        [("flag_deleted", 5, some (publishFlagDelete "checkout" 5).data)] :=
  (wire_roundTrip farDeletes_sendable farWrites_events (fun _ _ _ => none) ⟨fun _ => none, 0⟩).2.1
    [] _ _ rfl ⟨rfl, by decide, rfl⟩

/-- The client is at version 0 and the request of its `Reconcile` fails: the second delete is never
applied. -/
theorem farDeletes_cut :
    ((⟨fun _ => none, 0⟩ : Client).stream (fun _ _ _ => none)
        (farWrites.flatMap Written.text)).calls.map
        (fun call => (call.eventType, call.version, parseJson call.data)) ≠
      farDeletes.map (fun p => (p.env.type, p.env.version, some p.env.data)) := by
  rw [stream_publications farDeletes_sendable farWrites_events]
  intro h
  have hlength := congrArg List.length h
  rw [List.length_map] at hlength
  revert hlength
  decide

end WholeWay

end FlagPlane
