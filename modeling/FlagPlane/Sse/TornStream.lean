import FlagPlane.Sse.Handlers
import FlagPlane.Sse.WireText

/-!
# FlagPlane.Sse.TornStream

**A connection that breaks anywhere**, from the broker to the client's loop. The bytes that reach
`Client.stream` are a beginning of what `ServeHTTP` has written, cut at any character, also in the
middle of a line; inside a character, what the client sees of it is junk.

The loop acts on blank lines alone, and a frame ends in its only one. So a torn frame is as good as
one that was never sent: the client ends up where a whole number of frames takes it, and these
frames are a block of the events that `Run` took since the channel was registered.
-/

namespace FlagPlane

/-- All that a run of the loop leaves behind; its three variables are lost with the connection. -/
def StreamLoop.outcome (s : StreamLoop) : Client × List LiveCall × Nat × Bool :=
  (s.client, s.calls, s.reconciles, s.returned)

section Torn

variable {servers : Nat → Nat → Option Int → Option (Response EventsBody)} {s : StreamLoop}
  {text junk : List Char}

/-- Only a blank line does anything. -/
theorem StreamLoop.line_outcome {l : List Char} (h : l ≠ []) :
    (s.line servers l).outcome = s.outcome := by
  unfold line
  split
  · rfl
  split
  · exact absurd rfl h
  all_goals rfl

theorem StreamLoop.foldl_line_outcome {lines : List (List Char)} (h : ∀ l ∈ lines, l ≠ []) :
    (lines.foldl (line servers) s).outcome = s.outcome := by
  induction lines generalizing s with
  | nil => rfl
  | cons l lines ih =>
      rw [List.forall_mem_cons] at h
      rw [List.foldl_cons, ih h.2, StreamLoop.line_outcome h.1]

/-- What is written between two flushes ends in its only blank line. -/
theorem Written.lines_eq (w : Written) :
    ∃ body, w.lines = body ++ [[]] ∧ ∀ l ∈ body, l ≠ [] := by
  cases w with
  | connected => exact ⟨[": connected".toList], rfl, by simp⟩
  | heartbeat => exact ⟨[": heartbeat".toList], rfl, by simp⟩
  | event e =>
      refine ⟨(if e.version > 0 then ["id: ".toList ++ renderInt e.version] else []) ++
        ["event: ".toList ++ e.event.toList, "data: ".toList ++ e.data], ?_, ?_⟩
      · rw [Written.lines, RawSSEEvent.lines, List.append_assoc]
        rfl
      · intro l hl
        split at hl <;> simp at hl
        · rcases hl with rfl | rfl | rfl <;> simp
        · rcases hl with rfl | rfl <;> simp

/-- **A torn frame is as good as one that was never sent.** -/
theorem StreamLoop.foldl_torn {writes : List Written}
    (h : ∀ w ∈ writes, ∀ e, w.event? = some e → e.Framed) (hs : s.Clean) (hjunk : Printable junk)
    (hcut : text <+: writes.flatMap Written.text) :
    ∃ whole, whole <+: writes.filterMap Written.event? ∧
      ((scanLines scanLimit (text ++ junk)).foldl (line servers) s).outcome =
        ((whole.map RawSSEEvent.call).foldl (take servers) s).outcome := by
  induction writes generalizing s text with
  | nil =>
      refine ⟨[], List.nil_prefix, StreamLoop.foldl_line_outcome ?_⟩
      have hnone : ∀ line ∈ ([] : List (List Char)), line ≠ [] ∧ Printable line := by simp
      exact mem_scanLines_of_cut hnone hjunk hcut
  | cons w writes ih =>
      rw [List.forall_mem_cons] at h
      obtain ⟨body, hlines, hbody⟩ := w.lines_eq
      have hfit := Written.lines_fit h.1
      -- cut before the blank line, nothing of this frame has been acted on
      have hbefore : text <+: (body.flatMap fun line => line ++ ['\n']) →
          ∃ whole, whole <+: (w :: writes).filterMap Written.event? ∧
            ((scanLines scanLimit (text ++ junk)).foldl (line servers) s).outcome =
              ((whole.map RawSSEEvent.call).foldl (take servers) s).outcome := by
        intro hshort
        refine ⟨[], List.nil_prefix, StreamLoop.foldl_line_outcome ?_⟩
        refine mem_scanLines_of_cut (fun l hl => ⟨hbody l hl, (hfit l ?_).1⟩) hjunk hshort
        rw [hlines]
        exact List.mem_append_left _ hl
      rw [List.flatMap_cons, Written.text, hlines, List.flatMap_append, List.append_assoc] at hcut
      rcases prefix_append_cases hcut with hshort | ⟨rest, rfl, hrest⟩
      · exact hbefore hshort
      rcases List.prefix_cons_iff.mp hrest with rfl | ⟨text, rfl, htext⟩
      · exact hbefore (by simp)
      · have hclean : ((w.event?.toList.map RawSSEEvent.call).foldl (take servers) s).Clean := by
          cases w.event? with
          | none => exact hs
          | some e => exact hs.take e.call
        obtain ⟨whole, hwhole, houtcome⟩ := ih h.2 hclean htext
        have htokens : (body.flatMap fun line => line ++ ['\n']) ++ '\n' :: text ++ junk =
            (w.lines.flatMap fun line => line ++ ['\n']) ++ (text ++ junk) := by
          rw [hlines]
          simp
        refine ⟨w.event?.toList ++ whole, ?_, ?_⟩
        · cases hw : w.event? with
          | none =>
              rw [List.filterMap_cons_none hw]
              exact hwhole
          | some e =>
              rw [List.filterMap_cons_some hw]
              exact (List.prefix_append_right_inj [e]).mpr hwhole
        · rw [htokens, scanLines_lines hfit, List.foldl_append, StreamLoop.foldl_written h.1 hs,
            houtcome, List.map_append, List.foldl_append]

end Torn

/-! ### What a handler has written -/

/-- The event as `ServeHTTP` writes it. -/
def SSEEvent.raw (e : SSEEvent) : RawSSEEvent :=
  ⟨e.event, e.data.render, e.version⟩

/-- Every connection has been written what was received from its channel, from the first event on,
and so it stays when the connection is over. -/
def Hub.WritesReceived (s : Hub) : Prop :=
  ∀ ch h, s.handlers ch = some h → h.written <+: s.broker.received ch

section Written

variable {b b' : Broker} {s s' : Hub} {ch : ChanId} {h h' : ServeHTTP} {met : Option RunAction}

theorem ServeInv.next_written (hi : ServeInv b ch h) (hw : h.written <+: b.received ch)
    {a : ServeAction} (hn : h.next b ch a = some (h', met)) (hs : b.sync met = some b') :
    h'.written <+: b'.received ch := by
  have hf := Broker.sync_frame hs
  cases a with
  | receive =>
      rw [ServeHTTP.next] at hn
      split at hn
      · cases hn
        obtain ⟨event, rest, -, rfl⟩ := runStep_receive.mp hs
        show h.written <+: Function.update b.received ch (b.received ch ++ [event]) ch
        rw [Function.update_self]
        exact hw.trans (List.prefix_append _ _)
      · cases hn
  | write =>
      rw [ServeHTTP.next] at hn
      split at hn
      · rename_i event hstage
        cases hn
        obtain rfl := Option.some.inj hs
        rw [(hi.isOpen (by simp [hstage, ServeStage.IsOpen])).2, hstage]
        exact List.prefix_refl _
      · cases hn
  | flush | flushFails | register | refused | connected | channelClosed | writeFails | leave
  | unregister | abandon =>
      rw [ServeHTTP.next] at hn
      split at hn
      · cases hn
        rw [hf.received ch (by simp)]
        exact hw
      · cases hn

theorem Hub.WritesReceived.step (hw : s.WritesReceived) (hi : HubInv s) {a : HubAction}
    (hs : hubStep s a = some s') : s'.WritesReceived := by
  intro ch h hh
  cases a with
  | request ch₁ =>
      obtain ⟨-, rfl⟩ := hubStep_request.mp hs
      by_cases hne : ch = ch₁
      · subst hne
        obtain rfl : _ = h := by simpa using hh
        exact List.nil_prefix
      · exact hw ch h (by simpa [hne] using hh)
  | serve ch₁ a =>
      obtain ⟨h₀, h₁, met, b, hh₀, hn, hb, rfl⟩ := hubStep_serve.mp hs
      by_cases hne : ch = ch₁
      · subst hne
        obtain rfl : h₁ = h := by simpa using hh
        exact (hi.handlers ch h₀ hh₀).next_written (hw ch h₀ hh₀) hn hb
      · have hmet : met ≠ some (.receive ch) := by
          rcases ServeHTTP.next_met hn with rfl | rfl | rfl | rfl <;> simp [Ne.symm hne]
        show h.written <+: b.received ch
        rw [(Broker.sync_frame hb).received ch hmet]
        exact hw ch h (by simpa [hne] using hh)
  | call caller op =>
      obtain ⟨-, b, hb, rfl⟩ := hubStep_call.mp hs
      show h.written <+: b.received ch
      rw [(Broker.sync_frame hb).received ch (by cases op <;> simp [Operation.start])]
      exact hw ch h hh
  | caller caller a =>
      obtain ⟨c, c', met, b, -, hn, hb, rfl⟩ := hubStep_caller.mp hs
      have hmet : met ≠ some (.receive ch) := by
        rcases CallStage.next_met hn with ⟨rfl, -⟩ | ⟨event, rfl, -⟩ | ⟨rfl, -⟩ | ⟨rfl, -⟩ <;> simp
      show h.written <+: b.received ch
      rw [(Broker.sync_frame hb).received ch hmet]
      exact hw ch h hh
  | run a =>
      obtain ⟨hown, b, hb, rfl⟩ := hubStep_run.mp hs
      show h.written <+: b.received ch
      rw [(runStep_frame hb).received ch (by rintro ⟨⟩; cases hown)]
      exact hw ch h hh

/-- What is on a connection, the event in hand included, is a block of what `Run` took since the
channel was registered. -/
theorem HubInv.written_block (hi : HubInv s) (hw : s.WritesReceived) (hh : s.handlers ch = some h)
    {n : Nat} (hn : s.broker.joined ch = some n) :
    h.written ++ h.stage.inHand <+: s.broker.taken.drop n := by
  have hreceived : h.written ++ h.stage.inHand <+: s.broker.received ch := by
    cases hstage : h.stage with
    | writing event =>
        rw [((hi.handlers ch h hh).isOpen (by simp [hstage, ServeStage.IsOpen])).2, hstage]
    | _ => exact (List.append_nil h.written).symm ▸ hw ch h hh
  exact hreceived.trans ((List.prefix_append _ _).trans ((hi.broker.chans ch).block n hn).2)

end Written

/-! ### From the broker to the client -/

/-- What a connection makes of the loop, wherever it is cut. -/
theorem HubInv.stream_block {s : Hub} (hi : HubInv s) (hw : s.WritesReceived)
    (hsend : ∀ e ∈ s.broker.taken, ∃ p : Publication, p.Sendable ∧ e = p.env.sseEvent)
    {ch : ChanId} {h : ServeHTTP} (hh : s.handlers ch = some h) {n : Nat}
    (hn : s.broker.joined ch = some n) {writes : List Written}
    (hwrites : writes.filterMap Written.event? <+:
      (h.written ++ h.stage.inHand).map SSEEvent.raw)
    {text junk : List Char} (hcut : text <+: writes.flatMap Written.text)
    (hjunk : Printable junk)
    (servers : Nat → Nat → Option Int → Option (Response EventsBody)) (c : Client) :
    ∃ whole, whole <+: s.broker.taken.drop n ∧
      (c.stream servers (text ++ junk)).outcome =
        ((whole.map fun e => e.raw.call).foldl (StreamLoop.take servers)
          (StreamLoop.start c)).outcome := by
  have hblock := hi.written_block hw hh hn
  have hframed : ∀ w ∈ writes, ∀ e, w.event? = some e → e.Framed := by
    intro w hw e he
    have hmem := hwrites.subset (List.mem_filterMap.mpr ⟨w, hw, he⟩)
    obtain ⟨e', he', rfl⟩ := List.mem_map.mp hmem
    obtain ⟨p, hp, rfl⟩ := hsend e' (List.mem_of_mem_drop (hblock.subset he'))
    exact hp.framed
  have hclean : (StreamLoop.start c).Clean := ⟨rfl, rfl, rfl⟩
  obtain ⟨whole, hwhole, houtcome⟩ := StreamLoop.foldl_torn hframed hclean hjunk hcut
  -- the whole frames are those of some first events of the block
  obtain ⟨rest, hrest⟩ := hwhole.trans hwrites
  obtain ⟨events, rest', hsplit, rfl, -⟩ := List.map_eq_append_iff.mp hrest.symm
  refine ⟨events, List.IsPrefix.trans ⟨rest', hsplit.symm⟩ hblock, ?_⟩
  rw [Client.stream, houtcome, List.map_map]
  rfl

/-- **Every connection delivers a block of the broadcasts, wherever it breaks.** A channel is
registered when `Run` has taken `n` events. Its handler writes the events it receives, with
comments in between; the last of them may still be in its hand. The connection is cut after
`text`, and `junk` is what the client makes of a character cut in two. Then there are some first
events of those taken after the `n`-th such that the loop makes these its calls, in this order and
each once, and leaves the client as they do. -/
theorem connection_delivers_block {run : List HubAction} {s : Hub}
    (hrun : exec hubStep Hub.new run = some s)
    (hsend : ∀ e ∈ s.broker.taken, ∃ p : Publication, p.Sendable ∧ e = p.env.sseEvent)
    {ch : ChanId} {h : ServeHTTP} (hh : s.handlers ch = some h) {n : Nat}
    (hn : s.broker.joined ch = some n) {writes : List Written}
    (hwrites : writes.filterMap Written.event? <+:
      (h.written ++ h.stage.inHand).map SSEEvent.raw)
    {text junk : List Char} (hcut : text <+: writes.flatMap Written.text)
    (hjunk : Printable junk)
    (servers : Nat → Nat → Option Int → Option (Response EventsBody)) (c : Client) :
    ∃ whole, whole <+: s.broker.taken.drop n ∧
      (c.stream servers (text ++ junk)).outcome =
        ((whole.map fun e => e.raw.call).foldl (StreamLoop.take servers)
          (StreamLoop.start c)).outcome := by
  have hinv : HubInv s ∧ s.WritesReceived :=
    exec_preserves (I := fun s => HubInv s ∧ s.WritesReceived)
      (fun hi hs => ⟨hi.1.step hs, hi.2.step hi.1 hs⟩)
      ⟨hubInv_new, fun ch h hh => by cases hh⟩ hrun
  exact hinv.1.stream_block hinv.2 hsend hh hn hwrites hcut hjunk servers c

/-- One event goes through the broker to one client. -/
def deliverOne (event : SSEEvent) : List HubAction :=
  [ .request 0, .serve 0 .flush, .serve 0 .register, .serve 0 .connected,
    .call 0 (.broadcast event), .caller 0 .send, .run (.offer 0), .run .endFanout,
    .serve 0 .receive ]

/-- The connection breaks while the frame is being written. -/
theorem connection_delivers_block_deliverOne :
    ∃ s, exec hubStep Hub.new (deliverOne (publishFlagDelete "checkout" 5).sseEvent) = some s ∧
      ∃ whole, whole <+: s.broker.taken.drop 0 ∧
        ((⟨fun _ => none, 4⟩ : Client).stream (fun _ _ _ => none)
            (([.connected, .event (publishFlagDelete "checkout" 5).sseEvent.raw].flatMap
              Written.text).take 40 ++ ['\ufffd'])).outcome =
          ((whole.map fun e => e.raw.call).foldl (StreamLoop.take fun _ _ _ => none)
            (StreamLoop.start ⟨fun _ => none, 4⟩)).outcome := by
  have hrun : ∃ s, exec hubStep Hub.new (deliverOne (publishFlagDelete "checkout" 5).sseEvent) =
      some s ∧ s.handlers 0 = some ⟨.writing (publishFlagDelete "checkout" 5).sseEvent, 0, []⟩ ∧
      s.broker.joined 0 = some 0 ∧
      s.broker.taken = [(publishFlagDelete "checkout" 5).sseEvent] :=
    ⟨_, rfl, rfl, rfl, rfl⟩
  obtain ⟨s, hs, hh, hjoined, htaken⟩ := hrun
  refine ⟨s, hs, ?_⟩
  refine connection_delivers_block hs ?_ hh hjoined (List.prefix_refl _) (List.take_prefix 40 _)
    (by decide) _ _
  intro e he
  rw [htaken, List.mem_singleton] at he
  subst he
  exact ⟨⟨publishFlagDelete "checkout" 5, 0, ""⟩, farDeletes_sendable _ List.mem_cons_self, rfl⟩

end FlagPlane
