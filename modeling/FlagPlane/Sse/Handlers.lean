import FlagPlane.Sse.Broker

/-!
# FlagPlane.Sse.Handlers

**The broker with everybody who talks to it.** Any number of `ServeHTTP` calls and of callers of
`Broadcast`, `ClientCount` and `Shutdown` run beside `Run`. Each party has a step of its own; where
it sends on or receives from one of `Run`'s unbuffered channels, the step names the step of `Run`
that it meets, and neither happens without the other.

Two things are asked of the whole. An open stream should miss no event that `Run` takes once the
client has seen the response: it does not, exactly as long as no event is taken between a handler's
first flush and its registration. And nobody should wait for somebody who will not come:
`NeverStuck`, in every reachable state.
-/

namespace FlagPlane

/-- Where a `ServeHTTP` call is. -/
inductive ServeStage
  /-- The headers are set. -/
  | entered
  /-- They are flushed; at the `select` with `b.register <- client`. -/
  | flushed
  /-- Registered; `: connected` is still to be written. -/
  | registered
  /-- At the `select` of the loop. -/
  | streaming
  /-- With an event to write. -/
  | writing (event : SSEEvent)
  /-- At the deferred `select`. -/
  | leaving
  | returned

/-- A `ServeHTTP` call, and the history of its connection. -/
structure ServeHTTP where
  stage : ServeStage
  /-- How many events `Run` had taken at the first flush. -/
  opened : Nat
  /-- The events that are written and flushed. -/
  written : List SSEEvent

inductive ServeAction
  /-- The first `rc.Flush()`. -/
  | flush
  | flushFails
  /-- `b.register <- client`. -/
  | register
  /-- `<-b.done`, instead of the registration. -/
  | refused
  /-- `: connected` is written. -/
  | connected
  /-- `event, ok := <-client`. -/
  | receive
  /-- The same with `ok` false. -/
  | channelClosed
  | write
  | writeFails
  /-- The context is done, the connection was idle too long, or a heartbeat fails. -/
  | leave
  /-- `b.unregister <- client`. -/
  | unregister
  /-- `<-b.done`, instead of that. -/
  | abandon

/-- Where a call of `Broadcast`, `ClientCount` or `Shutdown` is. -/
inductive CallStage
  /-- At the `select` of `Broadcast`. -/
  | broadcast (event : SSEEvent)
  /-- At the `select` of `ClientCount`. -/
  | countReq
  /-- At `<-reply`. -/
  | reply
  /-- At the `<-b.done` of `Shutdown`. -/
  | shutdown
  | returned
  /-- `ClientCount` has returned. -/
  | counted (n : Nat)

inductive Operation
  | broadcast (event : SSEEvent)
  | clientCount
  | shutdown

inductive CallAction
  /-- The send of its `select`. -/
  | send
  /-- `<-reply`. -/
  | reply
  /-- `<-b.done`. -/
  | done

/-- `done` is closed. -/
def Broker.isDone (b : Broker) : Bool :=
  match b.run with
  | .stopped => true
  | _ => false

/-- The broker when a party's step meets one of `Run`'s, or none. -/
def Broker.sync (b : Broker) : Option RunAction → Option Broker
  | none => some b
  | some a => runStep b a

/-- A step of `ServeHTTP`: what becomes of the call, and the step of `Run` it meets. -/
def ServeHTTP.next (b : Broker) (ch : ChanId) (h : ServeHTTP) :
    ServeAction → Option (ServeHTTP × Option RunAction)
  | .flush =>
    match h.stage with
    | .entered => some ({ h with stage := .flushed, opened := b.taken.length }, none)
    | _ => none
  | .flushFails =>
    match h.stage with
    | .entered => some ({ h with stage := .returned }, none)
    | _ => none
  | .register =>
    match h.stage with
    | .flushed => some ({ h with stage := .registered }, some (.register ch))
    | _ => none
  | .refused =>
    match h.stage, b.isDone with
    | .flushed, true => some ({ h with stage := .returned }, none)
    | _, _ => none
  | .connected =>
    match h.stage with
    | .registered => some ({ h with stage := .streaming }, none)
    | _ => none
  | .receive =>
    match h.stage, (b.chans ch).buffer with
    | .streaming, event :: _ => some ({ h with stage := .writing event }, some (.receive ch))
    | _, _ => none
  | .channelClosed =>
    match h.stage, b.chans ch with
    | .streaming, ⟨[], true⟩ => some ({ h with stage := .leaving }, none)
    | _, _ => none
  | .write =>
    match h.stage with
    | .writing event => some ({ h with stage := .streaming, written := h.written ++ [event] }, none)
    | _ => none
  | .writeFails =>
    match h.stage with
    | .writing _ => some ({ h with stage := .leaving }, none)
    | _ => none
  | .leave =>
    match h.stage with
    | .streaming => some ({ h with stage := .leaving }, none)
    | _ => none
  | .unregister =>
    match h.stage with
    | .leaving => some ({ h with stage := .returned }, some (.unregister ch))
    | _ => none
  | .abandon =>
    match h.stage, b.isDone with
    | .leaving, true => some ({ h with stage := .returned }, none)
    | _, _ => none

/-- A call begins. `Shutdown` closes `shutdown` at most once, and goes on to wait. -/
def Operation.start : Operation → CallStage × Option RunAction
  | .broadcast event => (.broadcast event, none)
  | .clientCount => (.countReq, none)
  | .shutdown => (.shutdown, some .closeShutdown)

/-- A step of a call, with the step of `Run` it meets. -/
def CallStage.next (b : Broker) (caller : CallerId) :
    CallStage → CallAction → Option (CallStage × Option RunAction)
  | .broadcast event, .send => some (.returned, some (.broadcast event))
  | .countReq, .send => some (.reply, some (.countReq caller))
  | .reply, .reply =>
    match b.run with
    | .reply caller' => if caller' = caller then some (.counted b.clients.card, some .reply) else none
    | _ => none
  | .broadcast _, .done | .shutdown, .done => if b.isDone then some (.returned, none) else none
  | .countReq, .done => if b.isDone then some (.counted 0, none) else none
  | _, _ => none

/-- The steps that `Run` takes by itself. -/
def RunAction.own : RunAction → Bool
  | .offer _ | .endFanout | .shutdown | .drop _ | .done => true
  | _ => false

/-- The broker, its handlers and its callers. -/
structure Hub where
  broker : Broker
  handlers : ChanId → Option ServeHTTP
  callers : CallerId → Option CallStage

def Hub.new : Hub := ⟨Broker.new, fun _ => none, fun _ => none⟩

inductive HubAction
  /-- `GET /stream` reaches `ServeHTTP`. -/
  | request (ch : ChanId)
  | serve (ch : ChanId) (a : ServeAction)
  | call (caller : CallerId) (op : Operation)
  | caller (caller : CallerId) (a : CallAction)
  | run (a : RunAction)

def hubStep (s : Hub) : HubAction → Option Hub
  | .request ch =>
    match s.handlers ch with
    | none => some { s with handlers := Function.update s.handlers ch (some ⟨.entered, 0, []⟩) }
    | some _ => none
  | .serve ch a =>
    match s.handlers ch with
    | none => none
    | some h =>
      match h.next s.broker ch a with
      | none => none
      | some (h', met) =>
        (s.broker.sync met).map fun b =>
          { s with broker := b, handlers := Function.update s.handlers ch (some h') }
  | .call caller op =>
    match s.callers caller with
    | none =>
      (s.broker.sync op.start.2).map fun b =>
        { s with broker := b, callers := Function.update s.callers caller (some op.start.1) }
    | some _ => none
  | .caller caller a =>
    match s.callers caller with
    | none => none
    | some c =>
      match c.next s.broker caller a with
      | none => none
      | some (c', met) =>
        (s.broker.sync met).map fun b =>
          { s with broker := b, callers := Function.update s.callers caller (some c') }
  | .run a => if a.own then (runStep s.broker a).map fun b => { s with broker := b } else none

section Spec

variable {s s' : Hub} {ch : ChanId} {caller : CallerId}

theorem hubStep_request :
    hubStep s (.request ch) = some s' ↔
      s.handlers ch = none ∧
        s' = { s with handlers := Function.update s.handlers ch (some ⟨.entered, 0, []⟩) } := by
  rw [hubStep]
  split
  · rename_i hnone
    simp [hnone, eq_comm]
  · rename_i hsome
    simp [hsome]

theorem hubStep_serve {a : ServeAction} :
    hubStep s (.serve ch a) = some s' ↔
      ∃ h h' met b, s.handlers ch = some h ∧ h.next s.broker ch a = some (h', met) ∧
        s.broker.sync met = some b ∧
        s' = { s with broker := b, handlers := Function.update s.handlers ch (some h') } := by
  rw [hubStep]
  split
  · rename_i hnone
    simp [hnone]
  rename_i h hh
  split
  · rename_i hn
    simp [hh, hn]
  · rename_i h' met hn
    simp [hh, hn, eq_comm]

theorem hubStep_call {op : Operation} :
    hubStep s (.call caller op) = some s' ↔
      s.callers caller = none ∧ ∃ b, s.broker.sync op.start.2 = some b ∧
        s' = { s with broker := b, callers := Function.update s.callers caller (some op.start.1) } := by
  rw [hubStep]
  split
  · rename_i hnone
    simp [hnone, eq_comm]
  · rename_i hsome
    simp [hsome]

theorem hubStep_caller {a : CallAction} :
    hubStep s (.caller caller a) = some s' ↔
      ∃ c c' met b, s.callers caller = some c ∧ c.next s.broker caller a = some (c', met) ∧
        s.broker.sync met = some b ∧
        s' = { s with broker := b, callers := Function.update s.callers caller (some c') } := by
  rw [hubStep]
  split
  · rename_i hnone
    simp [hnone]
  rename_i c hc
  split
  · rename_i hn
    simp [hc, hn]
  · rename_i c' met hn
    simp [hc, hn, eq_comm]

theorem hubStep_run {a : RunAction} :
    hubStep s (.run a) = some s' ↔
      a.own = true ∧ ∃ b, runStep s.broker a = some b ∧ s' = { s with broker := b } := by
  rw [hubStep]
  split
  · rename_i hown
    simp [hown, eq_comm]
  · rename_i hown
    simp [hown]

end Spec

/-! ### The invariant -/

/-- Not registered yet. -/
def ServeStage.Early : ServeStage → Prop
  | entered | flushed => True
  | _ => False

/-- Registered, and the connection is not over. -/
def ServeStage.IsOpen : ServeStage → Prop
  | registered | streaming | writing _ => True
  | _ => False

/-- The event that is taken out of the channel and not yet written. -/
def ServeStage.inHand : ServeStage → List SSEEvent
  | writing event => [event]
  | _ => []

structure ServeInv (b : Broker) (ch : ChanId) (h : ServeHTTP) : Prop where
  opened : h.opened ≤ b.taken.length
  early : h.stage.Early → b.joined ch = none ∧ h.written = []
  isOpen : h.stage.IsOpen → b.joined ch ≠ none ∧ b.received ch = h.written ++ h.stage.inHand

structure HubInv (s : Hub) : Prop where
  broker : BrokerInv s.broker
  absent : ∀ ch, s.handlers ch = none → s.broker.joined ch = none
  handlers : ∀ ch h, s.handlers ch = some h → ServeInv s.broker ch h
  /-- `Run` owes the count to the one caller that waits for it. -/
  reply : ∀ caller, s.broker.run = .reply caller ↔ s.callers caller = some .reply
  shutdown : ∀ caller, s.callers caller = some .shutdown → s.broker.shutdown = true

section Step

variable {b b' : Broker} {ch ch' : ChanId} {h h' : ServeHTTP} {met : Option RunAction}

theorem Broker.sync_frame (hs : b.sync met = some b') : b.Frame b' met := by
  cases met with
  | none =>
      obtain rfl := Option.some.inj hs
      exact Broker.Frame.refl _ _
  | some a => exact runStep_frame hs

theorem BrokerInv.sync (hb : BrokerInv b) (hs : b.sync met = some b') : BrokerInv b' := by
  cases met with
  | none =>
      obtain rfl := Option.some.inj hs
      exact hb
  | some a => exact hb.step hs

/-- A handler whose channel the step of `Run` does not concern. -/
theorem ServeInv.frame (hi : ServeInv b ch h) (hf : b.Frame b' met)
    (hregister : met ≠ some (.register ch)) (hreceive : met ≠ some (.receive ch)) :
    ServeInv b' ch h := by
  refine ⟨hi.opened.trans hf.taken.length_le, ?_, ?_⟩
  · rw [hf.joined ch hregister]
    exact hi.early
  · rw [hf.joined ch hregister, hf.received ch hreceive]
    exact hi.isOpen

/-- A handler meets `Run` only over its own channel. -/
theorem ServeHTTP.next_met {a : ServeAction} (hn : h.next b ch a = some (h', met)) :
    met = none ∨ met = some (.register ch) ∨ met = some (.receive ch) ∨
      met = some (.unregister ch) := by
  cases a <;> rw [next] at hn <;> split at hn <;> cases hn <;> simp

theorem CallStage.next_met {c c' : CallStage} {caller : CallerId} {a : CallAction}
    (hn : c.next b caller a = some (c', met)) :
    (met = none ∧ c ≠ .reply ∧ c' ≠ .reply ∧ c' ≠ .shutdown) ∨
      (∃ event, met = some (.broadcast event) ∧ c ≠ .reply ∧ c' = .returned) ∨
      (met = some (.countReq caller) ∧ c' = .reply) ∨
      (met = some .reply ∧ b.run = .reply caller ∧ ∃ n, c' = .counted n) := by
  unfold next at hn
  split at hn
  · cases hn
    exact Or.inr (Or.inl ⟨_, rfl, by simp, rfl⟩)
  · cases hn
    exact Or.inr (Or.inr (Or.inl ⟨rfl, rfl⟩))
  · split at hn
    · rename_i hrun
      split at hn
      · rename_i heq
        cases hn
        exact Or.inr (Or.inr (Or.inr ⟨rfl, heq ▸ hrun, _, rfl⟩))
      · cases hn
    · cases hn
  · split at hn
    · cases hn
      exact Or.inl ⟨rfl, by simp, by simp, by simp⟩
    · cases hn
  · split at hn
    · cases hn
      exact Or.inl ⟨rfl, by simp, by simp, by simp⟩
    · cases hn
  · split at hn
    · cases hn
      exact Or.inl ⟨rfl, by simp, by simp, by simp⟩
    · cases hn
  · cases hn

/-- **A step of `ServeHTTP` keeps what is known of its own channel.** -/
theorem ServeInv.next (hb : BrokerInv b) (hi : ServeInv b ch h) {a : ServeAction}
    (hn : h.next b ch a = some (h', met)) (hs : b.sync met = some b') : ServeInv b' ch h' := by
  have hf := Broker.sync_frame hs
  cases a with
  | flush =>
      rw [ServeHTTP.next] at hn
      split at hn
      · rename_i hstage
        cases hn
        obtain rfl := Option.some.inj hs
        exact ⟨le_refl _, fun _ => hi.early (by simp [hstage, ServeStage.Early]),
          fun hopen => hopen.elim⟩
      · cases hn
  | register =>
      rw [ServeHTTP.next] at hn
      split at hn
      · rename_i hstage
        cases hn
        obtain ⟨hnone, hwritten⟩ := hi.early (by simp [hstage, ServeStage.Early])
        obtain ⟨-, -, rfl⟩ := runStep_register.mp hs
        have hreceived : b.received ch = [] :=
          (List.append_eq_nil_iff.mp ((hb.chans ch).fresh hnone).2).1
        refine ⟨hi.opened, fun hearly => hearly.elim, fun _ => ⟨by simp, ?_⟩⟩
        show b.received ch = h.written ++ []
        rw [hreceived, hwritten, List.append_nil]
      · cases hn
  | connected =>
      rw [ServeHTTP.next] at hn
      split at hn
      · rename_i hstage
        cases hn
        obtain rfl := Option.some.inj hs
        refine ⟨hi.opened, fun hearly => hearly.elim, fun _ => ?_⟩
        simpa [hstage, ServeStage.IsOpen, ServeStage.inHand] using hi.isOpen
      · cases hn
  | receive =>
      rw [ServeHTTP.next] at hn
      split at hn
      · rename_i event rest hstage hbuffer
        cases hn
        obtain ⟨hjoined, hreceived⟩ := hi.isOpen (by simp [hstage, ServeStage.IsOpen])
        obtain ⟨event', rest', hbuffer', rfl⟩ := runStep_receive.mp hs
        obtain ⟨rfl, rfl⟩ := List.cons.inj (hbuffer.symm.trans hbuffer')
        refine ⟨hi.opened, fun hearly => hearly.elim, fun _ => ⟨hjoined, ?_⟩⟩
        rw [hstage] at hreceived
        have hwritten : b.received ch = h.written := hreceived.trans (List.append_nil _)
        simp [Broker.setChan, hwritten, ServeStage.inHand]
      · cases hn
  | write =>
      rw [ServeHTTP.next] at hn
      split at hn
      · rename_i event hstage
        cases hn
        obtain rfl := Option.some.inj hs
        refine ⟨hi.opened, fun hearly => hearly.elim, fun _ => ?_⟩
        simpa [hstage, ServeStage.IsOpen, ServeStage.inHand] using hi.isOpen
      · cases hn
  | flushFails | refused | channelClosed | writeFails | leave | unregister | abandon =>
      -- the connection is over
      rw [ServeHTTP.next] at hn
      split at hn
      · cases hn
        exact ⟨hi.opened.trans hf.taken.length_le, fun hearly => hearly.elim,
          fun hopen => hopen.elim⟩
      · cases hn

/-- After a caller's step too, `Run` owes the count to the one that waits for it. -/
theorem HubInv.caller_reply {s : Hub} (hi : HubInv s) {caller : CallerId} {c c' : CallStage}
    (hc : s.callers caller = some c)
    (hmet : (met = none ∧ c ≠ .reply ∧ c' ≠ .reply ∧ c' ≠ .shutdown) ∨
      (∃ event, met = some (.broadcast event) ∧ c ≠ .reply ∧ c' = .returned) ∨
      (met = some (.countReq caller) ∧ c' = .reply) ∨
      (met = some .reply ∧ s.broker.run = .reply caller ∧ ∃ n, c' = .counted n))
    (hb : s.broker.sync met = some b) (caller' : CallerId) :
    b.run = .reply caller' ↔ Function.update s.callers caller (some c') caller' = some .reply := by
  have hf := Broker.sync_frame hb
  have hold := hi.reply caller'
  rcases hmet with ⟨rfl, hne, hne', -⟩ | ⟨event, rfl, hne, rfl⟩ | ⟨rfl, rfl⟩ | ⟨rfl, hrun, n, rfl⟩
  · rw [hf.reply (by simp) (by simp), hold]
    by_cases heq : caller' = caller
    · subst heq
      simp [hc, hne, hne']
    · simp [heq]
  · rw [hf.reply (by simp) (by simp), hold]
    by_cases heq : caller' = caller
    · subst heq
      simp [hc, hne]
    · simp [heq]
  · -- `Run` comes from its `select`, so nobody waited
    obtain ⟨hrun, rfl⟩ := runStep_countReq.mp hb
    by_cases heq : caller' = caller
    · subst heq
      simp
    · simpa [heq, Ne.symm heq, hrun] using hold
  · obtain ⟨-, -, rfl⟩ := runStep_reply.mp hb
    by_cases heq : caller' = caller
    · subst heq
      simp
    · simpa [heq, Ne.symm heq, hrun] using hold

/-- A new handler has not asked for its channel. -/
theorem HubInv.request {s s' : Hub} (hi : HubInv s) (hs : hubStep s (.request ch) = some s') :
    HubInv s' := by
  obtain ⟨hnone, rfl⟩ := hubStep_request.mp hs
  refine ⟨hi.broker, fun ch' hnone' => ?_, fun ch' h hh => ?_, hi.reply, hi.shutdown⟩
  · by_cases hne : ch' = ch
    · subst hne
      exact hi.absent ch' hnone
    · exact hi.absent ch' (by simpa [hne] using hnone')
  · by_cases hne : ch' = ch
    · subst hne
      obtain rfl : _ = h := by simpa using hh
      exact ⟨Nat.zero_le _, fun _ => ⟨hi.absent ch' hnone, rfl⟩, fun hopen => hopen.elim⟩
    · exact hi.handlers ch' h (by simpa [hne] using hh)

/-- A step of a handler, with the step of `Run` that it meets. -/
theorem HubInv.serve {s s' : Hub} (hi : HubInv s) {a : ServeAction}
    (hs : hubStep s (.serve ch a) = some s') : HubInv s' := by
  obtain ⟨h, h', met, b, hh, hn, hb, rfl⟩ := hubStep_serve.mp hs
  have hf := Broker.sync_frame hb
  have hmet := ServeHTTP.next_met hn
  -- the step of `Run` that is met concerns this channel only
  have hother : ∀ ch', ch' ≠ ch → met ≠ some (.register ch') ∧ met ≠ some (.receive ch') := by
    intro ch' hne
    rcases hmet with rfl | rfl | rfl | rfl <;> simp [Ne.symm hne]
  refine ⟨hi.broker.sync hb, fun ch' hnone => ?_, fun ch' h₁ hh₁ => ?_, fun caller => ?_,
    fun caller hc => hf.shutdown (hi.shutdown caller hc)⟩
  · have hne : ch' ≠ ch := by
      rintro rfl
      simp at hnone
    rw [hf.joined ch' (hother ch' hne).1]
    exact hi.absent ch' (by simpa [hne] using hnone)
  · by_cases hne : ch' = ch
    · subst hne
      obtain rfl : h' = h₁ := by simpa using hh₁
      exact (hi.handlers ch' h hh).next hi.broker hn hb
    · exact (hi.handlers ch' h₁ (by simpa [hne] using hh₁)).frame hf (hother ch' hne).1
        (hother ch' hne).2
  · rw [hf.reply (by rcases hmet with rfl | rfl | rfl | rfl <;> simp)
      (fun _ => by rcases hmet with rfl | rfl | rfl | rfl <;> simp)]
    exact hi.reply caller

theorem HubInv.call {s s' : Hub} (hi : HubInv s) {caller : CallerId} {op : Operation}
    (hs : hubStep s (.call caller op) = some s') : HubInv s' := by
  obtain ⟨hnone, b, hb, rfl⟩ := hubStep_call.mp hs
  have hf := Broker.sync_frame hb
  have hmet : op.start.2 = none ∨ op.start.2 = some .closeShutdown := by
    cases op <;> simp [Operation.start]
  have hstart : op.start.1 ≠ .reply := by
    cases op <;> simp [Operation.start]
  refine ⟨hi.broker.sync hb, fun ch hnone' => ?_, fun ch h hh => ?_, fun caller' => ?_,
    fun caller' hc => ?_⟩
  · rw [hf.joined ch (by rcases hmet with hmet | hmet <;> simp [hmet])]
    exact hi.absent ch hnone'
  · exact (hi.handlers ch h hh).frame hf (by rcases hmet with hmet | hmet <;> simp [hmet])
      (by rcases hmet with hmet | hmet <;> simp [hmet])
  · rw [hf.reply (by rcases hmet with hmet | hmet <;> simp [hmet])
      (fun _ => by rcases hmet with hmet | hmet <;> simp [hmet]), hi.reply]
    by_cases hne : caller' = caller
    · subst hne
      simp [hnone, hstart]
    · simp [hne]
  · by_cases hne : caller' = caller
    · subst hne
      cases op with
      | shutdown =>
          obtain rfl := Option.some.inj hb
          rfl
      | _ => simp [Operation.start] at hc
    · exact hf.shutdown (hi.shutdown caller' (by simpa [hne] using hc))

/-- A step of a caller, with the step of `Run` that it meets. -/
theorem HubInv.caller {s s' : Hub} (hi : HubInv s) {caller : CallerId} {a : CallAction}
    (hs : hubStep s (.caller caller a) = some s') : HubInv s' := by
  obtain ⟨c, c', met, b, hc, hn, hb, rfl⟩ := hubStep_caller.mp hs
  have hf := Broker.sync_frame hb
  have hmet := CallStage.next_met hn
  have hregister : ∀ ch, met ≠ some (.register ch) := by
    rcases hmet with ⟨rfl, -⟩ | ⟨event, rfl, -⟩ | ⟨rfl, -⟩ | ⟨rfl, -⟩ <;> simp
  have hreceive : ∀ ch, met ≠ some (.receive ch) := by
    rcases hmet with ⟨rfl, -⟩ | ⟨event, rfl, -⟩ | ⟨rfl, -⟩ | ⟨rfl, -⟩ <;> simp
  refine ⟨hi.broker.sync hb, fun ch hnone => ?_, fun ch h hh => ?_, fun caller' => ?_,
    fun caller' hc' => ?_⟩
  · rw [hf.joined ch (hregister ch)]
    exact hi.absent ch hnone
  · exact (hi.handlers ch h hh).frame hf (hregister ch) (hreceive ch)
  · exact hi.caller_reply hc hmet hb caller'
  · by_cases hne : caller' = caller
    · subst hne
      obtain rfl : c' = .shutdown := by simpa using hc'
      rcases hmet with ⟨-, -, -, h⟩ | ⟨event, -, -, h⟩ | ⟨-, h⟩ | ⟨-, -, n, h⟩
      · exact absurd rfl h
      all_goals cases h
    · exact hf.shutdown (hi.shutdown caller' (by simpa [hne] using hc'))

/-- A step of `Run` that meets nobody. -/
theorem HubInv.run {s s' : Hub} (hi : HubInv s) {a : RunAction} (hs : hubStep s (.run a) = some s') :
    HubInv s' := by
  obtain ⟨hown, b, hb, rfl⟩ := hubStep_run.mp hs
  have hf := runStep_frame hb
  refine ⟨hi.broker.step hb, fun ch hnone => ?_, fun ch h hh => ?_, fun caller => ?_,
    fun caller hc => hf.shutdown (hi.shutdown caller hc)⟩
  · rw [hf.joined ch (by rintro ⟨⟩; cases hown)]
    exact hi.absent ch hnone
  · exact (hi.handlers ch h hh).frame hf (by rintro ⟨⟩; cases hown) (by rintro ⟨⟩; cases hown)
  · rw [hf.reply (by rintro ⟨⟩; cases hown) (by rintro _ ⟨⟩; cases hown)]
    exact hi.reply caller

/-- **Every step keeps the invariant.** -/
theorem HubInv.step {s s' : Hub} (hi : HubInv s) {a : HubAction} (hs : hubStep s a = some s') :
    HubInv s' := by
  cases a with
  | request ch => exact hi.request hs
  | serve ch a => exact hi.serve hs
  | call caller op => exact hi.call hs
  | caller caller a => exact hi.caller hs
  | run a => exact hi.run hs

theorem hubInv_new : HubInv Hub.new :=
  ⟨brokerInv_new, fun _ _ => rfl, by simp [Hub.new], by simp [Hub.new, Broker.new],
    by simp [Hub.new]⟩

/-- A step of the hub is at most one step of `Run`; it registers a channel only for the handler
that asks for it. -/
theorem hubStep_broker {s s' : Hub} {a : HubAction} (hs : hubStep s a = some s') :
    ∃ met, s.broker.sync met = some s'.broker ∧
      ∀ ch, met = some (.register ch) → a = .serve ch .register := by
  cases a with
  | request ch =>
      obtain ⟨-, rfl⟩ := hubStep_request.mp hs
      exact ⟨none, rfl, by simp⟩
  | serve ch a =>
      obtain ⟨h, h', met, b, hh, hn, hb, rfl⟩ := hubStep_serve.mp hs
      refine ⟨met, hb, ?_⟩
      rintro ch' rfl
      cases a <;> rw [ServeHTTP.next] at hn <;> split at hn <;> cases hn
      rfl
  | call caller op =>
      obtain ⟨-, b, hb, rfl⟩ := hubStep_call.mp hs
      exact ⟨op.start.2, hb, by cases op <;> simp [Operation.start]⟩
  | caller caller a =>
      obtain ⟨c, c', met, b, hc, hn, hb, rfl⟩ := hubStep_caller.mp hs
      refine ⟨met, hb, ?_⟩
      rintro ch rfl
      rcases CallStage.next_met hn with ⟨h, -⟩ | ⟨event, h, -⟩ | ⟨h, -⟩ | ⟨h, -⟩ <;> cases h
  | run a =>
      obtain ⟨hown, b, hb, rfl⟩ := hubStep_run.mp hs
      refine ⟨some a, hb, ?_⟩
      rintro ch ⟨⟩
      cases hown

/-! ### What an open stream misses -/

/-- Every event that `Run` took since the client could see the response is written to it, or on
its way. A connection whose channel is closed is about to end. -/
def Hub.MissesNothing (s : Hub) : Prop :=
  ∀ ch h, s.handlers ch = some h → h.stage.IsOpen → (s.broker.chans ch).closed = false →
    h.written ++ h.stage.inHand ++ (s.broker.chans ch).buffer ++ s.broker.pending ch =
      s.broker.taken.drop h.opened

/-- A channel is registered before `Run` takes another event than it had taken at the first
flush. -/
def Hub.InTime (s : Hub) : HubAction → Prop
  | .serve ch .register => ∀ h, s.handlers ch = some h → h.opened = s.broker.taken.length
  | _ => True

theorem drop_inj {α : Type*} {l : List α} {m n : Nat} (hm : m ≤ l.length) (hn : n ≤ l.length)
    (h : l.drop m = l.drop n) : m = n := by
  have hlength := congrArg List.length h
  rw [List.length_drop, List.length_drop] at hlength
  omega

/-- What an open stream gets begins where its channel was registered. -/
theorem HubInv.missesNothing_joined {s : Hub} (hi : HubInv s) :
    s.MissesNothing ↔ ∀ ch h, s.handlers ch = some h → h.stage.IsOpen →
      (s.broker.chans ch).closed = false → s.broker.joined ch = some h.opened := by
  refine forall₅_congr fun ch h hh hopen hclosed => ?_
  have hserve := hi.handlers ch h hh
  obtain ⟨hjoined, hreceived⟩ := hserve.isOpen hopen
  obtain ⟨n, hn⟩ := Option.ne_none_iff_exists'.mp hjoined
  have hchan := hi.broker.chans ch
  have hmem : ch ∈ s.broker.clients := hchan.client.mpr ⟨by rw [hn]; rfl, hclosed⟩
  have hwhole := hi.broker.whole ch hmem n hn
  rw [Broker.accepted, hreceived] at hwhole
  rw [hwhole, hn, Option.some_inj]
  exact ⟨drop_inj (hchan.block n hn).1 hserve.opened, fun h => by rw [h]⟩

/-- A stream that is open after a step was open before, or has just been registered. -/
theorem ServeHTTP.next_isOpen {a : ServeAction} (hn : h.next b ch a = some (h', met))
    (ha : a ≠ .register) (hopen : h'.stage.IsOpen) : h.stage.IsOpen ∧ h'.opened = h.opened := by
  cases a with
  | register => exact absurd rfl ha
  | connected | receive | write =>
      rw [next] at hn
      split at hn
      · rename_i hstage
        cases hn
        simp_all [ServeStage.IsOpen]
      · cases hn
  | flush | flushFails | refused | channelClosed | writeFails | leave | unregister | abandon =>
      rw [next] at hn
      split at hn
      · cases hn
        exact hopen.elim
      · cases hn

theorem hubStep_isOpen {s s' : Hub} {a : HubAction} (hs : hubStep s a = some s')
    (ha : a ≠ .serve ch .register) (hh' : s'.handlers ch = some h') (hopen : h'.stage.IsOpen) :
    ∃ h, s.handlers ch = some h ∧ h.stage.IsOpen ∧ h.opened = h'.opened := by
  cases a with
  | request ch₁ =>
      obtain ⟨-, rfl⟩ := hubStep_request.mp hs
      by_cases hne : ch = ch₁
      · subst hne
        obtain rfl : _ = h' := by simpa using hh'
        exact hopen.elim
      · exact ⟨h', by simpa [hne] using hh', hopen, rfl⟩
  | serve ch₁ a =>
      obtain ⟨h, h₁, met, b, hh, hn, hb, rfl⟩ := hubStep_serve.mp hs
      by_cases hne : ch = ch₁
      · subst hne
        obtain rfl : h₁ = h' := by simpa using hh'
        -- only a registration opens a stream, and `opened` is set once, by the first flush
        obtain ⟨hopen₀, hopened⟩ := ServeHTTP.next_isOpen hn (by rintro rfl; exact ha rfl) hopen
        exact ⟨h, hh, hopen₀, hopened.symm⟩
      · exact ⟨h', by simpa [hne] using hh', hopen, rfl⟩
  | call caller op =>
      obtain ⟨-, b, -, rfl⟩ := hubStep_call.mp hs
      exact ⟨h', hh', hopen, rfl⟩
  | caller caller a =>
      obtain ⟨c, c', met, b, -, -, -, rfl⟩ := hubStep_caller.mp hs
      exact ⟨h', hh', hopen, rfl⟩
  | run a =>
      obtain ⟨-, b, -, rfl⟩ := hubStep_run.mp hs
      exact ⟨h', hh', hopen, rfl⟩

theorem Broker.sync_open (hs : b.sync met = some b') (hopen : (b'.chans ch).closed = false) :
    (b.chans ch).closed = false := by
  cases met with
  | none =>
      obtain rfl := Option.some.inj hs
      exact hopen
  | some a =>
      by_contra hclosed
      have hclosed' := (runStep_closed hs (Bool.eq_true_of_not_eq_false hclosed)).1
      cases hclosed'.symm.trans hopen

/-- The streams that a step does not open miss nothing after it. -/
theorem HubInv.kept {s s' : Hub} (hi : HubInv s) (hm : s.MissesNothing) {a : HubAction}
    (hs : hubStep s a = some s') (ha : a ≠ .serve ch .register) (hh' : s'.handlers ch = some h')
    (hopen : h'.stage.IsOpen) (hclosed : (s'.broker.chans ch).closed = false) :
    s'.broker.joined ch = some h'.opened := by
  obtain ⟨met, hb, hregister⟩ := hubStep_broker hs
  obtain ⟨h, hh, hopen₀, hopened⟩ := hubStep_isOpen hs ha hh' hopen
  rw [(Broker.sync_frame hb).joined ch fun hmet => ha (hregister ch hmet), ← hopened]
  exact hi.missesNothing_joined.mp hm ch h hh hopen₀ (Broker.sync_open hb hclosed)

/-- A registration: it is in time, or the stream misses what was taken since the first flush. -/
theorem HubInv.register_iff {s s' : Hub} (hi : HubInv s) (hm : s.MissesNothing)
    (hs : hubStep s (.serve ch .register) = some s') :
    s'.MissesNothing ↔ s.InTime (.serve ch .register) := by
  rw [(hi.step hs).missesNothing_joined]
  have hkept := fun ch' (hne : HubAction.serve ch .register ≠ .serve ch' .register) h'
    (hh' : s'.handlers ch' = some h') => hi.kept hm hs hne hh'
  obtain ⟨h, h', met, b, hh, hn, hb, rfl⟩ := hubStep_serve.mp hs
  rw [ServeHTTP.next] at hn
  split at hn
  swap
  · cases hn
  rename_i hstage
  cases hn
  obtain ⟨-, hnew, rfl⟩ := runStep_register.mp hb
  -- the channel joins at the events taken by now, the stream was opened at those taken then
  constructor
  · intro hall h₁ hh₁
    obtain rfl := Option.some.inj (hh.symm.trans hh₁)
    have hopen := ((hi.broker.chans ch).fresh hnew).1
    have hjoined : Function.update s.broker.joined ch (some s.broker.taken.length) ch =
        some h.opened := hall ch { h with stage := .registered } (by simp) trivial hopen
    rw [Function.update_self] at hjoined
    exact (Option.some.inj hjoined).symm
  · intro hintime ch' h₁ hh₁ hopen hclosed
    by_cases hne : ch' = ch
    · subst hne
      obtain rfl : _ = h₁ := by simpa using hh₁
      have hopened : h.opened = s.broker.taken.length := hintime h hh
      simp [hopened]
    · exact hkept ch' (by simpa using Ne.symm hne) h₁ hh₁ hopen hclosed

/-- **An open stream misses nothing, exactly as long as registrations are in time.** -/
theorem missesNothing_iff {run : List HubAction} :
    (∀ tr ∈ transitions hubStep Hub.new run, tr.post.MissesNothing) ↔
      ∀ tr ∈ transitions hubStep Hub.new run, tr.pre.InTime tr.act := by
  have hstep : ∀ {s : Hub} {a : HubAction} {s' : Hub}, HubInv s → s.MissesNothing →
      hubStep s a = some s' → (s'.MissesNothing ↔ s.InTime a) := by
    intro s a s' hi hm hs
    -- any other action leaves every open stream as it was
    by_cases hregister : ∃ ch, a = .serve ch .register
    · obtain ⟨ch, rfl⟩ := hregister
      exact hi.register_iff hm hs
    · have hne : ∀ ch, a ≠ .serve ch .register := fun ch heq => hregister ⟨ch, heq⟩
      have hintime : s.InTime a := by
        unfold Hub.InTime
        split
        · exact absurd rfl (hne _)
        · trivial
      refine iff_of_true ?_ hintime
      rw [(hi.step hs).missesNothing_joined]
      exact fun ch h' hh' hopen hclosed => hi.kept hm hs (hne ch) hh' hopen hclosed
  refine transitions_iff (I := HubInv) (P := Hub.MissesNothing)
    (Q := fun _ _ s' => s'.MissesNothing) (C := Hub.InTime) (fun hi hs => hi.step hs) hstep
    (fun hi hm hs hc => (hstep hi hm hs).mpr hc) hubInv_new ?_
  intro ch h hh
  cases hh

/-- Between a handler's first flush and its registration `Run` takes an event, and finds no
client to offer it to. -/
def missedEvent (event : SSEEvent) : List HubAction :=
  [ .request 0, .serve 0 .flush, .call 0 (.broadcast event), .caller 0 .send, .run .endFanout,
    .serve 0 .register, .serve 0 .connected ]

theorem missedEvent_missed :
    ∃ s, exec hubStep Hub.new (missedEvent ⟨"flag_updated", .null, 1⟩) = some s ∧
      ¬ s.MissesNothing := by
  refine ⟨_, rfl, fun hm => ?_⟩
  have hlost := hm 0 ⟨.streaming, 0, []⟩ rfl trivial rfl
  cases hlost

/-! ### Nobody waits for somebody who will not come -/

/-- The steps that `Run` takes by itself or with the one caller it owes a count. -/
def HubAction.ofRun : HubAction → Bool
  | .run _ | .caller _ .reply => true
  | _ => false

/-- A party is parked on a step with `Run`. -/
def Hub.Asks (s : Hub) : HubAction → Prop
  | .serve ch .register => ∃ h, s.handlers ch = some h ∧ h.stage = .flushed
  | .serve ch .unregister => ∃ h, s.handlers ch = some h ∧ h.stage = .leaving
  | .caller caller .send => (∃ event, s.callers caller = some (.broadcast event)) ∨
      s.callers caller = some .countReq
  | .run .shutdown => ∃ caller, s.callers caller = some .shutdown
  | _ => False

/-- At one of its two `select`s with `<-b.done`. -/
def ServeStage.Parked : ServeStage → Prop
  | flushed | leaving => True
  | _ => False

def CallStage.Returned : CallStage → Prop
  | returned | counted _ => True
  | _ => False

structure Hub.NeverStuck (s : Hub) : Prop where
  /-- Inside of a case, `Run` has a step. -/
  busy : s.broker.run ≠ .select → s.broker.isDone = false →
    ∃ a s', a.ofRun = true ∧ hubStep s a = some s'
  /-- Such steps lead back to the `select`, or to the end. -/
  answers : ∃ as s', (∀ a ∈ as, a.ofRun = true) ∧ exec hubStep s as = some s' ∧
    (s'.broker.run = .select ∨ s'.broker.isDone = true)
  /-- At the `select` it takes whoever asks. -/
  select : s.broker.run = .select → ∀ a, s.Asks a → ∃ s', hubStep s a = some s'
  clients : s.broker.isDone = true → s.broker.clients = ∅
  closed : s.broker.isDone = true → ∀ ch, s.broker.joined ch ≠ none →
    (s.broker.chans ch).closed = true
  /-- After the end a parked handler returns, -/
  handlers : s.broker.isDone = true → ∀ ch h, s.handlers ch = some h → h.stage.Parked →
    ∃ a s' h', hubStep s (.serve ch a) = some s' ∧ s'.handlers ch = some h' ∧ h'.stage = .returned
  /-- so does a caller, -/
  callers : s.broker.isDone = true → ∀ caller c, s.callers caller = some c → ¬ c.Returned →
    ∃ s' c', hubStep s (.caller caller .done) = some s' ∧ s'.callers caller = some c' ∧ c'.Returned
  /-- and so it is for those who come later. -/
  stays : s.broker.isDone = true → ∀ a s', hubStep s a = some s' → s'.broker.isDone = true

/-- How many steps `Run` is from its `select`, or from its end. -/
def Broker.work (b : Broker) : Nat :=
  match b.run with
  | .fanout _ todo => todo.card + 1
  | .reply _ => 1
  | .drain => b.clients.card + 1
  | _ => 0

theorem Broker.isDone_iff : b.isDone = true ↔ b.run = .stopped := by
  unfold isDone
  split
  · rename_i hrun
    simp [hrun]
  · rename_i hrun
    simpa using hrun

theorem HubInv.busy {s : Hub} (hi : HubInv s) (hselect : s.broker.run ≠ .select)
    (hdone : s.broker.isDone = false) : ∃ a s', a.ofRun = true ∧ hubStep s a = some s' := by
  cases hrun : s.broker.run with
  | select => exact absurd hrun hselect
  | fanout event todo =>
      by_cases hempty : todo = ∅
      · subst hempty
        exact ⟨.run .endFanout, _, rfl,
          hubStep_run.mpr ⟨rfl, _, runStep_endFanout.mpr ⟨event, hrun, rfl⟩, rfl⟩⟩
      · obtain ⟨ch, hch⟩ := Finset.nonempty_iff_ne_empty.mpr hempty
        exact ⟨.run (.offer ch), _, rfl,
          hubStep_run.mpr ⟨rfl, _, runStep_offer.mpr ⟨event, todo, hrun, hch, rfl⟩, rfl⟩⟩
  | reply caller =>
      -- the caller is at `<-reply`
      have hc := (hi.reply caller).mp hrun
      have hn : CallStage.reply.next s.broker caller .reply =
          some (.counted s.broker.clients.card, some .reply) := by
        simp [CallStage.next, hrun]
      exact ⟨.caller caller .reply, _, rfl,
        hubStep_caller.mpr ⟨_, _, _, _, hc, hn, runStep_reply.mpr ⟨caller, hrun, rfl⟩, rfl⟩⟩
  | drain =>
      by_cases hempty : s.broker.clients = ∅
      · exact ⟨.run .done, _, rfl,
          hubStep_run.mpr ⟨rfl, _, runStep_done.mpr ⟨hrun, hempty, rfl⟩, rfl⟩⟩
      · obtain ⟨ch, hch⟩ := Finset.nonempty_iff_ne_empty.mpr hempty
        exact ⟨.run (.drop ch), _, rfl,
          hubStep_run.mpr ⟨rfl, _, runStep_drop.mpr ⟨hrun, hch, rfl⟩, rfl⟩⟩
  | stopped =>
      rw [Broker.isDone_iff.mpr hrun] at hdone
      cases hdone
  | panicked => exact absurd hrun hi.broker.running

theorem Broker.work_drop : (b.drop ch).work ≤ b.work := by
  unfold drop
  split
  · exact Nat.zero_le _
  · unfold work
    cases hrun : b.run with
    | drain => simpa [setChan, hrun] using Finset.card_le_card (Finset.erase_subset ch b.clients)
    | _ => simp [setChan]

theorem Broker.work_offer {event : SSEEvent} : (b.offer ch event).work ≤ b.work := by
  unfold offer
  split
  · exact Nat.zero_le _
  split
  · exact le_refl _
  · exact work_drop

/-- **Each of these steps brings `Run` nearer to its `select` or its end.** -/
theorem HubInv.work_lt {s s' : Hub} (hi : HubInv s) {a : HubAction} (ha : a.ofRun = true)
    (hselect : s.broker.run ≠ .select) (hs : hubStep s a = some s') :
    s'.broker.work < s.broker.work := by
  unfold HubAction.ofRun at ha
  split at ha
  · rename_i a
    obtain ⟨hown, b, hb, rfl⟩ := hubStep_run.mp hs
    cases a with
    | offer ch =>
        obtain ⟨event, todo, hrun, hch, rfl⟩ := runStep_offer.mp hb
        -- an offer takes one channel off the `range`, and a full one off the map with it
        have hle : ({ s.broker with run := .fanout event (todo.erase ch) }.offer ch event).work ≤
            (todo.erase ch).card + 1 := Broker.work_offer
        have hlt := Finset.card_erase_lt_of_mem hch
        have hwork : s.broker.work = todo.card + 1 := by
          simp [Broker.work, hrun]
        rw [hwork]
        exact lt_of_le_of_lt hle (by omega)
    | endFanout =>
        obtain ⟨event, hrun, rfl⟩ := runStep_endFanout.mp hb
        simp [Broker.work, hrun]
    | shutdown => exact absurd (runStep_shutdown.mp hb).1 hselect
    | drop ch =>
        obtain ⟨hrun, hmem, rfl⟩ := runStep_drop.mp hb
        have hlt := Finset.card_erase_lt_of_mem hmem
        rw [Broker.drop_of_open ((hi.broker.chans ch).open_of_mem hmem)]
        simp only [Broker.work, Broker.setChan, hrun]
        omega
    | done =>
        obtain ⟨hrun, hempty, rfl⟩ := runStep_done.mp hb
        simp [Broker.work, hrun]
    | _ => cases hown
  · rename_i caller
    obtain ⟨c, c', met, b, hc, hn, hb, rfl⟩ := hubStep_caller.mp hs
    cases c with
    | reply =>
        rw [CallStage.next] at hn
        split at hn
        · rename_i caller' hrun
          split at hn
          · cases hn
            obtain ⟨-, -, rfl⟩ := runStep_reply.mp hb
            simp [Broker.work, hrun]
          · cases hn
        · cases hn
    | _ => cases hn
  · cases ha

/-- `Run` finds back to its `select`, or comes to its end. -/
theorem HubInv.answers {s : Hub} (hi : HubInv s) :
    ∃ as s', (∀ a ∈ as, a.ofRun = true) ∧ exec hubStep s as = some s' ∧
      (s'.broker.run = .select ∨ s'.broker.isDone = true) := by
  -- by induction on the work left: `busy` always has a step that lessens it
  induction hwork : s.broker.work using Nat.strong_induction_on generalizing s with
  | _ n ih =>
      by_cases hselect : s.broker.run = .select
      · exact ⟨[], s, by simp, rfl, Or.inl hselect⟩
      cases hdone : s.broker.isDone with
      | true => exact ⟨[], s, by simp, rfl, Or.inr hdone⟩
      | false =>
          obtain ⟨a, s₁, ha, hs⟩ := hi.busy hselect hdone
          have hlt := hi.work_lt ha hselect hs
          obtain ⟨as, s', has, hexec, hend⟩ := ih _ (hwork ▸ hlt) (hi.step hs) rfl
          exact ⟨a :: as, s', List.forall_mem_cons.mpr ⟨ha, has⟩,
            exec_cons_eq_some.mpr ⟨s₁, hs, hexec⟩, hend⟩

theorem HubInv.select {s : Hub} (hi : HubInv s) (hrun : s.broker.run = .select) {a : HubAction}
    (ha : s.Asks a) : ∃ s', hubStep s a = some s' := by
  unfold Hub.Asks at ha
  -- `select` takes whichever of the five comes
  split at ha
  · rename_i ch
    obtain ⟨h, hh, hstage⟩ := ha
    have hnew := ((hi.handlers ch h hh).early (by simp [hstage, ServeStage.Early])).1
    have hn : h.next s.broker ch .register =
        some ({ h with stage := .registered }, some (.register ch)) := by
      simp [ServeHTTP.next, hstage]
    exact ⟨_, hubStep_serve.mpr ⟨_, _, _, _, hh, hn, runStep_register.mpr ⟨hrun, hnew, rfl⟩, rfl⟩⟩
  · rename_i ch
    obtain ⟨h, hh, hstage⟩ := ha
    have hn : h.next s.broker ch .unregister =
        some ({ h with stage := .returned }, some (.unregister ch)) := by
      simp [ServeHTTP.next, hstage]
    exact ⟨_, hubStep_serve.mpr ⟨_, _, _, _, hh, hn, runStep_unregister.mpr ⟨hrun, rfl⟩, rfl⟩⟩
  · rename_i caller
    rcases ha with ⟨event, hc⟩ | hc
    · exact ⟨_, hubStep_caller.mpr ⟨_, _, _, _, hc, rfl, runStep_broadcast.mpr ⟨hrun, rfl⟩, rfl⟩⟩
    · exact ⟨_, hubStep_caller.mpr ⟨_, _, _, _, hc, rfl, runStep_countReq.mpr ⟨hrun, rfl⟩, rfl⟩⟩
  · obtain ⟨caller, hc⟩ := ha
    exact ⟨_, hubStep_run.mpr
      ⟨rfl, _, runStep_shutdown.mpr ⟨hrun, hi.shutdown caller hc, rfl⟩, rfl⟩⟩
  · exact ha.elim

theorem HubInv.handlers_return {s : Hub} {h : ServeHTTP} (hdone : s.broker.isDone = true)
    (hh : s.handlers ch = some h) (hparked : h.stage.Parked) :
    ∃ a s' h', hubStep s (.serve ch a) = some s' ∧ s'.handlers ch = some h' ∧
      h'.stage = .returned := by
  cases hstage : h.stage with
  | flushed =>
      have hn : h.next s.broker ch .refused = some ({ h with stage := .returned }, none) := by
        simp [ServeHTTP.next, hstage, hdone]
      exact ⟨.refused, _, _, hubStep_serve.mpr ⟨_, _, _, _, hh, hn, rfl, rfl⟩,
        Function.update_self .., rfl⟩
  | leaving =>
      have hn : h.next s.broker ch .abandon = some ({ h with stage := .returned }, none) := by
        simp [ServeHTTP.next, hstage, hdone]
      exact ⟨.abandon, _, _, hubStep_serve.mpr ⟨_, _, _, _, hh, hn, rfl, rfl⟩,
        Function.update_self .., rfl⟩
  | _ =>
      rw [hstage] at hparked
      exact hparked.elim

theorem HubInv.callers_return {s : Hub} (hi : HubInv s) {caller : CallerId} {c : CallStage}
    (hdone : s.broker.isDone = true) (hc : s.callers caller = some c) (hparked : ¬ c.Returned) :
    ∃ s' c', hubStep s (.caller caller .done) = some s' ∧ s'.callers caller = some c' ∧
      c'.Returned := by
  cases c with
  | broadcast event =>
      have hn : (CallStage.broadcast event).next s.broker caller .done =
          some (.returned, none) := by
        simp [CallStage.next, hdone]
      exact ⟨_, _, hubStep_caller.mpr ⟨_, _, _, _, hc, hn, rfl, rfl⟩, Function.update_self ..,
        trivial⟩
  | countReq =>
      have hn : CallStage.countReq.next s.broker caller .done = some (.counted 0, none) := by
        simp [CallStage.next, hdone]
      exact ⟨_, _, hubStep_caller.mpr ⟨_, _, _, _, hc, hn, rfl, rfl⟩, Function.update_self ..,
        trivial⟩
  | reply =>
      -- a caller at `<-reply` is owed the count by a `Run` that is alive
      have hrun := (hi.reply caller).mpr hc
      cases hrun.symm.trans (Broker.isDone_iff.mp hdone)
  | shutdown =>
      have hn : CallStage.shutdown.next s.broker caller .done = some (.returned, none) := by
        simp [CallStage.next, hdone]
      exact ⟨_, _, hubStep_caller.mpr ⟨_, _, _, _, hc, hn, rfl, rfl⟩, Function.update_self ..,
        trivial⟩
  | returned | counted n => exact absurd trivial hparked

/-- `Run` does not come back. -/
theorem runStep_stopped {a : RunAction} (hs : runStep b a = some b') (hdone : b.isDone = true) :
    b'.isDone = true := by
  have hrun := Broker.isDone_iff.mp hdone
  cases a with
  | receive ch =>
      obtain ⟨event, rest, -, rfl⟩ := runStep_receive.mp hs
      exact hdone
  | closeShutdown =>
      obtain rfl := Option.some.inj hs
      exact hdone
  | _ => simp [runStep, hrun] at hs

theorem hubStep_stopped {s s' : Hub} {a : HubAction} (hdone : s.broker.isDone = true)
    (hs : hubStep s a = some s') : s'.broker.isDone = true := by
  obtain ⟨met, hb, -⟩ := hubStep_broker hs
  cases met with
  | none =>
      rw [← Option.some.inj hb]
      exact hdone
  | some a => exact runStep_stopped hb hdone

/-- **Nobody in the hub is ever stuck.** -/
theorem hub_neverStuck {run : List HubAction} {s : Hub} (h : exec hubStep Hub.new run = some s) :
    s.NeverStuck := by
  have hi : HubInv s := exec_preserves (fun hi hs => hi.step hs) hubInv_new h
  have hempty := fun hdone => hi.broker.drained (Broker.isDone_iff.mp hdone)
  refine ⟨hi.busy, hi.answers, fun hrun a ha => hi.select hrun ha, hempty,
    fun hdone ch hjoined => ?_,
    fun hdone ch h hh => HubInv.handlers_return hdone hh, fun hdone caller c => hi.callers_return hdone,
    fun hdone a s' => hubStep_stopped hdone⟩
  by_contra hopen
  have hmem : ch ∈ s.broker.clients :=
    (hi.broker.chans ch).client.mpr ⟨Option.isSome_iff_ne_none.mpr hjoined, by simpa using hopen⟩
  rw [hempty hdone] at hmem
  exact absurd hmem (Finset.notMem_empty ch)

/-- A client streams, a count is asked for and `Shutdown` is called: `Run` answers, closes the
channel and ends. -/
def shutdownRun : List HubAction :=
  [ .request 0, .serve 0 .flush, .serve 0 .register, .serve 0 .connected, .call 0 .clientCount,
    .call 1 .shutdown, .caller 0 .send, .caller 0 .reply, .run .shutdown, .run (.drop 0),
    .run .done, .serve 0 .channelClosed ]

theorem shutdownRun_neverStuck :
    ∃ s, exec hubStep Hub.new shutdownRun = some s ∧ s.broker.isDone = true ∧ s.NeverStuck := by
  have hrun : (exec hubStep Hub.new shutdownRun).map (fun s => s.broker.isDone) = some true := by
    decide
  obtain ⟨s, hs, hdone⟩ := Option.map_eq_some_iff.mp hrun
  exact ⟨s, hs, hdone, hub_neverStuck hs⟩

end Step

end FlagPlane
