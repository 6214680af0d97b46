import Mathlib.Algebra.BigOperators.Group.Finset.Basic
import FlagPlane.Sse.Handlers

/-!
# FlagPlane.Sse.Drain

**The hub comes to rest.** When nobody comes any more, `Run`, the handlers and the callers have only
so many steps left between them, whatever the order; and after `Shutdown`, the state in which they
have none left is the one where everybody has returned. So a graceful shutdown always completes.

Each event is paid for in advance: a caller at the `select` of `Broadcast` holds, for each handler,
the offer, the receive and the write; `Run` hands the last two on to the channel it puts the event
into. Heartbeats are no steps here, they change nothing.
-/

namespace FlagPlane

/-- Somebody comes: a request to `ServeHTTP`, or a call. -/
def HubAction.arrives : HubAction → Bool
  | .request _ | .call _ _ => true
  | _ => false

/-- What need not happen: the client goes away, or a write to it fails. -/
def HubAction.optional : HubAction → Bool
  | .serve _ .flushFails | .serve _ .writeFails | .serve _ .leave => true
  | _ => false

/-! ### What is left to do -/

/-- The steps left to a handler, events aside. -/
def ServeStage.toGo : ServeStage → Nat
  | entered => 5
  | flushed => 4
  | registered | writing _ => 3
  | streaming => 2
  | leaving => 1
  | returned => 0

/-- The steps that a caller has left and sets off; `n` handlers may be registered. -/
def CallStage.toGo (n : Nat) : CallStage → Nat
  | broadcast _ => 3 * n + 2
  | countReq => 2
  | shutdown => 1
  | reply | returned | counted _ => 0

/-- The steps of `Run`, those of a shutdown included. -/
def Broker.toGo (n : Nat) (b : Broker) : Nat :=
  match b.run with
  | .select => n + 2
  | .fanout _ todo => 3 * todo.card + 1 + (n + 2)
  | .reply _ => 1 + (n + 2)
  | .drain => b.clients.card + 1
  | .stopped | .panicked => 0

/-- The handlers and the callers are among these. -/
structure Hub.Within (s : Hub) (chs : Finset ChanId) (callers : Finset CallerId) : Prop where
  handlers : ∀ ch h, s.handlers ch = some h → ch ∈ chs
  callers : ∀ caller c, s.callers caller = some c → caller ∈ callers

/-- What is left to do on one channel. -/
def Hub.handlerToGo (s : Hub) (ch : ChanId) : Nat :=
  (s.handlers ch).elim 0 (fun h => h.stage.toGo) + 2 * (s.broker.chans ch).buffer.length

def Hub.callerToGo (s : Hub) (n : Nat) (caller : CallerId) : Nat :=
  (s.callers caller).elim 0 (CallStage.toGo n)

/-- What is left to do in the hub. -/
def Hub.toGo (s : Hub) (chs : Finset ChanId) (callers : Finset CallerId) : Nat :=
  ∑ ch ∈ chs, s.handlerToGo ch + ∑ caller ∈ callers, s.callerToGo chs.card caller +
    s.broker.toGo chs.card

section Measure

variable {s s' : Hub} {b b' : Broker} {chs : Finset ChanId} {callers : Finset CallerId}
  {ch : ChanId} {caller : CallerId}

/-- A sum in which one summand has changed. -/
theorem sum_change {ι : Type*} [DecidableEq ι] {l : Finset ι} {f g : ι → ℕ} {i : ι} (hi : i ∈ l)
    (hother : ∀ j, j ≠ i → f j = g j) : ∑ j ∈ l, f j + g i = ∑ j ∈ l, g j + f i := by
  have hf : f i + ∑ j ∈ l.erase i, f j = ∑ j ∈ l, f j := Finset.add_sum_erase l f hi
  have hg : g i + ∑ j ∈ l.erase i, g j = ∑ j ∈ l, g j := Finset.add_sum_erase l g hi
  have hrest : ∑ j ∈ l.erase i, f j = ∑ j ∈ l.erase i, g j :=
    Finset.sum_congr rfl fun j hj => hother j (Finset.ne_of_mem_erase hj)
  omega

/-- The registered clients are handlers. -/
theorem HubInv.clients_subset (hi : HubInv s) (hw : s.Within chs callers) :
    s.broker.clients ⊆ chs := by
  intro ch hch
  cases hh : s.handlers ch with
  | none => exact absurd (hi.absent ch hh) ((hi.broker.chans ch).joined_of_mem hch)
  | some h => exact hw.handlers ch h hh

/-- The hub after a step: each sum changes at one place at most. -/
theorem Hub.toGo_serve (callers : Finset CallerId) {h : ServeHTTP} (h' : ServeHTTP)
    (hmem : ch ∈ chs) (hh : s.handlers ch = some h)
    (hother : ∀ ch', ch' ≠ ch → (b.chans ch').buffer = (s.broker.chans ch').buffer) :
    Hub.toGo ⟨b, Function.update s.handlers ch (some h'), s.callers⟩ chs callers +
        h.stage.toGo + 2 * (s.broker.chans ch).buffer.length + s.broker.toGo chs.card =
      s.toGo chs callers +
        h'.stage.toGo + 2 * (b.chans ch).buffer.length + b.toGo chs.card := by
  have hsum : ∑ i ∈ chs, Hub.handlerToGo
        ⟨b, Function.update s.handlers ch (some h'), s.callers⟩ i + s.handlerToGo ch =
      ∑ i ∈ chs, s.handlerToGo i +
        Hub.handlerToGo ⟨b, Function.update s.handlers ch (some h'), s.callers⟩ ch :=
    sum_change hmem fun ch' hne => by
      simp [Hub.handlerToGo, Function.update_of_ne hne, hother ch' hne]
  have hnew : Hub.handlerToGo ⟨b, Function.update s.handlers ch (some h'), s.callers⟩ ch =
      h'.stage.toGo + 2 * (b.chans ch).buffer.length := by
    simp [Hub.handlerToGo]
  have hold : s.handlerToGo ch = h.stage.toGo + 2 * (s.broker.chans ch).buffer.length := by
    simp [Hub.handlerToGo, hh]
  have hcallers : ∑ i ∈ callers, Hub.callerToGo
        ⟨b, Function.update s.handlers ch (some h'), s.callers⟩ chs.card i =
      ∑ i ∈ callers, s.callerToGo chs.card i := rfl
  unfold Hub.toGo
  dsimp only
  omega

theorem Hub.toGo_caller {c : CallStage} (c' : CallStage) (hmem : caller ∈ callers)
    (hc : s.callers caller = some c)
    (hbuffers : ∀ ch, (b.chans ch).buffer = (s.broker.chans ch).buffer) :
    Hub.toGo ⟨b, s.handlers, Function.update s.callers caller (some c')⟩ chs callers +
        c.toGo chs.card + s.broker.toGo chs.card =
      s.toGo chs callers + c'.toGo chs.card + b.toGo chs.card := by
  have hsum : ∑ i ∈ callers, Hub.callerToGo
        ⟨b, s.handlers, Function.update s.callers caller (some c')⟩ chs.card i +
        s.callerToGo chs.card caller =
      ∑ i ∈ callers, s.callerToGo chs.card i +
        Hub.callerToGo ⟨b, s.handlers, Function.update s.callers caller (some c')⟩ chs.card
          caller :=
    sum_change hmem fun caller' hne => by
      simp [Hub.callerToGo, Function.update_of_ne hne]
  have hnew : Hub.callerToGo ⟨b, s.handlers, Function.update s.callers caller (some c')⟩ chs.card
      caller = c'.toGo chs.card := by
    simp [Hub.callerToGo]
  have hold : s.callerToGo chs.card caller = c.toGo chs.card := by
    simp [Hub.callerToGo, hc]
  have hhandlers : ∑ i ∈ chs, Hub.handlerToGo
        ⟨b, s.handlers, Function.update s.callers caller (some c')⟩ i =
      ∑ i ∈ chs, s.handlerToGo i :=
    Finset.sum_congr rfl fun ch _ => by simp [Hub.handlerToGo, hbuffers ch]
  unfold Hub.toGo
  dsimp only
  omega

theorem Hub.toGo_run (s : Hub) (chs : Finset ChanId) (callers : Finset CallerId)
    (hbuffers : ∀ ch, (b.chans ch).buffer = (s.broker.chans ch).buffer) :
    Hub.toGo ⟨b, s.handlers, s.callers⟩ chs callers + s.broker.toGo chs.card =
      s.toGo chs callers + b.toGo chs.card := by
  have hhandlers : ∑ i ∈ chs, Hub.handlerToGo ⟨b, s.handlers, s.callers⟩ i =
      ∑ i ∈ chs, s.handlerToGo i :=
    Finset.sum_congr rfl fun ch _ => by simp [Hub.handlerToGo, hbuffers ch]
  have hcallers : ∑ i ∈ callers, Hub.callerToGo ⟨b, s.handlers, s.callers⟩ chs.card i =
      ∑ i ∈ callers, s.callerToGo chs.card i := rfl
  unfold Hub.toGo
  dsimp only
  omega

/-- One event more in a channel. -/
theorem Hub.toGo_put (s : Hub) (callers : Finset CallerId) (hmem : ch ∈ chs)
    (hput : (b.chans ch).buffer.length = (s.broker.chans ch).buffer.length + 1)
    (hother : ∀ ch', ch' ≠ ch → (b.chans ch').buffer = (s.broker.chans ch').buffer) :
    Hub.toGo ⟨b, s.handlers, s.callers⟩ chs callers + s.broker.toGo chs.card =
      s.toGo chs callers + 2 + b.toGo chs.card := by
  have hsum : ∑ i ∈ chs, Hub.handlerToGo ⟨b, s.handlers, s.callers⟩ i + s.handlerToGo ch =
      ∑ i ∈ chs, s.handlerToGo i + Hub.handlerToGo ⟨b, s.handlers, s.callers⟩ ch :=
    sum_change hmem fun ch' hne => by simp [Hub.handlerToGo, hother ch' hne]
  have hnew : Hub.handlerToGo ⟨b, s.handlers, s.callers⟩ ch = s.handlerToGo ch + 2 := by
    simp only [Hub.handlerToGo, hput]
    omega
  have hcallers : ∑ i ∈ callers, Hub.callerToGo ⟨b, s.handlers, s.callers⟩ chs.card i =
      ∑ i ∈ callers, s.callerToGo chs.card i := rfl
  unfold Hub.toGo
  dsimp only
  omega

end Measure

/-! ### Every step takes it down -/

section Step

variable {s s' : Hub} {b b' : Broker} {chs : Finset ChanId} {callers : Finset CallerId}
  {ch ch' : ChanId} {caller : CallerId} {a : HubAction}

theorem Broker.drop_buffer : ((b.drop ch).chans ch').buffer = (b.chans ch').buffer := by
  unfold drop
  split
  · rfl
  · by_cases hne : ch' = ch
    · subst hne
      simp
    · rw [setChan_chans_of_ne hne]

theorem Broker.toGo_of_select {n : Nat} (hrun : b.run = .select) : b.toGo n = n + 2 := by
  simp [toGo, hrun]

theorem Broker.drop_run (hopen : (b.chans ch).closed = false) : (b.drop ch).run = b.run := by
  rw [drop_of_open hopen]
  rfl

/-- An offer to an open channel puts one event in, or closes the channel. -/
theorem Broker.offer_buffer (event : SSEEvent) (hopen : (b.chans ch).closed = false) :
    (b.offer ch event).run = b.run ∧
      ((((b.offer ch event).chans ch).buffer.length = (b.chans ch).buffer.length + 1 ∧
          ∀ ch', ch' ≠ ch → ((b.offer ch event).chans ch').buffer = (b.chans ch').buffer) ∨
        ∀ ch', ((b.offer ch event).chans ch').buffer = (b.chans ch').buffer) := by
  by_cases hfits : (b.chans ch).buffer.length < channelCapacity
  · rw [offer_of_fits hopen hfits]
    refine ⟨rfl, Or.inl ⟨by simp, fun ch' hne => ?_⟩⟩
    rw [setChan_chans_of_ne hne]
  · rw [offer_of_full hopen (by omega)]
    exact ⟨drop_run hopen, Or.inr fun ch' => drop_buffer⟩

theorem Broker.toGo_fanout {n : Nat} {event : SSEEvent} {todo : Finset ChanId}
    (hrun : b.run = .fanout event todo) : b.toGo n = 3 * todo.card + 1 + (n + 2) := by
  simp [toGo, hrun]

theorem Broker.toGo_drain {n : Nat} (hrun : b.run = .drain) : b.toGo n = b.clients.card + 1 := by
  simp [toGo, hrun]

/-- **A step of `Run`.** -/
theorem HubInv.run_toGo_lt (hi : HubInv s) (hw : s.Within chs callers) {a : RunAction}
    (hown : a.own = true) (hb : runStep s.broker a = some b) :
    Hub.toGo ⟨b, s.handlers, s.callers⟩ chs callers < s.toGo chs callers := by
  have hclients := Finset.card_le_card (hi.clients_subset hw)
  cases a with
  | offer ch =>
      obtain ⟨event, todo, hrun, hch, hpost⟩ := runStep_offer.mp hb
      have hmem : ch ∈ s.broker.clients := hi.broker.todo event todo hrun hch
      have hcard : (todo.erase ch).card + 1 = todo.card := Finset.card_erase_add_one hch
      have hold := Broker.toGo_fanout (n := chs.card) hrun
      obtain ⟨hrun', hbuffer⟩ :=
        Broker.offer_buffer (b := { s.broker with run := .fanout event (todo.erase ch) }) event
          ((hi.broker.chans ch).open_of_mem hmem)
      rw [← hpost] at hrun' hbuffer
      have hnew := Broker.toGo_fanout (n := chs.card) hrun'
      rcases hbuffer with ⟨hput, hother⟩ | hsame
      · have hgo := Hub.toGo_put s callers (hi.clients_subset hw hmem) hput hother
        omega
      · have hgo := Hub.toGo_run s chs callers hsame
        omega
  | endFanout =>
      obtain ⟨event, hrun, hpost⟩ := runStep_endFanout.mp hb
      have hold := Broker.toGo_fanout (n := chs.card) hrun
      have hnew : b.toGo chs.card = chs.card + 2 := Broker.toGo_of_select (by rw [hpost])
      have hgo := Hub.toGo_run s chs callers (b := b) fun _ => by rw [hpost]
      omega
  | shutdown =>
      obtain ⟨hrun, -, hpost⟩ := runStep_shutdown.mp hb
      have hold := Broker.toGo_of_select (n := chs.card) hrun
      have hnew : b.toGo chs.card = s.broker.clients.card + 1 := by
        rw [hpost]
        rfl
      have hgo := Hub.toGo_run s chs callers (b := b) fun _ => by rw [hpost]
      omega
  | drop ch =>
      obtain ⟨hrun, hmem, hpost⟩ := runStep_drop.mp hb
      have hopen := (hi.broker.chans ch).open_of_mem hmem
      have hold := Broker.toGo_drain (n := chs.card) hrun
      have hnew : b.toGo chs.card = b.clients.card + 1 := by
        rw [hpost]
        exact Broker.toGo_drain ((Broker.drop_run hopen).trans hrun)
      have hcard : b.clients.card + 1 = s.broker.clients.card := by
        rw [hpost, Broker.drop_of_open hopen]
        exact Finset.card_erase_add_one hmem
      have hgo := Hub.toGo_run s chs callers (b := b) fun _ => by rw [hpost]; exact Broker.drop_buffer
      omega
  | done =>
      obtain ⟨hrun, -, hpost⟩ := runStep_done.mp hb
      have hold := Broker.toGo_drain (n := chs.card) hrun
      have hnew : b.toGo chs.card = 0 := by
        rw [hpost]
        rfl
      have hgo := Hub.toGo_run s chs callers (b := b) fun _ => by rw [hpost]
      omega
  | _ => cases hown

/-- **A step of a handler.** -/
theorem HubInv.serve_toGo_lt (hi : HubInv s) (hw : s.Within chs callers) {h h' : ServeHTTP}
    {a : ServeAction} {met : Option RunAction} (hh : s.handlers ch = some h)
    (hn : h.next s.broker ch a = some (h', met)) (hb : s.broker.sync met = some b) :
    Hub.toGo ⟨b, Function.update s.handlers ch (some h'), s.callers⟩ chs callers <
      s.toGo chs callers := by
  have hmem := hw.handlers ch h hh
  have hstay : b = s.broker → h'.stage.toGo < h.stage.toGo →
      Hub.toGo ⟨b, Function.update s.handlers ch (some h'), s.callers⟩ chs callers <
        s.toGo chs callers := by
    rintro rfl hlt
    have hgo := Hub.toGo_serve callers h' hmem hh fun _ _ => rfl
    omega
  cases a with
  | register =>
      rw [ServeHTTP.next] at hn
      split at hn
      · rename_i hstage
        cases hn
        obtain ⟨hrun, -, hpost⟩ := runStep_register.mp hb
        have hchans : b.chans = s.broker.chans := by rw [hpost]
        have hold := Broker.toGo_of_select (n := chs.card) hrun
        have hnew : b.toGo chs.card = chs.card + 2 := Broker.toGo_of_select (by rw [hpost]; exact hrun)
        have hgo := Hub.toGo_serve callers { h with stage := .registered } hmem
          hh fun ch' _ => congrArg EventChan.buffer (congrFun hchans ch')
        rw [hchans] at hgo
        simp only [hstage, ServeStage.toGo] at hgo
        omega
      · cases hn
  | receive =>
      rw [ServeHTTP.next] at hn
      split at hn
      · rename_i event rest hstage hbuffer
        cases hn
        obtain ⟨event', rest', hbuffer', hpost⟩ := runStep_receive.mp hb
        have hself : ((s.broker.chans ch).buffer).length = (b.chans ch).buffer.length + 1 := by
          rw [hpost, hbuffer']
          simp
        have hrun : b.toGo chs.card = s.broker.toGo chs.card := by
          rw [hpost]
          rfl
        have hgo := Hub.toGo_serve callers { h with stage := .writing event }
          hmem hh (b := b) fun ch' hne => by rw [hpost, Broker.setChan_chans_of_ne hne]
        simp only [hstage, ServeStage.toGo] at hgo
        omega
      · cases hn
  | unregister =>
      rw [ServeHTTP.next] at hn
      split at hn
      · rename_i hstage
        cases hn
        obtain ⟨hrun, hpost⟩ := runStep_unregister.mp hb
        have hold := Broker.toGo_of_select (n := chs.card) hrun
        have hbuffers : ∀ ch', (b.chans ch').buffer = (s.broker.chans ch').buffer := by
          intro ch'
          rw [hpost]
          split
          · exact Broker.drop_buffer
          · rfl
        have hrun' : b.run = .select := by
          rw [hpost]
          split
          · rename_i hclient
            exact (Broker.drop_run ((hi.broker.chans ch).open_of_mem hclient)).trans hrun
          · exact hrun
        have hnew := Broker.toGo_of_select (n := chs.card) hrun'
        have hgo := Hub.toGo_serve callers { h with stage := .returned } hmem hh
          (b := b) fun ch' _ => hbuffers ch'
        rw [hbuffers ch] at hgo
        simp only [hstage, ServeStage.toGo] at hgo
        omega
      · cases hn
  | refused | channelClosed | abandon =>
      rw [ServeHTTP.next] at hn
      split at hn
      · rename_i hstage _
        cases hn
        refine hstay (Option.some.inj hb).symm ?_
        simp [hstage, ServeStage.toGo]
      · cases hn
  | flush | flushFails | connected | write | writeFails | leave =>
      rw [ServeHTTP.next] at hn
      split at hn
      · rename_i hstage
        cases hn
        refine hstay (Option.some.inj hb).symm ?_
        simp [hstage, ServeStage.toGo]
      · cases hn

/-- **A step of a caller.** -/
theorem HubInv.caller_toGo_lt (hi : HubInv s) (hw : s.Within chs callers) {c c' : CallStage}
    {a : CallAction} {met : Option RunAction} (hc : s.callers caller = some c)
    (hn : c.next s.broker caller a = some (c', met)) (hb : s.broker.sync met = some b) :
    Hub.toGo ⟨b, s.handlers, Function.update s.callers caller (some c')⟩ chs callers <
      s.toGo chs callers := by
  have hmem := hw.callers caller c hc
  have hclients := Finset.card_le_card (hi.clients_subset hw)
  have hgo : ∀ {b}, (∀ ch, (b.chans ch).buffer = (s.broker.chans ch).buffer) →
      Hub.toGo ⟨b, s.handlers, Function.update s.callers caller (some c')⟩ chs callers +
          c.toGo chs.card + s.broker.toGo chs.card =
        s.toGo chs callers + c'.toGo chs.card + b.toGo chs.card :=
    fun hbuffers => Hub.toGo_caller c' hmem hc hbuffers
  unfold CallStage.next at hn
  split at hn
  · -- an event is paid for: two steps of its own, and three for each client
    cases hn
    obtain ⟨hrun, hpost⟩ := runStep_broadcast.mp hb
    have hold := Broker.toGo_of_select (n := chs.card) hrun
    have hnew : b.toGo chs.card = 3 * s.broker.clients.card + 1 + (chs.card + 2) := by
      rw [hpost]
      rfl
    have hgo := hgo (b := b) fun _ => by rw [hpost]
    simp only [CallStage.toGo] at hgo
    omega
  · cases hn
    obtain ⟨hrun, hpost⟩ := runStep_countReq.mp hb
    have hold := Broker.toGo_of_select (n := chs.card) hrun
    have hnew : b.toGo chs.card = 1 + (chs.card + 2) := by
      rw [hpost]
      rfl
    have hgo := hgo (b := b) fun _ => by rw [hpost]
    simp only [CallStage.toGo] at hgo
    omega
  · split at hn
    · rename_i hrun
      split at hn
      · cases hn
        obtain ⟨-, -, hpost⟩ := runStep_reply.mp hb
        have hold : s.broker.toGo chs.card = 1 + (chs.card + 2) := by
          simp [Broker.toGo, hrun]
        have hnew : b.toGo chs.card = chs.card + 2 := Broker.toGo_of_select (by rw [hpost])
        have hgo := hgo (b := b) fun _ => by rw [hpost]
        simp only [CallStage.toGo] at hgo
        omega
      · cases hn
    · cases hn
  all_goals first
    | cases hn
    | (split at hn
       · cases hn
         obtain rfl := Option.some.inj hb
         have hgo := hgo fun _ => rfl
         simp only [CallStage.toGo] at hgo
         omega
       · cases hn)

theorem Hub.Within.step (hw : s.Within chs callers) (ha : a.arrives = false)
    (hs : hubStep s a = some s') : s'.Within chs callers := by
  cases a with
  | request ch | call caller op => cases ha
  | serve ch a =>
      obtain ⟨h, h', met, b, hh, -, -, rfl⟩ := hubStep_serve.mp hs
      refine ⟨fun ch' h₁ hh₁ => ?_, hw.callers⟩
      by_cases hne : ch' = ch
      · exact hne ▸ hw.handlers ch h hh
      · exact hw.handlers ch' h₁ (by simpa [hne] using hh₁)
  | caller caller a =>
      obtain ⟨c, c', met, b, hc, -, -, rfl⟩ := hubStep_caller.mp hs
      refine ⟨hw.handlers, fun caller' c₁ hc₁ => ?_⟩
      by_cases hne : caller' = caller
      · exact hne ▸ hw.callers caller c hc
      · exact hw.callers caller' c₁ (by simpa [hne] using hc₁)
  | run a =>
      obtain ⟨-, b, -, rfl⟩ := hubStep_run.mp hs
      exact ⟨hw.handlers, hw.callers⟩

/-- **Every step but an arrival leaves less to do.** -/
theorem HubInv.toGo_lt (hi : HubInv s) (hw : s.Within chs callers) (ha : a.arrives = false)
    (hs : hubStep s a = some s') : s'.toGo chs callers < s.toGo chs callers := by
  cases a with
  | request ch | call caller op => cases ha
  | serve ch a =>
      obtain ⟨h, h', met, b, hh, hn, hb, rfl⟩ := hubStep_serve.mp hs
      exact hi.serve_toGo_lt hw hh hn hb
  | caller caller a =>
      obtain ⟨c, c', met, b, hc, hn, hb, rfl⟩ := hubStep_caller.mp hs
      exact hi.caller_toGo_lt hw hc hn hb
  | run a =>
      obtain ⟨hown, b, hb, rfl⟩ := hubStep_run.mp hs
      exact hi.run_toGo_lt hw hown hb

/-- A reachable hub has finitely many handlers and callers. -/
theorem Hub.within_of_exec {run : List HubAction} (h : exec hubStep Hub.new run = some s) :
    ∃ chs callers, s.Within chs callers := by
  refine exec_preserves (I := fun s : Hub => ∃ chs callers, s.Within chs callers) ?_
    ⟨∅, ∅, by simp [Hub.new], by simp [Hub.new]⟩ h
  intro s a s' hw hs
  obtain ⟨chs, callers, hw⟩ := hw
  cases a with
  | request ch =>
      obtain ⟨-, rfl⟩ := hubStep_request.mp hs
      refine ⟨insert ch chs, callers, fun ch' h hh => ?_, hw.callers⟩
      by_cases hne : ch' = ch
      · exact Finset.mem_insert.mpr (Or.inl hne)
      · exact Finset.mem_insert_of_mem (hw.handlers ch' h (by simpa [hne] using hh))
  | call caller op =>
      obtain ⟨-, b, -, rfl⟩ := hubStep_call.mp hs
      refine ⟨chs, insert caller callers, hw.handlers, fun caller' c hc => ?_⟩
      by_cases hne : caller' = caller
      · exact Finset.mem_insert.mpr (Or.inl hne)
      · exact Finset.mem_insert_of_mem (hw.callers caller' c (by simpa [hne] using hc))
  | serve _ _ | caller _ _ | run _ => exact ⟨chs, callers, hw.step rfl hs⟩

end Step

/-! ### At rest -/

/-- Nobody has anything left to do that does not depend on a client or on a failing write. -/
def Hub.AtRest (s : Hub) : Prop :=
  ∀ a, a.arrives = false → a.optional = false → hubStep s a = none

/-- Everybody has returned. -/
structure Hub.Drained (s : Hub) : Prop where
  run : s.broker.isDone = true
  clients : s.broker.clients = ∅
  handlers : ∀ ch h, s.handlers ch = some h → h.stage = .returned
  callers : ∀ caller c, s.callers caller = some c → c.Returned

section AtRest

variable {s s' : Hub}

/-- After the end, the channel of an open connection is closed. -/
theorem HubInv.closed_of_isDone (hi : HubInv s) (hdone : s.broker.isDone = true) {ch : ChanId}
    (hjoined : s.broker.joined ch ≠ none) : (s.broker.chans ch).closed = true := by
  by_contra hopen
  have hmem : ch ∈ s.broker.clients :=
    (hi.broker.chans ch).client.mpr ⟨Option.isSome_iff_ne_none.mpr hjoined, by simpa using hopen⟩
  rw [hi.broker.drained (Broker.isDone_iff.mp hdone)] at hmem
  exact absurd hmem (Finset.notMem_empty ch)

/-- After the end, a handler that has not returned has a step. -/
theorem HubInv.serve_enabled (hi : HubInv s) (hdone : s.broker.isDone = true) {ch : ChanId}
    {h : ServeHTTP} (hh : s.handlers ch = some h) (hstage : h.stage ≠ .returned) :
    ∃ a s', (HubAction.serve ch a).optional = false ∧ hubStep s (.serve ch a) = some s' := by
  -- a step that does not meet `Run`
  have halone : ∀ {a h'}, h.next s.broker ch a = some (h', none) →
      ∃ s', hubStep s (.serve ch a) = some s' :=
    fun hn => ⟨_, hubStep_serve.mpr ⟨_, _, _, _, hh, hn, rfl, rfl⟩⟩
  cases hst : h.stage with
  | entered =>
      have hn : h.next s.broker ch .flush =
          some ({ h with stage := .flushed, opened := s.broker.taken.length }, none) := by
        simp [ServeHTTP.next, hst]
      exact ⟨.flush, (halone hn).imp fun _ hs => ⟨rfl, hs⟩⟩
  | flushed =>
      have hn : h.next s.broker ch .refused = some ({ h with stage := .returned }, none) := by
        simp [ServeHTTP.next, hst, hdone]
      exact ⟨.refused, (halone hn).imp fun _ hs => ⟨rfl, hs⟩⟩
  | registered =>
      have hn : h.next s.broker ch .connected = some ({ h with stage := .streaming }, none) := by
        simp [ServeHTTP.next, hst]
      exact ⟨.connected, (halone hn).imp fun _ hs => ⟨rfl, hs⟩⟩
  | streaming =>
      have hjoined := ((hi.handlers ch h hh).isOpen (by simp [hst, ServeStage.IsOpen])).1
      have hclosed := hi.closed_of_isDone hdone hjoined
      cases hchan : s.broker.chans ch with
      | mk buffer closed =>
          obtain rfl : closed = true := by simpa [hchan] using hclosed
          cases buffer with
          | nil =>
              have hn : h.next s.broker ch .channelClosed =
                  some ({ h with stage := .leaving }, none) := by
                simp [ServeHTTP.next, hst, hchan]
              exact ⟨.channelClosed, (halone hn).imp fun _ hs => ⟨rfl, hs⟩⟩
          | cons event rest =>
              have hn : h.next s.broker ch .receive =
                  some ({ h with stage := .writing event }, some (.receive ch)) := by
                simp [ServeHTTP.next, hst, hchan]
              have hb := runStep_receive.mpr ⟨event, rest, by rw [hchan], rfl⟩
              exact ⟨.receive, _, rfl, hubStep_serve.mpr ⟨_, _, _, _, hh, hn, hb, rfl⟩⟩
  | writing event =>
      have hn : h.next s.broker ch .write =
          some ({ h with stage := .streaming, written := h.written ++ [event] }, none) := by
        simp [ServeHTTP.next, hst]
      exact ⟨.write, (halone hn).imp fun _ hs => ⟨rfl, hs⟩⟩
  | leaving =>
      have hn : h.next s.broker ch .abandon = some ({ h with stage := .returned }, none) := by
        simp [ServeHTTP.next, hst, hdone]
      exact ⟨.abandon, (halone hn).imp fun _ hs => ⟨rfl, hs⟩⟩
  | returned => exact absurd hst hstage

theorem HubInv.drained (hi : HubInv s) (hshutdown : s.broker.shutdown = true) (hrest : s.AtRest) :
    s.Drained := by
  have hnone : ∀ {a s'}, a.arrives = false → a.optional = false → hubStep s a ≠ some s' := by
    intro a s' harrives hoptional hs
    rw [hrest a harrives hoptional] at hs
    cases hs
  -- `Run` is not inside of a case, and at its `select` it would take the shutdown
  have hdone : s.broker.isDone = true := by
    by_contra hdone
    by_cases hselect : s.broker.run = .select
    · exact hnone (a := .run .shutdown) rfl rfl
        (hubStep_run.mpr ⟨rfl, _, runStep_shutdown.mpr ⟨hselect, hshutdown, rfl⟩, rfl⟩)
    · obtain ⟨a, s', ha, hs⟩ := hi.busy hselect (by simpa using hdone)
      unfold HubAction.ofRun at ha
      split at ha
      · exact hnone rfl rfl hs
      · exact hnone rfl rfl hs
      · cases ha
  refine ⟨hdone, hi.broker.drained (Broker.isDone_iff.mp hdone), fun ch h hh => ?_,
    fun caller c hc => ?_⟩
  · by_contra hstage
    obtain ⟨a, s', hoptional, hs⟩ := hi.serve_enabled hdone hh hstage
    exact hnone rfl hoptional hs
  · by_contra hparked
    obtain ⟨s', c', hs, -, -⟩ := hi.callers_return hdone hc hparked
    exact hnone rfl rfl hs

/-- `Shutdown` is not taken back. -/
theorem exec_shutdown {as : List HubAction} (h : exec hubStep s as = some s')
    (hshutdown : s.broker.shutdown = true) : s'.broker.shutdown = true := by
  refine exec_preserves (I := fun s : Hub => s.broker.shutdown = true) (fun hs hstep => ?_)
    hshutdown h
  obtain ⟨met, hb, -⟩ := hubStep_broker hstep
  exact (Broker.sync_frame hb).shutdown hs

/-- **The hub drains.** From every reachable state there is a bound on the steps that are left when
nobody comes any more, in whatever order they are taken. Once `Shutdown` has been called, a state
with none left is one in which `Run` has ended, no client is registered, and every handler and
every caller has returned. -/
theorem hub_drains {run : List HubAction} (hrun : exec hubStep Hub.new run = some s) :
    ∃ n, ∀ as s', (∀ a ∈ as, a.arrives = false) → exec hubStep s as = some s' →
      as.length ≤ n ∧ (s.broker.shutdown = true → s'.AtRest → s'.Drained) := by
  have hi : HubInv s := exec_preserves (fun hi hs => hi.step hs) hubInv_new hrun
  obtain ⟨chs, callers, hw⟩ := Hub.within_of_exec hrun
  refine ⟨s.toGo chs callers, fun as s' has hexec => ⟨?_, fun hshutdown hrest => ?_⟩⟩
  · have hlength := exec_length_le_of (I := fun s => HubInv s ∧ s.Within chs callers)
      (C := fun a => a.arrives = false) (μ := fun s => s.toGo chs callers)
      (fun h ha hs => ⟨⟨h.1.step hs, h.2.step ha hs⟩, h.1.toGo_lt h.2 ha hs⟩) ⟨hi, hw⟩ has hexec
    omega
  · have hi' : HubInv s' := exec_preserves (fun hi hs => hi.step hs) hi hexec
    exact hi'.drained (exec_shutdown hexec hshutdown) hrest

/-- A client streams, an event is to be broadcast, and `Shutdown` is called. -/
def busyShutdown (event : SSEEvent) : List HubAction :=
  [ .request 0, .serve 0 .flush, .serve 0 .register, .serve 0 .connected,
    .call 0 (.broadcast event), .call 1 .shutdown ]

theorem hub_drains_busyShutdown :
    ∃ s, exec hubStep Hub.new (busyShutdown ⟨"flag_updated", .null, 1⟩) = some s ∧
      ∃ n, ∀ as s', (∀ a ∈ as, a.arrives = false) → exec hubStep s as = some s' →
        as.length ≤ n ∧ (s.broker.shutdown = true → s'.AtRest → s'.Drained) := by
  obtain ⟨s, hs⟩ : ∃ s, exec hubStep Hub.new (busyShutdown ⟨"flag_updated", .null, 1⟩) = some s :=
    ⟨_, rfl⟩
  exact ⟨s, hs, hub_drains hs⟩

end AtRest

end FlagPlane
