import Mathlib.Data.Finset.Basic
import Mathlib.Data.Finset.Card
import FlagPlane.Machine
import FlagPlane.Sse.Wire

/-!
# FlagPlane.Sse.Broker

**`Broker.Run` and the channels of its clients.** A step is one channel operation of `Run`, or
what its partners do to the channels it shares with them; so a broadcast is a take and then one
offer for each client, in the order the map happens to yield them, and clients drain their
channels in between.

A send on a closed channel and a second `close` panic in Go, and they do in `Run`'s model.
`BrokerInv` ties the map, the channels and the sequence of broadcasts together: the clients in
the map are exactly the registered ones whose channel is open, and such a client has received,
has in its channel, or is about to be offered everything taken since it registered.
-/

namespace FlagPlane

/-- A client's channel. -/
abbrev ChanId := Nat

/-- A caller of `Broadcast`, `ClientCount` or `Shutdown`. -/
abbrev CallerId := Nat

/-- The capacity of a client's channel. -/
def channelCapacity : Nat := 16

/-- A `chan SSEEvent`. -/
structure EventChan where
  buffer : List SSEEvent
  closed : Bool

/-- Where `Run` is. -/
inductive RunPhase
  /-- At the `select`. -/
  | select
  /-- In the `range` over the clients; `todo` are those it has still to come to. -/
  | fanout (event : SSEEvent) (todo : Finset ChanId)
  /-- At `reply <- len(b.clients)`. -/
  | reply (caller : CallerId)
  /-- Closing the clients' channels. -/
  | drain
  /-- `done` is closed. -/
  | stopped
  | panicked

/-- The broker, and the history of its run. -/
structure Broker where
  /-- The keys of `clients`. -/
  clients : Finset ChanId
  chans : ChanId → EventChan
  run : RunPhase
  /-- `shutdown` is closed. -/
  shutdown : Bool
  /-- The events taken from `broadcast` so far. -/
  taken : List SSEEvent
  /-- How many of them had been taken when the channel was registered. -/
  joined : ChanId → Option Nat
  /-- What has been received from the channel. -/
  received : ChanId → List SSEEvent

namespace Broker

/-- `NewBroker`, and `Run` at its first `select`. -/
def new : Broker where
  clients := ∅
  chans := fun _ => ⟨[], false⟩
  run := .select
  shutdown := false
  taken := []
  joined := fun _ => none
  received := fun _ => []

def setChan (b : Broker) (ch : ChanId) (c : EventChan) : Broker :=
  { b with chans := Function.update b.chans ch c }

/-- `delete(b.clients, client)`, then `close(client)`. -/
def drop (b : Broker) (ch : ChanId) : Broker :=
  if (b.chans ch).closed then { b with run := .panicked }
  else { b with clients := b.clients.erase ch }.setChan ch { b.chans ch with closed := true }

/-- The `select` with `client <- event` and a `default` that drops the client. -/
def offer (b : Broker) (ch : ChanId) (event : SSEEvent) : Broker :=
  if (b.chans ch).closed then { b with run := .panicked }
  else if (b.chans ch).buffer.length < channelCapacity then
    b.setChan ch { b.chans ch with buffer := (b.chans ch).buffer ++ [event] }
  else b.drop ch

end Broker

inductive RunAction
  /-- `client := <-b.register`. -/
  | register (ch : ChanId)
  /-- `client := <-b.unregister`. -/
  | unregister (ch : ChanId)
  /-- `event := <-b.broadcast`. -/
  | broadcast (event : SSEEvent)
  /-- The `range` comes to a client. -/
  | offer (ch : ChanId)
  | endFanout
  /-- `reply := <-b.countReq`. -/
  | countReq (caller : CallerId)
  /-- The caller takes the count. -/
  | reply
  /-- `<-b.shutdown`. -/
  | shutdown
  /-- The `range` of the shutdown comes to a client. -/
  | drop (ch : ChanId)
  /-- `close(b.done)`. -/
  | done
  /-- A partner's `<-client`. -/
  | receive (ch : ChanId)
  /-- A partner's `close(b.shutdown)`, once. -/
  | closeShutdown

/-- What `Run` and its partners do. A channel is registered once, as every `ServeHTTP` call makes
its own. -/
def runStep (b : Broker) : RunAction → Option Broker
  | .register ch =>
    match b.run, b.joined ch with
    | .select, none =>
      some { b with
        clients := insert ch b.clients
        joined := Function.update b.joined ch (some b.taken.length) }
    | _, _ => none
  | .unregister ch =>
    match b.run with
    | .select => some (if ch ∈ b.clients then b.drop ch else b)
    | _ => none
  | .broadcast event =>
    match b.run with
    | .select => some { b with run := .fanout event b.clients, taken := b.taken ++ [event] }
    | _ => none
  | .offer ch =>
    match b.run with
    | .fanout event todo =>
      if ch ∈ todo then some ({ b with run := .fanout event (todo.erase ch) }.offer ch event)
      else none
    | _ => none
  | .endFanout =>
    match b.run with
    | .fanout _ todo => if todo = ∅ then some { b with run := .select } else none
    | _ => none
  | .countReq caller =>
    match b.run with
    | .select => some { b with run := .reply caller }
    | _ => none
  | .reply =>
    match b.run with
    | .reply _ => some { b with run := .select }
    | _ => none
  | .shutdown =>
    match b.run, b.shutdown with
    | .select, true => some { b with run := .drain }
    | _, _ => none
  | .drop ch =>
    match b.run with
    | .drain => if ch ∈ b.clients then some (b.drop ch) else none
    | _ => none
  | .done =>
    match b.run with
    | .drain => if b.clients = ∅ then some { b with run := .stopped } else none
    | _ => none
  | .receive ch =>
    match (b.chans ch).buffer with
    | event :: rest =>
      some ({ b with received := Function.update b.received ch (b.received ch ++ [event]) }.setChan ch
        { b.chans ch with buffer := rest })
    | [] => none
  | .closeShutdown => some { b with shutdown := true }

/-! ### What each step does -/

section Spec

variable {b b' : Broker} {ch : ChanId} {event : SSEEvent} {caller : CallerId}

theorem runStep_register :
    runStep b (.register ch) = some b' ↔
      b.run = .select ∧ b.joined ch = none ∧
        b' = { b with
          clients := insert ch b.clients
          joined := Function.update b.joined ch (some b.taken.length) } := by
  rw [runStep]
  split <;> simp_all [eq_comm]

theorem runStep_unregister :
    runStep b (.unregister ch) = some b' ↔
      b.run = .select ∧ b' = if ch ∈ b.clients then b.drop ch else b := by
  rw [runStep]
  split <;> simp_all [eq_comm]

theorem runStep_broadcast :
    runStep b (.broadcast event) = some b' ↔
      b.run = .select ∧ b' = { b with run := .fanout event b.clients, taken := b.taken ++ [event] } := by
  rw [runStep]
  split <;> simp_all [eq_comm]

theorem runStep_offer :
    runStep b (.offer ch) = some b' ↔
      ∃ event todo, b.run = .fanout event todo ∧ ch ∈ todo ∧
        b' = { b with run := .fanout event (todo.erase ch) }.offer ch event := by
  rw [runStep]
  split <;> simp_all [eq_comm]

theorem runStep_endFanout :
    runStep b .endFanout = some b' ↔
      ∃ event, b.run = .fanout event ∅ ∧ b' = { b with run := .select } := by
  rw [runStep]
  split
  · rename_i event todo hrun
    simp [hrun, eq_comm]
  · rename_i hrun
    simpa using fun event hfanout => absurd hfanout (hrun event ∅)

theorem runStep_countReq :
    runStep b (.countReq caller) = some b' ↔
      b.run = .select ∧ b' = { b with run := .reply caller } := by
  rw [runStep]
  split <;> simp_all [eq_comm]

theorem runStep_reply :
    runStep b .reply = some b' ↔ ∃ caller, b.run = .reply caller ∧ b' = { b with run := .select } := by
  rw [runStep]
  split <;> simp_all [eq_comm]

theorem runStep_shutdown :
    runStep b .shutdown = some b' ↔
      b.run = .select ∧ b.shutdown = true ∧ b' = { b with run := .drain } := by
  rw [runStep]
  split
  · rename_i hrun hshutdown
    simp [hrun, hshutdown, eq_comm]
  · rename_i hrun
    simpa using fun hselect hshutdown => absurd hshutdown (hrun hselect)

theorem runStep_drop :
    runStep b (.drop ch) = some b' ↔ b.run = .drain ∧ ch ∈ b.clients ∧ b' = b.drop ch := by
  rw [runStep]
  split <;> simp_all [eq_comm]

theorem runStep_done :
    runStep b .done = some b' ↔
      b.run = .drain ∧ b.clients = ∅ ∧ b' = { b with run := .stopped } := by
  rw [runStep]
  split
  · rename_i hrun
    simp [hrun, eq_comm]
  · rename_i hrun
    simpa using fun hdrain => absurd hdrain hrun

theorem runStep_receive :
    runStep b (.receive ch) = some b' ↔
      ∃ event rest, (b.chans ch).buffer = event :: rest ∧
        b' = { b with
          received := Function.update b.received ch (b.received ch ++ [event]) }.setChan ch
            { b.chans ch with buffer := rest } := by
  rw [runStep]
  split
  · rename_i event rest hbuffer
    simp [hbuffer, eq_comm]
  · rename_i hbuffer
    simp [hbuffer]

end Spec

/-! ### The invariant -/

/-- What has been put into the client's channel. -/
def Broker.accepted (b : Broker) (ch : ChanId) : List SSEEvent :=
  b.received ch ++ (b.chans ch).buffer

/-- What the `range` is still to offer to the client. -/
def Broker.pending (b : Broker) (ch : ChanId) : List SSEEvent :=
  match b.run with
  | .fanout event todo => if ch ∈ todo then [event] else []
  | _ => []

/-- What holds of one channel. -/
structure ChanInv (b : Broker) (ch : ChanId) : Prop where
  /-- The map holds the registered clients whose channel is open. -/
  client : ch ∈ b.clients ↔ (b.joined ch).isSome = true ∧ (b.chans ch).closed = false
  fresh : b.joined ch = none → (b.chans ch).closed = false ∧ b.accepted ch = []
  capacity : (b.chans ch).buffer.length ≤ channelCapacity
  /-- What was put into the channel is a block of what was taken since it was registered. -/
  block : ∀ n, b.joined ch = some n → n ≤ b.taken.length ∧ b.accepted ch <+: b.taken.drop n

/-- Nothing taken since the client registered is missing. -/
def Broker.Whole (b : Broker) (ch : ChanId) : Prop :=
  ∀ n, b.joined ch = some n → b.accepted ch ++ b.pending ch = b.taken.drop n

/-- The invariant of the broker. -/
structure BrokerInv (b : Broker) : Prop where
  running : b.run ≠ .panicked
  todo : ∀ event todo, b.run = .fanout event todo → todo ⊆ b.clients
  drained : b.run = .stopped → b.clients = ∅
  chans : ∀ ch, ChanInv b ch
  whole : ∀ ch ∈ b.clients, b.Whole ch

section Step

variable {b b' : Broker} {ch ch' : ChanId} {event : SSEEvent} {todo : Finset ChanId}

/-- A channel that a step leaves alone. -/
theorem ChanInv.frame (h : ChanInv b ch) (hclients : ch ∈ b'.clients ↔ ch ∈ b.clients)
    (hchan : b'.chans ch = b.chans ch) (hjoined : b'.joined ch = b.joined ch)
    (hreceived : b'.received ch = b.received ch) (htaken : b'.taken = b.taken) :
    ChanInv b' ch := by
  have haccepted : b'.accepted ch = b.accepted ch := by
    unfold Broker.accepted
    rw [hreceived, hchan]
  constructor
  · rw [hclients, hjoined, hchan]
    exact h.client
  · rw [hjoined, hchan, haccepted]
    exact h.fresh
  · rw [hchan]
    exact h.capacity
  · rw [hjoined, haccepted, htaken]
    exact h.block

theorem Broker.Whole.frame (h : b.Whole ch) (hchan : b'.chans ch = b.chans ch)
    (hjoined : b'.joined ch = b.joined ch) (hreceived : b'.received ch = b.received ch)
    (htaken : b'.taken = b.taken) (hpending : b'.pending ch = b.pending ch) : b'.Whole ch := by
  intro n hn
  unfold Broker.accepted
  rw [hreceived, hchan, hpending, htaken]
  exact h n (hjoined ▸ hn)

theorem ChanInv.open_of_mem (h : ChanInv b ch) (hmem : ch ∈ b.clients) :
    (b.chans ch).closed = false :=
  (h.client.mp hmem).2

theorem ChanInv.joined_of_mem (h : ChanInv b ch) (hmem : ch ∈ b.clients) : b.joined ch ≠ none :=
  Option.isSome_iff_ne_none.mp (h.client.mp hmem).1

@[simp] theorem Broker.setChan_chans_self {c : EventChan} : (b.setChan ch c).chans ch = c :=
  Function.update_self ..

theorem Broker.setChan_chans_of_ne {c : EventChan} (hne : ch' ≠ ch) :
    (b.setChan ch c).chans ch' = b.chans ch' :=
  Function.update_of_ne hne ..

@[simp] theorem Broker.pending_of_select (hrun : b.run = .select) : b.pending ch = [] := by
  simp [pending, hrun]

theorem Broker.pending_of_fanout (hrun : b.run = .fanout event todo) :
    b.pending ch = if ch ∈ todo then [event] else [] := by
  simp [pending, hrun]

/-- Dropping an open client. -/
theorem Broker.drop_of_open (hopen : (b.chans ch).closed = false) :
    b.drop ch = { b with clients := b.clients.erase ch }.setChan ch
      { b.chans ch with closed := true } := by
  unfold drop
  rw [if_neg (by simp [hopen])]

theorem Broker.offer_of_fits (hopen : (b.chans ch).closed = false)
    (hfits : (b.chans ch).buffer.length < channelCapacity) :
    b.offer ch event =
      b.setChan ch { b.chans ch with buffer := (b.chans ch).buffer ++ [event] } := by
  unfold offer
  rw [if_neg (by simp [hopen]), if_pos hfits]

theorem Broker.offer_of_full (hopen : (b.chans ch).closed = false)
    (hfull : channelCapacity ≤ (b.chans ch).buffer.length) : b.offer ch event = b.drop ch := by
  unfold offer
  rw [if_neg (by simp [hopen]), if_neg (not_lt.mpr hfull)]

/-- `Run` moves on while no client is waiting for an offer. -/
theorem BrokerInv.setRun (h : BrokerInv b) {p : RunPhase} (hp : p ≠ .panicked)
    (hfanout : ∀ event todo, p ≠ .fanout event todo) (hdrained : p = .stopped → b.clients = ∅)
    (hpending : ∀ ch, b.pending ch = []) : BrokerInv { b with run := p } := by
  refine ⟨hp, fun event todo hrun => absurd hrun (hfanout event todo), hdrained,
    fun ch => (h.chans ch).frame Iff.rfl rfl rfl rfl rfl,
    fun ch hmem => (h.whole ch hmem).frame rfl rfl rfl rfl ?_⟩
  rw [hpending ch]
  cases p with
  | fanout event todo => exact absurd rfl (hfanout event todo)
  | _ => rfl

/-- An open client leaves the map and its channel is closed. -/
theorem ChanInv.drop (h : ChanInv b ch) (hmem : ch ∈ b.clients) : ChanInv (b.drop ch) ch := by
  rw [Broker.drop_of_open (h.open_of_mem hmem)]
  constructor
  · simp [Broker.setChan]
  · exact fun hnone => absurd hnone (h.joined_of_mem hmem)
  · simpa using h.capacity
  · simpa [Broker.accepted, Broker.setChan] using h.block

/-- A client is dropped. What it has not been offered by then it does not get. -/
theorem BrokerInv.drop (hchans : ∀ ch', ChanInv b ch') (hmem : ch ∈ b.clients)
    (hwhole : ∀ ch' ∈ b.clients, ch' ≠ ch → b.Whole ch') (hrunning : b.run ≠ .panicked)
    (htodo : ∀ event todo, b.run = .fanout event todo → todo ⊆ b.clients.erase ch)
    (hdrained : b.run ≠ .stopped) : BrokerInv (b.drop ch) := by
  have hch := (hchans ch).drop hmem
  rw [Broker.drop_of_open ((hchans ch).open_of_mem hmem)] at hch ⊢
  refine ⟨hrunning, htodo, fun hrun => absurd hrun hdrained, fun ch' => ?_, fun ch' hmem' => ?_⟩
  · by_cases hne : ch' = ch
    · exact hne ▸ hch
    · exact (hchans ch').frame (Finset.mem_erase.trans (and_iff_right hne))
        (Broker.setChan_chans_of_ne hne) rfl rfl rfl
  · obtain ⟨hne, hmem'⟩ := Finset.mem_erase.mp hmem'
    exact (hwhole ch' hmem' hne).frame (Broker.setChan_chans_of_ne hne) rfl rfl rfl rfl

/-- A client is dropped outside of a `range` over the clients. -/
theorem BrokerInv.drop_client (h : BrokerInv b) (hmem : ch ∈ b.clients)
    (hfanout : ∀ event todo, b.run ≠ .fanout event todo) (hstopped : b.run ≠ .stopped) :
    BrokerInv (b.drop ch) :=
  BrokerInv.drop h.chans hmem (fun ch' hmem' _ => h.whole ch' hmem') h.running
    (fun event todo hrun => absurd hrun (hfanout event todo)) hstopped

theorem BrokerInv.register (h : BrokerInv b) (hrun : b.run = .select) (hnew : b.joined ch = none) :
    BrokerInv { b with
      clients := insert ch b.clients
      joined := Function.update b.joined ch (some b.taken.length) } := by
  obtain ⟨hopen, haccepted⟩ := (h.chans ch).fresh hnew
  -- the block of the new client begins here, and is empty
  have hjoined : ∀ n, Function.update b.joined ch (some b.taken.length) ch = some n →
      n = b.taken.length := by
    intro n hn
    rw [Function.update_self] at hn
    exact (Option.some.inj hn).symm
  refine ⟨h.running, ?_, ?_, fun ch' => ?_, fun ch' hmem => ?_⟩
  · intro event todo hrun'
    cases hrun.symm.trans hrun'
  · intro hrun'
    cases hrun.symm.trans hrun'
  · by_cases hne : ch' = ch
    · subst hne
      refine ⟨by simp [hopen], by simp, (h.chans ch').capacity, fun n hn => ?_⟩
      obtain rfl := hjoined n hn
      show _ ∧ b.accepted ch' <+: _
      rw [haccepted]
      exact ⟨le_refl _, List.nil_prefix⟩
    · exact (h.chans ch').frame (Finset.mem_insert.trans (or_iff_right hne)) rfl
        (Function.update_of_ne hne _ _) rfl rfl
  · by_cases hne : ch' = ch
    · subst hne
      intro n hn
      obtain rfl := hjoined n hn
      show b.accepted ch' ++ b.pending ch' = b.taken.drop b.taken.length
      rw [haccepted, Broker.pending_of_select hrun, List.drop_length, List.append_nil]
    · have hmem' := (Finset.mem_insert.mp hmem).resolve_left hne
      exact (h.whole ch' hmem').frame rfl (Function.update_of_ne hne _ _) rfl rfl rfl

theorem BrokerInv.broadcast (h : BrokerInv b) (hrun : b.run = .select) :
    BrokerInv { b with run := .fanout event b.clients, taken := b.taken ++ [event] } := by
  refine ⟨by simp, ?_, by simp, fun ch => ?_, fun ch hmem n hn => ?_⟩
  · intro event' todo hrun'
    obtain ⟨rfl, rfl⟩ := RunPhase.fanout.inj hrun'
    exact Finset.Subset.refl _
  · obtain ⟨hclient, hfresh, hcapacity, hblock⟩ := h.chans ch
    refine ⟨hclient, hfresh, hcapacity, fun n hn => ?_⟩
    obtain ⟨hle, hprefix⟩ := hblock n hn
    show n ≤ (b.taken ++ [event]).length ∧ b.accepted ch <+: (b.taken ++ [event]).drop n
    rw [List.length_append, List.drop_append_of_le_length hle]
    exact ⟨by omega, hprefix.trans (List.prefix_append _ _)⟩
  · have hwhole := h.whole ch hmem n hn
    rw [Broker.pending_of_select hrun, List.append_nil] at hwhole
    show b.accepted ch ++ (if ch ∈ b.clients then [event] else []) = (b.taken ++ [event]).drop n
    rw [if_pos hmem, List.drop_append_of_le_length ((h.chans ch).block n hn).1, hwhole]

/-- The event fits into the client's channel. -/
theorem BrokerInv.send (h : BrokerInv b) (hrun : b.run = .fanout event todo) (hch : ch ∈ todo)
    (hfits : (b.chans ch).buffer.length < channelCapacity) :
    BrokerInv ({ b with run := .fanout event (todo.erase ch) }.setChan ch
      { b.chans ch with buffer := (b.chans ch).buffer ++ [event] }) := by
  have hmem : ch ∈ b.clients := h.todo event todo hrun hch
  -- the event at hand is the only one of `taken` that the client does not have
  have hnext : ∀ n, b.joined ch = some n → b.accepted ch ++ [event] = b.taken.drop n := by
    intro n hn
    have hwhole := h.whole ch hmem n hn
    rwa [Broker.pending_of_fanout hrun, if_pos hch] at hwhole
  have haccepted : ({ b with run := .fanout event (todo.erase ch) }.setChan ch
      { b.chans ch with buffer := (b.chans ch).buffer ++ [event] }).accepted ch =
        b.accepted ch ++ [event] := by
    simp [Broker.accepted, Broker.setChan]
  refine ⟨by simp [Broker.setChan], ?_, by simp [Broker.setChan], fun ch' => ?_,
    fun ch' hmem' => ?_⟩
  · intro event' todo' hrun'
    obtain ⟨rfl, rfl⟩ := RunPhase.fanout.inj hrun'
    exact (Finset.erase_subset _ _).trans (h.todo _ _ hrun)
  · by_cases hne : ch' = ch
    · subst hne
      refine ⟨?_, fun hnone => absurd hnone ((h.chans ch').joined_of_mem hmem), ?_, fun n hn => ?_⟩
      · simpa [Broker.setChan] using (h.chans ch').client
      · simpa using hfits
      · rw [haccepted, hnext n hn]
        exact ⟨((h.chans ch').block n hn).1, List.prefix_refl _⟩
    · exact (h.chans ch').frame Iff.rfl (Broker.setChan_chans_of_ne hne) rfl rfl rfl
  · by_cases hne : ch' = ch
    · subst hne
      intro n hn
      rw [haccepted, Broker.pending_of_fanout rfl, if_neg (Finset.notMem_erase _ _),
        List.append_nil]
      exact hnext n hn
    · refine (h.whole ch' hmem').frame (Broker.setChan_chans_of_ne hne) rfl rfl rfl ?_
      rw [Broker.pending_of_fanout hrun, Broker.pending_of_fanout rfl]
      simp [hne]

/-- The `range` comes to a client. -/
theorem BrokerInv.offer (h : BrokerInv b) (hrun : b.run = .fanout event todo) (hch : ch ∈ todo) :
    BrokerInv ({ b with run := .fanout event (todo.erase ch) }.offer ch event) := by
  have hmem : ch ∈ b.clients := h.todo event todo hrun hch
  have hopen := (h.chans ch).open_of_mem hmem
  by_cases hfits : (b.chans ch).buffer.length < channelCapacity
  · have hsend : ({ b with run := .fanout event (todo.erase ch) } : Broker).offer ch event = _ :=
      Broker.offer_of_fits hopen hfits
    rw [hsend]
    exact h.send hrun hch hfits
  -- the channel is full: the client goes, and the others stay as they are
  have hfull : ({ b with run := .fanout event (todo.erase ch) } : Broker).offer ch event = _ :=
    Broker.offer_of_full hopen (not_lt.mp hfits)
  rw [hfull]
  refine BrokerInv.drop (fun ch' => (h.chans ch').frame Iff.rfl rfl rfl rfl rfl) hmem ?_ (by simp)
    ?_ (by simp)
  · intro ch' hmem' hne
    refine (h.whole ch' hmem').frame rfl rfl rfl rfl ?_
    rw [Broker.pending_of_fanout hrun, Broker.pending_of_fanout rfl]
    simp [hne]
  · intro event' todo' hrun'
    obtain ⟨rfl, rfl⟩ := RunPhase.fanout.inj hrun'
    exact Finset.erase_subset_erase ch (h.todo _ _ hrun)

/-- A partner takes an event out of its channel. -/
theorem BrokerInv.receive (h : BrokerInv b) {rest : List SSEEvent}
    (hbuffer : (b.chans ch).buffer = event :: rest) :
    BrokerInv ({ b with received := Function.update b.received ch (b.received ch ++ [event]) }.setChan
      ch { b.chans ch with buffer := rest }) := by
  -- what leaves the buffer was received: together they are the same
  have haccepted : ∀ ch', ({ b with
      received := Function.update b.received ch (b.received ch ++ [event]) }.setChan ch
        { b.chans ch with buffer := rest }).accepted ch' = b.accepted ch' := by
    intro ch'
    by_cases hne : ch' = ch
    · subst hne
      simp [Broker.accepted, Broker.setChan, hbuffer]
    · simp [Broker.accepted, Broker.setChan, hne]
  refine ⟨h.running, h.todo, h.drained, fun ch' => ?_, fun ch' hmem n hn => ?_⟩
  · obtain ⟨hclient, hfresh, hcapacity, hblock⟩ := h.chans ch'
    have hclosed : (Function.update b.chans ch { b.chans ch with buffer := rest } ch').closed =
        (b.chans ch').closed := by
      by_cases hne : ch' = ch
      · subst hne
        simp
      · simp [hne]
    refine ⟨?_, ?_, ?_, ?_⟩
    · show _ ↔ _ ∧ (Function.update b.chans ch _ ch').closed = false
      rw [hclosed]
      exact hclient
    · rw [haccepted]
      show _ → (Function.update b.chans ch _ ch').closed = false ∧ _
      rw [hclosed]
      exact hfresh
    · by_cases hne : ch' = ch
      · subst hne
        rw [hbuffer, List.length_cons] at hcapacity
        simpa using by omega
      · rw [Broker.setChan_chans_of_ne hne]
        exact hcapacity
    · rw [haccepted]
      exact hblock
  · rw [haccepted]
    exact h.whole ch' hmem n hn

/-- **Every step keeps the invariant.** -/
theorem BrokerInv.step (h : BrokerInv b) {a : RunAction} (hs : runStep b a = some b') :
    BrokerInv b' := by
  cases a with
  | register ch =>
      obtain ⟨hrun, hnew, rfl⟩ := runStep_register.mp hs
      exact h.register hrun hnew
  | unregister ch =>
      obtain ⟨hrun, rfl⟩ := runStep_unregister.mp hs
      split
      · rename_i hmem
        exact h.drop_client hmem (by simp [hrun]) (by simp [hrun])
      · exact h
  | broadcast event =>
      obtain ⟨hrun, rfl⟩ := runStep_broadcast.mp hs
      exact h.broadcast hrun
  | offer ch =>
      obtain ⟨event, todo, hrun, hch, rfl⟩ := runStep_offer.mp hs
      exact h.offer hrun hch
  | endFanout =>
      obtain ⟨event, hrun, rfl⟩ := runStep_endFanout.mp hs
      exact h.setRun (by simp) (by simp) (by simp) fun ch => by simp [Broker.pending, hrun]
  | countReq caller =>
      obtain ⟨hrun, rfl⟩ := runStep_countReq.mp hs
      exact h.setRun (by simp) (by simp) (by simp) fun ch => Broker.pending_of_select hrun
  | reply =>
      obtain ⟨caller, hrun, rfl⟩ := runStep_reply.mp hs
      exact h.setRun (by simp) (by simp) (by simp) fun ch => by simp [Broker.pending, hrun]
  | shutdown =>
      obtain ⟨hrun, -, rfl⟩ := runStep_shutdown.mp hs
      exact h.setRun (by simp) (by simp) (by simp) fun ch => Broker.pending_of_select hrun
  | drop ch =>
      obtain ⟨hrun, hmem, rfl⟩ := runStep_drop.mp hs
      exact h.drop_client hmem (by simp [hrun]) (by simp [hrun])
  | done =>
      obtain ⟨hrun, hempty, rfl⟩ := runStep_done.mp hs
      exact h.setRun (by simp) (by simp) (fun _ => hempty) fun ch => by simp [Broker.pending, hrun]
  | receive ch =>
      obtain ⟨event, rest, hbuffer, rfl⟩ := runStep_receive.mp hs
      exact h.receive hbuffer
  | closeShutdown =>
      obtain rfl := Option.some.inj hs
      exact ⟨h.running, h.todo, h.drained, fun ch => (h.chans ch).frame Iff.rfl rfl rfl rfl rfl,
        fun ch hmem => (h.whole ch hmem).frame rfl rfl rfl rfl rfl⟩

theorem brokerInv_new : BrokerInv Broker.new :=
  ⟨by simp [Broker.new], by simp [Broker.new], by simp [Broker.new],
    fun ch => ⟨by simp [Broker.new], by simp [Broker.new, Broker.accepted], by simp [Broker.new],
      by simp [Broker.new]⟩, by simp [Broker.new]⟩

/-! ### What a client receives -/

theorem Broker.drop_accepted : (b.drop ch').accepted ch = b.accepted ch := by
  unfold drop
  split
  · rfl
  by_cases hne : ch = ch'
  · subst hne
    simp [accepted, setChan]
  · simp [accepted, setChan, hne]

theorem Broker.drop_closed (hclosed : (b.chans ch).closed = true) :
    ((b.drop ch').chans ch).closed = true := by
  unfold drop
  split
  · exact hclosed
  by_cases hne : ch = ch'
  · subst hne
    simp
  · rw [setChan_chans_of_ne hne]
    exact hclosed

theorem Broker.offer_closed (hclosed : (b.chans ch).closed = true) :
    ((b.offer ch' event).chans ch).closed = true ∧
      (b.offer ch' event).accepted ch = b.accepted ch := by
  unfold offer
  split
  · exact ⟨hclosed, rfl⟩
  rename_i hopen
  split
  · -- the channel that takes the event is open, so it is another one
    have hne : ch ≠ ch' := by
      rintro rfl
      exact hopen hclosed
    refine ⟨?_, ?_⟩
    · rw [setChan_chans_of_ne hne]
      exact hclosed
    · simp [accepted, setChan, hne]
  · exact ⟨drop_closed hclosed, drop_accepted⟩

/-- A closed channel stays closed, and nothing is put into it. -/
theorem runStep_closed {a : RunAction} (hs : runStep b a = some b')
    (hclosed : (b.chans ch).closed = true) :
    (b'.chans ch).closed = true ∧ b'.accepted ch = b.accepted ch := by
  cases a with
  | register ch' =>
      obtain ⟨-, -, rfl⟩ := runStep_register.mp hs
      exact ⟨hclosed, rfl⟩
  | unregister ch' =>
      obtain ⟨-, rfl⟩ := runStep_unregister.mp hs
      split
      · exact ⟨Broker.drop_closed hclosed, Broker.drop_accepted⟩
      · exact ⟨hclosed, rfl⟩
  | broadcast event =>
      obtain ⟨-, rfl⟩ := runStep_broadcast.mp hs
      exact ⟨hclosed, rfl⟩
  | offer ch' =>
      obtain ⟨event, todo, -, -, rfl⟩ := runStep_offer.mp hs
      exact Broker.offer_closed (b := { b with run := _ }) hclosed
  | endFanout =>
      obtain ⟨event, -, rfl⟩ := runStep_endFanout.mp hs
      exact ⟨hclosed, rfl⟩
  | countReq caller =>
      obtain ⟨-, rfl⟩ := runStep_countReq.mp hs
      exact ⟨hclosed, rfl⟩
  | reply =>
      obtain ⟨caller, -, rfl⟩ := runStep_reply.mp hs
      exact ⟨hclosed, rfl⟩
  | shutdown =>
      obtain ⟨-, -, rfl⟩ := runStep_shutdown.mp hs
      exact ⟨hclosed, rfl⟩
  | drop ch' =>
      obtain ⟨-, -, rfl⟩ := runStep_drop.mp hs
      exact ⟨Broker.drop_closed hclosed, Broker.drop_accepted⟩
  | done =>
      obtain ⟨-, -, rfl⟩ := runStep_done.mp hs
      exact ⟨hclosed, rfl⟩
  | receive ch' =>
      obtain ⟨event, rest, hbuffer, rfl⟩ := runStep_receive.mp hs
      by_cases hne : ch = ch'
      · subst hne
        exact ⟨by simp [hclosed], by simp [Broker.accepted, Broker.setChan, hbuffer]⟩
      · exact ⟨by simp [Broker.setChan, hne, hclosed], by simp [Broker.accepted, Broker.setChan, hne]⟩
  | closeShutdown =>
      obtain rfl := Option.some.inj hs
      exact ⟨hclosed, rfl⟩

/-- What a step, or no step at all, leaves alone. -/
structure Broker.Frame (b b' : Broker) (a : Option RunAction) : Prop where
  joined : ∀ ch, a ≠ some (.register ch) → b'.joined ch = b.joined ch
  received : ∀ ch, a ≠ some (.receive ch) → b'.received ch = b.received ch
  taken : b.taken <+: b'.taken
  /-- `Run` owes a count only after `countReq` and until `reply`. -/
  reply : a ≠ some .reply → (∀ caller, a ≠ some (.countReq caller)) →
    ∀ caller, b'.run = .reply caller ↔ b.run = .reply caller
  shutdown : b.shutdown = true → b'.shutdown = true

theorem Broker.Frame.refl (b : Broker) (a : Option RunAction) : b.Frame b a :=
  ⟨fun _ _ => rfl, fun _ _ => rfl, List.prefix_refl _, fun _ _ _ => Iff.rfl, id⟩

theorem Broker.Frame.drop (a : Option RunAction) (hrun : ∀ caller, b.run ≠ .reply caller) :
    b.Frame (b.drop ch) a := by
  unfold Broker.drop
  split
  · exact ⟨fun _ _ => rfl, fun _ _ => rfl, List.prefix_refl _,
      fun _ _ caller => by simp [hrun caller], id⟩
  · exact ⟨fun _ _ => rfl, fun _ _ => rfl, List.prefix_refl _, fun _ _ _ => Iff.rfl, id⟩

/-- Only `Run`'s position is another. -/
theorem Broker.Frame.setRun {a : Option RunAction} {p : RunPhase}
    (hreply : a ≠ some .reply → (∀ caller, a ≠ some (.countReq caller)) →
      ∀ caller, p = .reply caller ↔ b.run = .reply caller) :
    b.Frame { b with run := p } a :=
  ⟨fun _ _ => rfl, fun _ _ => rfl, List.prefix_refl _, hreply, id⟩

theorem runStep_frame {a : RunAction} (hs : runStep b a = some b') : b.Frame b' (some a) := by
  cases a with
  | register ch =>
      obtain ⟨-, -, rfl⟩ := runStep_register.mp hs
      refine ⟨fun ch' hact => ?_, fun _ _ => rfl, List.prefix_refl _, fun _ _ _ => Iff.rfl, id⟩
      exact Function.update_of_ne (by rintro rfl; exact hact rfl) _ _
  | unregister ch =>
      obtain ⟨hrun, rfl⟩ := runStep_unregister.mp hs
      split
      · exact Broker.Frame.drop _ (by simp [hrun])
      · exact Broker.Frame.refl _ _
  | broadcast event =>
      obtain ⟨hrun, rfl⟩ := runStep_broadcast.mp hs
      exact ⟨fun _ _ => rfl, fun _ _ => rfl, List.prefix_append _ _,
        fun _ _ _ => by simp [hrun], id⟩
  | offer ch =>
      obtain ⟨event, todo, hrun, -, rfl⟩ := runStep_offer.mp hs
      have hother : ∀ p, p = RunPhase.panicked ∨ p = .fanout event (todo.erase ch) →
          ∀ caller, p = .reply caller ↔ b.run = .reply caller := by
        rintro p (rfl | rfl) caller <;> simp [hrun]
      unfold Broker.offer
      split
      · exact Broker.Frame.setRun fun _ _ => hother _ (Or.inl rfl)
      split
      · exact ⟨fun _ _ => rfl, fun _ _ => rfl, List.prefix_refl _,
          fun _ _ => hother _ (Or.inr rfl), id⟩
      · unfold Broker.drop
        split
        · exact Broker.Frame.setRun fun _ _ => hother _ (Or.inl rfl)
        · exact ⟨fun _ _ => rfl, fun _ _ => rfl, List.prefix_refl _,
            fun _ _ => hother _ (Or.inr rfl), id⟩
  | endFanout =>
      obtain ⟨event, hrun, rfl⟩ := runStep_endFanout.mp hs
      exact Broker.Frame.setRun (by simp [hrun])
  | countReq caller =>
      obtain ⟨-, rfl⟩ := runStep_countReq.mp hs
      exact Broker.Frame.setRun fun _ hact => absurd rfl (hact caller)
  | reply =>
      obtain ⟨caller, -, rfl⟩ := runStep_reply.mp hs
      exact Broker.Frame.setRun fun hact => absurd rfl hact
  | shutdown =>
      obtain ⟨hrun, -, rfl⟩ := runStep_shutdown.mp hs
      exact Broker.Frame.setRun (by simp [hrun])
  | drop ch =>
      obtain ⟨hrun, -, rfl⟩ := runStep_drop.mp hs
      exact Broker.Frame.drop _ (by simp [hrun])
  | done =>
      obtain ⟨hrun, -, rfl⟩ := runStep_done.mp hs
      exact Broker.Frame.setRun (by simp [hrun])
  | receive ch =>
      obtain ⟨event, rest, -, rfl⟩ := runStep_receive.mp hs
      refine ⟨fun _ _ => rfl, fun ch' hact => ?_, List.prefix_refl _, fun _ _ _ => Iff.rfl, id⟩
      exact Function.update_of_ne (by rintro rfl; exact hact rfl) _ _
  | closeShutdown =>
      obtain rfl := Option.some.inj hs
      exact ⟨fun _ _ => rfl, fun _ _ => rfl, List.prefix_refl _, fun _ _ _ => Iff.rfl, fun _ => rfl⟩

/-- A registered channel stays registered where it was. -/
theorem runStep_joined {a : RunAction} (hs : runStep b a = some b') {n : Nat}
    (hn : b.joined ch = some n) : b'.joined ch = some n := by
  by_cases hact : a = .register ch
  · subst hact
    obtain ⟨-, hnew, -⟩ := runStep_register.mp hs
    cases hnew.symm.trans hn
  · rw [(runStep_frame hs).joined ch fun h => hact (Option.some.inj h)]
    exact hn

theorem Broker.offer_accepted (hopen : (b.chans ch).closed = false)
    (hfits : (b.chans ch).buffer.length < channelCapacity) :
    (b.offer ch event).accepted ch = b.accepted ch ++ [event] := by
  rw [offer_of_fits hopen hfits]
  simp [accepted, setChan]

/-- The event that does not fit costs the client its place. -/
theorem Broker.offer_out (hopen : (b.chans ch).closed = false)
    (hfull : channelCapacity ≤ (b.chans ch).buffer.length) :
    ch ∉ (b.offer ch event).clients ∧ ((b.offer ch event).chans ch).closed = true ∧
      (b.offer ch event).accepted ch = b.accepted ch := by
  rw [offer_of_full hopen hfull, drop_accepted, drop_of_open hopen]
  exact ⟨Finset.notMem_erase _ _, by simp, rfl⟩

/-- An offer goes to an open channel. -/
theorem BrokerInv.offer_step (hi : BrokerInv b) (hs : runStep b (.offer ch) = some b') :
    ∃ event todo, b.run = .fanout event todo ∧ (b.chans ch).closed = false ∧
      b' = { b with run := .fanout event (todo.erase ch) }.offer ch event := by
  obtain ⟨event, todo, hrun, hch, hpost⟩ := runStep_offer.mp hs
  exact ⟨event, todo, hrun, (hi.chans ch).open_of_mem (hi.todo event todo hrun hch), hpost⟩

end Step

/-! ### Runs -/

/-- The step closes the channel. -/
def Transition.closes (tr : Transition Broker RunAction) (ch : ChanId) : Bool :=
  !(tr.pre.chans ch).closed && (tr.post.chans ch).closed

/-- What a run of the broker that ends in `b` does for one client. -/
structure Delivery (run : List RunAction) (b : Broker) (ch : ChanId) : Prop where
  /-- What is received is a block of the broadcasts, and begins with the first one after the
  registration. -/
  block : ∀ tr ∈ transitions runStep Broker.new run, tr.act = .register ch →
    b.received ch <+: b.taken.drop tr.pre.taken.length
  unregistered : (∀ tr ∈ transitions runStep Broker.new run, tr.act ≠ .register ch) →
    b.received ch = []
  /-- An event that fits is put into the channel. -/
  fits : ∀ tr ∈ transitions runStep Broker.new run, tr.act = .offer ch →
    (tr.pre.chans ch).buffer.length < channelCapacity →
    ∃ event todo, tr.pre.run = .fanout event todo ∧
      tr.post.accepted ch = tr.pre.accepted ch ++ [event]
  /-- The first one that does not is the end: the client is out of the map, its channel is closed,
  and what was put into it before is all that is ever put into it. -/
  full : ∀ tr ∈ transitions runStep Broker.new run, tr.act = .offer ch →
    channelCapacity ≤ (tr.pre.chans ch).buffer.length →
    ch ∉ tr.post.clients ∧ (tr.post.chans ch).closed = true ∧ b.accepted ch = tr.pre.accepted ch
  closed : ∀ tr ∈ transitions runStep Broker.new run, (tr.pre.chans ch).closed = true →
    ch ∉ b.clients ∧ b.accepted ch = tr.pre.accepted ch
  closings : ((transitions runStep Broker.new run).filter fun tr => tr.closes ch).length ≤ 1
  /-- No `close` of a closed channel, and no send on one. -/
  running : b.run ≠ .panicked

section Runs

variable {b b' : Broker} {ch : ChanId} {run : List RunAction}

theorem exec_closed (h : exec runStep b run = some b') (hclosed : (b.chans ch).closed = true) :
    (b'.chans ch).closed = true ∧ b'.accepted ch = b.accepted ch := by
  refine exec_preserves (I := fun s : Broker => (s.chans ch).closed = true ∧
    s.accepted ch = b.accepted ch) ?_ ⟨hclosed, rfl⟩ h
  intro s a s' hs hstep
  obtain ⟨hclosed', haccepted⟩ := runStep_closed hstep hs.1
  exact ⟨hclosed', haccepted.trans hs.2⟩

/-- The steps that close a channel: one when it is closed, none before. -/
theorem closings_eq (h : exec runStep Broker.new run = some b) :
    ((transitions runStep Broker.new run).filter fun tr => tr.closes ch).length =
      if (b.chans ch).closed then 1 else 0 := by
  refine exec_history (P := fun l s => (l.filter fun tr => tr.closes ch).length =
    if (s.chans ch).closed then 1 else 0) ?_ rfl h
  intro l s a s' hl hs
  rw [List.filter_append, List.length_append, hl]
  by_cases hclosed : (s.chans ch).closed = true
  · have hclosed' := (runStep_closed hs hclosed).1
    simp [Transition.closes, hclosed, hclosed']
  · by_cases hclosed' : (s'.chans ch).closed = true
    · simp [Transition.closes, hclosed, hclosed']
    · simp [Transition.closes, hclosed, hclosed']

/-- A channel that is not registered in the run is not registered at its end. -/
theorem joined_eq_none (h : exec runStep Broker.new run = some b)
    (hnone : ∀ tr ∈ transitions runStep Broker.new run, tr.act ≠ .register ch) :
    b.joined ch = none := by
  revert hnone
  refine exec_history (P := fun l s => (∀ tr ∈ l, tr.act ≠ .register ch) → s.joined ch = none)
    ?_ (fun _ => rfl) h
  intro l s a s' hl hs hnone
  have hact : a ≠ .register ch := hnone ⟨s, a, s'⟩ (by simp)
  have hold := hl fun tr htr => hnone tr (List.mem_append_left _ htr)
  exact ((runStep_frame hs).joined ch fun h => hact (Option.some.inj h)).trans hold

/-- **Each client is delivered a block of the broadcasts, up to the first that does not fit.** -/
theorem run_delivery (h : exec runStep Broker.new run = some b) (ch : ChanId) :
    Delivery run b ch := by
  have hinv : BrokerInv b := exec_preserves (fun hi hs => hi.step hs) brokerInv_new h
  have hpre : ∀ tr ∈ transitions runStep Broker.new run, BrokerInv tr.pre := fun tr htr =>
    (transitions_preserves (fun hi hs => hi.step hs) brokerInv_new htr).1
  constructor
  · intro tr htr hact
    obtain ⟨rest, hrest⟩ := exec_of_mem_transitions htr h
    have hs := step_of_mem_transitions htr
    rw [hact] at hs
    obtain ⟨-, -, hpost⟩ := runStep_register.mp hs
    -- the registration is still on record at the end of the run
    have hjoined : b.joined ch = some tr.pre.taken.length := by
      refine exec_preserves (I := fun s : Broker => s.joined ch = some tr.pre.taken.length)
        (fun hn hs => runStep_joined hs hn) ?_ hrest
      rw [hpost]
      exact Function.update_self ..
    exact (List.prefix_append _ _).trans ((hinv.chans ch).block _ hjoined).2
  · intro hnone
    have haccepted := ((hinv.chans ch).fresh (joined_eq_none h hnone)).2
    exact (List.append_eq_nil_iff.mp haccepted).1
  · intro tr htr hact hfits
    have hs := step_of_mem_transitions htr
    rw [hact] at hs
    obtain ⟨event, todo, hrun, hopen, hpost⟩ := (hpre tr htr).offer_step hs
    refine ⟨event, todo, hrun, ?_⟩
    rw [hpost]
    exact Broker.offer_accepted (b := { tr.pre with run := _ }) hopen hfits
  · intro tr htr hact hfull
    obtain ⟨rest, hrest⟩ := exec_of_mem_transitions htr h
    have hs := step_of_mem_transitions htr
    rw [hact] at hs
    obtain ⟨event, todo, hrun, hopen, hpost⟩ := (hpre tr htr).offer_step hs
    have hout : ch ∉ tr.post.clients ∧ (tr.post.chans ch).closed = true ∧
        tr.post.accepted ch = tr.pre.accepted ch := by
      rw [hpost]
      exact Broker.offer_out (b := { tr.pre with run := _ }) hopen hfull
    exact ⟨hout.1, hout.2.1, (exec_closed hrest hout.2.1).2.trans hout.2.2⟩
  · intro tr htr hclosed
    obtain ⟨rest, hrest⟩ := exec_of_mem_transitions htr h
    obtain ⟨hclosed₁, haccepted₁⟩ := runStep_closed (step_of_mem_transitions htr) hclosed
    obtain ⟨hclosed₂, haccepted₂⟩ := exec_closed hrest hclosed₁
    refine ⟨fun hmem => ?_, haccepted₂.trans haccepted₁⟩
    exact absurd ((hinv.chans ch).open_of_mem hmem) (by simp [hclosed₂])
  · rw [closings_eq h]
    split
    · exact le_refl 1
    · exact Nat.zero_le 1
  · exact hinv.running

/-- A client that never takes anything out of its channel, and seventeen broadcasts. -/
def slowClient (event : SSEEvent) : List RunAction :=
  .register 0 :: (List.replicate 17 [.broadcast event, .offer 0, .endFanout]).flatten

/-- The first sixteen are for it when it comes round to reading. -/
theorem slowClient_delivery :
    ∃ b, exec runStep Broker.new (slowClient ⟨"flag_updated", .null, 1⟩) = some b ∧
      (b.chans 0).closed = true ∧ (b.accepted 0).length = 16 ∧
      Delivery (slowClient ⟨"flag_updated", .null, 1⟩) b 0 := by
  have hrun : (exec runStep Broker.new (slowClient ⟨"flag_updated", .null, 1⟩)).map
      (fun b => ((b.chans 0).closed, (b.accepted 0).length)) = some (true, 16) := by
    decide
  obtain ⟨b, hb, hall⟩ := Option.map_eq_some_iff.mp hrun
  obtain ⟨hclosed, hlength⟩ := Prod.mk.inj hall
  exact ⟨b, hb, hclosed, hlength, run_delivery hb 0⟩

end Runs

end FlagPlane
