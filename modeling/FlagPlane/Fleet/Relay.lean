import FlagPlane.Fleet.Agreement
import FlagPlane.Sse.TornStream

/-!
# FlagPlane.Fleet.Relay

**From `COMMIT` to the loop of a client**: the service, Redis, and on each node `Subscribe` and the
hub it feeds, as one machine. The calls of `Publish` race to Redis, and some never get there.
Redis gives each subscription its messages in one order and may lose any of them. `Subscribe`
takes a message apart, and waits in `Broadcast` before it takes the next. A node may crash and come
back with a new hub.

What is left of all that for one connection is `commit_to_client`: its frames are some of the
messages, in the order of Redis and each at most once; each is the envelope of a committed event,
and of the messages that calls sent which wrote something, no two are of one event. Where nothing
is lost and no node goes down, all nodes take the same messages in one order, and at rest these are
the committed events (`nodes_take_every_event`).
-/

namespace FlagPlane

/-! ### The machine -/

/-- A message for the channel. -/
structure Handed where
  publication : Publication
  /-- The call that sends it has written. -/
  writes : Bool

/-- Where `Subscribe` is. -/
inductive Subscriber
  /-- At its `select`. -/
  | waiting
  /-- In `Broadcast`, as this caller of the hub. -/
  | broadcasting (caller : CallerId)
  | returned

/-- A backend: its hub, its subscription, and how many messages are behind it. -/
structure Node where
  hub : Hub
  subscriber : Subscriber
  passed : Nat

structure Relay where
  service : Service
  /-- The calls of `Publish` that have not been answered. -/
  publishing : List Handed
  /-- The messages that Redis has taken, in its order. -/
  channel : List Handed
  nodes : Nat → Node

inductive RelayAction
  /-- A step of the service; what it publishes is stamped so. -/
  | service (a : ServiceAction) (ts : Int) (traceparent : String)
  /-- Redis takes a message. -/
  | arrive (i : Nat)
  /-- `Publish` fails. -/
  | publishFails (i : Nat)
  /-- The subscription loses its next message. -/
  | miss (k : Nat)
  /-- `Subscribe` takes its next message, and calls `Broadcast`. -/
  | consume (k : Nat) (caller : CallerId)
  /-- `Broadcast` returns. -/
  | goOn (k : Nat)
  /-- `<-ctx.Done()`. -/
  | stop (k : Nat)
  | hub (k : Nat) (a : HubAction)
  | crash (k : Nat)

/-- The message for an envelope that the action `a` hands to `Publish`. -/
def Service.handed (s : Service) (a : ServiceAction) (ts : Int) (traceparent : String) :
    Option Handed :=
  (s.publishing a).map fun env => ⟨⟨env, ts, traceparent⟩, (s.handing a).isSome⟩

/-- The event with its data as a value. -/
def RawSSEEvent.parsed (e : RawSSEEvent) : Option SSEEvent :=
  (parseJson e.data).map fun data => ⟨e.event, data, e.version⟩

/-- What `Subscribe` broadcasts for a message; nothing when it is a bad envelope. -/
def Handed.event (m : Handed) : Option SSEEvent :=
  (m.publication.payload.bind subscribe).bind RawSSEEvent.parsed

/-- Only `Subscribe` calls `Broadcast`. -/
def HubAction.broadcasts : HubAction → Bool
  | call _ (.broadcast _) => true
  | _ => false

def Relay.setNode (s : Relay) (k : Nat) (node : Node) : Relay :=
  { s with nodes := Function.update s.nodes k node }

/-- A subscription right after a start. -/
def Node.start (passed : Nat) : Node := ⟨Hub.new, .waiting, passed⟩

/-- `Subscribe` with its next message. -/
def Node.consume (node : Node) (m : Handed) (caller : CallerId) : Option Node :=
  match m.event with
  | none => some { node with passed := node.passed + 1 }
  | some event =>
    (hubStep node.hub (.call caller (.broadcast event))).map fun hub =>
      ⟨hub, .broadcasting caller, node.passed + 1⟩

def relayStep (s : Relay) : RelayAction → Option Relay
  | .service a ts traceparent =>
    -- `time.Now().UnixNano()` is an `int64`
    if Json.InInt64 ts then
      (serviceStep s.service a).map fun service =>
        { s with
          service := service
          publishing := s.publishing ++ (s.service.handed a ts traceparent).toList }
    else none
  | .arrive i =>
    match s.publishing[i]? with
    | some m =>
      if m.publication.payload.isSome then
        some { s with publishing := s.publishing.eraseIdx i, channel := s.channel ++ [m] }
      else none
    | none => none
  | .publishFails i =>
    if i < s.publishing.length then some { s with publishing := s.publishing.eraseIdx i } else none
  | .miss k =>
    if (s.nodes k).passed < s.channel.length then
      some (s.setNode k { s.nodes k with passed := (s.nodes k).passed + 1 })
    else none
  | .consume k caller =>
    match (s.nodes k).subscriber, s.channel[(s.nodes k).passed]? with
    | .waiting, some m => ((s.nodes k).consume m caller).map (s.setNode k)
    | _, _ => none
  | .goOn k =>
    match (s.nodes k).subscriber with
    | .broadcasting caller =>
      match (s.nodes k).hub.callers caller with
      | some .returned => some (s.setNode k { s.nodes k with subscriber := .waiting })
      | _ => none
    | _ => none
  | .stop k =>
    match (s.nodes k).subscriber with
    | .waiting => some (s.setNode k { s.nodes k with subscriber := .returned })
    | _ => none
  | .hub k a =>
    if a.broadcasts then none
    else (hubStep (s.nodes k).hub a).map fun hub => s.setNode k { s.nodes k with hub := hub }
  | .crash k => some (s.setNode k (.start s.channel.length))

/-- The service on migrated rows, and nodes that have just started. -/
def Relay.migrated (rows : List FlagRow) : Relay :=
  ⟨Service.migrated rows, [], [], fun _ => .start 0⟩

/-! ### One hub -/

section Hub

variable {b b' : Broker} {s s' : Hub} {caller : CallerId}

theorem Broker.drop_taken (b : Broker) (ch : ChanId) : (b.drop ch).taken = b.taken := by
  unfold Broker.drop
  split <;> rfl

/-- `Run` takes an event in one step only. -/
theorem runStep_taken {a : RunAction} (hs : runStep b a = some b')
    (ha : ∀ event, a ≠ .broadcast event) : b'.taken = b.taken := by
  cases a with
  | broadcast event => exact absurd rfl (ha event)
  | register ch =>
      obtain ⟨-, -, rfl⟩ := runStep_register.mp hs
      rfl
  | unregister ch =>
      obtain ⟨-, rfl⟩ := runStep_unregister.mp hs
      split
      · exact b.drop_taken ch
      · rfl
  | offer ch =>
      obtain ⟨event, todo, -, -, rfl⟩ := runStep_offer.mp hs
      unfold Broker.offer
      split
      · rfl
      split
      · rfl
      · exact Broker.drop_taken _ ch
  | endFanout =>
      obtain ⟨event, -, rfl⟩ := runStep_endFanout.mp hs
      rfl
  | countReq caller =>
      obtain ⟨-, rfl⟩ := runStep_countReq.mp hs
      rfl
  | reply =>
      obtain ⟨caller, -, rfl⟩ := runStep_reply.mp hs
      rfl
  | shutdown =>
      obtain ⟨-, -, rfl⟩ := runStep_shutdown.mp hs
      rfl
  | drop ch =>
      obtain ⟨-, -, rfl⟩ := runStep_drop.mp hs
      exact b.drop_taken ch
  | done =>
      obtain ⟨-, -, rfl⟩ := runStep_done.mp hs
      rfl
  | receive ch =>
      obtain ⟨event, rest, -, rfl⟩ := runStep_receive.mp hs
      rfl
  | closeShutdown =>
      obtain rfl := Option.some.inj hs
      rfl

theorem Broker.sync_taken {met : Option RunAction} (hs : b.sync met = some b')
    (hmet : ∀ event, met ≠ some (.broadcast event)) : b'.taken = b.taken := by
  cases met with
  | none =>
      obtain rfl := Option.some.inj hs
      rfl
  | some a => exact runStep_taken hs fun event h => hmet event (congrArg some h)

/-- A caller that waits in `Broadcast` hands its event over, or gives up when `Run` has ended. -/
theorem CallStage.next_broadcast {c c' : CallStage} {a : CallAction} {met : Option RunAction}
    (hn : c.next b caller a = some (c', met)) :
    (∃ event, c = .broadcast event ∧ c' = .returned ∧ met = some (.broadcast event)) ∨
      (∀ event, met ≠ some (.broadcast event)) ∧ (∀ event, c' ≠ .broadcast event) ∧
        (b.isDone = false → ∀ event, c ≠ .broadcast event) := by
  unfold CallStage.next at hn
  split at hn
  · cases hn
    exact Or.inl ⟨_, rfl, rfl, rfl⟩
  · cases hn
    exact Or.inr ⟨by simp, by simp, by simp⟩
  · split at hn
    · split at hn
      · cases hn
        exact Or.inr ⟨by simp, by simp, by simp⟩
      · cases hn
    · cases hn
  · split at hn
    · rename_i hdone
      cases hn
      exact Or.inr ⟨by simp, by simp, fun h => by rw [h] at hdone; cases hdone⟩
    · cases hn
  · split at hn
    · cases hn
      exact Or.inr ⟨by simp, by simp, by simp⟩
    · cases hn
  · split at hn
    · cases hn
      exact Or.inr ⟨by simp, by simp, by simp⟩
    · cases hn
  · cases hn

/-- **What a hub does with the callers of `Broadcast`.** One of them hands its event to `Run`; or
nothing is taken, nobody enters it, and nobody leaves it before `Run` has ended. -/
theorem hubStep_taken {a : HubAction} (hs : hubStep s a = some s') (ha : a.broadcasts = false) :
    (∃ caller event, s.callers caller = some (.broadcast event) ∧
        s'.broker.taken = s.broker.taken ++ [event] ∧
        s'.callers = Function.update s.callers caller (some .returned)) ∨
      s'.broker.taken = s.broker.taken ∧
        (∀ caller event, s'.callers caller = some (.broadcast event) →
          s.callers caller = some (.broadcast event)) ∧
        (s.broker.isDone = false → ∀ caller event, s.callers caller = some (.broadcast event) →
          s'.callers caller = some (.broadcast event)) := by
  cases a with
  | request ch =>
      obtain ⟨-, rfl⟩ := hubStep_request.mp hs
      exact Or.inr ⟨rfl, fun _ _ h => h, fun _ _ _ h => h⟩
  | serve ch a =>
      obtain ⟨h, h', met, b, -, hn, hb, rfl⟩ := hubStep_serve.mp hs
      refine Or.inr ⟨Broker.sync_taken hb fun event => ?_, fun _ _ h => h, fun _ _ _ h => h⟩
      rcases ServeHTTP.next_met hn with rfl | rfl | rfl | rfl <;> simp
  | call caller op =>
      obtain ⟨hnone, b, hb, rfl⟩ := hubStep_call.mp hs
      have hop : (∀ event, op.start.2 ≠ some (.broadcast event)) ∧
          ∀ event, op.start.1 ≠ .broadcast event := by
        cases op with
        | broadcast event => cases ha
        | clientCount | shutdown => simp [Operation.start]
      refine Or.inr ⟨Broker.sync_taken hb hop.1, fun caller' event h => ?_,
        fun _ caller' event h => ?_⟩
      · rcases update_some_cases h with ⟨-, h⟩ | ⟨-, h⟩
        · exact absurd h.symm (hop.2 event)
        · exact h
      · have hne : caller' ≠ caller := by
          rintro rfl
          cases hnone.symm.trans h
        exact (Function.update_of_ne hne _ _).trans h
  | caller caller a =>
      obtain ⟨c, c', met, b, hc, hn, hb, rfl⟩ := hubStep_caller.mp hs
      rcases CallStage.next_broadcast hn with ⟨event, rfl, rfl, rfl⟩ | ⟨hmet, hc', hstays⟩
      · obtain ⟨-, rfl⟩ := runStep_broadcast.mp hb
        exact Or.inl ⟨caller, event, hc, rfl, rfl⟩
      · refine Or.inr ⟨Broker.sync_taken hb hmet, fun caller' event h => ?_,
          fun hdone caller' event h => ?_⟩
        · rcases update_some_cases h with ⟨-, h⟩ | ⟨-, h⟩
          · exact absurd h.symm (hc' event)
          · exact h
        · have hne : caller' ≠ caller := by
            rintro rfl
            exact hstays hdone event (Option.some.inj (hc.symm.trans h))
          exact (Function.update_of_ne hne _ _).trans h
  | run a =>
      obtain ⟨hown, b, hb, rfl⟩ := hubStep_run.mp hs
      refine Or.inr ⟨runStep_taken hb fun event heq => ?_, fun _ _ h => h, fun _ _ _ h => h⟩
      rw [heq] at hown
      cases hown

end Hub

/-! ### One node -/

/-- What the subscription has in `Broadcast`. -/
def Node.inBroadcast (node : Node) : List SSEEvent :=
  match node.subscriber with
  | .broadcasting caller =>
    match node.hub.callers caller with
    | some (.broadcast event) => [event]
    | _ => []
  | _ => []

/-- The hub of the node has been given some of the messages that are behind the subscription, in
their order. -/
structure NodeInv (channel : List Handed) (node : Node) : Prop where
  hub : HubInv node.hub
  written : node.hub.WritesReceived
  only : ∀ caller event, node.hub.callers caller = some (.broadcast event) →
    node.subscriber = .broadcasting caller
  relayed : ∃ msgs : List Handed, msgs.Sublist (channel.take node.passed) ∧
    node.hub.broker.taken ++ node.inBroadcast = msgs.map fun m => m.publication.env.sseEvent

section Node

variable {channel : List Handed} {node : Node} {m : Handed} {caller : CallerId} {hub : Hub}

theorem Node.inBroadcast_of_waiting (h : node.subscriber = .waiting) : node.inBroadcast = [] := by
  rw [Node.inBroadcast, h]

theorem Node.inBroadcast_of_broadcasting {event : SSEEvent}
    (hsub : node.subscriber = .broadcasting caller)
    (hc : node.hub.callers caller = some (.broadcast event)) : node.inBroadcast = [event] := by
  rw [Node.inBroadcast, hsub]
  dsimp only
  rw [hc]

theorem Node.inBroadcast_of_idle
    (hidle : ∀ caller event, node.hub.callers caller ≠ some (.broadcast event)) :
    node.inBroadcast = [] := by
  unfold Node.inBroadcast
  split
  · split
    · rename_i caller _ _ event hc
      exact absurd hc (hidle caller event)
    · rfl
  · rfl

theorem Node.inBroadcast_setSubscriber {sub : Subscriber}
    (hidle : ∀ caller event, node.hub.callers caller ≠ some (.broadcast event)) :
    Node.inBroadcast { node with subscriber := sub } = node.inBroadcast := by
  have hafter : Node.inBroadcast { node with subscriber := sub } = [] :=
    Node.inBroadcast_of_idle hidle
  rw [hafter, Node.inBroadcast_of_idle hidle]

theorem nodeInv_start (channel : List Handed) (passed : Nat) :
    NodeInv channel (.start passed) where
  hub := hubInv_new
  written _ _ hh := by cases hh
  only _ _ hc := by cases hc
  relayed := ⟨[], List.nil_sublist _, rfl⟩

theorem NodeInv.append (h : NodeInv channel node) (m : Handed) : NodeInv (channel ++ [m]) node where
  hub := h.hub
  written := h.written
  only := h.only
  relayed := by
    obtain ⟨msgs, hsub, htaken⟩ := h.relayed
    exact ⟨msgs, hsub.trans ((List.prefix_append channel [m]).take _).sublist, htaken⟩

theorem NodeInv.miss (h : NodeInv channel node) :
    NodeInv channel { node with passed := node.passed + 1 } where
  hub := h.hub
  written := h.written
  only := h.only
  relayed := by
    obtain ⟨msgs, hsub, htaken⟩ := h.relayed
    exact ⟨msgs, hsub.trans (List.take_sublist_take_left (Nat.le_succ _)), htaken⟩

theorem NodeInv.setSubscriber (h : NodeInv channel node) {sub : Subscriber}
    (hidle : ∀ caller event, node.hub.callers caller ≠ some (.broadcast event)) :
    NodeInv channel { node with subscriber := sub } where
  hub := h.hub
  written := h.written
  only caller event hc := absurd hc (hidle caller event)
  relayed := by
    obtain ⟨msgs, hsub, htaken⟩ := h.relayed
    refine ⟨msgs, hsub, ?_⟩
    rw [Node.inBroadcast_setSubscriber hidle]
    exact htaken

/-- While the subscription is at its `select`, nobody is in `Broadcast`. -/
theorem NodeInv.idle_of_waiting (h : NodeInv channel node) (hwaiting : node.subscriber = .waiting)
    (caller : CallerId) (event : SSEEvent) :
    node.hub.callers caller ≠ some (.broadcast event) := by
  intro hc
  cases hwaiting.symm.trans (h.only caller event hc)

theorem NodeInv.idle_of_returned (h : NodeInv channel node)
    (hsubscriber : node.subscriber = .broadcasting caller)
    (hreturned : node.hub.callers caller = some .returned) (caller' : CallerId) (event : SSEEvent) :
    node.hub.callers caller' ≠ some (.broadcast event) := by
  intro hc
  have hcaller := hsubscriber.symm.trans (h.only caller' event hc)
  rw [← Subscriber.broadcasting.inj hcaller, hreturned] at hc
  cases hc

/-- `Subscribe` takes a message. -/
theorem NodeInv.consume (h : NodeInv channel node) {node' : Node}
    (hwaiting : node.subscriber = .waiting) (hm : channel[node.passed]? = some m)
    (hevent : m.event = some m.publication.env.sseEvent)
    (hs : node.consume m caller = some node') : NodeInv channel node' := by
  rw [Node.consume, hevent] at hs
  obtain ⟨hub, hhub, rfl⟩ := Option.map_eq_some_iff.mp hs
  obtain ⟨msgs, hsub, htaken⟩ := h.relayed
  rw [Node.inBroadcast_of_waiting hwaiting, List.append_nil] at htaken
  obtain ⟨-, b, hb, rfl⟩ := hubStep_call.mp hhub
  obtain rfl : node.hub.broker = b := Option.some.inj hb
  refine ⟨h.hub.step hhub, h.written.step h.hub hhub, fun caller' event hc => ?_,
    msgs ++ [m], ?_, ?_⟩
  · rcases update_some_cases hc with ⟨rfl, -⟩ | ⟨-, hc⟩
    · rfl
    · cases hwaiting.symm.trans (h.only caller' event hc)
  · rw [List.take_add_one, hm]
    exact hsub.append_right [m]
  · rw [List.map_append, ← htaken]
    exact congrArg (node.hub.broker.taken ++ ·)
      (Node.inBroadcast_of_broadcasting rfl (Function.update_self ..))

/-- The event that is handed to `Run` is the one in `Broadcast`. -/
theorem NodeInv.inBroadcast_sent (h : NodeInv channel node) {event : SSEEvent}
    (hc : node.hub.callers caller = some (.broadcast event))
    (htaken : hub.broker.taken = node.hub.broker.taken ++ [event])
    (hcallers : hub.callers = Function.update node.hub.callers caller (some .returned)) :
    hub.broker.taken ++ Node.inBroadcast { node with hub := hub } =
      node.hub.broker.taken ++ node.inBroadcast := by
  have hsubscriber := h.only caller event hc
  have hafter : Node.inBroadcast { node with hub := hub } = [] := by
    simp [Node.inBroadcast, hsubscriber, hcallers]
  rw [Node.inBroadcast_of_broadcasting hsubscriber hc, hafter, htaken, List.append_nil]

theorem NodeInv.hubStep (h : NodeInv channel node) {a : HubAction}
    (hs : hubStep node.hub a = some hub) (ha : a.broadcasts = false) :
    NodeInv channel { node with hub := hub } := by
  obtain ⟨msgs, hsub, htaken⟩ := h.relayed
  refine ⟨h.hub.step hs, h.written.step h.hub hs, ?_, ?_⟩
  · intro caller event hc
    rcases hubStep_taken hs ha with ⟨caller', event', -, -, hcallers⟩ | ⟨-, hgo, -⟩
    · rw [hcallers] at hc
      rcases update_some_cases hc with ⟨-, heq⟩ | ⟨-, hc⟩
      · cases heq
      · exact h.only caller event hc
    · exact h.only caller event (hgo caller event hc)
  · rcases hubStep_taken hs ha with ⟨caller, event, hc, heq, hcallers⟩ | ⟨heq, hgo, -⟩
    · refine ⟨msgs, hsub, ?_⟩
      rw [← htaken]
      exact h.inBroadcast_sent hc heq hcallers
    · -- who was in `Broadcast` is there still, or has given up
      have hprefix : Node.inBroadcast { node with hub := hub } <+: node.inBroadcast := by
        unfold Node.inBroadcast
        cases node.subscriber with
        | broadcasting caller =>
            dsimp only
            split
            · rename_i event hc
              rw [hgo caller event hc]
            · exact List.nil_prefix
        | waiting | returned => exact List.nil_prefix
      have hshort : hub.broker.taken ++ Node.inBroadcast { node with hub := hub } <+:
          msgs.map fun m => m.publication.env.sseEvent := by
        rw [← htaken, heq]
        exact (List.prefix_append_right_inj _).mpr hprefix
      obtain ⟨msgs', hmsgs', heq'⟩ := List.prefix_map_iff.mp hshort
      exact ⟨msgs', hmsgs'.sublist.trans hsub, heq'⟩

end Node

/-! ### The messages -/

/-- The message carries an update or a delete that the service has sent. -/
structure Handed.Genuine (events : List FlagEvent) (m : Handed) : Prop where
  message : (∃ flag, m.publication.env = publishFlagUpdate flag) ∨
    ∃ key version, m.publication.env = publishFlagDelete key version
  /-- Version 0 is that of a row no event has touched. -/
  origin : (∃ e ∈ events, m.publication.env.OfEvent e) ∨ m.publication.env.version = 0
  stamp : Json.InInt64 m.publication.ts

section Messages

variable {events events' : List FlagEvent} {m : Handed} {s : Service} {a : ServiceAction}
  {ts : Int} {traceparent : String}

theorem Handed.Genuine.mono (h : m.Genuine events) (hsub : ∀ e ∈ events, e ∈ events') :
    m.Genuine events' :=
  ⟨h.message, h.origin.imp_left fun ⟨e, he, heq⟩ => ⟨e, hsub e he, heq⟩, h.stamp⟩

/-- What the service sends can be written. -/
theorem writable_of_message {env : Envelope} (h : (∃ flag, env = publishFlagUpdate flag) ∨
    ∃ key version, env = publishFlagDelete key version) : env.data.Writable := by
  rcases h with ⟨flag, henv⟩ | ⟨key, version, henv⟩
  · rw [henv]
    refine .obj ?_
    simp only [List.forall_mem_cons]
    refine ⟨.str _, .str _, .str _, .bool _, .int _, .arr fun item hitem => ?_, .int _, .str _,
      .str _, by simp⟩
    obtain ⟨user, -, rfl⟩ := List.mem_map.mp hitem
    exact .str user
  · rw [henv]
    refine .obj ?_
    simp only [List.forall_mem_cons]
    exact ⟨.str _, by simp⟩

/-- `Subscribe` broadcasts the event of the envelope. -/
theorem Handed.Genuine.event {db : Db} (h : m.Genuine db.events) (hdb : DbInv db) :
    m.event = some m.publication.env.sseEvent := by
  have hversion : Json.InInt64 m.publication.env.version := by
    exact hdb.inInt64_of_logged
      (h.origin.symm.imp_right fun ⟨e, he, heq⟩ => ⟨e, he, heq.version.symm⟩)
  have hwritable := writable_of_message h.message
  rw [Handed.event, Publication.payload, publish_subscribe hwritable _ _ hversion h.stamp,
    Option.bind_some, RawSSEEvent.parsed, parseJson_render hwritable]
  rfl

/-- What a call that writes hands over is what it publishes. -/
theorem Service.publishing_of_handing {env : Envelope} (h : s.handing a = some env) :
    s.publishing a = some env := by
  cases a with
  | respond t =>
      rw [Service.handing] at h
      split at h
      · split at h
        · cases h
        · exact h
      · cases h
  | _ => cases h

theorem Service.handed_writes (s : Service) (a : ServiceAction) (ts : Int) (traceparent : String) :
    ((s.handed a ts traceparent).toList.filter Handed.writes).map (fun m => m.publication.env) =
      (s.handing a).toList := by
  rw [Service.handed]
  cases hh : s.handing a with
  | none => cases s.publishing a <;> rfl
  | some env =>
      rw [Service.publishing_of_handing hh]
      rfl

theorem ServiceInv.genuine (h : ServiceInv s) (hts : Json.InInt64 ts)
    (hm : s.handed a ts traceparent = some m) : m.Genuine s.db.events := by
  obtain ⟨env, henv, rfl⟩ := Option.map_eq_some_iff.mp hm
  refine ⟨?_, ?_, hts⟩
  · show (∃ flag, env = publishFlagUpdate flag) ∨ ∃ key version, env = publishFlagDelete key version
    unfold Service.publishing at henv
    split at henv
    swap
    · cases henv
    split at henv
    swap
    · cases henv
    rename_i r _ _
    unfold RepoResult.envelope at henv
    split at henv <;> cases henv
    · exact Or.inl ⟨_, rfl⟩
    · exact Or.inl ⟨_, rfl⟩
    · exact Or.inr ⟨_, _, rfl⟩
  · by_cases hversion : s.PublishesUnversioned a
    · obtain ⟨t, id, req, flagKey, flag, rfl, hcall, -, htx, hv⟩ := hversion
      rw [Service.publishing, hcall, htx] at henv
      obtain rfl := Option.some.inj henv
      exact Or.inr hv
    · exact Or.inl (h.publishing_event hversion henv)

end Messages

/-! ### The whole -/

/-- The messages that are under way or at Redis. -/
def Relay.messages (s : Relay) : List Handed := s.publishing ++ s.channel

/-- The envelopes of the messages that calls have sent which wrote something. -/
def writtenEnvelopes (messages : List Handed) : List Envelope :=
  (messages.filter Handed.writes).map fun m => m.publication.env

structure RelayInv (s : Relay) : Prop where
  service : ServiceInv s.service
  linked : Linked s.service
  underway : Underway s.service.db
  /-- They have been handed over, each once. -/
  sent : ∃ trs owed, Outbox trs owed s.service ∧
    (writtenEnvelopes s.messages).Subperm (handedOver trs)
  genuine : ∀ m ∈ s.messages, m.Genuine s.service.db.events
  nodes : ∀ k, NodeInv s.channel (s.nodes k)

section Run

variable {rows : List FlagRow} {s s' : Relay} {as : List RelayAction}

theorem writtenEnvelopes_append (messages more : List Handed) :
    writtenEnvelopes (messages ++ more) = writtenEnvelopes messages ++ writtenEnvelopes more := by
  rw [writtenEnvelopes, List.filter_append, List.map_append, ← writtenEnvelopes,
    ← writtenEnvelopes]

theorem writtenEnvelopes_perm {messages messages' : List Handed} (h : messages.Perm messages') :
    (writtenEnvelopes messages).Perm (writtenEnvelopes messages') :=
  (h.filter _).map _

theorem writtenEnvelopes_subperm {messages messages' : List Handed}
    (h : messages.Subperm messages') :
    (writtenEnvelopes messages).Subperm (writtenEnvelopes messages') := by
  obtain ⟨l, hperm, hsub⟩ := h.filter Handed.writes
  exact ⟨l.map _, hperm.map _, hsub.map _⟩

theorem Migrated.relayInv (hrows : Migrated rows) : RelayInv (Relay.migrated rows) where
  service := hrows.serviceInv
  linked := linked_migrated rows
  underway := underway_migrated rows
  sent := ⟨[], [], .start _, List.Subperm.refl _⟩
  genuine _ hm := by cases hm
  nodes _ := nodeInv_start _ _

/-- The service and the nodes go on; no message comes from nowhere. -/
theorem RelayInv.frame (h : RelayInv s) (hservice : s'.service = s.service)
    (hmessages : s'.messages.Subperm s.messages) (hnodes : ∀ k, NodeInv s'.channel (s'.nodes k)) :
    RelayInv s' where
  service := hservice ▸ h.service
  linked := hservice ▸ h.linked
  underway := hservice ▸ h.underway
  sent := by
    obtain ⟨trs, owed, hout, hsent⟩ := h.sent
    exact ⟨trs, owed, hservice ▸ hout, (writtenEnvelopes_subperm hmessages).trans hsent⟩
  genuine m hm := hservice ▸ h.genuine m (hmessages.subset hm)
  nodes := hnodes

theorem RelayInv.setNode (h : RelayInv s) {k : Nat} {node : Node} (hnode : NodeInv s.channel node) :
    RelayInv (s.setNode k node) := by
  refine h.frame rfl (List.Subperm.refl _) fun k' => ?_
  show NodeInv s.channel (Function.update s.nodes k node k')
  by_cases hne : k' = k
  · subst hne
    rw [Function.update_self]
    exact hnode
  · rw [Function.update_of_ne hne]
    exact h.nodes k'

/-- What the service sends joins the messages. -/
theorem messages_service {a : ServiceAction} {ts : Int} {traceparent : String} {service : Service}
    (hs' : s' = { s with
      service := service
      publishing := s.publishing ++ (s.service.handed a ts traceparent).toList }) :
    s'.messages.Perm (s.messages ++ (s.service.handed a ts traceparent).toList) := by
  rw [Relay.messages, Relay.messages, hs', List.append_assoc, List.append_assoc]
  exact List.perm_append_comm.append_left _

/-- A message that arrives stays one of them. -/
theorem messages_arrive {i : Nat} (hi : i < s.publishing.length) :
    (s.publishing.eraseIdx i ++ (s.channel ++ [s.publishing[i]])).Perm s.messages := by
  rw [← List.append_assoc]
  exact (List.perm_append_singleton _ _).trans
    ((List.getElem_cons_eraseIdx_perm hi).append_right _)

/-- What calls that write have sent is what they have handed over. -/
theorem writtenEnvelopes_service (messages : List Handed)
    (trs : List (Transition Service ServiceAction)) {s s' : Service} (a : ServiceAction) (ts : Int)
    (traceparent : String) :
    writtenEnvelopes (messages ++ (s.handed a ts traceparent).toList) =
      writtenEnvelopes messages ++ (s.handing a).toList ∧
      handedOver (trs ++ [⟨s, a, s'⟩]) = handedOver trs ++ (s.handing a).toList := by
  rw [writtenEnvelopes_append, ← s.handed_writes a ts traceparent, handedOver_append,
    ← s.handed_writes a ts traceparent]
  exact ⟨rfl, rfl⟩

theorem RelayInv.serviceStep (h : RelayInv s) {a : ServiceAction} {ts : Int} {traceparent : String}
    (hts : Json.InInt64 ts) {service : Service} (hs : serviceStep s.service a = some service)
    (hs' : s' = { s with
      service := service
      publishing := s.publishing ++ (s.service.handed a ts traceparent).toList }) :
    RelayInv s' := by
  have hsub : ∀ e ∈ s.service.db.events, e ∈ service.db.events := fun e he =>
    serviceStep_preserves (I := fun db => e ∈ db.events) (fun he hs => step_events hs he) he hs
  have hmessages := messages_service hs'
  obtain ⟨trs, owed, hout, hsent⟩ := h.sent
  obtain ⟨owed', hout'⟩ := hout.step h.service h.linked h.underway hs
  subst hs'
  refine ⟨h.service.serviceStep hs, h.linked.step hs,
    serviceStep_preserves (fun hway hs => hway.step hs) h.underway hs, ⟨_, owed', hout', ?_⟩,
    fun m hm => ?_, h.nodes⟩
  · refine (writtenEnvelopes_subperm hmessages.subperm).trans ?_
    obtain ⟨hsent', htrs⟩ := writtenEnvelopes_service s.messages trs a ts traceparent
    rw [hsent', htrs]
    exact (List.subperm_append_right _).mpr hsent
  · rcases List.mem_append.mp (hmessages.subset hm) with hold | hnew
    · exact (h.genuine m hold).mono hsub
    · exact (h.service.genuine hts (Option.mem_toList.mp hnew)).mono hsub

theorem RelayInv.step (h : RelayInv s) {a : RelayAction} (hs : relayStep s a = some s') :
    RelayInv s' := by
  cases a with
  | service a ts traceparent =>
      rw [relayStep] at hs
      split at hs
      · rename_i hts
        obtain ⟨service, hservice, hs'⟩ := Option.map_eq_some_iff.mp hs
        exact h.serviceStep hts hservice hs'.symm
      · cases hs
  | arrive i =>
      rw [relayStep] at hs
      split at hs
      swap
      · cases hs
      rename_i m hm
      split at hs
      swap
      · cases hs
      obtain rfl := Option.some.inj hs
      obtain ⟨hi, rfl⟩ := List.getElem?_eq_some_iff.mp hm
      exact h.frame rfl (messages_arrive hi).subperm fun k => (h.nodes k).append _
  | publishFails i =>
      rw [relayStep] at hs
      split at hs
      swap
      · cases hs
      obtain rfl := Option.some.inj hs
      refine h.frame rfl ?_ h.nodes
      exact ((s.publishing.eraseIdx_sublist i).append_right s.channel).subperm
  | miss k =>
      rw [relayStep] at hs
      split at hs
      swap
      · cases hs
      obtain rfl := Option.some.inj hs
      exact h.setNode (h.nodes k).miss
  | consume k caller =>
      rw [relayStep] at hs
      split at hs
      swap
      · cases hs
      rename_i m hwaiting hm
      obtain ⟨node, hnode, rfl⟩ := Option.map_eq_some_iff.mp hs
      have hmem : m ∈ s.messages := List.mem_append_right _ (List.mem_of_getElem? hm)
      have hevent := (h.genuine m hmem).event h.service.db
      exact h.setNode ((h.nodes k).consume hwaiting hm hevent hnode)
  | goOn k =>
      rw [relayStep] at hs
      split at hs
      swap
      · cases hs
      rename_i caller hsubscriber
      split at hs
      swap
      · cases hs
      rename_i hreturned
      obtain rfl := Option.some.inj hs
      exact h.setNode ((h.nodes k).setSubscriber
        ((h.nodes k).idle_of_returned hsubscriber hreturned))
  | stop k =>
      rw [relayStep] at hs
      split at hs
      swap
      · cases hs
      rename_i hwaiting
      obtain rfl := Option.some.inj hs
      exact h.setNode ((h.nodes k).setSubscriber ((h.nodes k).idle_of_waiting hwaiting))
  | hub k a =>
      rw [relayStep] at hs
      split at hs
      · cases hs
      rename_i ha
      obtain ⟨hub, hhub, rfl⟩ := Option.map_eq_some_iff.mp hs
      exact h.setNode ((h.nodes k).hubStep hhub (by simpa using ha))
  | crash k =>
      obtain rfl := Option.some.inj hs
      exact h.setNode (nodeInv_start _ _)

/-- What calls have sent which wrote something are envelopes of distinct events. -/
theorem RelayInv.written_subperm (h : RelayInv s) :
    (writtenEnvelopes s.messages).Subperm (s.service.db.events.map FlagEvent.envelope) := by
  obtain ⟨trs, owed, hout, hsent⟩ := h.sent
  refine hsent.trans (List.Subperm.trans ?_ hout.events.symm.subperm)
  exact (List.sublist_append_left _ _).subperm

theorem RelayInv.written_event (h : RelayInv s) {m : Handed} (hm : m ∈ s.messages)
    (hwrites : m.writes = true) :
    ∃ e ∈ s.service.db.events, m.publication.env = e.envelope := by
  have hmem : m.publication.env ∈ writtenEnvelopes s.messages :=
    List.mem_map.mpr ⟨m, List.mem_filter.mpr ⟨hm, hwrites⟩, rfl⟩
  obtain ⟨e, he, heq⟩ := List.mem_map.mp (h.written_subperm.subset hmem)
  exact ⟨e, he, heq.symm⟩

/-- The versions of what calls have sent which wrote something are distinct. -/
theorem RelayInv.written_versions (h : RelayInv s) :
    ((s.messages.filter Handed.writes).map fun m => m.publication.env.version).Nodup := by
  have hevents := h.written_subperm
  obtain ⟨l, hperm, hsub⟩ := hevents
  have hnodup : ((s.service.db.events.map FlagEvent.envelope).map Envelope.version).Nodup := by
    rw [List.map_map]
    exact h.service.db.versions
  have hl := (hperm.map Envelope.version).nodup_iff.mp (hnodup.sublist (hsub.map _))
  rwa [writtenEnvelopes, List.map_map] at hl

/-- **From `COMMIT` to the loop of a client.** However service, Redis and nodes interleave, and
whatever is lost on the way: when what Redis has taken fits on the wire, the loop of a client, its
connection cut anywhere, makes its calls with some of the messages, in the order of Redis
and each at most once. Each is the envelope of a committed event, or, from an `UpdateFlag` with
nothing to change, that of the flag of such an event as its column has cut it; the messages among
them that calls sent which wrote something are envelopes of committed events, and no two are of
one event. -/
theorem commit_to_client (hrows : Migrated rows)
    (hrun : exec relayStep (Relay.migrated rows) as = some s)
    (hwire : ∀ m ∈ s.channel, 0 < m.publication.env.version ∧
      utf8Length ("data: ".toList ++ m.publication.env.data.render) < scanLimit)
    {k : Nat} {ch : ChanId} {h : ServeHTTP} (hh : (s.nodes k).hub.handlers ch = some h) {n : Nat}
    (hn : (s.nodes k).hub.broker.joined ch = some n) {writes : List Written}
    (hwrites : writes.filterMap Written.event? <+:
      (h.written ++ h.stage.inHand).map SSEEvent.raw)
    {text junk : List Char} (hcut : text <+: writes.flatMap Written.text)
    (hjunk : Printable junk)
    (servers : Nat → Nat → Option Int → Option (Response EventsBody)) (c : Client) :
    ∃ msgs : List Handed, msgs.Sublist s.channel ∧
      (c.stream servers (text ++ junk)).outcome =
        ((msgs.map fun m => m.publication.event.call).foldl (StreamLoop.take servers)
          (StreamLoop.start c)).outcome ∧
      (∀ m ∈ msgs, ∃ e ∈ s.service.db.events, m.publication.env.OfEvent e ∧
        (m.writes = true → m.publication.env = e.envelope)) ∧
      ((msgs.filter Handed.writes).map fun m => m.publication.env.version).Nodup := by
  have hinv : RelayInv s := exec_preserves (fun hi hs => hi.step hs) hrows.relayInv hrun
  have hnode := hinv.nodes k
  obtain ⟨msgs, hsub, hrelayed⟩ := hnode.relayed
  have hsub' : msgs.Sublist s.channel := hsub.trans (List.take_sublist _ _)
  have hgenuine : ∀ m ∈ s.channel, m.Genuine s.service.db.events := fun m hm =>
    hinv.genuine m (List.mem_append_right _ hm)
  have hsend : ∀ e ∈ (s.nodes k).hub.broker.taken,
      ∃ p : Publication, p.Sendable ∧ e = p.env.sseEvent := by
    intro e he
    have hmem : e ∈ msgs.map fun m => m.publication.env.sseEvent := by
      rw [← hrelayed]
      exact List.mem_append_left _ he
    obtain ⟨m, hm, rfl⟩ := List.mem_map.mp hmem
    have hm' := hsub'.subset hm
    have hversion : Json.InInt64 m.publication.env.version := by
      obtain ⟨e, he, henv⟩ | hzero := (hgenuine m hm').origin
      · exact hinv.service.db.inInt64_of_logged (Or.inr ⟨e, he, henv.version.symm⟩)
      · exact hzero ▸ by decide
    exact ⟨m.publication, ⟨(hgenuine m hm').message, (hwire m hm').1, hversion,
      (hgenuine m hm').stamp, (hwire m hm').2⟩, rfl⟩
  obtain ⟨whole, hwhole, houtcome⟩ :=
    hnode.hub.stream_block hnode.written hsend hh hn hwrites hcut hjunk servers c
  have hshort : whole.Sublist (msgs.map fun m => m.publication.env.sseEvent) := by
    rw [← hrelayed]
    exact hwhole.sublist.trans ((List.drop_sublist _ _).trans (List.sublist_append_left _ _))
  obtain ⟨made, hmade, rfl⟩ := List.sublist_map_iff.mp hshort
  have hmade' := hmade.trans hsub'
  refine ⟨made, hmade', ?_, fun m hm => ?_, ?_⟩
  · rw [houtcome, List.map_map]
    rfl
  · have hm' := hmade'.subset hm
    by_cases hwrites : m.writes = true
    · obtain ⟨e, he, heq⟩ := hinv.written_event (List.mem_append_right _ hm') hwrites
      exact ⟨e, he, Or.inl heq, fun _ => heq⟩
    · have hpos := (hwire m hm').1
      obtain ⟨e, he, heq⟩ := (hgenuine m hm').origin.resolve_right fun hzero => by omega
      exact ⟨e, he, heq, fun h => absurd h hwrites⟩
  · refine hinv.written_versions.sublist (List.Sublist.map _ (List.Sublist.filter _ ?_))
    exact hmade'.trans (List.sublist_append_right _ _)

/-- A deletion of a row that migration 002 left, while a client of node 0 connects. -/
def deleteAndConnect : List RelayAction :=
  ([.request 0 (.deleteFlag "u"), .lookup 0, .repo (.begin 0 1), .repo (.selectKey 0),
    .repo (.nextval 0), .repo (.scan 0), .repo (.lock 0), .repo (.appendEvent 0), .repo (.commit 0),
    .respond 0] : List ServiceAction).map (RelayAction.service · 0 "") ++
  [.hub 0 (.request 0), .hub 0 (.serve 0 .flush), .hub 0 (.serve 0 .register),
    .hub 0 (.serve 0 .connected)]

/-- What `Run` and the handler do with its message. -/
def passOn : List RelayAction :=
  [.hub 0 (.caller 7 .send), .hub 0 (.run (.offer 0)), .hub 0 (.run .endFanout), .goOn 0,
    .hub 0 (.serve 0 .receive)]

/-- The message of the deletion. -/
def deleteMessage : Handed := ⟨⟨publishFlagDelete "checkout" 1, 0, ""⟩, true⟩

theorem deleteMessage_event :
    deleteMessage.event = some (publishFlagDelete "checkout" 1).sseEvent := by
  have hwritable : (publishFlagDelete "checkout" 1).data.Writable :=
    writable_of_message (Or.inr ⟨_, _, rfl⟩)
  rw [Handed.event, Publication.payload, deleteMessage,
    publish_subscribe hwritable _ _ (by decide) (by decide), Option.bind_some, RawSSEEvent.parsed,
    parseJson_render hwritable]
  rfl

/-- The message arrives, and node 0 consumes it. -/
theorem relayed_deleteMessage {hub : Hub} (hp : s.publishing = [deleteMessage])
    (hc : s.channel = []) (hn : (s.nodes 0).subscriber = .waiting ∧ (s.nodes 0).passed = 0)
    (hhub : hubStep (s.nodes 0).hub
      (.call 7 (.broadcast (publishFlagDelete "checkout" 1).sseEvent)) = some hub) :
    exec relayStep s [.arrive 0, .consume 0 7] =
      some (Relay.setNode { s with publishing := [], channel := [deleteMessage] } 0
        ⟨hub, .broadcasting 7, 1⟩) := by
  have hsome : deleteMessage.publication.payload.isSome = true := by
    have hevent := deleteMessage_event
    rw [Handed.event] at hevent
    cases hpayload : deleteMessage.publication.payload with
    | none =>
        rw [hpayload] at hevent
        cases hevent
    | some text => rfl
  simp [exec, relayStep, hp, hc, hn.1, hn.2, hsome, Node.consume, deleteMessage_event, hhub]

/-- The deletion, from the request to the handler of a client. -/
def relayedDelete : List RelayAction :=
  deleteAndConnect ++ [.arrive 0, .consume 0 7] ++ passOn

theorem exec_relayedDelete :
    ∃ s, exec relayStep (Relay.migrated [checkoutRow]) relayedDelete = some s ∧
      s.channel = [deleteMessage] ∧ s.publishing = [] ∧ (s.nodes 0).subscriber = .waiting ∧
      (s.nodes 0).passed = 1 ∧ (s.nodes 0).hub.handlers 0 =
        some ⟨.writing (publishFlagDelete "checkout" 1).sseEvent, 0, []⟩ ∧
      (s.nodes 0).hub.broker.joined 0 = some 0 := by
  have hrun : ∃ s₁ hub s, exec relayStep (Relay.migrated [checkoutRow]) deleteAndConnect = some s₁ ∧
      s₁.publishing = [deleteMessage] ∧ s₁.channel = [] ∧
      ((s₁.nodes 0).subscriber = .waiting ∧ (s₁.nodes 0).passed = 0) ∧
      hubStep (s₁.nodes 0).hub
        (.call 7 (.broadcast (publishFlagDelete "checkout" 1).sseEvent)) = some hub ∧
      exec relayStep (Relay.setNode { s₁ with publishing := [], channel := [deleteMessage] } 0
        ⟨hub, .broadcasting 7, 1⟩) passOn = some s ∧ s.channel = [deleteMessage] ∧
      s.publishing = [] ∧ (s.nodes 0).subscriber = .waiting ∧ (s.nodes 0).passed = 1 ∧
      (s.nodes 0).hub.handlers 0 =
        some ⟨.writing (publishFlagDelete "checkout" 1).sseEvent, 0, []⟩ ∧
      (s.nodes 0).hub.broker.joined 0 = some 0 :=
    ⟨_, _, _, rfl, rfl, rfl, ⟨rfl, rfl⟩, rfl, rfl, rfl, rfl, rfl, rfl, rfl, rfl⟩
  obtain ⟨s₁, hub, s, hs₁, hp, hc, hn, hhub, hs, hall⟩ := hrun
  refine ⟨s, exec_append_eq_some.mpr ⟨_, exec_append_eq_some.mpr ⟨s₁, hs₁, ?_⟩, hs⟩, hall⟩
  exact relayed_deleteMessage hp hc hn hhub

/-- The connection breaks while the frame is being written. -/
theorem commit_to_client_relayedDelete :
    ∃ s, exec relayStep (Relay.migrated [checkoutRow]) relayedDelete = some s ∧
      s.channel = [deleteMessage] ∧
      ∃ msgs : List Handed, msgs.Sublist s.channel ∧
        ((⟨fun _ => none, 0⟩ : Client).stream (fun _ _ _ => none)
            (([.connected, .event deleteMessage.publication.event].flatMap
              Written.text).take 40 ++ ['\ufffd'])).outcome =
          ((msgs.map fun m => m.publication.event.call).foldl (StreamLoop.take fun _ _ _ => none)
            (StreamLoop.start ⟨fun _ => none, 0⟩)).outcome ∧
        (∀ m ∈ msgs, ∃ e ∈ s.service.db.events, m.publication.env.OfEvent e ∧
          (m.writes = true → m.publication.env = e.envelope)) ∧
        ((msgs.filter Handed.writes).map fun m => m.publication.env.version).Nodup := by
  obtain ⟨s, hs, hchannel, -, -, -, hh, hjoined⟩ := exec_relayedDelete
  refine ⟨s, hs, hchannel, ?_⟩
  refine commit_to_client migrated_checkoutRow hs ?_ hh hjoined (List.prefix_refl _)
    (List.take_prefix 40 _) (by decide) _ _
  intro m hm
  rw [hchannel, List.mem_singleton] at hm
  subst hm
  exact ⟨by decide, utf8Length_short (by decide)⟩

/-! ### Nothing lost -/

/-- No message is lost by this action, and no node goes down. -/
def RelayAction.keeps : RelayAction → Bool
  | publishFails _ | miss _ | stop _ | crash _ | hub _ (.call _ .shutdown) => false
  | _ => true

/-- `Shutdown` has not been called, and `Run` serves. -/
structure Broker.Serving (b : Broker) : Prop where
  shutdown : b.shutdown = false
  drain : b.run ≠ .drain
  stopped : b.run ≠ .stopped

/-- The hub of the node has been given what is behind the subscription. -/
structure Node.Whole (channel : List Handed) (node : Node) : Prop where
  serving : node.hub.broker.Serving
  passed : node.passed ≤ channel.length
  taken : node.hub.broker.taken ++ node.inBroadcast =
    (channel.take node.passed).map fun m => m.publication.env.sseEvent

/-- Every message that was sent is there. -/
structure Relay.Whole (s : Relay) : Prop where
  inv : RelayInv s
  sent : ∃ trs owed, Outbox trs owed s.service ∧
    (writtenEnvelopes s.messages).Perm (handedOver trs)
  nodes : ∀ k, (s.nodes k).Whole s.channel

theorem Broker.Serving.drop {b : Broker} (h : b.Serving) (ch : ChanId) : (b.drop ch).Serving := by
  unfold Broker.drop
  split
  · exact ⟨h.shutdown, by simp, by simp⟩
  · exact ⟨h.shutdown, h.drain, h.stopped⟩

theorem Broker.Serving.offer {b : Broker} (h : b.Serving) (ch : ChanId) (event : SSEEvent) :
    (b.offer ch event).Serving := by
  unfold Broker.offer
  split
  · exact ⟨h.shutdown, by simp, by simp⟩
  split
  · exact ⟨h.shutdown, h.drain, h.stopped⟩
  · exact h.drop ch

theorem Broker.Serving.runStep {b b' : Broker} {a : RunAction} (h : b.Serving)
    (hs : runStep b a = some b') (ha : a ≠ .closeShutdown) : b'.Serving := by
  cases a with
  | register ch =>
      obtain ⟨-, -, rfl⟩ := runStep_register.mp hs
      exact ⟨h.shutdown, h.drain, h.stopped⟩
  | unregister ch =>
      obtain ⟨-, rfl⟩ := runStep_unregister.mp hs
      split
      · exact h.drop ch
      · exact h
  | broadcast event =>
      obtain ⟨-, rfl⟩ := runStep_broadcast.mp hs
      exact ⟨h.shutdown, by simp, by simp⟩
  | offer ch =>
      obtain ⟨event, todo, -, -, rfl⟩ := runStep_offer.mp hs
      have hfanout : Broker.Serving { b with run := .fanout event (todo.erase ch) } :=
        ⟨h.shutdown, by simp, by simp⟩
      exact hfanout.offer ch event
  | endFanout =>
      obtain ⟨event, -, rfl⟩ := runStep_endFanout.mp hs
      exact ⟨h.shutdown, by simp, by simp⟩
  | countReq caller =>
      obtain ⟨-, rfl⟩ := runStep_countReq.mp hs
      exact ⟨h.shutdown, by simp, by simp⟩
  | reply =>
      obtain ⟨caller, -, rfl⟩ := runStep_reply.mp hs
      exact ⟨h.shutdown, by simp, by simp⟩
  | shutdown =>
      obtain ⟨-, hshutdown, -⟩ := runStep_shutdown.mp hs
      cases h.shutdown.symm.trans hshutdown
  | drop ch =>
      obtain ⟨hrun, -, -⟩ := runStep_drop.mp hs
      exact absurd hrun h.drain
  | done =>
      obtain ⟨hrun, -, -⟩ := runStep_done.mp hs
      exact absurd hrun h.drain
  | receive ch =>
      obtain ⟨event, rest, -, rfl⟩ := runStep_receive.mp hs
      exact ⟨h.shutdown, h.drain, h.stopped⟩
  | closeShutdown => exact absurd rfl ha

theorem Broker.Serving.hubStep {hub hub' : Hub} {a : HubAction} (h : hub.broker.Serving)
    (hs : hubStep hub a = some hub') (ha : ∀ caller, a ≠ .call caller .shutdown) :
    hub'.broker.Serving := by
  have hsync : ∀ {met b}, hub.broker.sync met = some b → met ≠ some .closeShutdown → b.Serving := by
    intro met b hb hmet
    cases met with
    | none =>
        obtain rfl := Option.some.inj hb
        exact h
    | some a => exact h.runStep hb fun heq => hmet (congrArg some heq)
  cases a with
  | request ch =>
      obtain ⟨-, rfl⟩ := hubStep_request.mp hs
      exact h
  | serve ch a =>
      obtain ⟨handler, handler', met, b, -, hn, hb, rfl⟩ := hubStep_serve.mp hs
      refine hsync hb ?_
      rcases ServeHTTP.next_met hn with rfl | rfl | rfl | rfl <;> simp
  | call caller op =>
      obtain ⟨-, b, hb, rfl⟩ := hubStep_call.mp hs
      refine hsync hb ?_
      cases op with
      | shutdown => exact absurd rfl (ha caller)
      | broadcast _ | clientCount => simp [Operation.start]
  | caller caller a =>
      obtain ⟨c, c', met, b, -, hn, hb, rfl⟩ := hubStep_caller.mp hs
      refine hsync hb ?_
      rcases CallStage.next_met hn with ⟨rfl, -⟩ | ⟨event, rfl, -⟩ | ⟨rfl, -⟩ | ⟨rfl, -⟩ <;> simp
  | run a =>
      obtain ⟨hown, b, hb, rfl⟩ := hubStep_run.mp hs
      refine h.runStep hb fun heq => ?_
      rw [heq] at hown
      cases hown

section WholeNode

variable {channel : List Handed} {node : Node} {hub : Hub}

theorem whole_start (channel : List Handed) : (Node.start 0).Whole channel :=
  ⟨⟨rfl, by simp [Node.start, Hub.new, Broker.new], by simp [Node.start, Hub.new, Broker.new]⟩,
    Nat.zero_le _, rfl⟩

theorem Node.Whole.append (h : node.Whole channel) (m : Handed) : node.Whole (channel ++ [m]) := by
  refine ⟨h.serving, h.passed.trans (by simp), ?_⟩
  rw [List.take_append_of_le_length h.passed]
  exact h.taken

theorem Node.Whole.setSubscriber (h : node.Whole channel) {sub : Subscriber}
    (hidle : ∀ caller event, node.hub.callers caller ≠ some (.broadcast event)) :
    Node.Whole channel { node with subscriber := sub } := by
  refine ⟨h.serving, h.passed, ?_⟩
  rw [Node.inBroadcast_setSubscriber hidle]
  exact h.taken

theorem Node.Whole.consume (h : node.Whole channel) {node' : Node} {m : Handed} {caller : CallerId}
    (hwaiting : node.subscriber = .waiting) (hm : channel[node.passed]? = some m)
    (hevent : m.event = some m.publication.env.sseEvent)
    (hs : node.consume m caller = some node') : node'.Whole channel := by
  rw [Node.consume, hevent] at hs
  obtain ⟨hub, hhub, rfl⟩ := Option.map_eq_some_iff.mp hs
  have htaken := h.taken
  rw [Node.inBroadcast_of_waiting hwaiting, List.append_nil] at htaken
  have hlt : node.passed < channel.length := (List.getElem?_eq_some_iff.mp hm).1
  obtain ⟨-, b, hb, rfl⟩ := hubStep_call.mp hhub
  obtain rfl : node.hub.broker = b := Option.some.inj hb
  refine ⟨h.serving, hlt, ?_⟩
  rw [List.take_add_one, hm, List.map_append, ← htaken]
  exact congrArg (node.hub.broker.taken ++ ·)
    (Node.inBroadcast_of_broadcasting rfl (Function.update_self ..))

theorem Node.Whole.hubStep (h : node.Whole channel) (hi : NodeInv channel node) {a : HubAction}
    (hs : hubStep node.hub a = some hub) (ha : a.broadcasts = false)
    (hshutdown : ∀ caller, a ≠ .call caller .shutdown) :
    Node.Whole channel { node with hub := hub } := by
  refine ⟨h.serving.hubStep hs hshutdown, h.passed, ?_⟩
  rw [← h.taken]
  rcases hubStep_taken hs ha with ⟨caller, event, hc, heq, hcallers⟩ | ⟨heq, hgo, hstay⟩
  · exact hi.inBroadcast_sent hc heq hcallers
  · have hdone : node.hub.broker.isDone = false := by
      rw [← Bool.not_eq_true, Broker.isDone_iff]
      exact h.serving.stopped
    have hsame : Node.inBroadcast { node with hub := hub } = node.inBroadcast := by
      unfold Node.inBroadcast
      cases node.subscriber with
      | broadcasting caller =>
          dsimp only
          split
          · rename_i event hc
            rw [hgo caller event hc]
          · rename_i hnone
            split
            · rename_i event hc
              exact absurd (hstay hdone caller event hc) (hnone event)
            · rfl
      | waiting | returned => rfl
    rw [hsame]
    exact congrArg (· ++ node.inBroadcast) heq

end WholeNode

theorem Migrated.whole (hrows : Migrated rows) : (Relay.migrated rows).Whole where
  inv := hrows.relayInv
  sent := ⟨[], [], .start _, List.Perm.refl _⟩
  nodes _ := whole_start _

theorem Relay.Whole.setNode (h : s.Whole) {k : Nat} {node : Node} (hnode : node.Whole s.channel)
    (hinv : RelayInv (s.setNode k node)) : (s.setNode k node).Whole := by
  refine ⟨hinv, h.sent, fun k' => ?_⟩
  show (Function.update s.nodes k node k').Whole s.channel
  by_cases hne : k' = k
  · subst hne
    rw [Function.update_self]
    exact hnode
  · rw [Function.update_of_ne hne]
    exact h.nodes k'

theorem Relay.Whole.step (h : s.Whole) {a : RelayAction} (ha : a.keeps = true)
    (hs : relayStep s a = some s') : s'.Whole := by
  have hinv := h.inv.step hs
  cases a with
  | service a ts traceparent =>
      rw [relayStep] at hs
      split at hs
      · obtain ⟨service, hservice, rfl⟩ := Option.map_eq_some_iff.mp hs
        obtain ⟨trs, owed, hout, hsent⟩ := h.sent
        obtain ⟨owed', hout'⟩ := hout.step h.inv.service h.inv.linked h.inv.underway hservice
        refine ⟨hinv, ⟨_, owed', hout', ?_⟩, h.nodes⟩
        obtain ⟨hsent', htrs⟩ := writtenEnvelopes_service s.messages trs a ts traceparent
        rw [htrs]
        refine (writtenEnvelopes_perm (messages_service rfl)).trans ?_
        rw [hsent']
        exact hsent.append_right _
      · cases hs
  | arrive i =>
      rw [relayStep] at hs
      split at hs
      swap
      · cases hs
      rename_i m hm
      split at hs
      swap
      · cases hs
      obtain rfl := Option.some.inj hs
      obtain ⟨hi, rfl⟩ := List.getElem?_eq_some_iff.mp hm
      obtain ⟨trs, owed, hout, hsent⟩ := h.sent
      exact ⟨hinv, ⟨trs, owed, hout, (writtenEnvelopes_perm (messages_arrive hi)).trans hsent⟩,
        fun k => (h.nodes k).append _⟩
  | consume k caller =>
      rw [relayStep] at hs
      split at hs
      swap
      · cases hs
      rename_i m hwaiting hm
      obtain ⟨node, hnode, rfl⟩ := Option.map_eq_some_iff.mp hs
      have hmem : m ∈ s.messages := List.mem_append_right _ (List.mem_of_getElem? hm)
      have hevent := (h.inv.genuine m hmem).event h.inv.service.db
      exact h.setNode ((h.nodes k).consume hwaiting hm hevent hnode) hinv
  | goOn k =>
      rw [relayStep] at hs
      split at hs
      swap
      · cases hs
      rename_i caller hsubscriber
      split at hs
      swap
      · cases hs
      rename_i hreturned
      obtain rfl := Option.some.inj hs
      refine h.setNode ((h.nodes k).setSubscriber ?_) hinv
      exact (h.inv.nodes k).idle_of_returned hsubscriber hreturned
  | hub k a =>
      rw [relayStep] at hs
      split at hs
      · cases hs
      rename_i hbroadcasts
      obtain ⟨hub, hhub, rfl⟩ := Option.map_eq_some_iff.mp hs
      refine h.setNode ((h.nodes k).hubStep (h.inv.nodes k) hhub (by simpa using hbroadcasts)
        fun caller heq => ?_) hinv
      rw [heq] at ha
      cases ha
  | publishFails _ | miss _ | stop _ | crash _ => cases ha

/-- **Lossless delivery.** While no message is lost and no node goes down, every node takes a first
part of the same messages in the same order. Once every call has published and every
message has arrived, these are the committed events, each once, besides what updates without fields
repeat; and a node whose subscription waits at the end has taken them all. -/
theorem nodes_take_every_event (hrows : Migrated rows)
    (hrun : exec relayStep (Relay.migrated rows) as = some s) (hkeeps : ∀ a ∈ as, a.keeps = true) :
    (∀ k, (s.nodes k).hub.broker.taken <+: s.channel.map fun m => m.publication.env.sseEvent) ∧
      (∀ k, (s.nodes k).subscriber = .waiting → (s.nodes k).passed = s.channel.length →
        (s.nodes k).hub.broker.taken = s.channel.map fun m => m.publication.env.sseEvent) ∧
      (s.publishing = [] → (∀ t call flagKey, s.service.calls t ≠ some (call, .calling flagKey)) →
        (writtenEnvelopes s.channel).Perm (s.service.db.events.map FlagEvent.envelope)) := by
  have hwhole : s.Whole := by
    refine exec_preserves_of (C := fun _ a => a.keeps = true) (fun h ha hs => h.step ha hs)
      hrows.whole (fun tr htr => hkeeps _ (act_mem_of_mem_transitions htr)) hrun
  refine ⟨fun k => ?_, fun k hwaiting hpassed => ?_, fun hempty hquiet => ?_⟩
  · have hprefix := ((List.take_prefix (s.nodes k).passed s.channel).map
      fun m => m.publication.env.sseEvent)
    rw [← (hwhole.nodes k).taken] at hprefix
    exact (List.prefix_append _ _).trans hprefix
  · have htaken := (hwhole.nodes k).taken
    rwa [Node.inBroadcast_of_waiting hwaiting, List.append_nil, hpassed, List.take_length] at htaken
  · obtain ⟨trs, owed, hout, hsent⟩ := hwhole.sent
    have hnothing : owed = [] := by
      rw [List.eq_nil_iff_forall_not_mem]
      intro p hp
      obtain ⟨call, flagKey, r, hcall, -⟩ := hout.owes p hp
      exact hquiet p.1 call flagKey hcall
    subst hnothing
    have hevents := hout.events
    rw [List.map_nil, List.append_nil] at hevents
    rw [Relay.messages, hempty, List.nil_append] at hsent
    exact hsent.trans hevents.symm

theorem nodes_take_every_event_relayedDelete :
    ∃ s, exec relayStep (Relay.migrated [checkoutRow]) relayedDelete = some s ∧
      (s.nodes 0).hub.broker.taken = [(publishFlagDelete "checkout" 1).sseEvent] := by
  obtain ⟨s, hs, hchannel, -, hwaiting, hpassed, -⟩ := exec_relayedDelete
  have hall := nodes_take_every_event migrated_checkoutRow hs (by decide)
  have htaken := hall.2.1 0 hwaiting (by rw [hpassed, hchannel]; rfl)
  rw [hchannel] at htaken
  exact ⟨s, hs, htaken⟩

end Run

end FlagPlane
