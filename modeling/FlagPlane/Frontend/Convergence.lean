import FlagPlane.Client.TypeScript
import FlagPlane.Handler.Admin

/-!
# FlagPlane.Frontend.Convergence

**The convergence indicator.** `useCluster` and `ClusterHero` poll every backend's
`/api/client/version` and call the cluster converged when the answers agree. `Version` answers with
`GetLatestVersion`, which reads the `flag_events` that all backends share, and not with what the
backend's subscriber has taken in. So the answers agree as soon as the change is committed, whatever
becomes of its envelope: Redis may never get it, lose it on the way to a backend, or still have it.

The wire is the history of what was published to whom, with what is still waiting for each
subscriber. A message that is lost is one that never reaches the subscriber, so who gets an envelope
is settled when it is published.
-/

namespace FlagPlane

/-! ### The endpoint and the panel -/

/-- `ClientHandler.Version`, of a backend with `clients` open streams; `version` is what
`GetLatestVersion` returned, `none` an error. -/
def versionResponse (nodeId : String) (clients : Nat) (version : Option Int) : HttpResponse :=
  match version with
  | none => writeError 500 "internal_error" "Failed to get version"
  | some version =>
    ⟨200, some (.obj [("node_id", .str nodeId), ("config_version", .int version),
      ("sse_clients", .int clients)])⟩

/-- `NodeState`. -/
structure NodeState where
  url : String
  nodeId : String
  configVersion : Option Int
  sseClients : Option Int
  ok : Bool
  deriving DecidableEq, Repr

/-- A property that is a number; the backends write integers. -/
def Json.numberProp (name : String) (v : Json) : Option Int :=
  match v.prop name with
  | some (.int n) => some n
  | _ => none

/-- The `catch` of `fetchNode`. -/
def NodeState.unreachable (url : String) : NodeState := ⟨url, url, none, none, false⟩

/-- `fetchNode`; without a response, `fetch` has thrown. -/
def fetchNode (url : String) (response : Option HttpResponse) : NodeState :=
  match response with
  | none | some ⟨_, none⟩ | some ⟨_, some .null⟩ => .unreachable url
  | some ⟨status, some data⟩ =>
    if 200 ≤ status ∧ status < 300 then
      ⟨url, (data.stringProp "node_id").getD url, data.numberProp "config_version",
        data.numberProp "sse_clients", true⟩
    else .unreachable url

/-- `ClusterState`. -/
structure ClusterState where
  nodes : List NodeState
  latestVersion : Int
  converged : Bool
  reachableCount : Nat
  deriving DecidableEq, Repr

/-- The version that a node counts with in `useCluster`. -/
def NodeState.version? (n : NodeState) : Option Int :=
  if n.ok then n.configVersion else none

/-- What `useCluster` makes of the nodes' states. -/
def clusterState (nodes : List NodeState) : ClusterState :=
  let versions := nodes.filterMap NodeState.version?
  { nodes := nodes
    latestVersion := versions.max?.getD 0
    converged := !versions.isEmpty && versions.all fun v => versions.head? = some v
    reachableCount := (nodes.filter NodeState.ok).length }

/-- `tgt` in `runFlip`: one above every version that is known before the flip. -/
def flipTarget (configVersion : Option Int) (pre : List NodeState) : Int :=
  ((pre.map fun n => n.version?.getD 0).foldl max (configVersion.getD 0)) + 1

/-- `reached`. -/
def NodeState.reached (tgt : Int) (n : NodeState) : Bool :=
  match n.version? with
  | some v => tgt ≤ v
  | none => false

/-! ### The cluster -/

/-- A `Promise.all` over the nodes: what each has answered, once it has. -/
abbrev Poll := List (Option NodeState)

/-- The states of all nodes, once every one is there. -/
def Poll.done (p : Poll) : Option (List NodeState) := p.mapM id

/-- `runFlip`. -/
inductive FlipPhase
  | idle
  /-- The versions before the change are asked for. -/
  | pre (heroFlag : String) (configVersion : Option Int) (poll : Poll)
  /-- Before `toggleFlag`. -/
  | flipping (heroFlag : String) (tgt : Int)
  /-- `toggleFlag` is under way. -/
  | toggling (tgt : Int) (t : TxId)
  /-- In the loop. -/
  | polling (tgt : Int) (poll : Poll)
  | converged (tgt : Int)
  | settled (tgt : Int)
  deriving DecidableEq, Repr

/-- The backends' addresses, and the ids they go by. -/
structure Deployment where
  nodeUrls : List String
  nodeId : String → String

/-- The service, the wire, and a browser with the panel and the hero open. -/
structure Cluster where
  service : Service
  /-- The envelopes published so far, each with the backends it reaches. -/
  published : List (Envelope × List String)
  /-- The envelopes that a backend's subscriber has still to consume. -/
  waiting : String → List Envelope
  /-- What the subscriber has handed to its broker. -/
  handed : String → List SSEEvent
  /-- The poll of `useCluster`. -/
  panel : Option Poll
  /-- The data of `useCluster`. -/
  cluster : Option ClusterState
  flip : FlipPhase

/-- A poller. -/
inductive Poller
  | panel
  | flip

inductive ClusterAction
  /-- Any step of the service that publishes nothing. -/
  | service (a : ServiceAction)
  /-- A call returns; if it publishes, the envelope reaches the listed backends, none of them when
  Redis is down. -/
  | respond (t : TxId) (reaches : List String)
  /-- The subscriber of a backend consumes an envelope and hands it to its broker. -/
  | handOver (url : String)
  /-- `Version` answers at the `i`-th backend, which has `clients` open streams. -/
  | answer (poller : Poller) (i clients : Nat)
  /-- It does not, or fails. -/
  | noAnswer (poller : Poller) (i : Nat)
  /-- `useCluster` polls, and has polled. -/
  | refetch
  | refetched
  /-- `runFlip`, on what `useFlags` had when it was rendered last: the id of the flag, and the
  version. -/
  | runFlip (heroFlag : String) (configVersion : Option Int)
  /-- The poll before the change is done. -/
  | target
  /-- `toggleFlag`, as call `t`. -/
  | toggleFlag (t : TxId)
  /-- It has returned a flag. -/
  | toggled
  /-- It has thrown. -/
  | toggleFails
  /-- The poll of the loop is done. -/
  | check
  /-- The loop ends at its deadline. -/
  | deadline

namespace Cluster

/-- The backends are up, and the service is at `service`. -/
def up (service : Service) : Cluster :=
  ⟨service, [], fun _ => [], fun _ => [], none, none, .idle⟩

def setFlip (s : Cluster) (flip : FlipPhase) : Cluster := { s with flip := flip }

/-- A poll begins. -/
def newPoll (d : Deployment) : Poll := d.nodeUrls.map fun _ => none

/-- The envelope `env` is published, or there is none. -/
def publish (s : Cluster) (env : Option Envelope) (reaches : List String) : Cluster :=
  match env with
  | none => s
  | some env =>
    { s with
      published := s.published ++ [(env, reaches)]
      waiting := fun url => if url ∈ reaches then s.waiting url ++ [env] else s.waiting url }

/-- A state for the `i`-th node arrives at a poll. -/
def arrive (s : Cluster) (poller : Poller) (i : Nat) (state : NodeState) : Option Cluster :=
  match poller, s.panel, s.flip with
  | .panel, some p, _ => some { s with panel := some (p.set i (some state)) }
  | .flip, _, .pre heroFlag configVersion p =>
    some (s.setFlip (.pre heroFlag configVersion (p.set i (some state))))
  | .flip, _, .polling tgt p => some (s.setFlip (.polling tgt (p.set i (some state))))
  | _, _, _ => none

end Cluster

/-- An action that may publish. -/
def ServiceAction.isRespond : ServiceAction → Bool
  | respond _ => true
  | _ => false

def clusterStep (d : Deployment) (s : Cluster) : ClusterAction → Option Cluster
  | .service a =>
    if a.isRespond then none
    else (serviceStep s.service a).map fun service => { s with service := service }
  | .respond t reaches =>
    (serviceStep s.service (.respond t)).map fun service =>
      { s with service := service }.publish (s.service.publishing (.respond t)) reaches
  | .handOver url =>
    match s.waiting url with
    | env :: rest =>
      some { s with
        waiting := Function.update s.waiting url rest
        handed := Function.update s.handed url (s.handed url ++ [env.sseEvent]) }
    | [] => none
  | .answer poller i clients =>
    d.nodeUrls[i]?.bind fun url =>
      s.arrive poller i (fetchNode url (some
        (versionResponse (d.nodeId url) clients (some (getLatestVersion s.service.db.events)))))
  | .noAnswer poller i => d.nodeUrls[i]?.bind fun url => s.arrive poller i (fetchNode url none)
  | .refetch => some { s with panel := some (Cluster.newPoll d) }
  | .refetched =>
    (s.panel.bind Poll.done).map fun nodes =>
      { s with panel := none, cluster := some (clusterState nodes) }
  | .runFlip heroFlag configVersion =>
    match s.flip with
    | .idle | .converged _ | .settled _ =>
      some (s.setFlip (.pre heroFlag configVersion (Cluster.newPoll d)))
    | _ => none
  | .target =>
    match s.flip with
    | .pre heroFlag configVersion p =>
      p.done.map fun nodes => s.setFlip (.flipping heroFlag (flipTarget configVersion nodes))
    | _ => none
  | .toggleFlag t =>
    match s.flip with
    | .flipping heroFlag tgt =>
      (serviceStep s.service (.request t (.toggleFlag heroFlag))).map fun service =>
        { s with service := service }.setFlip (.toggling tgt t)
    | _ => none
  | .toggled =>
    match s.flip with
    | .toggling tgt t =>
      match s.service.calls t with
      | some (_, .returned (.flag (some _))) => some (s.setFlip (.polling tgt (Cluster.newPoll d)))
      | _ => none
    | _ => none
  | .toggleFails =>
    match s.flip with
    | .toggling _ _ => some (s.setFlip .idle)
    | _ => none
  | .check =>
    match s.flip with
    | .polling tgt p =>
      p.done.map fun nodes =>
        s.setFlip (if nodes.all (NodeState.reached tgt) then .converged tgt
          else .polling tgt (Cluster.newPoll d))
    | _ => none
  | .deadline =>
    match s.flip with
    | .polling tgt p => if p.all Option.isNone then some (s.setFlip (.settled tgt)) else none
    | _ => none

/-! ### What is declared, and what is so -/

namespace Cluster

/-- What a step declares to have converged: the version, and the nodes that reached it. -/
def declares (s : Cluster) : ClusterAction → Option (Int × List String)
  | .refetched =>
    (s.panel.bind Poll.done).bind fun nodes =>
      if (clusterState nodes).converged then
        some ((clusterState nodes).latestVersion,
          (nodes.filter fun n => n.version?.isSome).map NodeState.url)
      else none
  | .check =>
    match s.flip with
    | .polling tgt p =>
      p.done.bind fun nodes =>
        if nodes.all (NodeState.reached tgt) then some (tgt, nodes.map NodeState.url) else none
    | _ => none
  | _ => none

/-- The backend has taken in a change of version `v` or later. -/
def TakenIn (s : Cluster) (v : Int) (url : String) : Prop :=
  ∃ event ∈ s.handed url, v ≤ event.version

/-- The envelopes that reach a backend. -/
def sentTo (s : Cluster) (url : String) : List Envelope :=
  (s.published.filter fun p => url ∈ p.2).map Prod.fst

/-- What reaches a backend is handed to its broker in order, or still waits. -/
def WireInv (s : Cluster) : Prop :=
  ∀ url, (s.sentTo url).map Envelope.sseEvent =
    s.handed url ++ (s.waiting url).map Envelope.sseEvent

section Wire

variable {d : Deployment} {s s' : Cluster} {a : ClusterAction} {url : String} {v : Int}

theorem WireInv.frame (h : s.WireInv) (hpublished : s'.published = s.published)
    (hwaiting : s'.waiting = s.waiting) (hhanded : s'.handed = s.handed) : s'.WireInv := by
  intro url
  rw [sentTo, hpublished, hwaiting, hhanded]
  exact h url

theorem WireInv.publish (h : s.WireInv) (env : Option Envelope) (reaches : List String) :
    (s.publish env reaches).WireInv := by
  cases env with
  | none => exact h
  | some env =>
      intro url
      have hurl := h url
      by_cases hmem : url ∈ reaches <;>
        simp_all [sentTo, Cluster.publish, List.filter_append]

theorem WireInv.handOver (h : s.WireInv) {env : Envelope} {rest : List Envelope}
    (hwaiting : s.waiting url = env :: rest) :
    WireInv { s with
      waiting := Function.update s.waiting url rest
      handed := Function.update s.handed url (s.handed url ++ [env.sseEvent]) } := by
  intro url'
  by_cases hne : url' = url
  · subst hne
    have hurl := h url'
    rw [hwaiting, List.map_cons] at hurl
    simpa [sentTo] using hurl
  · simpa [sentTo, hne] using h url'

end Wire

end Cluster

/-- What a step can do to the wire. -/
inductive WireEffect (s : Cluster) : ClusterAction → Cluster → Prop
  | respond {t : TxId} {reaches : List String} {service : Service} :
      WireEffect s (.respond t reaches)
        ({ s with service := service }.publish (s.service.publishing (.respond t)) reaches)
  | handOver {url : String} {env : Envelope} {rest : List Envelope}
      (hwaiting : s.waiting url = env :: rest) :
      WireEffect s (.handOver url) { s with
        waiting := Function.update s.waiting url rest
        handed := Function.update s.handed url (s.handed url ++ [env.sseEvent]) }
  | off {a : ClusterAction} {s' : Cluster} (hpublished : s'.published = s.published)
      (hwaiting : s'.waiting = s.waiting) (hhanded : s'.handed = s.handed) : WireEffect s a s'

section Step

variable {d : Deployment} {s s' : Cluster} {a : ClusterAction}

theorem arrive_wireEffect {poller : Poller} {i : Nat} {state : NodeState}
    (hs : s.arrive poller i state = some s') : WireEffect s a s' := by
  unfold Cluster.arrive at hs
  split at hs
  · obtain rfl := Option.some.inj hs
    exact .off rfl rfl rfl
  · obtain rfl := Option.some.inj hs
    exact .off rfl rfl rfl
  · obtain rfl := Option.some.inj hs
    exact .off rfl rfl rfl
  · cases hs

theorem clusterStep_wireEffect (hs : clusterStep d s a = some s') : WireEffect s a s' := by
  -- a step that leaves the wire alone
  have hoff : ∀ {α : Type} {o : Option α} {f : α → Cluster}, o.map f = some s' →
      (∀ x, (f x).published = s.published ∧ (f x).waiting = s.waiting ∧
        (f x).handed = s.handed) → WireEffect s a s' := by
    intro α o f hf hkeeps
    obtain ⟨x, -, rfl⟩ := Option.map_eq_some_iff.mp hf
    obtain ⟨hpublished, hwaiting, hhanded⟩ := hkeeps x
    exact .off hpublished hwaiting hhanded
  have hflip : ∀ {phase : FlipPhase}, some (s.setFlip phase) = some s' → WireEffect s a s' := by
    intro phase hphase
    obtain rfl := Option.some.inj hphase
    exact .off rfl rfl rfl
  cases a with
  | service b =>
      rw [clusterStep] at hs
      split at hs
      · cases hs
      · exact hoff hs fun _ => ⟨rfl, rfl, rfl⟩
  | respond t reaches =>
      obtain ⟨service, -, rfl⟩ := Option.map_eq_some_iff.mp hs
      exact .respond
  | handOver url =>
      rw [clusterStep] at hs
      split at hs
      · rename_i hwaiting
        obtain rfl := Option.some.inj hs
        exact .handOver hwaiting
      · cases hs
  | answer poller i clients | noAnswer poller i =>
      obtain ⟨url, -, harrive⟩ := Option.bind_eq_some_iff.mp hs
      exact arrive_wireEffect harrive
  | refetch =>
      obtain rfl := Option.some.inj hs
      exact .off rfl rfl rfl
  | refetched => exact hoff hs fun _ => ⟨rfl, rfl, rfl⟩
  | runFlip heroFlag configVersion =>
      rw [clusterStep] at hs
      split at hs
      · exact hflip hs
      · exact hflip hs
      · exact hflip hs
      · cases hs
  | target | toggleFlag t | check =>
      rw [clusterStep] at hs
      split at hs
      · exact hoff hs fun _ => ⟨rfl, rfl, rfl⟩
      · cases hs
  | toggled | deadline =>
      rw [clusterStep] at hs
      split at hs
      · split at hs
        · exact hflip hs
        · cases hs
      · cases hs
  | toggleFails =>
      rw [clusterStep] at hs
      split at hs
      · exact hflip hs
      · cases hs

namespace Cluster

theorem WireInv.step (h : s.WireInv) (hs : clusterStep d s a = some s') : s'.WireInv := by
  cases clusterStep_wireEffect hs with
  | respond =>
      refine WireInv.publish ?_ _ _
      exact h.frame rfl rfl rfl
  | handOver hwaiting => exact h.handOver hwaiting
  | off hpublished hwaiting hhanded => exact h.frame hpublished hwaiting hhanded

end Cluster

end Step

/-! ### What happens around the indicator -/

/-- How a node has answered a poll. -/
inductive Reply
  | pending
  /-- It gave no version. -/
  | silent
  /-- It answered when the latest version in the table was this one. -/
  | read (version : Int)
  deriving DecidableEq

def Reply.version? : Reply → Option Int
  | read v => some v
  | pending | silent => none

/-- An account of a run, of the table, the wire and the polls alone. -/
structure Surroundings where
  /-- The replies to the latest poll of the panel, and to the latest one of the hero. -/
  panel : Nat → Reply
  flip : Nat → Reply
  /-- The version that `useFlags` had when the flip began. -/
  known : Option Int
  /-- The version that the flip waits for. -/
  target : Int
  /-- How many envelopes the subscriber of a backend has consumed. -/
  consumed : String → Nat

namespace Surroundings

def start : Surroundings := ⟨fun _ => .pending, fun _ => .pending, none, 0, fun _ => 0⟩

/-- One more reply. -/
def reply (w : Surroundings) (poller : Poller) (i : Nat) (r : Reply) : Surroundings :=
  match poller with
  | .panel => { w with panel := Function.update w.panel i r }
  | .flip => { w with flip := Function.update w.flip i r }

/-- The account after an action; `latest` is the latest version in the table before it. -/
def step (d : Deployment) (w : Surroundings) (latest : Int) : ClusterAction → Surroundings
  | .answer poller i _ => w.reply poller i (.read latest)
  | .noAnswer poller i => w.reply poller i .silent
  | .refetch => { w with panel := fun _ => .pending }
  | .runFlip _ configVersion => { w with flip := fun _ => .pending, known := configVersion }
  | .target =>
    { w with
      target := (d.nodeUrls.mapIdx fun i _ => (w.flip i).version?.getD 0).foldl max
        (w.known.getD 0) + 1 }
  | .toggled | .check => { w with flip := fun _ => .pending }
  | .handOver url =>
    { w with consumed := Function.update w.consumed url (w.consumed url + 1) }
  | .service _ | .respond _ _ | .refetched | .toggleFlag _ | .toggleFails | .deadline => w

end Surroundings

/-- What counts of a node's state. -/
def NodeState.seen (n : NodeState) : String × Option Int := (n.url, n.version?)

/-- What a node's state shows after its reply. -/
def Reply.seen (url : String) : Reply → Option (String × Option Int)
  | pending => none
  | silent => some (url, none)
  | read v => some (url, some v)

/-- The poll holds the replies. -/
def Poll.Shows (d : Deployment) (p : Poll) (replies : Nat → Reply) : Prop :=
  p.map (Option.map NodeState.seen) = d.nodeUrls.mapIdx fun i url => (replies i).seen url

/-- So does the one of the hero, and its versions are the account's. -/
def FlipPhase.Shows (d : Deployment) (w : Surroundings) : FlipPhase → Prop
  | .idle | .converged _ | .settled _ => True
  | .pre _ configVersion p => w.known = configVersion ∧ p.Shows d w.flip
  | .flipping _ tgt | .toggling tgt _ => w.target = tgt
  | .polling tgt p => w.target = tgt ∧ p.Shows d w.flip

/-- The account is right. -/
structure Cluster.Surrounded (d : Deployment) (s : Cluster) (w : Surroundings) : Prop where
  panel : ∀ p, s.panel = some p → p.Shows d w.panel
  flip : s.flip.Shows d w
  wire : s.WireInv
  consumed : ∀ url, w.consumed url = (s.handed url).length

section Polls

variable {d : Deployment} {p : Poll} {nodes : List NodeState} {replies : Nat → Reply} {v : Int}

theorem fetchNode_answer (url nodeId : String) (clients : Nat) (latest : Int) :
    (fetchNode url (some (versionResponse nodeId clients (some latest)))).seen =
      (url, some latest) := by
  simp [fetchNode, versionResponse, NodeState.seen, NodeState.version?, Json.numberProp, Json.prop]

theorem fetchNode_noAnswer (url : String) : (fetchNode url none).seen = (url, none) := rfl

theorem shows_newPoll : Poll.Shows d (Cluster.newPoll d) fun _ => .pending := by
  rw [Poll.Shows, Cluster.newPoll, List.map_map]
  refine List.ext_getElem? fun i => ?_
  rw [List.getElem?_map, List.getElem?_mapIdx]
  rfl

/-- A reply of the `i`-th node. -/
theorem Poll.Shows.set (h : p.Shows d replies) {i : Nat} {url : String}
    (hurl : d.nodeUrls[i]? = some url) {state : NodeState} {r : Reply}
    (hstate : some state.seen = r.seen url) :
    Poll.Shows d (p.set i (some state)) (Function.update replies i r) := by
  refine List.ext_getElem? fun j => ?_
  have hj := congrArg (fun l => l[j]?) h
  simp only [List.getElem?_map, List.getElem?_mapIdx] at hj ⊢
  have hlength : p.length = d.nodeUrls.length := by simpa using congrArg List.length h
  by_cases hij : i = j
  · subst hij
    have hlt : i < p.length := hlength ▸ (List.getElem?_eq_some_iff.mp hurl).1
    rw [List.getElem?_set_self hlt, hurl]
    simp [hstate]
  · rw [List.getElem?_set_ne hij, hj]
    simp [Function.update_of_ne (Ne.symm hij)]

theorem Poll.done_eq_some : p.done = some nodes ↔ p = nodes.map some := by
  unfold Poll.done
  induction p generalizing nodes with
  | nil => cases nodes <;> simp
  | cons state p ih =>
      cases state with
      | none => cases nodes <;> simp
      | some n => cases nodes <;> simp [Option.bind_eq_some_iff, ih, and_comm]

/-- The states of a poll that is done, node by node. -/
theorem Poll.Shows.getElem? (h : p.Shows d replies) (hdone : p.done = some nodes) (i : Nat) :
    (nodes[i]?).map (fun n => (n.url, n.version?)) =
      (d.nodeUrls[i]?).map fun url => (url, (replies i).version?) := by
  rw [Poll.Shows, Poll.done_eq_some.mp hdone, List.map_map] at h
  have hi := congrArg (fun l => l[i]?) h
  simp only [List.getElem?_map, List.getElem?_mapIdx] at hi
  cases hnode : nodes[i]? with
  | none => cases hurl : d.nodeUrls[i]? <;> simp [hnode, hurl] at hi ⊢
  | some n =>
      cases hurl : d.nodeUrls[i]? with
      | none => simp [hnode, hurl] at hi
      | some url =>
          cases hr : replies i <;>
            simp_all [Reply.seen, NodeState.seen, Reply.version?]

end Polls

section Account

variable {d : Deployment} {s s' : Cluster} {w w' : Surroundings} {a : ClusterAction} {latest : Int}

/-- What a phase shows does not depend on the rest of the account. -/
theorem FlipPhase.Shows.account {phase : FlipPhase} (h : phase.Shows d w) (hflip : w'.flip = w.flip)
    (hknown : w'.known = w.known) (htarget : w'.target = w.target) : phase.Shows d w' := by
  unfold FlipPhase.Shows at h ⊢
  rw [hflip, hknown, htarget]
  exact h

namespace Cluster

theorem Surrounded.setFlip (h : s.Surrounded d w) (hpanel : w'.panel = w.panel)
    (hconsumed : w'.consumed = w.consumed) {phase : FlipPhase} (hphase : phase.Shows d w') :
    (s.setFlip phase).Surrounded d w' :=
  ⟨fun p hp => hpanel ▸ h.panel p hp, hphase, h.wire.frame rfl rfl rfl,
    fun url => hconsumed ▸ h.consumed url⟩

/-- A step that leaves the polls, the hero and the brokers alone. -/
theorem Surrounded.frame (h : s.Surrounded d w) (hwire : s'.WireInv) (hpanel : s'.panel = s.panel)
    (hflip : s'.flip = s.flip) (hhanded : s'.handed = s.handed) : s'.Surrounded d w := by
  refine ⟨?_, hflip ▸ h.flip, hwire, fun url => ?_⟩
  · rw [hpanel]
    exact h.panel
  · rw [hhanded]
    exact h.consumed url

theorem Surrounded.shows (h : s.Surrounded d w) {phase : FlipPhase} (hphase : s.flip = phase) :
    phase.Shows d w := hphase ▸ h.flip

/-- A reply arrives. -/
theorem Surrounded.arrive (h : s.Surrounded d w) {poller : Poller} {i : Nat} {url : String}
    (hurl : d.nodeUrls[i]? = some url) {state : NodeState} {r : Reply}
    (hstate : some state.seen = r.seen url) (hs : s.arrive poller i state = some s') :
    s'.Surrounded d (w.reply poller i r) := by
  unfold Cluster.arrive at hs
  split at hs
  · rename_i p hp
    obtain rfl := Option.some.inj hs
    refine ⟨fun p' hp' => ?_, ?_, h.wire.frame rfl rfl rfl, h.consumed⟩
    · obtain rfl := Option.some.inj hp'
      exact (h.panel p hp).set hurl hstate
    · exact h.flip.account rfl rfl rfl
  · rename_i heroFlag configVersion p _ hphase
    obtain rfl := Option.some.inj hs
    obtain ⟨hknown, hpoll⟩ := h.shows hphase
    exact h.setFlip (by rfl) (by rfl) ⟨hknown, hpoll.set hurl hstate⟩
  · rename_i tgt p _ hphase
    obtain rfl := Option.some.inj hs
    obtain ⟨htarget, hpoll⟩ := h.shows hphase
    exact h.setFlip (by rfl) (by rfl) ⟨htarget, hpoll.set hurl hstate⟩
  · cases hs

/-- The target is the account's. -/
theorem Surrounded.flipTarget {p : Poll} {nodes : List NodeState} {replies : Nat → Reply}
    (h : p.Shows d replies) (hdone : p.done = some nodes) (configVersion : Option Int) :
    (d.nodeUrls.mapIdx fun i _ => (replies i).version?.getD 0).foldl max
        (configVersion.getD 0) + 1 = FlagPlane.flipTarget configVersion nodes := by
  have hversions : (d.nodeUrls.mapIdx fun i _ => (replies i).version?.getD 0) =
      nodes.map fun n => n.version?.getD 0 := by
    refine List.ext_getElem? fun i => ?_
    have hi := congrArg (Option.map fun x : String × Option Int => x.2.getD 0)
      (h.getElem? hdone i)
    rw [Option.map_map, Option.map_map] at hi
    rw [List.getElem?_mapIdx, List.getElem?_map]
    exact hi.symm
  rw [hversions, FlagPlane.flipTarget]

/-- A subscriber hands an envelope to its broker. -/
theorem Surrounded.handOver (h : s.Surrounded d w) {url : String}
    (hs : clusterStep d s (.handOver url) = some s') :
    s'.Surrounded d (w.step d latest (.handOver url)) := by
  have hwire := h.wire.step hs
  rw [clusterStep] at hs
  split at hs
  · obtain rfl := Option.some.inj hs
    refine ⟨h.panel, h.flip.account rfl rfl rfl, hwire, fun url' => ?_⟩
    by_cases hne : url' = url
    · subst hne
      simp [Surroundings.step, h.consumed]
    · simp [Surroundings.step, hne, h.consumed]
  · cases hs

theorem Surrounded.runFlip (h : s.Surrounded d w) {heroFlag : String}
    {configVersion : Option Int} (hs : clusterStep d s (.runFlip heroFlag configVersion) = some s') :
    s'.Surrounded d (w.step d latest (.runFlip heroFlag configVersion)) := by
  rw [clusterStep] at hs
  split at hs
  · obtain rfl := Option.some.inj hs
    exact h.setFlip (by rfl) (by rfl) ⟨rfl, shows_newPoll⟩
  · obtain rfl := Option.some.inj hs
    exact h.setFlip (by rfl) (by rfl) ⟨rfl, shows_newPoll⟩
  · obtain rfl := Option.some.inj hs
    exact h.setFlip (by rfl) (by rfl) ⟨rfl, shows_newPoll⟩
  · cases hs

/-- The hero and the account compute the same target. -/
theorem Surrounded.target (h : s.Surrounded d w) (hs : clusterStep d s .target = some s') :
    s'.Surrounded d (w.step d latest .target) := by
  rw [clusterStep] at hs
  split at hs
  · rename_i hphase
    obtain ⟨nodes, hdone, rfl⟩ := Option.map_eq_some_iff.mp hs
    obtain ⟨hknown, hpoll⟩ := h.shows hphase
    refine h.setFlip (by rfl) (by rfl) ?_
    show _ = _
    rw [← Surrounded.flipTarget hpoll hdone, ← hknown]
    rfl
  · cases hs

theorem Surrounded.toggled (h : s.Surrounded d w) (hs : clusterStep d s .toggled = some s') :
    s'.Surrounded d (w.step d latest .toggled) := by
  rw [clusterStep] at hs
  split at hs
  · rename_i hphase
    split at hs
    · obtain rfl := Option.some.inj hs
      exact h.setFlip (by rfl) (by rfl) ⟨h.shows hphase, shows_newPoll⟩
    · cases hs
  · cases hs

/-- The loop ends, or polls again for the same target. -/
theorem Surrounded.check (h : s.Surrounded d w) (hs : clusterStep d s .check = some s') :
    s'.Surrounded d (w.step d latest .check) := by
  rw [clusterStep] at hs
  split at hs
  · rename_i hphase
    obtain ⟨nodes, -, rfl⟩ := Option.map_eq_some_iff.mp hs
    refine h.setFlip (by rfl) (by rfl) ?_
    split
    · trivial
    · exact ⟨(h.shows hphase).1, shows_newPoll⟩
  · cases hs

/-- The account of a step is right. -/
theorem Surrounded.step (h : s.Surrounded d w) (hs : clusterStep d s a = some s') :
    s'.Surrounded d (w.step d (getLatestVersion s.service.db.events) a) := by
  have hwire := h.wire.step hs
  cases a with
  | service b =>
      rw [clusterStep] at hs
      split at hs
      · cases hs
      · obtain ⟨service, -, rfl⟩ := Option.map_eq_some_iff.mp hs
        exact h.frame hwire rfl rfl rfl
  | respond t reaches =>
      obtain ⟨service, -, rfl⟩ := Option.map_eq_some_iff.mp hs
      unfold Cluster.publish at hwire ⊢
      split at hwire
      · exact h.frame hwire rfl rfl rfl
      · exact h.frame hwire rfl rfl rfl
  | handOver url => exact h.handOver hs
  | answer poller i clients =>
      obtain ⟨url, hurl, harrive⟩ := Option.bind_eq_some_iff.mp hs
      exact h.arrive hurl (congrArg some (fetchNode_answer _ _ _ _)) harrive
  | noAnswer poller i =>
      obtain ⟨url, hurl, harrive⟩ := Option.bind_eq_some_iff.mp hs
      exact h.arrive hurl (congrArg some (fetchNode_noAnswer _)) harrive
  | refetch =>
      obtain rfl := Option.some.inj hs
      refine ⟨fun p hp => ?_, h.flip.account rfl rfl rfl, hwire, h.consumed⟩
      obtain rfl := Option.some.inj hp
      exact shows_newPoll
  | refetched =>
      obtain ⟨nodes, -, rfl⟩ := Option.map_eq_some_iff.mp hs
      exact ⟨fun p hp => (by cases hp), h.flip, hwire, h.consumed⟩
  | runFlip heroFlag configVersion => exact h.runFlip hs
  | target => exact h.target hs
  | toggleFlag t =>
      rw [clusterStep] at hs
      split at hs
      · rename_i hphase
        obtain ⟨service, -, rfl⟩ := Option.map_eq_some_iff.mp hs
        have htarget := h.shows hphase
        exact ⟨h.panel, htarget, hwire, h.consumed⟩
      · cases hs
  | toggled => exact h.toggled hs
  | toggleFails =>
      rw [clusterStep] at hs
      split at hs
      · obtain rfl := Option.some.inj hs
        exact h.setFlip (by rfl) (by rfl) trivial
      · cases hs
  | check => exact h.check hs
  | deadline =>
      rw [clusterStep] at hs
      split at hs
      · split at hs
        · obtain rfl := Option.some.inj hs
          exact h.setFlip (by rfl) (by rfl) trivial
        · cases hs
      · cases hs

end Cluster

/-! ### What the indicator declares -/

end Account

/-! ### The same run without Redis -/

/-- The cluster as it is when Redis has been down all along. -/
def Cluster.offline (s : Cluster) : Cluster :=
  { s with
    published := s.published.map fun p => (p.1, [])
    waiting := fun _ => []
    handed := fun _ => [] }

/-- What is left of a step when Redis is down. -/
def ClusterAction.offline : ClusterAction → List ClusterAction
  | respond t _ => [.respond t []]
  | handOver _ => []
  | a => [a]

/-- What is declared in a run. -/
def declarations (trs : List (Transition Cluster ClusterAction)) : List (Int × List String) :=
  trs.filterMap fun tr => tr.pre.declares tr.act

section Offline

variable {d : Deployment} {s s' : Cluster} {a : ClusterAction}

theorem arrive_offline (s : Cluster) (poller : Poller) (i : Nat) (state : NodeState) :
    s.offline.arrive poller i state = (s.arrive poller i state).map Cluster.offline := by
  unfold Cluster.arrive
  have hpanel : s.offline.panel = s.panel := rfl
  have hflip : s.offline.flip = s.flip := rfl
  rw [hpanel, hflip]
  split <;> rfl

theorem publish_offline (s : Cluster) (env : Option Envelope) (reaches : List String) :
    (s.publish env reaches).offline = s.offline.publish env [] := by
  cases env with
  | none => rfl
  | some env => simp [Cluster.publish, Cluster.offline]

theorem declares_offline (s : Cluster) (a : ClusterAction) :
    s.offline.declares a = s.declares a := by
  cases a <;> rfl

/-- A step off the wire is the same when Redis is down. -/
theorem clusterStep_offline (ha : a.offline = [a]) :
    clusterStep d s.offline a = (clusterStep d s a).map Cluster.offline := by
  have hservice : s.offline.service = s.service := rfl
  have hpanel : s.offline.panel = s.panel := rfl
  have hflip : s.offline.flip = s.flip := rfl
  cases a with
  | service b =>
      rw [clusterStep, clusterStep, hservice]
      split
      · rfl
      · rw [Option.map_map]
        rfl
  | respond t reaches =>
      obtain rfl : [] = reaches := by simpa [ClusterAction.offline] using ha
      simp only [clusterStep, hservice, Option.map_map, Function.comp_def, publish_offline]
      rfl
  | handOver url => cases ha
  | answer poller i clients =>
      simp only [clusterStep, hservice, arrive_offline, Option.map_bind, Function.comp_def]
  | noAnswer poller i =>
      simp only [clusterStep, arrive_offline, Option.map_bind, Function.comp_def]
  | refetch => rfl
  | refetched =>
      rw [clusterStep, clusterStep, hpanel, Option.map_map]
      rfl
  | runFlip heroFlag configVersion =>
      rw [clusterStep, clusterStep, hflip]
      split <;> rfl
  | target | toggleFlag t | check =>
      rw [clusterStep, clusterStep, hflip]
      split
      · rw [Option.map_map]
        rfl
      · rfl
  | toggled =>
      rw [clusterStep, clusterStep, hflip, hservice]
      split
      · split <;> rfl
      · rfl
  | deadline =>
      rw [clusterStep, clusterStep, hflip]
      split
      · split <;> rfl
      · rfl
  | toggleFails =>
      rw [clusterStep, clusterStep, hflip]
      split <;> rfl

/-- What is left of a step does without Redis what the step does with it, and declares the same. -/
theorem exec_offline_step (hs : clusterStep d s a = some s') :
    exec (clusterStep d) s.offline a.offline = some s'.offline ∧
      declarations (transitions (clusterStep d) s.offline a.offline) = (s.declares a).toList := by
  -- one step `b`, which declares what `a` does
  have hone : ∀ b, clusterStep d s.offline b = some s'.offline → s.declares b = s.declares a →
      exec (clusterStep d) s.offline [b] = some s'.offline ∧
        declarations (transitions (clusterStep d) s.offline [b]) = (s.declares a).toList := by
    intro b hb hdeclares
    refine ⟨exec_cons_eq_some.mpr ⟨_, hb, rfl⟩, ?_⟩
    rw [transitions_cons hb, ← hdeclares, ← declares_offline]
    cases hd : s.offline.declares b <;> simp [declarations, transitions, hd]
  cases a with
  | respond t reaches =>
      obtain ⟨service, hservice, rfl⟩ := Option.map_eq_some_iff.mp hs
      refine hone (.respond t []) ?_ rfl
      rw [publish_offline]
      exact Option.map_eq_some_iff.mpr ⟨service, hservice, rfl⟩
  | handOver url =>
      rw [clusterStep] at hs
      split at hs
      · obtain rfl := Option.some.inj hs
        refine ⟨?_, rfl⟩
        simp [ClusterAction.offline, Cluster.offline]
      · cases hs
  | _ =>
      refine hone _ ?_ rfl
      rw [clusterStep_offline rfl, hs]
      rfl

theorem exec_offline {as : List ClusterAction} (hrun : exec (clusterStep d) s as = some s') :
    exec (clusterStep d) s.offline (as.flatMap ClusterAction.offline) = some s'.offline ∧
      declarations (transitions (clusterStep d) s.offline (as.flatMap ClusterAction.offline)) =
        declarations (transitions (clusterStep d) s as) := by
  induction as generalizing s with
  | nil =>
      obtain rfl : s = s' := by simpa using hrun
      exact ⟨rfl, rfl⟩
  | cons a as ih =>
      obtain ⟨s₁, ha, has⟩ := exec_cons_eq_some.mp hrun
      obtain ⟨hstep, hdeclared⟩ := exec_offline_step ha
      obtain ⟨hrest, hrestDeclared⟩ := ih has
      rw [List.flatMap_cons]
      refine ⟨exec_append_eq_some.mpr ⟨_, hstep, hrest⟩, ?_⟩
      rw [transitions_append hstep, transitions_cons ha]
      unfold declarations at hdeclared hrestDeclared ⊢
      rw [List.filterMap_append, hdeclared, hrestDeclared]
      cases hd : s.declares a <;> simp [hd]

/-- **What is declared does not depend on Redis.** Every run has a twin in which Redis is down all
along: it declares the same, and no backend takes in anything. -/
theorem declarations_offline {service : Service} {as : List ClusterAction}
    (hrun : exec (clusterStep d) (Cluster.up service) as = some s) :
    declarations (transitions (clusterStep d) (Cluster.up service)
        (as.flatMap ClusterAction.offline)) =
      declarations (transitions (clusterStep d) (Cluster.up service) as) ∧
    ∀ tr ∈ transitions (clusterStep d) (Cluster.up service) (as.flatMap ClusterAction.offline),
      ∀ v url, ¬ tr.pre.TakenIn v url := by
  refine ⟨(exec_offline hrun).2, fun tr htr v url => ?_⟩
  have hnothing := transitions_preserves_of
    (I := fun s : Cluster => ∀ url, s.waiting url = [] ∧ s.handed url = [])
    (C := fun a => ∀ t reaches, a = .respond t reaches → reaches = [])
    (fun h hC hs url => ?_) (fun _ => ⟨rfl, rfl⟩) (fun a ha => ?_) htr
  · rw [Cluster.TakenIn, (hnothing.1 url).2]
    simp
  · cases clusterStep_wireEffect hs with
    | @respond t reaches service' =>
        obtain rfl := hC t reaches rfl
        unfold Cluster.publish
        split
        · exact h url
        · simpa using h url
    | @handOver url' env rest hwaiting =>
        rw [(h url').1] at hwaiting
        cases hwaiting
    | off _ hwaiting hhanded =>
        rw [hwaiting, hhanded]
        exact h url
  · obtain ⟨b, -, hb⟩ := List.mem_flatMap.mp ha
    intro t reaches heq
    subst heq
    cases b <;> simp [ClusterAction.offline] at hb
    exact hb.2

end Offline

/-! ### A change that no backend hears of -/

end FlagPlane
