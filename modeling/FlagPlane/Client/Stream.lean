import FlagPlane.Client.Reconcile
import FlagPlane.Repository.Preservation
import FlagPlane.Sse.Broker

/-!
# FlagPlane.Client.Stream

**`streamLoop` of the Go SDK against writers and a broker.** The loop reconciles, asks for the
stream, takes frames until the connection ends, waits, and starts over. Writers commit, and every
committed event's envelope reaches the broker some time later; while the client's channel is
registered the broker puts it there, otherwise this client does not get it.

So an event that is committed after the last page of `Reconcile` and broadcast before the channel
is registered reaches the client by neither path. `StreamInv` is what holds when no registration
comes too late in that sense: an event above the client's version is still on its way, or a
`Reconcile` is about to fetch it.
-/

namespace FlagPlane

/-- Where `streamLoop` is. -/
inductive LoopPhase
  /-- In `Reconcile`, called by the loop itself or, on a gap, from inside `stream`. -/
  | reconciling (inStream : Bool) (run : ReconcileRun)
  /-- `GET /stream` is sent. -/
  | connecting
  /-- Reading frames. -/
  | streaming
  /-- Between two connections. -/
  | waiting

/-- The database, the broker as far as this client is concerned, the connection and the client. -/
structure Stream where
  db : Db
  /-- The committed events whose envelope the broker's `Run` has not yet taken. -/
  pending : List FlagEvent
  client : Client
  phase : LoopPhase
  /-- The broker has the channel of the client's connection. -/
  registered : Bool
  /-- The channel. -/
  buffer : List FlagEvent
  /-- Written to the connection and not yet read. -/
  socket : List FlagEvent

namespace Stream

/-- `Reconcile` returns. -/
def reconciled (s : Stream) (inStream : Bool) : Stream :=
  { s with phase := if inStream then .streaming else .connecting }

/-- The connection is over; the client may still read the first `n` frames of the socket. -/
def hangUp (s : Stream) (n : Nat) : Stream :=
  { s with registered := false, buffer := [], socket := s.socket.take n }

end Stream

inductive StreamAction
  /-- A statement of a writer. A commit leaves an envelope to broadcast. -/
  | write (a : Action)
  /-- `Run` takes the `i`-th of the pending envelopes. -/
  | broadcast (i : Nat)
  /-- The head of the loop in `Reconcile`. -/
  | readVersion
  | answer
  /-- The request of `Reconcile` fails, or its answer does not decode. -/
  | failRequest
  | applyPage
  /-- `Run` takes the channel that `ServeHTTP` registers. -/
  | register
  /-- `GET /stream` fails. -/
  | refuse
  /-- `ServeHTTP` writes a frame. -/
  | send
  /-- The client takes a frame. -/
  | frame
  /-- The connection breaks, or `ServeHTTP` returns. -/
  | disconnect (n : Nat)
  /-- `stream` returns. -/
  | ended
  /-- The backoff is over. -/
  | retry

def streamStep (s : Stream) : StreamAction → Option Stream
  | .write a =>
    (step s.db a).map fun db =>
      { s with db := db, pending := s.pending ++ ((s.db.committing a).map Commit.event).toList }
  | .broadcast i =>
    match s.pending[i]? with
    | none => none
    | some e =>
      let s := { s with pending := s.pending.eraseIdx i }
      if s.registered then
        -- a full channel would cost the client its connection: such runs are left out
        if s.buffer.length < channelCapacity then some { s with buffer := s.buffer ++ [e] } else none
      else some s
  | .readVersion =>
    match s.phase with
    | .reconciling inStream (.looping k) =>
      if k < guardLimit then
        some { s with phase := .reconciling inStream (.asked k s.client.configVersion) }
      else some (s.reconciled inStream)
    | _ => none
  | .answer =>
    match s.phase with
    | .reconciling inStream (.asked k since) =>
      some { s with
        phase := .reconciling inStream (.answered k (listEventsSince s.db.events since 0)) }
    | _ => none
  | .failRequest =>
    match s.phase with
    | .reconciling true (.asked _ _) => some { s.hangUp 0 with phase := .waiting }
    | .reconciling false (.asked _ _) => some (s.reconciled false)
    | _ => none
  | .applyPage =>
    match s.phase with
    | .reconciling inStream (.answered k page) =>
      if page.isEmpty then some (s.reconciled inStream)
      else
        let (client, advanced) := s.client.applyPage page
        let s := { s with client := client }
        if advanced then some { s with phase := .reconciling inStream (.looping (k + 1)) }
        else some (s.reconciled inStream)
    | _ => none
  | .register =>
    match s.phase with
    | .connecting =>
      some { s with phase := .streaming, registered := true, buffer := [], socket := [] }
    | _ => none
  | .refuse =>
    match s.phase with
    | .connecting => some { s with phase := .waiting }
    | _ => none
  | .send =>
    match s.registered, s.buffer with
    | true, e :: rest => some { s with buffer := rest, socket := s.socket ++ [e] }
    | _, _ => none
  | .frame =>
    match s.phase, s.socket with
    | .streaming, e :: rest =>
      let (client, needsReconcile) := s.client.onFrame e.envelope.sseEvent.frame
      some { s with
        client := client
        socket := rest
        phase := if needsReconcile then .reconciling true (.looping 0) else .streaming }
    | _, _ => none
  | .disconnect n => if s.registered then some (s.hangUp n) else none
  | .ended =>
    match s.phase, s.registered, s.socket with
    | .streaming, false, [] => some { s with phase := .waiting }
    | _, _, _ => none
  | .retry =>
    match s.phase with
    | .waiting => some { s with phase := .reconciling false (.looping 0) }
    | _ => none

/-- `streamLoop` right after `Bootstrap` has read the version of `db`. -/
def Stream.start (db : Db) (flags : String → Option ClientFlag) (pending : List FlagEvent) :
    Stream where
  db := db
  pending := pending
  client := ⟨flags, getLatestVersion db.events⟩
  phase := .reconciling false (.looping 0)
  registered := false
  buffer := []
  socket := []

/-! ### What should hold, and when it does -/

/-- Nothing is under way: the channel is registered and empty, so is the socket, every envelope
has been broadcast, and the client is not reconciling. -/
structure Stream.Quiescent (s : Stream) : Prop where
  registered : s.registered = true
  pending : s.pending = []
  buffer : s.buffer = []
  socket : s.socket = []
  phase : ∀ inStream run, s.phase ≠ .reconciling inStream run

/-- The event is on its way to the client. -/
def Stream.InFlight (s : Stream) (e : FlagEvent) : Prop :=
  e ∈ s.pending ∨ e ∈ s.buffer ∨ e ∈ s.socket

/-- Every committed event above the client's version is on its way. -/
def Stream.NothingMissed (s : Stream) : Prop :=
  ∀ e ∈ s.db.events, e.version ≤ s.client.configVersion ∨ s.InFlight e

/-- The channel is registered while every committed event above the client's version has still
to be broadcast; and a `Reconcile` on a gap does not give up at its guard while the client
misses an event. -/
def Stream.InTime (s : Stream) : StreamAction → Prop
  | .register => ∀ e ∈ s.db.events, e.version ≤ s.client.configVersion ∨ e ∈ s.pending
  | .readVersion =>
    ∀ k, s.phase = .reconciling true (.looping k) → guardLimit ≤ k → s.NothingMissed
  | _ => True

/-- A `Reconcile` that will go on to fetch what is missing. -/
def LoopPhase.WillFetch : LoopPhase → Prop
  | reconciling _ (.looping _) | reconciling _ (.asked _ _) => True
  | reconciling _ (.answered _ page) => page ≠ []
  | _ => False

/-- The loop is inside `stream`, past `GET /stream`. -/
def LoopPhase.InStream : LoopPhase → Prop
  | streaming | reconciling true _ => True
  | _ => False

/-- What `Reconcile` may rely on. -/
def LoopPhase.Sound (events : List FlagEvent) (v : Int) : LoopPhase → Prop
  | reconciling _ (.asked _ since) => since = v
  | reconciling _ (.answered _ page) => ∀ e ∈ page, e ∈ events ∧ v < e.version
  | _ => True

structure StreamInv (s : Stream) : Prop where
  db : DbInv s.db
  version : 0 ≤ s.client.configVersion ∧ s.client.configVersion ≤ getLatestVersion s.db.events
  committed : ∀ e, s.InFlight e → e ∈ s.db.events
  sound : s.phase.Sound s.db.events s.client.configVersion
  attached : s.registered = true → s.phase.InStream
  covered : s.registered = true → s.NothingMissed ∨ s.phase.WillFetch

/-! ### What the client does -/

section Client

variable {c : Client} {e : FlagEvent} {page : List FlagEvent} {v : Int}

/-- A frame: stale, the next version, or a gap. -/
theorem Client.onFrame_cases (c : Client) (hpos : 0 < e.version) :
    (e.version ≤ c.configVersion ∧ c.onFrame e.envelope.sseEvent.frame = (c, false)) ∨
      (e.version = c.configVersion + 1 ∧
        (c.onFrame e.envelope.sseEvent.frame).1.configVersion = e.version ∧
        (c.onFrame e.envelope.sseEvent.frame).2 = false) ∨
      (c.configVersion + 1 < e.version ∧ c.onFrame e.envelope.sseEvent.frame = (c, true)) := by
  have hframe : c.onFrame e.envelope.sseEvent.frame =
      c.applyLiveEvent e.frame.1 e.frame.2 e.version := by
    rw [FlagEvent.envelope, frame_eq hpos]
    rfl
  rw [hframe, applyLiveEvent]
  by_cases hle : e.version ≤ c.configVersion
  · rw [if_pos hle]
    exact Or.inl ⟨hle, rfl⟩
  rw [if_neg hle]
  by_cases hgap : e.version > c.configVersion + 1
  · rw [if_pos hgap]
    exact Or.inr (Or.inr ⟨hgap, rfl⟩)
  · rw [if_neg hgap]
    exact Or.inr (Or.inl ⟨by omega, rfl, rfl⟩)

/-- A page takes the client no further than its events go. -/
theorem Client.applyPage_version_le (hc : c.configVersion ≤ v) (hpage : ∀ e ∈ page, e.version ≤ v) :
    (c.applyPage page).1.configVersion ≤ v := by
  suffices H : ∀ s : Client × Bool, s.1.configVersion ≤ v →
      (page.foldl applyNext s).1.configVersion ≤ v from H (c, false) hc
  induction page with
  | nil => exact fun _ hs => hs
  | cons e page ih =>
      rw [List.forall_mem_cons] at hpage
      intro s hs
      refine ih hpage.2 _ ?_
      rw [applyNext]
      split
      · exact hs
      · exact hpage.1

/-- A page that begins above the client's version advances it. -/
theorem Client.applyPage_advanced (he : c.configVersion < e.version) :
    (c.applyPage (e :: page)).2 = true := by
  have hfirst : (applyNext (c, false) e).2 = true := by
    rw [applyNext, if_neg (not_le.mpr he)]
  rw [applyPage, List.foldl_cons]
  generalize applyNext (c, false) e = s at hfirst
  induction page generalizing s with
  | nil => exact hfirst
  | cons x page ih =>
      refine ih (applyNext s x) ?_
      rw [applyNext]
      split
      · exact hfirst
      · rfl

end Client

/-! ### The invariant -/

section Step

variable {s s' : Stream} {e : FlagEvent}

theorem Stream.NothingMissed.mono (h : s.NothingMissed) (hdb : s'.db.events = s.db.events)
    (hv : s.client.configVersion ≤ s'.client.configVersion)
    (hflight : ∀ e, s.InFlight e → e.version ≤ s'.client.configVersion ∨ s'.InFlight e) :
    s'.NothingMissed := by
  intro e he
  rcases h e (hdb ▸ he) with hle | hfly
  · exact Or.inl (hle.trans hv)
  · exact hflight e hfly

theorem LoopPhase.Sound.mono {p : LoopPhase} {events events' : List FlagEvent} {v : Int}
    (h : p.Sound events v) (hsub : ∀ e ∈ events, e ∈ events') : p.Sound events' v := by
  unfold LoopPhase.Sound at h ⊢
  split
  · exact h
  · exact fun e he => ⟨hsub e (h e he).1, (h e he).2⟩
  · trivial

/-- A commit leaves its event pending. -/
theorem StreamInv.write (h : StreamInv s) {a : Action} {db : Db} (hs : step s.db a = some db) :
    StreamInv { s with
      db := db
      pending := s.pending ++ ((s.db.committing a).map Commit.event).toList } := by
  have hinv := h.db.step hs
  -- the log grows by what becomes pending
  have hevents : db.events = s.db.events ++ ((s.db.committing a).map Commit.event).toList := by
    rcases step_tables hs with ⟨hnone, -, heq⟩ | ⟨t, c, rfl, -, hc, rfl⟩
    · rw [hnone, heq, Option.map_none, Option.toList_none, List.append_nil]
    · rw [hc]
      rfl
  have hsub : ∀ e ∈ s.db.events, e ∈ db.events := fun e he => step_events hs he
  refine ⟨hinv, ⟨h.version.1, h.version.2.trans (hinv.latest_le hsub)⟩, ?_, h.sound.mono hsub,
    h.attached, ?_⟩
  · intro e hcase
    rcases hcase with he | he
    · rcases List.mem_append.mp he with he | he
      · exact hsub e (h.committed e (Or.inl he))
      · exact hevents ▸ List.mem_append_right _ he
    · exact hsub e (h.committed e (Or.inr he))
  · refine fun hreg => (h.covered hreg).imp_left fun hnothing e he => ?_
    have he' : e ∈ s.db.events ++ ((s.db.committing a).map Commit.event).toList := hevents ▸ he
    rcases List.mem_append.mp he' with hold | hnew
    · exact (hnothing e hold).imp_right (Or.imp_left fun hp => List.mem_append_left _ hp)
    · exact Or.inr (Or.inl (List.mem_append_right _ hnew))

theorem mem_eraseIdx_or_eq {α : Type*} {l : List α} {i : Nat} {x y : α} (hx : x ∈ l)
    (hy : l[i]? = some y) : x ∈ l.eraseIdx i ∨ x = y := by
  obtain ⟨j, hj⟩ := List.mem_iff_getElem?.mp hx
  by_cases hij : j = i
  · subst hij
    exact Or.inr (Option.some.inj (hj.symm.trans hy))
  · exact Or.inl (List.mem_eraseIdx_iff_getElem?.mpr ⟨j, hij, hj⟩)

/-- An envelope reaches the broker. -/
theorem StreamInv.broadcast (h : StreamInv s) {i : Nat} (he : s.pending[i]? = some e)
    {buffer : List FlagEvent} (hbuffer : ∀ x, x ∈ s.buffer → x ∈ buffer)
    (hbuffer' : ∀ x ∈ buffer, x ∈ s.buffer ∨ x = e)
    (hkept : s.registered = true → e ∈ buffer) :
    StreamInv { s with pending := s.pending.eraseIdx i, buffer := buffer } := by
  have hsub : ∀ x ∈ s.pending.eraseIdx i, x ∈ s.pending := fun x hx => List.mem_of_mem_eraseIdx hx
  have hmem : e ∈ s.pending := List.mem_of_getElem? he
  refine ⟨h.db, h.version, ?_, h.sound, h.attached, fun hreg => ?_⟩
  · intro x hcase
    rcases hcase with hx | hx | hx
    · exact h.committed x (Or.inl (hsub x hx))
    · rcases hbuffer' x hx with hx | rfl
      · exact h.committed x (Or.inr (Or.inl hx))
      · exact h.committed x (Or.inl hmem)
    · exact h.committed x (Or.inr (Or.inr hx))
  · refine (h.covered hreg).imp_left fun hnothing => hnothing.mono rfl (le_refl _) fun x hx =>
      Or.inr ?_
    rcases hx with hx | hx | hx
    · -- what is taken out of `pending` is in the channel now
      rcases mem_eraseIdx_or_eq hx he with hx | rfl
      · exact Or.inl hx
      · exact Or.inr (Or.inl (hkept hreg))
    · exact Or.inr (Or.inl (hbuffer x hx))
    · exact Or.inr (Or.inr hx)

/-- `Reconcile` moves within its loop, or returns. -/
theorem StreamInv.setPhase (h : StreamInv s) {p : LoopPhase}
    (hsound : p.Sound s.db.events s.client.configVersion)
    (hattached : s.phase.InStream → p.InStream)
    (hcovered : s.registered = true → s.NothingMissed ∨ p.WillFetch) :
    StreamInv { s with phase := p } :=
  ⟨h.db, h.version, h.committed, hsound, fun hreg => hattached (h.attached hreg), hcovered⟩

/-- The channel is gone. -/
theorem StreamInv.hangUp (h : StreamInv s) (n : Nat) {p : LoopPhase}
    (hsound : p.Sound s.db.events s.client.configVersion) :
    StreamInv { s.hangUp n with phase := p } := by
  refine ⟨h.db, h.version, ?_, hsound, fun hreg => (by cases hreg), fun hreg => (by cases hreg)⟩
  intro x hcase
  rcases hcase with hx | hx | hx
  · exact h.committed x (Or.inl hx)
  · cases hx
  · exact h.committed x (Or.inr (Or.inr (List.mem_of_mem_take hx)))

/-- `Reconcile` returns with nothing left to fetch, or outside `stream`. -/
theorem StreamInv.reconciled (h : StreamInv s) {inStream : Bool} {run : ReconcileRun}
    (hphase : s.phase = .reconciling inStream run)
    (hcaught : inStream = true → s.registered = true → s.NothingMissed) :
    StreamInv (s.reconciled inStream) := by
  have hattached := h.attached
  rw [hphase] at hattached
  cases inStream with
  | true => exact h.setPhase trivial (fun _ => trivial) fun hreg => Or.inl (hcaught rfl hreg)
  | false =>
      refine h.setPhase trivial (fun hin => ?_) fun hreg => (hattached hreg).elim
      rw [hphase] at hin
      exact hin.elim

/-- The channel is registered. -/
theorem StreamInv.register (h : StreamInv s)
    (hC : ∀ e ∈ s.db.events, e.version ≤ s.client.configVersion ∨ e ∈ s.pending) :
    StreamInv { s with phase := .streaming, registered := true, buffer := [], socket := [] } := by
  refine ⟨h.db, h.version, ?_, trivial, fun _ => trivial, fun _ => Or.inl fun e he => ?_⟩
  · intro x hcase
    rcases hcase with hx | hx | hx
    · exact h.committed x (Or.inl hx)
    · cases hx
    · cases hx
  · exact (hC e he).imp_right Or.inl

/-- A frame is written. -/
theorem StreamInv.send (h : StreamInv s) {rest : List FlagEvent} (hbuffer : s.buffer = e :: rest) :
    StreamInv { s with buffer := rest, socket := s.socket ++ [e] } := by
  have hsame : ∀ x, { s with buffer := rest, socket := s.socket ++ [e] }.InFlight x ↔
      s.InFlight x := by
    intro x
    simp only [Stream.InFlight, hbuffer, List.mem_append, List.mem_cons, List.not_mem_nil, or_false]
    tauto
  refine ⟨h.db, h.version, fun x hx => h.committed x ((hsame x).mp hx), h.sound, h.attached,
    fun hreg => ?_⟩
  exact (h.covered hreg).imp_left fun hnothing =>
    hnothing.mono rfl (le_refl _) fun x hx => Or.inr ((hsame x).mpr hx)

/-- A frame is taken. -/
theorem StreamInv.frame (h : StreamInv s) {rest : List FlagEvent} (hphase : s.phase = .streaming)
    (hsocket : s.socket = e :: rest) :
    StreamInv { s with
      client := (s.client.onFrame e.envelope.sseEvent.frame).1
      socket := rest
      phase := if (s.client.onFrame e.envelope.sseEvent.frame).2 then .reconciling true (.looping 0)
        else .streaming } := by
  have hmem : e ∈ s.db.events :=
    h.committed e (Or.inr (Or.inr (by rw [hsocket]; exact List.mem_cons_self)))
  have hpos := (h.db.eventBound e hmem).1
  have hlatest := le_getLatestVersion hmem
  have hversion := h.version
  -- without `Reconcile` nothing was missed before; only the frame's own event leaves the socket
  have hcovered : s.registered = true → s.NothingMissed := by
    intro hreg
    have hcov := h.covered hreg
    rw [hphase] at hcov
    exact hcov.resolve_right id
  have hflight : ∀ x, s.InFlight x → x = e ∨ { s with socket := rest }.InFlight x := by
    intro x hx
    simp only [Stream.InFlight, hsocket, List.mem_cons] at hx ⊢
    tauto
  have hcommitted : ∀ x, { s with socket := rest }.InFlight x → x ∈ s.db.events := by
    intro x hx
    refine h.committed x ?_
    simp only [Stream.InFlight, hsocket, List.mem_cons] at hx ⊢
    tauto
  rcases s.client.onFrame_cases hpos with ⟨hle, hres⟩ | ⟨hnext, hcv, hneeds⟩ | ⟨hgap, hres⟩
  · rw [hres]
    refine ⟨h.db, hversion, hcommitted, trivial, fun _ => trivial, fun hreg => Or.inl ?_⟩
    refine (hcovered hreg).mono rfl (le_refl _) fun x hx => ?_
    rcases hflight x hx with rfl | hx
    · exact Or.inl hle
    · exact Or.inr hx
  · rw [hneeds]
    refine ⟨h.db, ?_, hcommitted, trivial, fun _ => trivial, fun hreg => Or.inl ?_⟩
    · dsimp only
      omega
    · refine (hcovered hreg).mono rfl (by dsimp only; omega) fun x hx => ?_
      rcases hflight x hx with rfl | hx
      · exact Or.inl (le_of_eq hcv.symm)
      · exact Or.inr hx
  · rw [hres]
    exact ⟨h.db, hversion, hcommitted, trivial, fun _ => trivial, fun _ => Or.inr trivial⟩

/-- A page is applied. -/
theorem StreamInv.applyPage (h : StreamInv s) {inStream : Bool} {k : Nat} {page : List FlagEvent}
    (hphase : s.phase = .reconciling inStream (.answered k page)) (hpage : page ≠ []) :
    (s.client.applyPage page).2 = true ∧
      StreamInv { s with
        client := (s.client.applyPage page).1, phase := .reconciling inStream (.looping (k + 1)) } := by
  have hsound := h.sound
  rw [hphase] at hsound
  have hattached := h.attached
  rw [hphase] at hattached
  have hbound := Client.applyPage_version_le h.version.2 fun e he =>
    le_getLatestVersion (hsound e he).1
  refine ⟨?_, h.db, ⟨h.version.1.trans (s.client.le_applyPage page), hbound⟩, h.committed, trivial,
    fun hreg => ?_, fun _ => Or.inr trivial⟩
  · obtain ⟨e, rest, rfl⟩ := List.exists_cons_of_ne_nil hpage
    exact Client.applyPage_advanced (hsound e List.mem_cons_self).2
  · cases inStream with
    | true => trivial
    | false => exact (hattached hreg).elim

/-- What a `Reconcile` that has asked gets. -/
theorem StreamInv.answer (h : StreamInv s) {inStream : Bool} {k : Nat} {since : Int}
    (hphase : s.phase = .reconciling inStream (.asked k since)) :
    StreamInv { s with
      phase := .reconciling inStream (.answered k (listEventsSince s.db.events since 0)) } := by
  have hsound := h.sound
  have hattached := h.attached
  rw [hphase] at hsound hattached
  obtain rfl : since = s.client.configVersion := hsound
  refine ⟨h.db, h.version, h.committed, fun e he => mem_listEventsSince he, fun hreg => ?_,
    fun hreg => ?_⟩
  · cases inStream with
    | true => trivial
    | false => exact (hattached hreg).elim
  · by_cases hempty : listEventsSince s.db.events s.client.configVersion 0 = []
    · exact Or.inl fun e he => Or.inl (listEventsSince_eq_nil hempty he)
    · exact Or.inr hempty

/-- A publication arrives. -/
theorem StreamInv.step_broadcast (h : StreamInv s) {i : Nat}
    (hs : FlagPlane.streamStep s (.broadcast i) = some s') : StreamInv s' := by
  rw [FlagPlane.streamStep] at hs
  split at hs
  · cases hs
  rename_i e he
  dsimp only at hs
  split at hs
  · split at hs
    · obtain rfl := Option.some.inj hs
      refine h.broadcast he (fun x hx => List.mem_append_left _ hx) (fun x hx => ?_) fun _ => ?_
      · exact (List.mem_append.mp hx).imp_right List.mem_singleton.mp
      · exact List.mem_append_right _ (List.mem_singleton.mpr rfl)
    · cases hs
  · rename_i hreg
    obtain rfl := Option.some.inj hs
    exact h.broadcast he (fun _ hx => hx) (fun _ hx => Or.inl hx) fun hreg' => absurd hreg' hreg

/-- The head of the loop. -/
theorem StreamInv.step_readVersion (h : StreamInv s) (hC : s.InTime .readVersion)
    (hs : FlagPlane.streamStep s .readVersion = some s') : StreamInv s' := by
  rw [FlagPlane.streamStep] at hs
  split at hs
  · rename_i inStream k hphase
    split at hs
    · obtain rfl := Option.some.inj hs
      refine h.setPhase rfl (fun hin => ?_) fun _ => Or.inr trivial
      rw [hphase] at hin
      cases inStream with
      | true => trivial
      | false => exact hin.elim
    · rename_i hguard
      obtain rfl := Option.some.inj hs
      -- the loop gives up at its limit; in the stream this is what `InTime` speaks of
      refine h.reconciled hphase fun hin _ => ?_
      subst hin
      exact hC k hphase (not_lt.mp hguard)
  · cases hs

/-- The page that came. -/
theorem StreamInv.step_applyPage (h : StreamInv s)
    (hs : FlagPlane.streamStep s .applyPage = some s') : StreamInv s' := by
  rw [FlagPlane.streamStep] at hs
  split at hs
  · rename_i inStream k page hphase
    split at hs
    · rename_i hempty
      obtain rfl := Option.some.inj hs
      -- an empty page: nothing was there above the version when it was read
      refine h.reconciled hphase fun _ hreg => (h.covered hreg).resolve_right fun hfetch => ?_
      rw [hphase] at hfetch
      exact hfetch (List.isEmpty_iff.mp hempty)
    · rename_i hpage
      obtain ⟨hadvanced, hinv⟩ := h.applyPage hphase fun hnil =>
        hpage (List.isEmpty_iff.mpr hnil)
      dsimp only at hs
      rw [if_pos hadvanced] at hs
      obtain rfl := Option.some.inj hs
      exact hinv
  · cases hs

/-- The connection is refused. -/
theorem StreamInv.step_refuse (h : StreamInv s)
    (hs : FlagPlane.streamStep s .refuse = some s') : StreamInv s' := by
  rw [FlagPlane.streamStep] at hs
  split at hs
  · rename_i hphase
    obtain rfl := Option.some.inj hs
    refine h.setPhase trivial (fun hin => ?_) fun hreg => ?_
    · -- no channel is attached while the client is not in a stream
      rw [hphase] at hin
      exact hin.elim
    · have hin := h.attached hreg
      rw [hphase] at hin
      exact hin.elim
  · cases hs

/-- The stream has come to its end. -/
theorem StreamInv.step_ended (h : StreamInv s)
    (hs : FlagPlane.streamStep s .ended = some s') : StreamInv s' := by
  rw [FlagPlane.streamStep] at hs
  split at hs
  · rename_i hreg _
    obtain rfl := Option.some.inj hs
    refine ⟨h.db, h.version, h.committed, trivial, fun hreg' => ?_, fun hreg' => ?_⟩
    · exact absurd (hreg.symm.trans hreg') (by decide)
    · exact absurd (hreg.symm.trans hreg') (by decide)
  · cases hs

/-- **Every action taken in time keeps the invariant.** -/
theorem StreamInv.streamStep (h : StreamInv s) {a : StreamAction} (hC : s.InTime a)
    (hs : streamStep s a = some s') : StreamInv s' := by
  cases a with
  | write a =>
      obtain ⟨db, hdb, rfl⟩ := Option.map_eq_some_iff.mp hs
      exact h.write hdb
  | broadcast i => exact h.step_broadcast hs
  | readVersion => exact h.step_readVersion hC hs
  | answer =>
      rw [FlagPlane.streamStep] at hs
      split at hs
      · rename_i inStream k since hphase
        obtain rfl := Option.some.inj hs
        exact h.answer hphase
      · cases hs
  | failRequest =>
      rw [FlagPlane.streamStep] at hs
      split at hs
      · obtain rfl := Option.some.inj hs
        exact h.hangUp 0 trivial
      · rename_i k since hphase
        obtain rfl := Option.some.inj hs
        exact h.reconciled hphase fun hin => by cases hin
      · cases hs
  | applyPage => exact h.step_applyPage hs
  | register =>
      rw [FlagPlane.streamStep] at hs
      split at hs
      · obtain rfl := Option.some.inj hs
        exact h.register hC
      · cases hs
  | refuse => exact h.step_refuse hs
  | send =>
      rw [FlagPlane.streamStep] at hs
      split at hs
      · rename_i hbuffer
        obtain rfl := Option.some.inj hs
        exact h.send hbuffer
      · cases hs
  | frame =>
      rw [FlagPlane.streamStep] at hs
      split at hs
      · rename_i e rest hphase hsocket
        obtain rfl := Option.some.inj hs
        exact h.frame hphase hsocket
      · cases hs
  | disconnect n =>
      rw [FlagPlane.streamStep] at hs
      split at hs
      · obtain rfl := Option.some.inj hs
        exact h.hangUp n h.sound
      · cases hs
  | ended => exact h.step_ended hs
  | retry =>
      rw [FlagPlane.streamStep] at hs
      split at hs
      · rename_i hphase
        obtain rfl := Option.some.inj hs
        refine h.setPhase trivial (fun hin => ?_) fun _ => Or.inr trivial
        rw [hphase] at hin
        exact hin.elim
      · cases hs

/-- The invariant in a quiescent state. -/
theorem StreamInv.caught_up (h : StreamInv s) (hq : s.Quiescent) :
    s.client.configVersion = getLatestVersion s.db.events := by
  refine le_antisymm h.version.2 ?_
  -- no `Reconcile` is coming any more, so nothing was missed
  have hnothing : s.NothingMissed := by
    refine (h.covered hq.registered).resolve_right fun hfetch => ?_
    unfold LoopPhase.WillFetch at hfetch
    split at hfetch
    · exact hq.phase _ _ ‹_›
    · exact hq.phase _ _ ‹_›
    · exact hq.phase _ _ ‹_›
    · exact hfetch
  by_cases hempty : s.db.events = []
  · rw [hempty]
    exact h.version.1
  · obtain ⟨e, he, hv⟩ := getLatestVersion_mem hempty
    rw [← hv]
    refine (hnothing e he).resolve_right ?_
    intro hcase
    -- nor is anything on its way
    rcases hcase with hx | hx | hx
    · rw [hq.pending] at hx
      cases hx
    · rw [hq.buffer] at hx
      cases hx
    · rw [hq.socket] at hx
      cases hx

end Step

theorem DbInv.streamInv_start {db : Db} (h : DbInv db) (flags : String → Option ClientFlag)
    {pending : List FlagEvent} (hpending : ∀ e ∈ pending, e ∈ db.events) :
    StreamInv (Stream.start db flags pending) := by
  refine ⟨h, ⟨h.latest_bounds.1, le_refl _⟩, ?_, trivial, fun hreg => (by cases hreg),
    fun hreg => (by cases hreg)⟩
  intro e hcase
  rcases hcase with he | he | he
  · exact hpending e he
  · cases he
  · cases he

/-- **The client catches up wherever it settles.** From the `Bootstrap` on, and however writers,
broadcasts, pages, frames and reconnects interleave: if every registration of the client's
channel is in time, then in every quiescent state reached the client is at the latest version. -/
theorem quiescent_caught_up {rows : List FlagRow} {before : List Action} {db : Db}
    {flags : String → Option ClientFlag} {pending : List FlagEvent} {as : List StreamAction}
    {s : Stream} (hrows : Migrated rows) (hdb : exec step (Db.migrated rows) before = some db)
    (hpending : ∀ e ∈ pending, e ∈ db.events)
    (hC : ∀ tr ∈ transitions streamStep (Stream.start db flags pending) as, tr.pre.InTime tr.act)
    (hrun : exec streamStep (Stream.start db flags pending) as = some s) (hq : s.Quiescent) :
    s.client.configVersion = getLatestVersion s.db.events :=
  (exec_preserves_of (fun h hC hs => StreamInv.streamStep h hC hs)
    ((DbInv.of_exec hrows hdb).streamInv_start flags hpending) hC hrun).caught_up hq

/-- A registration that comes too late, with nothing left to broadcast, settles the client below
the latest version at once. -/
theorem register_late {s s' : Stream} (hempty : s.pending = []) {e : FlagEvent}
    (he : e ∈ s.db.events) (hmissed : s.client.configVersion < e.version)
    (hs : streamStep s .register = some s') :
    s'.Quiescent ∧ s'.client.configVersion < getLatestVersion s'.db.events := by
  rw [streamStep] at hs
  split at hs
  · obtain rfl := Option.some.inj hs
    exact ⟨⟨rfl, hempty, rfl, rfl, fun _ _ => by simp⟩, hmissed.trans_le (le_getLatestVersion he)⟩
  · cases hs

/-! ### Two runs -/

/-- `Quiescent`, evaluated. -/
def Stream.settled (s : Stream) : Bool :=
  s.registered && s.pending.isEmpty && s.buffer.isEmpty && s.socket.isEmpty &&
    match s.phase with
    | .reconciling _ _ => false
    | _ => true

theorem Stream.quiescent_of_settled {s : Stream} (h : s.settled = true) : s.Quiescent := by
  simp only [settled, Bool.and_eq_true, List.isEmpty_iff] at h
  obtain ⟨⟨⟨⟨hreg, hpending⟩, hbuffer⟩, hsocket⟩, hphase⟩ := h
  refine ⟨hreg, hpending, hbuffer, hsocket, fun inStream run heq => ?_⟩
  rw [heq] at hphase
  cases hphase

/-- A condition that can be evaluated: at a registration the client has every event there is. -/
def Stream.inTimeChecked (s : Stream) : StreamAction → Bool
  | .register => s.db.events.all fun e => e.version ≤ s.client.configVersion
  | .readVersion =>
    match s.phase with
    | .reconciling true (.looping k) => k < guardLimit
    | _ => true
  | _ => true

theorem Stream.inTime_of_checked {s : Stream} {a : StreamAction} (h : s.inTimeChecked a = true) :
    s.InTime a := by
  cases a with
  | register => exact fun e he => Or.inl (of_decide_eq_true (List.all_eq_true.mp h e he))
  | readVersion =>
      intro k hphase hguard
      rw [inTimeChecked, hphase] at h
      exact absurd (of_decide_eq_true h) (not_lt.mpr hguard)
  | _ => trivial

/-- A page of `Reconcile`. -/
def fetchPage : List StreamAction := [.readVersion, .answer, .applyPage]

/-- The client connects to an empty server. `checkout` is created and arrives live; two toggles
arrive in the wrong order, the first of them as a gap. Then the connection breaks and is made
again. -/
def timelySession : List StreamAction :=
  [ fetchPage, [.register], createCheckout.map .write, [.broadcast 0, .send, .frame],
    [.write (.call 1 (.toggle "u")), .write (.begin 1 2), .write (.nextval 1), .write (.scan 1),
      .write (.lock 1), .write (.appendEvent 1), .write (.commit 1)],
    [.write (.call 2 (.toggle "u")), .write (.begin 2 3), .write (.nextval 2), .write (.scan 2),
      .write (.lock 2), .write (.appendEvent 2), .write (.commit 2)],
    [.broadcast 1, .send, .frame], fetchPage, fetchPage, [.broadcast 0, .send, .frame],
    [.disconnect 0, .ended, .retry], fetchPage, [.register] ].flatten

theorem timelySession_caught_up :
    ∃ s, exec streamStep (Stream.start (Db.migrated []) (fun _ => none) []) timelySession = some s ∧
      s.Quiescent ∧ s.client.configVersion = getLatestVersion s.db.events ∧
      getLatestVersion s.db.events = 3 := by
  have hrun : (exec streamStep (Stream.start (Db.migrated []) (fun _ => none) []) timelySession).map
      (fun s => (s.settled, getLatestVersion s.db.events)) = some (true, 3) := by
    decide
  have hchecked : ∀ tr ∈ transitions streamStep (Stream.start (Db.migrated []) (fun _ => none) [])
      timelySession, tr.pre.inTimeChecked tr.act = true := by
    decide
  obtain ⟨s, hs, hsettled⟩ := Option.map_eq_some_iff.mp hrun
  obtain ⟨hsettled, hlatest⟩ := Prod.mk.inj hsettled
  have hq := Stream.quiescent_of_settled hsettled
  refine ⟨s, hs, hq, ?_, hlatest⟩
  exact quiescent_caught_up migrated_nil (exec_nil _) (fun e he => by cases he)
    (fun tr htr => Stream.inTime_of_checked (hchecked tr htr)) hs hq

/-- `checkout` is created and broadcast between the last, empty page and the registration. -/
def lateRegistration : List StreamAction :=
  [ fetchPage, createCheckout.map .write, [.broadcast 0, .register] ].flatten

theorem lateRegistration_behind :
    ∃ s, exec streamStep (Stream.start (Db.migrated []) (fun _ => none) []) lateRegistration =
      some s ∧
      s.Quiescent ∧ s.client.configVersion = 0 ∧ getLatestVersion s.db.events = 1 := by
  have hrun : (exec streamStep (Stream.start (Db.migrated []) (fun _ => none) [])
      lateRegistration).map
      (fun s => (s.settled, s.client.configVersion, getLatestVersion s.db.events)) =
      some (true, 0, 1) := by
    decide
  obtain ⟨s, hs, hall⟩ := Option.map_eq_some_iff.mp hrun
  obtain ⟨hsettled, hall⟩ := Prod.mk.inj hall
  obtain ⟨hversion, hlatest⟩ := Prod.mk.inj hall
  exact ⟨s, hs, Stream.quiescent_of_settled hsettled, hversion, hlatest⟩

end FlagPlane
