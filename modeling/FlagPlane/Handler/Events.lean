import FlagPlane.Client.Responses
import FlagPlane.Lines

/-!
# FlagPlane.Handler.Events

**`GET /api/client/events`**, `ClientHandler.Reconcile` over `ListEventsSince`: one page of the log
above `since`, in version order and never more than the cap.
-/

namespace FlagPlane

/-- The events above `since`, in version order. -/
def backlog (events : List FlagEvent) (since : Int) : List FlagEvent :=
  (events.filter fun e => since < e.version).insertionSort fun a b => a.version ≤ b.version

/-- `ListEventsSince` with a cap of `k` rows. -/
def eventsPage (events : List FlagEvent) (since : Int) (k : Nat) : List FlagEvent :=
  (backlog events since).take k

/-- The answer that carries a page. -/
def pageResponse (page : List FlagEvent) : Response EventsBody :=
  ⟨200, .json ⟨some (page.map FlagEvent.body)⟩⟩

/-- The `since` parameter; without one it is 0. -/
def sinceParam (text : List Char) : Option Int :=
  if text = [] then some 0 else (parseInt64 text).filter fun v => 0 ≤ v

/-- `ClientHandler.Reconcile`, when its queries succeed: the answer to `?since=text`. -/
def eventsResponse (events : List FlagEvent) (text : List Char) : Response EventsBody :=
  match sinceParam text with
  | none => ⟨400, .json ⟨none⟩⟩
  | some since => pageResponse (listEventsSince events since 0)

section Page

variable {events page : List FlagEvent} {since : Int} {k : Nat}

theorem listEventsSince_eq (events : List FlagEvent) (since limit : Int) :
    listEventsSince events since limit = eventsPage events since (eventsSinceLimit limit) := rfl

theorem backlog_perm (events : List FlagEvent) (since : Int) :
    (backlog events since).Perm (events.filter fun e => since < e.version) :=
  List.perm_insertionSort _ _

theorem mem_of_mem_eventsPage {e : FlagEvent} (h : e ∈ eventsPage events since k) :
    e ∈ events ∧ since < e.version := by
  have hmem := (backlog_perm events since).mem_iff.mp (List.mem_of_mem_take h)
  simpa using hmem

theorem pairwise_backlog (events : List FlagEvent) (since : Int) :
    (backlog events since).Pairwise fun a b => a.version ≤ b.version := by
  have : Std.Total fun a b : FlagEvent => a.version ≤ b.version :=
    ⟨fun a b => le_total a.version b.version⟩
  have : IsTrans FlagEvent fun a b => a.version ≤ b.version := ⟨fun _ _ _ h₁ h₂ => le_trans h₁ h₂⟩
  exact List.pairwise_insertionSort _ _

/-- Whatever order the table is in, the backlog is in the order of the log. -/
theorem backlog_eq {log : List FlagEvent} (h : log.Pairwise fun a b => a.version < b.version)
    (hperm : events.Perm log) (since : Int) :
    backlog events since = log.filter fun e => since < e.version := by
  have hinj := List.inj_on_of_nodup_map (f := FlagEvent.version)
    (List.pairwise_map.mpr (h.imp fun hlt => hlt.ne))
  refine List.Perm.eq_of_pairwise ?_ (pairwise_backlog events since)
    ((h.filter _).imp fun hlt => hlt.le) ((backlog_perm events since).trans (hperm.filter _))
  intro a b ha hb hab hba
  have hmem := (backlog_perm events since).mem_iff.mp ha
  exact hinj (hperm.mem_iff.mp (List.mem_of_mem_filter hmem)) (List.mem_of_mem_filter hb)
    (le_antisymm hab hba)

/-- The text of a number is read back, and a negative one is refused. -/
theorem sinceParam_renderInt (h : Json.InInt64 since) :
    sinceParam (renderInt since) = if 0 ≤ since then some since else none := by
  rw [sinceParam, if_neg (renderInt_ne_nil since), parseInt64_renderInt h]
  by_cases hpos : 0 ≤ since
  · simp [hpos]
  · simp [hpos, not_le.mp hpos]

theorem eventsResponse_of_nonneg (h : Json.InInt64 since) (hpos : 0 ≤ since) :
    eventsResponse events (renderInt since) = pageResponse (eventsPage events since 500) := by
  rw [eventsResponse, sinceParam_renderInt h, if_pos hpos]
  exact congrArg pageResponse (listEventsSince_eq events since 0)

theorem eventsResponse_of_neg (h : Json.InInt64 since) (hneg : since < 0) :
    (eventsResponse events (renderInt since)).status = 400 := by
  rw [eventsResponse, sinceParam_renderInt h, if_neg (by omega)]

end Page

end FlagPlane
