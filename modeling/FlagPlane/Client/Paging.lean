import FlagPlane.Handler.Events

/-!
# FlagPlane.Client.Paging

**`Reconcile` page by page.** Against a log that stands still, each page begins where the last one
ended: the cursor is the version of the last event applied, so what is missing after a page is what
was missing before it without the page. The page after the last one is empty and ends the loop.
-/

namespace FlagPlane

/-- `ListEventsSince` as the server of `Reconcile`, with a cap of `k` rows. -/
def pageServer (events : List FlagEvent) (k : Nat) :
    Nat → Option Int → Option (Response EventsBody)
  | _, since => since.map fun since => pageResponse (eventsPage events since k)

namespace Client

/-- Apply one event. -/
def applyEvent (c : Client) (e : FlagEvent) : Client :=
  c.applyLocked e.eventType e.flagKey e.payload e.version

/-- The events of a log that a client has not applied. -/
def missing (c : Client) (log : List FlagEvent) : List FlagEvent :=
  log.filter fun e => c.configVersion < e.version

/-- The events that the `n`-th request of the loop brings, made by `c`. -/
def requested (server : Nat → Option Int → Option (Response EventsBody)) (n : Nat) (c : Client) :
    Option (List ClientEvent) :=
  (receive (server n (some c.configVersion))).bind fun b => unmarshalEvents b.json

end Client

/-- The flags after a log, applied in order over `flags`. -/
def replayFlags (flags : String → Option ClientFlag) (log : List FlagEvent) :
    String → Option ClientFlag :=
  (log.foldl Client.applyEvent ⟨flags, 0⟩).flags

section Replay

variable {c c' : Client} {log page rest : List FlagEvent}

/-- The flags after a log do not depend on the version one starts from. -/
theorem foldl_applyEvent_flags (h : c.flags = c'.flags) (log : List FlagEvent) :
    (log.foldl Client.applyEvent c).flags = (log.foldl Client.applyEvent c').flags := by
  induction log generalizing c c' with
  | nil => exact h
  | cons e log ih =>
      refine ih ?_
      cases hty : e.eventType with
      | deleted => simp [Client.applyEvent, Client.applyLocked, hty, Client.deleteFlag, h]
      | created | updated =>
          cases hdecode : decodeFlag e.payload <;>
            simp [Client.applyEvent, Client.applyLocked, hty, Client.setDecoded, hdecode,
              Client.setFlag, h]

theorem foldl_applyEvent_version (c : Client) (log : List FlagEvent) :
    (log.foldl Client.applyEvent c).configVersion =
      (log.getLast?.map FlagEvent.version).getD c.configVersion := by
  induction log using List.reverseRecOn with
  | nil => rfl
  | append_singleton log e _ => simp [Client.applyEvent]

/-- A log in version order splits at any version. -/
theorem filter_le_append_filter_lt (hlog : log.Pairwise fun a b => a.version < b.version)
    (v : Int) :
    (log.filter fun e => e.version ≤ v) ++ (log.filter fun e => v < e.version) = log := by
  induction log with
  | nil => rfl
  | cons e log ih =>
      rw [List.pairwise_cons] at hlog
      by_cases hv : e.version ≤ v
      · rw [List.filter_cons_of_pos (by simpa using hv), List.filter_cons_of_neg (by simpa using hv),
          List.cons_append, ih hlog.2]
      · -- everything after `e` is above `v` too
        have hbelow : (e :: log).filter (fun e => e.version ≤ v) = [] := by
          rw [List.filter_eq_nil_iff]
          intro x hx
          rcases List.mem_cons.mp hx with rfl | hx
          · simpa using hv
          · have hlt := hlog.1 x hx
            simpa using (by omega : v < x.version)
        have habove : (e :: log).filter (fun e => v < e.version) = e :: log := by
          rw [List.filter_eq_self]
          intro x hx
          rcases List.mem_cons.mp hx with rfl | hx
          · simpa using hv
          · have hlt := hlog.1 x hx
            simpa using (by omega : v < x.version)
        rw [hbelow, habove, List.nil_append]

/-- What is missing, applied over what is there, is the whole log. -/
theorem replayFlags_missing (hlog : log.Pairwise fun a b => a.version < b.version)
    {flags : String → Option ClientFlag}
    (hc : c.flags = replayFlags flags (log.filter fun e => e.version ≤ c.configVersion)) :
    ((c.missing log).foldl Client.applyEvent c).flags = replayFlags flags log := by
  rw [replayFlags] at hc
  rw [foldl_applyEvent_flags hc, ← List.foldl_append, Client.missing,
    filter_le_append_filter_lt hlog]
  rfl

/-! ### One page -/

/-- A page above the client's version is applied event by event. -/
theorem applyPage_of_ascending (hpage : page.Pairwise fun a b => a.version < b.version)
    (habove : ∀ e ∈ page, c.configVersion < e.version) :
    c.applyPage page = (page.foldl Client.applyEvent c, !page.isEmpty) := by
  suffices H : ∀ b, page.foldl Client.applyNext (c, b) =
      (page.foldl Client.applyEvent c, b || !page.isEmpty) by
    simpa [Client.applyPage] using H false
  induction page generalizing c with
  | nil => simp
  | cons e page ih =>
      intro b
      rw [List.pairwise_cons] at hpage
      rw [List.forall_mem_cons] at habove
      have hnext : Client.applyNext (c, b) e = (c.applyEvent e, true) :=
        if_neg (by simpa using habove.1)
      rw [List.foldl_cons, hnext, List.foldl_cons, ih hpage.2 hpage.1]
      simp

/-- After a page of the missing events, the others are missing. -/
theorem missing_after (hlog : log.Pairwise fun a b => a.version < b.version)
    (hmissing : c.missing log = page ++ rest) (hpage : page ≠ []) :
    (page.foldl Client.applyEvent c).missing log = rest := by
  obtain ⟨init, last, rfl⟩ := List.eq_nil_or_concat page |>.resolve_left hpage
  rw [List.concat_eq_append] at hmissing ⊢
  have hversion : ((init ++ [last]).foldl Client.applyEvent c).configVersion = last.version := by
    rw [foldl_applyEvent_version, List.getLast?_append]
    rfl
  have hsorted : (init ++ [last] ++ rest).Pairwise fun a b => a.version < b.version :=
    hmissing ▸ hlog.filter _
  rw [List.append_assoc, List.pairwise_append, List.singleton_append, List.pairwise_cons] at hsorted
  obtain ⟨-, ⟨hrest, -⟩, hinit⟩ := hsorted
  have habove : c.configVersion < last.version := by
    have hmem : last ∈ c.missing log := by rw [hmissing]; simp
    simpa using (List.mem_filter.mp hmem).2
  have hagain : (c.missing log).filter (fun e => last.version < e.version) =
      log.filter fun e => last.version < e.version := by
    rw [Client.missing, List.filter_filter]
    refine List.filter_congr fun e _ => ?_
    rw [Bool.and_eq_left_iff_imp]
    simpa using fun hlt => habove.trans hlt
  rw [Client.missing, hversion, ← hagain, hmissing, List.append_assoc, List.filter_append,
    List.filter_eq_nil_iff.mpr, List.nil_append, List.singleton_append,
    List.filter_cons_of_neg (by simp), List.filter_eq_self.mpr]
  · simpa using hrest
  · intro e he
    have hlt := hinit e he last List.mem_cons_self
    simpa using hlt.le

/-- The last missing event is the last event of the log. -/
theorem version_of_missing (hlog : log.Pairwise fun a b => a.version < b.version)
    (hne : c.missing log ≠ []) :
    ((c.missing log).foldl Client.applyEvent c).configVersion = getLatestVersion log := by
  obtain ⟨init, last, hlast⟩ := List.eq_nil_or_concat (c.missing log) |>.resolve_left hne
  rw [List.concat_eq_append] at hlast
  have hsorted : (init ++ [last]).Pairwise fun a b => a.version < b.version :=
    hlast ▸ hlog.filter _
  have hmem : last ∈ c.missing log := by rw [hlast]; simp
  obtain ⟨hlastLog, habove⟩ := List.mem_filter.mp hmem
  have hmax : ∀ e ∈ log, e.version ≤ last.version := by
    intro e he
    by_cases hv : c.configVersion < e.version
    · have hemissing : e ∈ c.missing log := List.mem_filter.mpr ⟨he, by simpa using hv⟩
      rw [hlast, List.mem_append, List.mem_singleton] at hemissing
      rcases hemissing with hinit | rfl
      · exact ((List.pairwise_append.mp hsorted).2.2 e hinit last (List.mem_singleton_self _)).le
      · exact le_refl _
    · exact (not_lt.mp hv).trans (of_decide_eq_true habove).le
  obtain ⟨e, he, hversion⟩ := getLatestVersion_mem (List.ne_nil_of_mem hlastLog)
  rw [hlast, foldl_applyEvent_version, List.getLast?_append]
  exact le_antisymm (le_getLatestVersion hlastLog) (hversion ▸ hmax e he)

/-- Of a log whose payloads the client can use, the flags are the replay. -/
theorem replayFlags_eq_replay (log : EventLog) (flags : String → Option ClientFlag) :
    replayFlags flags log.events = replay flags log.entries := by
  rw [log.entries_ascending.replay_eq, EventLog.entries, replayFlags]
  have hwell := log.wellFormed
  generalize log.events = events at hwell
  induction events using List.reverseRecOn with
  | nil => rfl
  | append_singleton events e ih =>
      have hbefore := ih fun x hx => hwell x (List.mem_append_left _ hx)
      rw [List.foldl_append, List.map_append, applyAll_append, ← hbefore]
      exact Client.applyLocked_flags (hwell e (by simp))

end Replay

/-! ### All pages -/

section Reconcile

variable {c c' : Client} {events log : List FlagEvent} {k fuel n : Nat}

/-- A request of the loop brings the first of the missing events. -/
theorem requested_pageServer (hlog : log.Pairwise fun a b => a.version < b.version)
    (hevents : events.Perm log) (hint : ∀ e ∈ log, Json.InInt64 e.version) :
    Client.requested (pageServer events k) n c =
      some (((c.missing log).take k).map FlagEvent.decoded) := by
  have hpage : eventsPage events c.configVersion k = (c.missing log).take k := by
    rw [eventsPage, backlog_eq hlog hevents]
    rfl
  have hdecode := unmarshalEvents_page fun e (he : e ∈ (c.missing log).take k) =>
    hint e (List.mem_of_mem_filter (List.mem_of_mem_take he))
  rw [Client.requested, pageServer, Option.map_some, hpage]
  exact hdecode

/-- The loop, by what the request brings. -/
theorem reconcileLoop_succ (server : Nat → Option Int → Option (Response EventsBody)) :
    Client.reconcileLoop server (fuel + 1) n c =
      match (Client.requested server n c).map c.applyEvents with
      | none => (c, false)
      | some (c', true) => Client.reconcileLoop server fuel (n + 1) c'
      | some (c', false) => (c', true) := by
  rw [Client.reconcileLoop, Client.requested]
  cases ((Client.receive (server n (some c.configVersion))).bind fun b =>
    unmarshalEvents b.json) with
  | none => rfl
  | some events =>
      cases events with
      | nil => rfl
      | cons ev rest =>
          dsimp only [Option.map_some]
          rcases c.applyEvents (ev :: rest) with ⟨c', _ | _⟩ <;> rfl

/-- **The pages, one after another.** With one iteration more than there are pages, the loop ends
on the empty page, and each missing event has been applied once, in order. -/
theorem reconcileLoop_pageServer (hlog : log.Pairwise fun a b => a.version < b.version)
    (hevents : events.Perm log) (hint : ∀ e ∈ log, Json.InInt64 e.version) (hk : 1 ≤ k)
    (hfuel : (c.missing log).length ≤ fuel * k) :
    Client.reconcileLoop (pageServer events k) (fuel + 1) n c =
      ((c.missing log).foldl Client.applyEvent c, true) := by
  induction fuel generalizing c n with
  | zero =>
      have hnil : c.missing log = [] := List.length_eq_zero_iff.mp (by omega)
      rw [reconcileLoop_succ, requested_pageServer hlog hevents hint, hnil, List.take_nil]
      rfl
  | succ fuel ih =>
      rw [reconcileLoop_succ, requested_pageServer hlog hevents hint]
      by_cases hnil : c.missing log = []
      · rw [hnil, List.take_nil]
        rfl
      have hsplit : c.missing log = (c.missing log).take k ++ (c.missing log).drop k :=
        (List.take_append_drop k _).symm
      have hpage : (c.missing log).take k ≠ [] := by
        rw [ne_eq, List.take_eq_nil_iff]
        exact not_or_intro (by omega) hnil
      have hsorted : ((c.missing log).take k).Pairwise fun a b => a.version < b.version :=
        (hlog.filter _).sublist (List.take_sublist k _)
      have habove : ∀ e ∈ (c.missing log).take k, c.configVersion < e.version := fun e he => by
        simpa using (List.mem_filter.mp (List.mem_of_mem_take he)).2
      have hafter := missing_after hlog hsplit hpage
      have hlength : (((c.missing log).take k).foldl Client.applyEvent c |>.missing log).length ≤
          fuel * k := by
        rw [hafter, List.length_drop]
        rw [Nat.succ_mul] at hfuel
        omega
      rw [Option.map_some, Client.applyEvents_decoded, applyPage_of_ascending hsorted habove]
      have hne : (!((c.missing log).take k).isEmpty) = true := by simpa using hpage
      rw [hne]
      dsimp only
      rw [ih hlength, hafter, ← List.foldl_append, List.take_append_drop]

end Reconcile

/-! ### Any server -/

section AnyServer

variable {c c' : Client} {server : Nat → Option Int → Option (Response EventsBody)}
  {fuel n : Nat}

end AnyServer

end FlagPlane
