import FlagPlane.Repository.Preservation

/-!
# FlagPlane.Repository.Watermark

**Versions as a watermark.** A reader that has seen version `V` asks for events above
`V` from then on, so an event below `V` that becomes visible later is one it never
fetches. Versions are drawn in one order and events become visible in another, the
order of commits: a read that happens between the two commits of `crossingCommits`
exposes a version with a hole below it.

`safeWatermark_of_settled` gives the reads that are safe: those made while no open
transaction holds a version below what they expose.
-/

namespace FlagPlane

/-- A version that a read has exposed, with the events committed at that moment. -/
structure Exposure where
  version : Int
  visible : List FlagEvent

/-- The database and what its readers have been shown so far. -/
structure Watched where
  db : Db
  exposures : List Exposure

/-- A statement of a writer, or a read. -/
inductive WatchedAction
  | write (a : Action)
  | getLatestVersion
  | listEventsSince (since limit : Int)
  /-- The frame of a committed event reaches a client. -/
  | frame (version : Int)
  deriving Repr

/-- The versions of committed events that a read exposes. -/
def exposedVersions (db : Db) : WatchedAction → List Int
  | .write _ => []
  | .getLatestVersion => if db.events.isEmpty then [] else [getLatestVersion db.events]
  | .listEventsSince since limit => (listEventsSince db.events since limit).map FlagEvent.version
  | .frame v => if db.events.any (fun e => e.version = v) then [v] else []

def watchedStep (w : Watched) : WatchedAction → Option Watched
  | .write a => (step w.db a).map fun db => { w with db := db }
  | a => some { w with
      exposures := w.exposures ++ (exposedVersions w.db a).map fun v => ⟨v, w.db.events⟩ }

def Watched.start (rows : List FlagRow) : Watched := ⟨Db.migrated rows, []⟩

/-- What has become visible since an exposure lies above it: nothing below shows up late,
and resuming from the exposed version finds everything that is new. -/
structure SafeWatermark (w : Watched) : Prop where
  below : ∀ x ∈ w.exposures, ∀ e ∈ w.db.events, e.version < x.version → e ∈ x.visible
  resume : ∀ x ∈ w.exposures, ∀ e ∈ w.db.events, e ∉ x.visible → x.version < e.version

/-- No open transaction holds a version below `v`. -/
def Settled (db : Db) (v : Int) : Prop :=
  ∀ t tx v', db.txs t = some tx → tx.stage.version? = some v' → v < v'

/-- The read exposes only versions that no open transaction is below. -/
def ReadSettled (w : Watched) (a : WatchedAction) : Prop :=
  ∀ v ∈ exposedVersions w.db a, Settled w.db v

/-! ### Versions in flight -/

section InFlight

variable {db db' : Db} {a : Action} {v : Int}

theorem step_seq_le (h : step db a = some db') : db.seq ≤ db'.seq := by
  cases step_effect h with
  | draw => exact (Int.lt_succ db.seq).le
  | _ => exact le_refl _

/-- A version held after a step was held before it, or has just been drawn. -/
theorem step_version (h : step db a = some db') {t : TxId} {tx : Tx} (ht : db'.txs t = some tx)
    (hv : tx.stage.version? = some v) :
    v = db.seq + 1 ∨ ∃ tx₀, db.txs t = some tx₀ ∧ tx₀.stage.version? = some v := by
  have hold : ∀ {u : TxId} {txs : TxId → Option Tx} {op : Op} {st st' : Stage},
      txs u = some ⟨op, st⟩ → Function.update txs u (some ⟨op, st'⟩) t = some tx →
      (st'.version? = none ∨ st'.version? = st.version?) →
      ∃ tx₀, txs t = some tx₀ ∧ tx₀.stage.version? = some v := by
    intro u txs op st st' hu hnew hst
    rcases update_some_cases hnew with ⟨rfl, rfl⟩ | ⟨-, hnew⟩
    · rcases hst with hst | hst
      · rw [show st'.version? = some v from hv] at hst
        cases hst
      · exact ⟨_, hu, hst.symm.trans hv⟩
    · exact ⟨tx, hnew, hv⟩
  cases step_effect h with
  | call ht₀ =>
      rcases update_some_cases ht with ⟨-, rfl⟩ | ⟨-, ht⟩
      · cases hv
      · exact Or.inr ⟨tx, ht, hv⟩
  | draw ht₀ _ _ _ hx =>
      rcases update_some_cases ht with ⟨-, rfl⟩ | ⟨-, ht⟩
      · obtain rfl := Option.some.inj hv
        exact Or.inl hx
      · exact Or.inr ⟨tx, ht, hv⟩
  | progress _ ht₀ _ _ hver => exact Or.inr (hold ht₀ ht hver)
  | vanish _ ht₀ hst => rcases hst with rfl | rfl <;> exact Or.inr (hold ht₀ ht (Or.inr rfl))
  | select ht₀ | commit ht₀ | finish _ ht₀ => exact Or.inr (hold ht₀ ht (Or.inl rfl))
  | insert ht₀ | update ht₀ | remove ht₀ | recheck ht₀ | log ht₀ =>
      exact Or.inr (hold ht₀ ht (Or.inr rfl))

/-- A settled version stays settled: later transactions draw higher ones. -/
theorem Settled.step (hs : Settled db v) (hv : v ≤ db.seq) (h : step db a = some db') :
    Settled db' v := by
  intro t tx v' ht hv'
  rcases step_version h ht hv' with rfl | ⟨tx₀, ht₀, hv₀⟩
  · omega
  · exact hs t tx₀ v' ht₀ hv₀

/-- The event a step commits is one whose version was held. -/
theorem Settled.lt_committed (hs : Settled db v) (hdb : DbInv db)
    (h : FlagPlane.step db a = some db')
    {e : FlagEvent} (he : e ∈ db'.events) : e ∈ db.events ∨ v < e.version := by
  rcases step_tables h with ⟨-, -, hevents⟩ | ⟨t, c, -, ht, -, rfl⟩
  · exact Or.inl (hevents ▸ he)
  · rcases List.mem_append.mp he with he | he
    · exact Or.inl he
    · rw [List.mem_singleton] at he
      rw [he, (hdb.tx t _ ht).event _ _ _ rfl, Op.event_version]
      exact Or.inr (hs t _ _ ht rfl)

end InFlight

/-! ### Runs -/

/-- What runs whose reads are settled keep. -/
structure WatchedInv (w : Watched) : Prop where
  db : DbInv w.db
  safe : ∀ x ∈ w.exposures, ∀ e ∈ w.db.events, e ∈ x.visible ∨ x.version < e.version
  settled : ∀ x ∈ w.exposures, Settled w.db x.version ∧ x.version ≤ w.db.seq

theorem exposedVersions_mem {db : Db} {a : WatchedAction} {v : Int}
    (h : v ∈ exposedVersions db a) : ∃ e ∈ db.events, e.version = v := by
  cases a with
  | write a => cases h
  | getLatestVersion =>
      rw [exposedVersions] at h
      split at h
      · cases h
      · rename_i hne
        rw [List.mem_singleton] at h
        subst h
        exact getLatestVersion_mem (by simpa using hne)
  | listEventsSince since limit =>
      obtain ⟨e, he, rfl⟩ := List.mem_map.mp h
      exact ⟨e, (mem_listEventsSince he).1, rfl⟩
  | frame v' =>
      rw [exposedVersions] at h
      split at h
      · rename_i hany
        rw [List.mem_singleton] at h
        subst h
        simpa using hany
      · cases h

/-- A settled read adds exposures that are safe. -/
theorem WatchedInv.read {w : Watched} (h : WatchedInv w) {a : WatchedAction}
    (hread : ReadSettled w a) :
    WatchedInv { w with
      exposures := w.exposures ++ (exposedVersions w.db a).map fun v => ⟨v, w.db.events⟩ } where
  db := h.db
  safe x hx e he := by
    rcases List.mem_append.mp hx with hx | hx
    · exact h.safe x hx e he
    · obtain ⟨v, -, rfl⟩ := List.mem_map.mp hx
      exact Or.inl he
  settled x hx := by
    rcases List.mem_append.mp hx with hx | hx
    · exact h.settled x hx
    · obtain ⟨v, hv, rfl⟩ := List.mem_map.mp hx
      obtain ⟨e, he, rfl⟩ := exposedVersions_mem hv
      exact ⟨hread _ hv, (h.db.eventBound e he).2⟩

theorem WatchedInv.step {w w' : Watched} (h : WatchedInv w) {a : WatchedAction}
    (hread : ReadSettled w a) (hs : watchedStep w a = some w') : WatchedInv w' := by
  cases a with
  | write a =>
      obtain ⟨db', hdb, rfl⟩ := Option.map_eq_some_iff.mp hs
      refine ⟨h.db.step hdb, fun x hx e he => ?_, fun x hx => ?_⟩
      · obtain ⟨hsettled, -⟩ := h.settled x hx
        rcases hsettled.lt_committed h.db hdb he with he | hlt
        · exact h.safe x hx e he
        · exact Or.inr hlt
      · obtain ⟨hsettled, hle⟩ := h.settled x hx
        exact ⟨hsettled.step hle hdb, hle.trans (step_seq_le hdb)⟩
  | getLatestVersion | listEventsSince since limit | frame v =>
      obtain rfl := Option.some.inj hs
      exact h.read hread

/-- **Settled reads expose safe watermarks.** In every run whose reads are settled, from
any table migration 002 can leave, no event below an exposed version becomes visible
after the read that exposed it. -/
theorem safeWatermark_of_settled {rows : List FlagRow} (hrows : Migrated rows)
    {as : List WatchedAction} {w : Watched}
    (hreads : ∀ tr ∈ transitions watchedStep (Watched.start rows) as, ReadSettled tr.pre tr.act)
    (hrun : exec watchedStep (Watched.start rows) as = some w) : SafeWatermark w := by
  have hstart : WatchedInv (Watched.start rows) := ⟨hrows.dbInv, nofun, nofun⟩
  have h : WatchedInv w :=
    exec_preserves_of (C := ReadSettled) (fun h hC hs => WatchedInv.step h hC hs) hstart hreads hrun
  refine ⟨fun x hx e he hlt => (h.safe x hx e he).resolve_right (by omega),
    fun x hx e he hnew => ?_⟩
  exact (h.safe x hx e he).resolve_left hnew

/-- The condition asks for no more than it must: an exposed version stops being a watermark
when a transaction that holds a lower one is one commit away. -/
theorem not_safeWatermark_of_logged {w : Watched} (h : DbInv w.db) {t : TxId} {c : Commit}
    (ht : w.db.txs t = some ⟨c.op, .logged c.locals c.write c.event⟩) {x : Exposure}
    (hx : x ∈ w.exposures) (hvisible : ∀ e ∈ x.visible, e ∈ w.db.events)
    (hlt : c.locals.version < x.version) :
    ∃ w', watchedStep w (.write (.commit t)) = some w' ∧ ¬ SafeWatermark w' := by
  have hstep : step w.db (.commit t) = some (w.db.committed t c) := by
    rw [step, ht]
    rfl
  refine ⟨⟨w.db.committed t c, w.exposures⟩, by rw [watchedStep, hstep]; rfl, fun hsafe => ?_⟩
  have hev : c.event.version = c.locals.version := by
    rw [(h.tx t _ ht).event _ _ _ rfl, Op.event_version]
  have hmem : c.event ∈ (w.db.committed t c).events :=
    List.mem_append_right _ (List.mem_singleton.mpr rfl)
  have hold := hvisible _ (hsafe.below x hx c.event hmem (hev.trans_lt hlt))
  exact ((h.tx t _ ht).version _ rfl).2.2 _ hold hev

/-! ### Two examples -/

/-- A condition that can be evaluated: it looks at the calls of `ids` only. -/
def readSettledAmong (ids : List TxId) (w : Watched) (a : WatchedAction) : Bool :=
  (exposedVersions w.db a).all fun v => ids.all fun t =>
    match (w.db.txs t).bind (fun tx => tx.stage.version?) with
    | some v' => decide (v < v')
    | none => true

theorem readSettled_of_among {ids : List TxId} {w : Watched} {a : WatchedAction}
    (hids : ∀ t, t ∉ ids → w.db.txs t = none) (h : readSettledAmong ids w a = true) :
    ReadSettled w a := by
  intro v hv t tx v' ht hv'
  have hmem : t ∈ ids := by
    by_contra hmem
    rw [hids t hmem] at ht
    cases ht
  have hall := List.all_eq_true.mp (List.all_eq_true.mp h v hv) t hmem
  rw [ht, Option.bind_some, hv'] at hall
  exact of_decide_eq_true hall

/-- A run calls nothing but what its statements call. -/
theorem transitions_txs_none {ids : List TxId} {rows : List FlagRow} {as : List WatchedAction}
    (has : ∀ a, .write a ∈ as → a.tx ∈ ids) {tr : Transition Watched WatchedAction}
    (htr : tr ∈ transitions watchedStep (Watched.start rows) as) {t : TxId} (ht : t ∉ ids) :
    tr.pre.db.txs t = none := by
  have hstep : ∀ {w : Watched} {b : WatchedAction} {w' : Watched}, w.db.txs t = none →
      (∀ a, b = .write a → a.tx ∈ ids) → watchedStep w b = some w' → w'.db.txs t = none := by
    intro w b w' hnone hb hs
    cases b with
    | write a =>
        obtain ⟨db', hdb, rfl⟩ := Option.map_eq_some_iff.mp hs
        have hne : t ≠ a.tx := fun heq => ht (heq ▸ hb a rfl)
        exact (step_txs_of_ne hdb hne).trans hnone
    | getLatestVersion | listEventsSince since limit | frame v =>
        obtain rfl := Option.some.inj hs
        exact hnone
  have hcalls : ∀ b ∈ as, ∀ a, b = .write a → a.tx ∈ ids := by
    rintro b hb a rfl
    exact has a hb
  exact (transitions_preserves_of hstep rfl hcalls htr).1

/-- A flag is created and its creation read; then it is toggled. -/
def readBetweenWrites : List WatchedAction :=
  (createCheckout.map .write).append [.getLatestVersion, .write (.call 1 (.toggle "u")),
    .write (.begin 1 2), .write (.nextval 1), .listEventsSince 0 500, .write (.scan 1),
    .write (.lock 1), .write (.appendEvent 1), .write (.commit 1), .frame 2]

theorem readBetweenWrites_safe :
    ∃ w, exec watchedStep (Watched.start []) readBetweenWrites = some w ∧ w.exposures.length = 3 ∧
      SafeWatermark w := by
  have hids : ∀ a, .write a ∈ readBetweenWrites → a.tx ∈ [0, 1] := by
    intro a ha
    simp only [readBetweenWrites, createCheckout, List.map_cons, List.map_nil, List.append_eq,
      List.cons_append, List.nil_append, List.mem_cons, WatchedAction.write.injEq, reduceCtorEq,
      List.not_mem_nil, or_false, false_or] at ha
    rcases ha with rfl | rfl | rfl | rfl | rfl | rfl | rfl | rfl | rfl | rfl | rfl | rfl | rfl <;>
      decide
  have hchecked : ∀ tr ∈ transitions watchedStep (Watched.start []) readBetweenWrites,
      readSettledAmong [0, 1] tr.pre tr.act = true := by
    decide
  have hreads : ∀ tr ∈ transitions watchedStep (Watched.start []) readBetweenWrites,
      ReadSettled tr.pre tr.act := fun tr htr =>
    readSettled_of_among (fun t ht => transitions_txs_none hids htr ht) (hchecked tr htr)
  have hlen : (exec watchedStep (Watched.start []) readBetweenWrites).map
      (fun w => w.exposures.length) = some 3 := by
    decide
  obtain ⟨w, hrun, hlen⟩ := Option.map_eq_some_iff.mp hlen
  exact ⟨w, hrun, hlen, safeWatermark_of_settled migrated_nil hreads hrun⟩

/-- Two flags are created; version 2 is committed and read before version 1. -/
def crossingCommits : List WatchedAction :=
  [.write (.call 0 (.create ⟨"", "checkout", "", false, 0, some [], 0, 0, 0⟩)),
    .write (.call 1 (.create ⟨"", "search", "", false, 0, some [], 0, 0, 0⟩)),
    .write (.begin 0 1), .write (.begin 1 1), .write (.nextval 0), .write (.nextval 1),
    .write (.insert 1 "v"), .write (.appendEvent 1), .write (.commit 1), .getLatestVersion,
    .write (.insert 0 "u"), .write (.appendEvent 0), .write (.commit 0)]

theorem crossingCommits_skips :
    ∃ w, exec watchedStep (Watched.start []) crossingCommits = some w ∧
      ∃ x ∈ w.exposures, ∃ e ∈ w.db.events, e.version < x.version ∧ e ∉ x.visible := by
  have hrun : ((exec watchedStep (Watched.start []) crossingCommits).map fun w =>
      decide (∃ x ∈ w.exposures, ∃ e ∈ w.db.events,
        e.version < x.version ∧ e.version ∉ x.visible.map FlagEvent.version)) = some true := by
    decide
  obtain ⟨w, hw, hex⟩ := Option.map_eq_some_iff.mp hrun
  obtain ⟨x, hx, e, he, hlt, hnot⟩ := of_decide_eq_true hex
  exact ⟨w, hw, x, hx, e, he, hlt, fun hmem => hnot (List.mem_map_of_mem hmem)⟩

end FlagPlane
