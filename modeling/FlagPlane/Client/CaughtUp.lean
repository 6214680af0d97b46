import FlagPlane.Client.Version

/-!
# FlagPlane.Client.CaughtUp

**A live client that is not reconciling has caught up with the frames it received**, and exactly
when. A gap is forgotten only in certain places: a frame that comes while a page or a snapshot is
under way, or while the client is not live. `Arrivals` keeps account of these frames, and the
condition is on them.
-/

namespace FlagPlane

/-- Every frame received so far is at or below the version. -/
def Browser.SeenUpTo (b : Browser) (v : Int) : Prop :=
  ∀ x ∈ b.received, x ≤ v

/-- A client that is live and not reconciling has caught up with every frame it received. -/
def Browser.CaughtUp (b : Browser) : Prop :=
  b.status = .live → b.reconciling = none → b.SeenUpTo b.sdk.configVersion

/-! ### What came in the meantime -/

/-- The frame that an action brings. -/
def Browser.frames (b : Browser) : BrowserAction → List Int
  | .message _ n => (b.log.events[n]?).toList.map fun e => jsNumber e.version
  | _ => []

/-- Whether an answer with `n` events is the whole log above the client's version: the server did
not cut it, and no `bootstrap` has set the client back since the request. -/
def Browser.answersAll (b : Browser) (n : Nat) : Bool :=
  match b.reconciling with
  | some r => decide (r.since ≤ b.sdk.configVersion ∧ (b.log.since r.since).length ≤ n)
  | none => false

/-- The frames that came in the meantime. -/
structure Arrivals where
  /-- Since the client was last live and not reconciling. -/
  away : List Int
  /-- Since the server read the whole log for the answer to `reconcile`. -/
  page : List Int
  /-- Since the server read its version for the answer to `init`. -/
  init : InitId → List Int

def Arrivals.start : Arrivals := ⟨[], [], fun _ => []⟩

/-- After a `bootstrap` all of the frames count again. -/
def Arrivals.step (m : Arrivals) (b : Browser) (a : BrowserAction) : Arrivals where
  away :=
    (match a with
      | .resumeInit _ => b.received
      | _ => if b.status = .live ∧ b.reconciling.isNone then [] else m.away) ++ b.frames a
  page :=
    (match a with
      | .resumeInit _ => b.received
      | .answerReconcile n => if b.answersAll n then [] else b.received
      | _ => m.page) ++ b.frames a
  init := fun i =>
    (match a with
      | .answerInit j _ => if i = j then [] else m.init i
      | _ => m.init i) ++ b.frames a

/-- A client, and the account of it. -/
def arrivalsStep (s : Browser × Arrivals) (a : BrowserAction) : Option (Browser × Arrivals) :=
  (browserStep s.1 a).map fun b' => (b', s.2.step s.1 a)

/-- No gap is forgotten: none of the frames that came in the meantime is above

* the frame that makes a client live that was not,
* the version, when `live` is put back after a response that is not OK,
* the version and the page that `reconcile` stops at,
* the snapshot that a live client is given by a `bootstrap`. -/
def Browser.Remembers (b : Browser) (m : Arrivals) : BrowserAction → Prop
  | .message _ n => ∀ e, b.log.events[n]? = some e → b.sdk.Expects e.version →
      b.status ≠ .live → b.reconciling = none → ∀ v ∈ m.away, v ≤ e.version
  | .resumeReconcile => ∀ r, b.reconciling = some r →
      (r.answer = some .notOk → r.prevStatus = .live → ∀ v ∈ m.away, v ≤ b.sdk.configVersion) ∧
      ∀ page, r.answer = some (.body page) → b.LastPage r page →
        ∀ v ∈ m.page, v ≤ b.sdk.configVersion ∨ ∃ e ∈ page, v ≤ e.version
  | .resumeInit i => ∀ s, b.inits i = some (.answered (.body s)) →
      b.status = .live → b.reconciling = none → ∀ v ∈ m.init i, v ≤ s.version
  | _ => True

/-- Only frames that came in the meantime can be above what the client or an answer to it has. -/
structure Arrivals.Inv (m : Arrivals) (b : Browser) : Prop where
  committed : ∀ v ∈ b.received, ∃ e ∈ b.log.events, v ≤ e.version
  away : ∀ v ∈ b.received, v ∈ m.away ∨ v ≤ b.sdk.configVersion
  page : ∀ r page, b.reconciling = some r → r.answer = some (.body page) →
    ∀ v ∈ b.received, v ∈ m.page ∨ v ≤ b.sdk.configVersion ∨ ∃ e ∈ page, v ≤ e.version
  init : ∀ i s, b.inits i = some (.answered (.body s)) →
    ∀ v ∈ b.received, v ∈ m.init i ∨ v ≤ s.version
  away_received : ∀ v ∈ m.away, v ∈ b.received
  page_received : ∀ v ∈ m.page, v ∈ b.received
  init_received : ∀ i, ∀ v ∈ m.init i, v ∈ b.received

section Arrivals

variable {b b' : Browser} {m : Arrivals} {a : BrowserAction} {i : InitId}

/-- `reconcile` does not bring an answer. -/
theorem Browser.reconcile_answer {r : Reconciling} {answer : Answer (List FlagEvent)}
    (hr : b.reconcile.reconciling = some r) (hanswer : r.answer = some answer) :
    b.reconciling = some r := by
  by_cases hidle : b.reconciling = none
  · rw [Browser.reconcile_of_idle hidle] at hr
    obtain rfl := Option.some.inj hr
    cases hanswer
  · rwa [Browser.reconcile_of_running hidle] at hr

/-- What a call of `init` has been answered is not changed by a call that is at another stage. -/
theorem Browser.update_answered {stage : InitStage} {j : InitId} {s : Snapshot}
    (hstage : stage ≠ .answered (.body s))
    (hj : Function.update b.inits i (some stage) j = some (.answered (.body s))) :
    b.inits j = some (.answered (.body s)) := by
  by_cases heq : j = i
  · subst heq
    rw [Function.update_self] at hj
    exact absurd (Option.some.inj hj) hstage
  · rwa [Function.update_of_ne heq] at hj

/-- What a step leaves of the log, of the frames and of the answers. -/
structure Browser.Carries (b b' : Browser) (a : BrowserAction) : Prop where
  log : ∀ e ∈ b.log.events, e ∈ b'.log.events
  received : b'.received = b.received ++ b.frames a
  page : (∀ n, a ≠ .answerReconcile n) → ∀ r page, b'.reconciling = some r →
    r.answer = some (.body page) → b.reconciling = some r
  init : ∀ i, (∀ flags, a ≠ .answerInit i flags) → ∀ s,
    b'.inits i = some (.answered (.body s)) → b.inits i = some (.answered (.body s))

/-- A step that brings no frame, and to whose calls no answer comes. -/
theorem Browser.Carries.quiet (hlog : b'.log = b.log) (hreceived : b'.received = b.received)
    (hframes : b.frames a = [])
    (hpage : ∀ r page, b'.reconciling = some r → r.answer = some (.body page) →
      b.reconciling = some r)
    (hinit : ∀ i s, b'.inits i = some (.answered (.body s)) →
      b.inits i = some (.answered (.body s))) : b.Carries b' a :=
  ⟨fun _ he => hlog ▸ he, by rw [hreceived, hframes, List.append_nil],
    fun _ => hpage, fun i _ => hinit i⟩

/-- A call of `reconcile`. -/
theorem Browser.Carries.reconcile (h : b.Carries b' a) : b.Carries b'.reconcile a := by
  obtain ⟨status, r', heq⟩ := b'.reconcile_frame
  refine ⟨?_, ?_, fun hne r page hr hpage => ?_, fun i hne s hs => ?_⟩
  · rw [heq]
    exact h.log
  · rw [heq]
    exact h.received
  · exact h.page hne r page (Browser.reconcile_answer hr hpage) hpage
  · rw [heq] at hs
    exact h.init i hne s hs

/-- A frame. -/
theorem Browser.carries_message (hi : BrowserInv b) {es : SourceId} {n : Nat}
    (hs : browserStep b (.message es n) = some b') : b.Carries b' (.message es n) := by
  obtain ⟨e, b₁, he, -, rfl, hb'⟩ := browserStep_message hi.positive hs
  have hframes : b.frames (.message es n) = [jsNumber e.version] := by
    rw [Browser.frames, he]
    rfl
  obtain ⟨-, rfl⟩ | ⟨-, -, rfl⟩ | ⟨-, sdk, -, -, rfl⟩ := hb'
  · exact ⟨fun _ he => he, by rw [hframes], fun _ _ _ hr _ => hr, fun _ _ _ hs => hs⟩
  · refine Browser.Carries.reconcile ⟨fun _ he => he, ?_, fun _ _ _ hr _ => hr, fun _ _ _ hs => hs⟩
    rw [hframes]
  · exact ⟨fun _ he => he, by rw [hframes], fun _ _ _ hr _ => hr, fun _ _ _ hs => hs⟩

theorem Browser.carries (hi : BrowserInv b) (hs : browserStep b a = some b') : b.Carries b' a := by
  cases a with
  | append e =>
      obtain ⟨log, hlog, -, rfl⟩ := browserStep_append hs
      refine ⟨fun x hx => ?_, (List.append_nil _).symm, fun _ _ _ hr _ => hr, fun _ _ _ hs => hs⟩
      exact hlog ▸ List.mem_append_left _ hx
  | init i =>
      obtain rfl := browserStep_init hs
      exact .quiet rfl rfl rfl (fun _ _ hr _ => hr)
        fun _ _ => Browser.update_answered nofun
  | disconnect | reconnect | destroy =>
      obtain rfl := Option.some.inj hs
      exact .quiet rfl rfl rfl (fun _ _ hr _ => hr) fun _ _ hs => hs
  | reconcile =>
      obtain rfl := Option.some.inj hs
      exact Browser.Carries.reconcile (.quiet rfl rfl rfl (fun _ _ hr _ => hr) fun _ _ hs => hs)
  | answerInit i flags =>
      obtain rfl := browserStep_answerInit hs
      refine ⟨fun _ he => he, (List.append_nil _).symm, fun _ _ _ hr _ => hr, fun j hj s hs => ?_⟩
      have hne : j ≠ i := fun heq => hj flags (by rw [heq])
      exact (Function.update_of_ne hne _ _).symm.trans hs
  | failInit i ok =>
      obtain rfl := browserStep_failInit hs
      exact .quiet rfl rfl rfl (fun _ _ hr _ => hr)
        fun _ s => Browser.update_answered (by cases ok <;> simp)
  | resumeInit i =>
      obtain ⟨s, -, rfl⟩ | ⟨-, rfl⟩ := browserStep_resumeInit hs
      · exact .quiet rfl rfl rfl (fun _ _ hr _ => hr)
          fun _ _ => Browser.update_answered nofun
      · exact .quiet rfl rfl rfl (fun _ _ hr _ => hr)
          fun _ _ => Browser.update_answered nofun
  | continueInit i =>
      obtain rfl := browserStep_continueInit hs
      split
      · exact .quiet rfl rfl rfl (fun _ _ hr _ => hr)
          fun _ _ => Browser.update_answered nofun
      · exact .quiet rfl rfl rfl (fun _ _ hr _ => hr)
          fun _ _ => Browser.update_answered nofun
  | answerReconcile n =>
      obtain ⟨r, -, -, rfl⟩ := browserStep_answerReconcile hs
      exact ⟨fun _ he => he, (List.append_nil _).symm, fun hne => absurd rfl (hne n),
        fun _ _ _ hs => hs⟩
  | failReconcile ok =>
      obtain ⟨r, -, rfl⟩ := browserStep_failReconcile hs
      refine .quiet rfl rfl rfl (fun r' page hr' hpage => ?_) fun _ _ hs => hs
      obtain rfl := Option.some.inj hr'
      cases ok <;> cases hpage
  | resumeReconcile =>
      obtain ⟨r, answer, -, -, rfl⟩ := browserStep_resumeReconcile hs
      cases answer with
      | notOk | rejected => exact .quiet rfl rfl rfl nofun fun _ _ hs => hs
      | body page =>
          obtain ⟨-, heq⟩ | ⟨-, heq⟩ := b.resumeReconcile_page r page
          · rw [heq]
            exact .quiet rfl rfl rfl nofun fun _ _ hs => hs
          · rw [heq]
            refine .quiet rfl rfl rfl (fun r' page' hr' hpage' => ?_) fun _ _ hs => hs
            obtain rfl := Option.some.inj hr'
            cases hpage'
  | opened es =>
      obtain ⟨-, rfl⟩ := browserStep_opened hs
      exact Browser.Carries.reconcile (.quiet rfl rfl rfl (fun _ _ hr _ => hr) fun _ _ hs => hs)
  | error es fatal =>
      obtain ⟨-, state, rfl⟩ := browserStep_error hs
      unfold Browser.onError
      split
      · exact .quiet rfl rfl rfl (fun _ _ hr _ => hr) fun _ _ hs => hs
      · exact .quiet rfl rfl rfl (fun _ _ hr _ => hr) fun _ _ hs => hs
  | message es n => exact Browser.carries_message hi hs
  | tick t =>
      obtain ⟨-, rfl⟩ := browserStep_tick hs
      exact Browser.Carries.reconcile (.quiet rfl rfl rfl (fun _ _ hr _ => hr) fun _ _ hs => hs)

/-! ### The account is right -/

theorem Browser.frames_committed (h : b.Exact) {v : Int} (hv : v ∈ b.frames a) :
    ∃ e ∈ b.log.events, v ≤ e.version := by
  cases a with
  | message es n =>
      obtain ⟨e, he, rfl⟩ := List.mem_map.mp hv
      have hmem : e ∈ b.log.events := List.mem_of_getElem? (Option.mem_toList.mp he)
      exact ⟨e, hmem, (jsNumber_of_exact (h.log e hmem)).le⟩
  | _ => cases hv

theorem Arrivals.step_away (hne : ∀ i, a ≠ .resumeInit i) :
    (m.step b a).away =
      (if b.status = .live ∧ b.reconciling.isNone then [] else m.away) ++ b.frames a := by
  cases a with
  | resumeInit i => exact absurd rfl (hne i)
  | _ => rfl

theorem Arrivals.step_page (hne : ∀ i, a ≠ .resumeInit i) (hanswer : ∀ n, a ≠ .answerReconcile n) :
    (m.step b a).page = m.page ++ b.frames a := by
  cases a with
  | resumeInit i => exact absurd rfl (hne i)
  | answerReconcile n => exact absurd rfl (hanswer n)
  | _ => rfl

theorem Arrivals.step_init (hne : ∀ flags, a ≠ .answerInit i flags) :
    (m.step b a).init i = m.init i ++ b.frames a := by
  cases a with
  | answerInit j flags =>
      have hij : i ≠ j := fun heq => hne flags (by rw [heq])
      exact congrArg (· ++ _) (if_neg hij)
  | _ => rfl

/-- The whole log above a version reaches every frame. -/
theorem Arrivals.Inv.since (h : m.Inv b) {since v : Int} (hv : v ∈ b.received) :
    v ≤ since ∨ ∃ e ∈ b.log.since since, v ≤ e.version := by
  by_cases hle : v ≤ since
  · exact Or.inl hle
  obtain ⟨e, he, hve⟩ := h.committed v hv
  refine Or.inr ⟨e, List.mem_filter.mpr ⟨he, ?_⟩, hve⟩
  exact decide_eq_true ((not_le.mp hle).trans_le hve)

/-- An answer to `reconcile`. -/
theorem Arrivals.Inv.answerReconcile (h : m.Inv b) {n : Nat} {r : Reconciling}
    (hr : b.reconciling = some r) {v : Int} (hv : v ∈ b.received) :
    v ∈ (m.step b (.answerReconcile n)).page ∨ v ≤ b.sdk.configVersion ∨
      ∃ e ∈ (b.log.since r.since).take n, v ≤ e.version := by
  by_cases hall : b.answersAll n = true
  · refine Or.inr ?_
    rw [Browser.answersAll, hr] at hall
    obtain ⟨hsince, hlength⟩ := of_decide_eq_true hall
    rw [List.take_of_length_le hlength]
    exact (h.since hv).imp_left fun hle => hle.trans hsince
  · left
    have hpage : (m.step b (.answerReconcile n)).page =
        (if b.answersAll n = true then [] else b.received) ++ [] := rfl
    rw [hpage, if_neg hall, List.append_nil]
    exact hv

theorem Arrivals.Inv.step_away (hi : BrowserInv b) (hexact : b.Exact) (h : m.Inv b)
    (hcaught : b.CaughtUp) (hs : browserStep b a = some b') {v : Int} (hv : v ∈ b'.received) :
    v ∈ (m.step b a).away ∨ v ≤ b'.sdk.configVersion := by
  rw [(Browser.carries hi hs).received] at hv
  by_cases hinit : ∃ i, a = .resumeInit i
  · obtain ⟨i, rfl⟩ := hinit
    exact Or.inl hv
  have hne : ∀ i, a ≠ .resumeInit i := fun i heq => hinit ⟨i, heq⟩
  have hle := (Browser.forward_of_ne hi hexact hs hne).version
  rw [Arrivals.step_away hne]
  rcases List.mem_append.mp hv with hv | hv
  · split
    · rename_i hlive
      exact Or.inr ((hcaught hlive.1 (Option.isNone_iff_eq_none.mp hlive.2) v hv).trans hle)
    · rcases h.away v hv with haway | hconfig
      · exact Or.inl (List.mem_append_left _ haway)
      · exact Or.inr (hconfig.trans hle)
  · exact Or.inl (List.mem_append_right _ hv)

theorem Arrivals.Inv.step_page (hi : BrowserInv b) (hexact : b.Exact) (h : m.Inv b)
    (hs : browserStep b a = some b') {r : Reconciling} {page : List FlagEvent}
    (hr : b'.reconciling = some r) (hpage : r.answer = some (.body page)) {v : Int}
    (hv : v ∈ b'.received) :
    v ∈ (m.step b a).page ∨ v ≤ b'.sdk.configVersion ∨ ∃ e ∈ page, v ≤ e.version := by
  have hcarries := Browser.carries hi hs
  rw [hcarries.received] at hv
  by_cases hinit : ∃ i, a = .resumeInit i
  · obtain ⟨i, rfl⟩ := hinit
    exact Or.inl hv
  have hne : ∀ i, a ≠ .resumeInit i := fun i heq => hinit ⟨i, heq⟩
  have hle := (Browser.forward_of_ne hi hexact hs hne).version
  by_cases hanswer : ∃ n, a = .answerReconcile n
  · obtain ⟨n, rfl⟩ := hanswer
    obtain ⟨r', hr', -, rfl⟩ := browserStep_answerReconcile hs
    obtain rfl := Option.some.inj hr
    obtain rfl : _ = page := by simpa using hpage
    exact h.answerReconcile hr' (by simpa [Browser.frames] using hv)
  have hnot : ∀ n, a ≠ .answerReconcile n := fun n heq => hanswer ⟨n, heq⟩
  rw [Arrivals.step_page hne hnot]
  rcases List.mem_append.mp hv with hv | hv
  · rcases h.page r page (hcarries.page hnot r page hr hpage) hpage v hv with hpage | hconfig | hevent
    · exact Or.inl (List.mem_append_left _ hpage)
    · exact Or.inr (Or.inl (hconfig.trans hle))
    · exact Or.inr (Or.inr hevent)
  · exact Or.inl (List.mem_append_right _ hv)

theorem Arrivals.Inv.step_init (hi : BrowserInv b) (h : m.Inv b)
    (hs : browserStep b a = some b') {s : Snapshot}
    (hsnapshot : b'.inits i = some (.answered (.body s))) {v : Int} (hv : v ∈ b'.received) :
    v ∈ (m.step b a).init i ∨ v ≤ s.version := by
  have hcarries := Browser.carries hi hs
  rw [hcarries.received] at hv
  by_cases hanswer : ∃ flags, a = .answerInit i flags
  · obtain ⟨flags, rfl⟩ := hanswer
    obtain rfl := browserStep_answerInit hs
    have heq : (⟨flags, b.log.version⟩ : Snapshot) = s := by simpa using hsnapshot
    rw [← heq]
    obtain ⟨e, he, hve⟩ := h.committed v (by simpa [Browser.frames] using hv)
    exact Or.inr (hve.trans (le_getLatestVersion he))
  have hne : ∀ flags, a ≠ .answerInit i flags := fun flags heq => hanswer ⟨flags, heq⟩
  rw [Arrivals.step_init hne]
  rcases List.mem_append.mp hv with hv | hv
  · rcases h.init i s (hcarries.init i hne s hsnapshot) v hv with hinit | hle
    · exact Or.inl (List.mem_append_left _ hinit)
    · exact Or.inr hle
  · exact Or.inl (List.mem_append_right _ hv)

/-- The account has frames only that were received. -/
theorem Arrivals.step_received (hi : BrowserInv b) (h : m.Inv b) (hs : browserStep b a = some b') :
    (∀ v ∈ (m.step b a).away, v ∈ b'.received) ∧ (∀ v ∈ (m.step b a).page, v ∈ b'.received) ∧
      ∀ i, ∀ v ∈ (m.step b a).init i, v ∈ b'.received := by
  rw [(Browser.carries hi hs).received]
  have hgrows : ∀ {l : List Int}, (∀ v ∈ l, v ∈ b.received) →
      ∀ v ∈ l ++ b.frames a, v ∈ b.received ++ b.frames a := by
    intro l hl v hv
    exact List.mem_append.mpr ((List.mem_append.mp hv).imp_left (hl v))
  refine ⟨hgrows ?_, hgrows ?_, fun i => hgrows ?_⟩
  · split
    · exact fun _ hv => hv
    · split
      · nofun
      · exact h.away_received
  · split
    · exact fun _ hv => hv
    · split
      · nofun
      · exact fun _ hv => hv
    · exact h.page_received
  · split
    · split
      · nofun
      · exact h.init_received i
    · exact h.init_received i

/-- **Every step keeps the account**, from a state that is caught up. -/
theorem Arrivals.Inv.step (hi : BrowserInv b) (hexact : b.Exact) (h : m.Inv b)
    (hcaught : b.CaughtUp) (hs : browserStep b a = some b') : (m.step b a).Inv b' := by
  have hcarries := Browser.carries hi hs
  obtain ⟨haway, hpage, hinit⟩ := Arrivals.step_received hi h hs
  refine ⟨fun v hv => ?_, fun v hv => h.step_away hi hexact hcaught hs hv,
    fun r page hr hp v hv => h.step_page hi hexact hs hr hp hv,
    fun i s hsnapshot v hv => h.step_init hi hs hsnapshot hv, haway, hpage, hinit⟩
  rw [hcarries.received] at hv
  obtain ⟨e, he, hve⟩ : ∃ e ∈ b.log.events, v ≤ e.version := by
    rcases List.mem_append.mp hv with hv | hv
    · exact h.committed v hv
    · exact Browser.frames_committed hexact hv
  exact ⟨e, hcarries.log e he, hve⟩

theorem arrivals_start {polls : Bool} : Arrivals.start.Inv (Browser.new polls) :=
  ⟨nofun, nofun, nofun, nofun, nofun, nofun, nofun⟩

end Arrivals

/-! ### The condition -/

section CaughtUp

variable {b b' : Browser} {m : Arrivals} {a : BrowserAction} {polls : Bool}
  {run : List BrowserAction}

theorem Browser.reconcile_running (b : Browser) : b.reconcile.reconciling ≠ none := by
  by_cases hidle : b.reconciling = none
  · simp [reconcile_of_idle hidle]
  · rwa [reconcile_of_running hidle]

theorem Browser.caughtUp_of_running (h : b.reconciling ≠ none) : b.CaughtUp :=
  fun _ hidle => absurd hidle h

theorem Browser.caughtUp_of_status (h : b.status ≠ .live) : b.CaughtUp :=
  fun hlive => absurd hlive h

/-- A page of the log leads up to its last version, if that is above the client's. -/
theorem Browser.Exact.le_applyPage_iff (h : b.Exact) {page : List FlagEvent}
    (hpage : ∀ e ∈ page, e ∈ b.log.events) {v : Int} :
    v ≤ (b.sdk.applyPage page).1.configVersion ↔
      v ≤ b.sdk.configVersion ∨ ∃ e ∈ page, v ≤ e.version := by
  rw [FeatureFlagClient.le_applyPage_iff]
  refine or_congr_right (exists_congr fun e => and_congr_right fun he => ?_)
  rw [jsNumber_of_exact (h.log e (hpage e he))]

theorem Reconciling.restored_eq_live {r : Reconciling} :
    r.restored = .live ↔ r.prevStatus = .live := by
  unfold restored
  split
  · rename_i h
    simp [h]
  · rfl

/-- A frame. -/
theorem Browser.caughtUp_message {es : SourceId} {n : Nat} (hi : BrowserInv b) (hexact : b.Exact)
    (hm : m.Inv b) (h : b.CaughtUp) (hs : browserStep b (.message es n) = some b') :
    b'.CaughtUp ↔ b.Remembers m (.message es n) := by
  obtain ⟨e, b₁, he, -, rfl, hb'⟩ := browserStep_message hi.positive hs
  have hnumber := jsNumber_of_exact (hexact.log e (List.mem_of_getElem? he))
  have hremembers : b.Remembers m (.message es n) ↔ (b.sdk.Expects e.version →
      b.status ≠ .live → b.reconciling = none → ∀ v ∈ m.away, v ≤ e.version) := by
    constructor
    · exact fun hall => hall e he
    · intro hall e' he'
      obtain rfl : e = e' := Option.some.inj (he.symm.trans he')
      exact hall
  rw [hremembers]
  rw [hnumber] at hb'
  -- the frame is stale, or it comes after a gap, or it is the next one
  obtain ⟨hstale, rfl⟩ | ⟨-, hgap, rfl⟩ | ⟨hnext, sdk, hsdk, -, rfl⟩ := hb'
  · refine iff_of_true (fun hlive hidle x hx => ?_) fun hnext => ?_
    · rcases List.mem_append.mp hx with hx | hx
      · exact h hlive hidle x hx
      · rw [List.mem_singleton.mp hx]
        exact hstale
    · exact absurd hstale (not_le.mpr hnext.1)
  · refine iff_of_true (Browser.caughtUp_of_running (Browser.reconcile_running _)) fun hnext => ?_
    exact absurd hgap (not_lt.mpr hnext.2)
  · have hnew : b.sdk.configVersion ≤ e.version := hnext.1.le
    constructor
    · intro h' _ _ hidle v hv
      rw [← hsdk]
      exact h' rfl hidle v (List.mem_append_left _ (hm.away_received v hv))
    · intro hall _ hidle x hx
      show x ≤ sdk.configVersion
      rw [hsdk]
      rcases List.mem_append.mp hx with hx | hx
      · by_cases hlive : b.status = .live
        · exact (h hlive hidle x hx).trans hnew
        · rcases hm.away x hx with haway | hconfig
          · exact hall hnext hlive hidle x haway
          · exact hconfig.trans hnew
      · rw [List.mem_singleton.mp hx]

/-- An answer to `reconcile`. -/
theorem Browser.caughtUp_resumeReconcile (hexact : b.Exact) (hm : m.Inv b)
    (hs : browserStep b .resumeReconcile = some b') :
    b'.CaughtUp ↔ b.Remembers m .resumeReconcile := by
  obtain ⟨r, answer, hr, hanswer, rfl⟩ := browserStep_resumeReconcile hs
  have hremembers : b.Remembers m .resumeReconcile ↔
      (r.answer = some .notOk → r.prevStatus = .live →
        ∀ v ∈ m.away, v ≤ b.sdk.configVersion) ∧
      ∀ page, r.answer = some (.body page) → b.LastPage r page →
        ∀ v ∈ m.page, v ≤ b.sdk.configVersion ∨ ∃ e ∈ page, v ≤ e.version := by
    constructor
    · exact fun hall => hall r hr
    · intro hall r' hr'
      obtain rfl : r = r' := Option.some.inj (hr.symm.trans hr')
      exact hall
  rw [hremembers]
  cases answer with
  | notOk =>
      constructor
      · intro h
        refine ⟨fun _ hlive v hv => ?_, fun page hpage => ?_⟩
        · exact h (Reconciling.restored_eq_live.mpr hlive) rfl v (hm.away_received v hv)
        · cases hanswer.symm.trans hpage
      · intro h hlive _ v hv
        rcases hm.away v hv with haway | hconfig
        · exact h.1 hanswer (Reconciling.restored_eq_live.mp hlive) v haway
        · exact hconfig
  | rejected =>
      refine iff_of_true (Browser.caughtUp_of_status (by simp [resumeReconcile, reconciled])) ?_
      refine ⟨fun hnot => ?_, fun page hpage => ?_⟩
      · cases hanswer.symm.trans hnot
      · cases hanswer.symm.trans hpage
  | body page =>
      have hreach := fun v => hexact.le_applyPage_iff (hexact.page r page hr hanswer) (v := v)
      -- the last page ends the loop in `live`; any other asks for the next
      obtain ⟨hlast, heq⟩ | ⟨hmore, heq⟩ := b.resumeReconcile_page r page
      · rw [heq]
        constructor
        · intro h
          refine ⟨fun hnot => ?_, fun page' hpage' _ v hv => ?_⟩
          · cases hanswer.symm.trans hnot
          · obtain rfl : page = page' := by simpa using hanswer.symm.trans hpage'
            exact (hreach v).mp (h rfl rfl v (hm.page_received v hv))
        · intro h _ _ v hv
          refine (hreach v).mpr ?_
          rcases hm.page r page hr hanswer v hv with hpage | hold
          · exact h.2 page hanswer hlast v hpage
          · exact hold
      · rw [heq]
        refine iff_of_true (Browser.caughtUp_of_running (by simp)) ⟨fun hnot => ?_, ?_⟩
        · cases hanswer.symm.trans hnot
        · intro page' hpage' hlast
          obtain rfl : page = page' := by simpa using hanswer.symm.trans hpage'
          exact absurd hlast hmore

/-- A snapshot, or an `init` that throws. -/
theorem Browser.caughtUp_resumeInit {i : InitId} (hexact : b.Exact) (hm : m.Inv b)
    (h : b.CaughtUp) (hs : browserStep b (.resumeInit i) = some b') :
    b'.CaughtUp ↔ b.Remembers m (.resumeInit i) := by
  obtain ⟨s, hsnapshot, rfl⟩ | ⟨hnone, rfl⟩ := browserStep_resumeInit hs
  · have hversion : (b.sdk.bootstrap s.body).1.configVersion = s.version := by
      rw [FeatureFlagClient.bootstrap_snapshot,
        jsNumber_of_exact ((hexact.snapshot i s hsnapshot).exactInt hexact.log)]
    constructor
    · intro h' s' hs' hlive hidle v hv
      obtain rfl : s = s' := by simpa using hsnapshot.symm.trans hs'
      rw [← hversion]
      exact h' hlive hidle v (hm.init_received i v hv)
    · intro hall hlive hidle v hv
      show v ≤ (b.sdk.bootstrap s.body).1.configVersion
      rw [hversion]
      rcases hm.init i s hsnapshot v hv with hinit | hle
      · exact hall s hsnapshot hlive hidle v hinit
      · exact hle
  · exact iff_of_true h fun s hs => absurd hs (hnone s)

theorem Browser.caughtUp_iff (hi : BrowserInv b) (hexact : b.Exact) (hm : m.Inv b) (h : b.CaughtUp)
    (hs : browserStep b a = some b') : b'.CaughtUp ↔ b.Remembers m a := by
  cases a with
  | append e =>
      obtain ⟨log, -, -, rfl⟩ := browserStep_append hs
      exact iff_of_true h trivial
  | init i =>
      obtain rfl := browserStep_init hs
      exact iff_of_true (Browser.caughtUp_of_status (by simp)) trivial
  | disconnect | reconnect | destroy =>
      obtain rfl := Option.some.inj hs
      exact iff_of_true (Browser.caughtUp_of_status (by simp [connectSSE, closeStream])) trivial
  | reconcile =>
      obtain rfl := Option.some.inj hs
      exact iff_of_true (Browser.caughtUp_of_running (Browser.reconcile_running _)) trivial
  | answerInit i flags =>
      obtain rfl := browserStep_answerInit hs
      exact iff_of_true h trivial
  | failInit i ok =>
      obtain rfl := browserStep_failInit hs
      exact iff_of_true h trivial
  | resumeInit i => exact Browser.caughtUp_resumeInit hexact hm h hs
  | continueInit i =>
      obtain rfl := browserStep_continueInit hs
      refine iff_of_true ?_ trivial
      split
      · exact h
      · exact h
  | answerReconcile n =>
      obtain ⟨r, -, -, rfl⟩ := browserStep_answerReconcile hs
      exact iff_of_true (Browser.caughtUp_of_running (by simp)) trivial
  | failReconcile ok =>
      obtain ⟨r, -, rfl⟩ := browserStep_failReconcile hs
      exact iff_of_true (Browser.caughtUp_of_running (by simp)) trivial
  | resumeReconcile => exact Browser.caughtUp_resumeReconcile hexact hm hs
  | opened es =>
      obtain ⟨-, rfl⟩ := browserStep_opened hs
      exact iff_of_true (Browser.caughtUp_of_running (Browser.reconcile_running _)) trivial
  | error es fatal =>
      obtain ⟨-, state, rfl⟩ := browserStep_error hs
      unfold Browser.onError
      refine iff_of_true ?_ trivial
      split
      · exact h
      · exact Browser.caughtUp_of_status (by simp)
  | message es n => exact Browser.caughtUp_message hi hexact hm h hs
  | tick t =>
      obtain ⟨-, rfl⟩ := browserStep_tick hs
      exact iff_of_true (Browser.caughtUp_of_running (Browser.reconcile_running _)) trivial

/-! ### Runs -/

/-- What a run keeps as long as it is caught up. -/
structure Browser.Accounted (s : Browser × Arrivals) : Prop where
  caughtUp : s.1.CaughtUp
  arrivals : s.2.Inv s.1

theorem arrivalsStep_eq_some {s s' : Browser × Arrivals} (hs : arrivalsStep s a = some s') :
    browserStep s.1 a = some s'.1 ∧ s'.2 = s.2.step s.1 a := by
  obtain ⟨b', hb', rfl⟩ := Option.map_eq_some_iff.mp hs
  exact ⟨hb', rfl⟩

/-- The account does not change what the client does. -/
theorem arrivalsStep_fst (s : Browser × Arrivals) (a : BrowserAction) :
    (arrivalsStep s a).map Prod.fst = browserStep s.1 a := by
  rw [arrivalsStep, Option.map_map]
  exact congrFun Option.map_id _

/-- **A live client has caught up with what it has seen, exactly as long as no gap is forgotten.** -/
theorem browser_caughtUp (hrun : ∀ a ∈ run, a.Exact) :
    (∀ tr ∈ transitions browserStep (Browser.new polls) run, tr.post.CaughtUp) ↔
      ∀ tr ∈ transitions arrivalsStep (Browser.new polls, Arrivals.start) run,
        tr.pre.1.Remembers tr.pre.2 tr.act := by
  rw [transitions_map (f := Prod.fst) arrivalsStep_fst (Browser.new polls, Arrivals.start) run,
    List.forall_mem_map]
  exact transitions_iff_of (A := BrowserAction.Exact) (I := fun s => BrowserInv s.1 ∧ s.1.Exact)
    (P := Browser.Accounted) (Q := fun _ _ s' => s'.1.CaughtUp)
    (C := fun s a => s.1.Remembers s.2 a)
    (fun hi ha hs => by
      obtain ⟨hb, -⟩ := arrivalsStep_eq_some hs
      exact ⟨hi.1.step hb, hi.2.step hi.1 ha hb⟩)
    (fun hi h hs => by
      obtain ⟨hb, -⟩ := arrivalsStep_eq_some hs
      exact Browser.caughtUp_iff hi.1 hi.2 h.arrivals h.caughtUp hb)
    (fun hi h hs hC => by
      obtain ⟨hb, hm⟩ := arrivalsStep_eq_some hs
      refine ⟨(Browser.caughtUp_iff hi.1 hi.2 h.arrivals h.caughtUp hb).mpr hC, ?_⟩
      rw [hm]
      exact h.arrivals.step hi.1 hi.2 h.caughtUp hb)
    hrun ⟨browserInv_new, exact_new⟩
    ⟨Browser.caughtUp_of_status (by simp [Browser.new]), arrivals_start⟩

/-- The server answers the last page of the first `reconcile`; two events are committed, and the
frame of the second arrives before that page does. -/
def forgottenGap (e₁ e₂ : FlagEvent) : List BrowserAction :=
  [ .init 0, .answerInit 0 [], .resumeInit 0, .continueInit 0, .opened 0, .answerReconcile 0,
    .append e₁, .append e₂, .message 0 1, .resumeReconcile ]

theorem browser_caughtUp_forgottenGap :
    (∀ tr ∈ transitions browserStep (Browser.new false)
        (forgottenGap ⟨1, .deleted, "checkout", .null, 0⟩ ⟨2, .deleted, "checkout", .null, 0⟩),
      tr.post.CaughtUp) ↔
      ∀ tr ∈ transitions arrivalsStep (Browser.new false, Arrivals.start)
        (forgottenGap ⟨1, .deleted, "checkout", .null, 0⟩ ⟨2, .deleted, "checkout", .null, 0⟩),
        tr.pre.1.Remembers tr.pre.2 tr.act :=
  browser_caughtUp (by simp [forgottenGap, BrowserAction.Exact, ExactInt])

theorem forgottenGap_behind :
    ∃ b, exec browserStep (Browser.new false) (forgottenGap ⟨1, .deleted, "checkout", .null, 0⟩
        ⟨2, .deleted, "checkout", .null, 0⟩) = some b ∧
      b.status = .live ∧ b.reconciling = none ∧ ¬ b.CaughtUp := by
  refine ⟨_, rfl, rfl, rfl, fun h => ?_⟩
  have hseen := h rfl rfl 2 (List.mem_singleton_self 2)
  revert hseen
  decide

end CaughtUp

end FlagPlane
