import FlagPlane.Client.Browser

/-!
# FlagPlane.Client.Version

**The version of a browser client does not go back, and exactly when.** As long as the server's
versions are numbers, everything the client and its calls hold is a version of the log
(`Browser.Exact`). Live frames and `reconcile` compare before they write; `bootstrap` does not, so
the condition is on which of its answers still come.
-/

namespace FlagPlane

/-! ### Versions that are numbers -/

/-- The server commits no version that a number does not hold. -/
def BrowserAction.Exact : BrowserAction → Prop
  | append e => ExactInt e.version
  | _ => True

/-- A version that the log has had. -/
def EventLog.Reaches (log : EventLog) (v : Int) : Prop :=
  v = 0 ∨ ∃ e ∈ log.events, e.version = v

/-- Every version that the client or one of its calls holds is the log's, and a number. -/
structure Browser.Exact (b : Browser) : Prop where
  log : ∀ e ∈ b.log.events, ExactInt e.version
  config : b.log.Reaches b.sdk.configVersion
  snapshot : ∀ i s, b.inits i = some (.answered (.body s)) → b.log.Reaches s.version
  page : ∀ r page, b.reconciling = some r → r.answer = some (.body page) →
    ∀ e ∈ page, e ∈ b.log.events

section Exact

variable {b b' : Browser} {a : BrowserAction} {e : FlagEvent} {log : EventLog} {v : Int}

theorem EventLog.reaches_version (log : EventLog) : log.Reaches log.version := by
  by_cases hnil : log.events = []
  · exact Or.inl (by rw [EventLog.version, hnil]; rfl)
  · exact Or.inr (getLatestVersion_mem hnil)

theorem EventLog.Reaches.exactInt (h : log.Reaches v) (hlog : ∀ e ∈ log.events, ExactInt e.version) :
    ExactInt v := by
  obtain rfl | ⟨e, he, rfl⟩ := h
  · decide
  · exact hlog e he

theorem FeatureFlagClient.applyPage_version (c : FeatureFlagClient) (page : List FlagEvent) :
    (c.applyPage page).1.configVersion = c.configVersion ∨
      ∃ e ∈ page, (c.applyPage page).1.configVersion = jsNumber e.version := by
  suffices H : ∀ s : FeatureFlagClient × Bool,
      (page.foldl applyNext s).1.configVersion = s.1.configVersion ∨
        ∃ e ∈ page, (page.foldl applyNext s).1.configVersion = jsNumber e.version from H (c, false)
  induction page with
  | nil => exact fun s => Or.inl rfl
  | cons e page ih =>
      intro s
      rw [List.foldl_cons, List.exists_mem_cons_iff]
      rcases ih (applyNext s e) with hsame | hlater
      · rw [hsame, applyNext]
        split
        · exact Or.inl rfl
        · exact Or.inr (Or.inl rfl)
      · exact Or.inr (Or.inr hlater)

/-- A page of the log leads to a version of the log. -/
theorem Browser.Exact.applyPage (h : b.Exact) {page : List FlagEvent}
    (hpage : ∀ e ∈ page, e ∈ b.log.events) :
    b.log.Reaches (b.sdk.applyPage page).1.configVersion := by
  rcases b.sdk.applyPage_version page with hsame | ⟨e, he, heq⟩
  · rw [hsame]
    exact h.config
  · rw [heq, jsNumber_of_exact (h.log e (hpage e he))]
    exact Or.inr ⟨e, hpage e he, rfl⟩

/-- A step that asks for no page and brings no answer, and moves the client within the log. -/
theorem Browser.Exact.frame (h : b.Exact) (hlog : b'.log = b.log)
    (hconfig : b.log.Reaches b'.sdk.configVersion)
    (hinits : ∀ i s, b'.inits i = some (.answered (.body s)) → b.log.Reaches s.version)
    (hpage : ∀ r page, b'.reconciling = some r → r.answer = some (.body page) →
      ∀ e ∈ page, e ∈ b.log.events) : b'.Exact := by
  refine ⟨?_, ?_, ?_, ?_⟩
  · rw [hlog]
    exact h.log
  · rw [hlog]
    exact hconfig
  · rw [hlog]
    exact hinits
  · rw [hlog]
    exact hpage

theorem Browser.Exact.reconcile (h : b.Exact) : b.reconcile.Exact := by
  by_cases hidle : b.reconciling = none
  · rw [Browser.reconcile_of_idle hidle]
    refine h.frame rfl h.config h.snapshot fun r page hr hpage => ?_
    obtain rfl := Option.some.inj hr
    cases hpage
  · rw [Browser.reconcile_of_running hidle]
    exact h

/-- A call of `init` is at another stage. -/
theorem Browser.Exact.update (h : b.Exact) {i : InitId} {stage : InitStage}
    (hstage : ∀ s, stage = .answered (.body s) → b.log.Reaches s.version) (j : InitId)
    (s : Snapshot) (hj : Function.update b.inits i (some stage) j = some (.answered (.body s))) :
    b.log.Reaches s.version := by
  by_cases heq : j = i
  · subst heq
    rw [Function.update_self] at hj
    exact hstage s (Option.some.inj hj)
  · rw [Function.update_of_ne heq] at hj
    exact h.snapshot j s hj

/-- The log grows by an exact version. -/
theorem Browser.Exact.append (h : b.Exact) (hlog : log.events = b.log.events ++ [e])
    (he : ExactInt e.version) : Browser.Exact { b with log := log } := by
  have hmono : ∀ v, b.log.Reaches v → log.Reaches v := by
    rintro v (hzero | ⟨x, hx, hv⟩)
    · exact Or.inl hzero
    · exact Or.inr ⟨x, hlog ▸ List.mem_append_left _ hx, hv⟩
  refine ⟨fun x hx => ?_, hmono _ h.config, fun i s hs => hmono _ (h.snapshot i s hs),
    fun r page hr hpage x hx => ?_⟩
  · rcases List.mem_append.mp (hlog ▸ hx) with hx | hx
    · exact h.log x hx
    · rw [List.mem_singleton.mp hx]
      exact he
  · exact hlog ▸ List.mem_append_left _ (h.page r page hr hpage x hx)

/-- An answer to `reconcile`. -/
theorem Browser.Exact.resumeReconcile (h : b.Exact) {r : Reconciling}
    {answer : Answer (List FlagEvent)} (hr : b.reconciling = some r)
    (hanswer : r.answer = some answer) : (b.resumeReconcile r answer).Exact := by
  cases answer with
  | notOk | rejected => exact h.frame rfl h.config h.snapshot nofun
  | body page =>
      have hconfig := h.applyPage (h.page r page hr hanswer)
      obtain ⟨-, heq⟩ | ⟨-, heq⟩ := b.resumeReconcile_page r page
      · rw [heq]
        exact h.frame rfl hconfig h.snapshot nofun
      · rw [heq]
        refine h.frame rfl hconfig h.snapshot fun r' page' hr' hpage' => ?_
        obtain rfl := Option.some.inj hr'
        cases hpage'

/-- A frame. -/
theorem Browser.Exact.message (hi : BrowserInv b) (h : b.Exact) {es : SourceId} {n : Nat}
    (hs : browserStep b (.message es n) = some b') : b'.Exact := by
  obtain ⟨e, b₁, he, -, rfl, hb'⟩ := browserStep_message hi.positive hs
  have hmem : e ∈ b.log.events := List.mem_of_getElem? he
  have h₁ : Browser.Exact { b with
      sources := Function.update b.sources es { b.sources es with lastEventId := some e.version }
      received := b.received ++ [jsNumber e.version] } :=
    h.frame rfl h.config h.snapshot h.page
  obtain ⟨-, rfl⟩ | ⟨-, -, rfl⟩ | ⟨-, sdk, hsdk, -, rfl⟩ := hb'
  · exact h₁
  · exact h₁.reconcile
  · refine h.frame rfl ?_ h.snapshot h.page
    show b.log.Reaches sdk.configVersion
    rw [hsdk, jsNumber_of_exact (h.log e hmem)]
    exact Or.inr ⟨e, hmem, rfl⟩

/-- **Versions stay numbers**, as long as the server's are. -/
theorem Browser.Exact.step (hi : BrowserInv b) (h : b.Exact) (ha : a.Exact)
    (hs : browserStep b a = some b') : b'.Exact := by
  cases a with
  | append e =>
      obtain ⟨log, hlog, -, rfl⟩ := browserStep_append hs
      exact h.append hlog ha
  | init i =>
      obtain rfl := browserStep_init hs
      exact h.frame rfl h.config (h.update nofun) h.page
  | disconnect | reconnect | destroy =>
      obtain rfl := Option.some.inj hs
      exact h.frame rfl h.config h.snapshot h.page
  | reconcile =>
      obtain rfl := Option.some.inj hs
      exact h.reconcile
  | answerInit i flags =>
      obtain rfl := browserStep_answerInit hs
      refine h.frame rfl h.config (h.update fun s hs => ?_) h.page
      obtain rfl : _ = s := by simpa using hs
      exact b.log.reaches_version
  | failInit i ok =>
      obtain rfl := browserStep_failInit hs
      refine h.frame rfl h.config (h.update fun s hs => ?_) h.page
      cases ok <;> simp at hs
  | resumeInit i =>
      obtain ⟨s, hsnapshot, rfl⟩ | ⟨-, rfl⟩ := browserStep_resumeInit hs
      · have hreaches := h.snapshot i s hsnapshot
        refine h.frame rfl ?_ (h.update nofun) h.page
        show b.log.Reaches (b.sdk.bootstrap s.body).1.configVersion
        rwa [FeatureFlagClient.bootstrap_snapshot, jsNumber_of_exact (hreaches.exactInt h.log)]
      · exact h.frame rfl h.config (h.update nofun) h.page
  | continueInit i =>
      obtain rfl := browserStep_continueInit hs
      split
      · exact h.frame rfl h.config (h.update nofun) h.page
      · exact h.frame rfl h.config (h.update nofun) h.page
  | answerReconcile n =>
      obtain ⟨r, -, -, rfl⟩ := browserStep_answerReconcile hs
      refine h.frame rfl h.config h.snapshot fun r' page hr' hpage x hx => ?_
      obtain rfl := Option.some.inj hr'
      obtain rfl : _ = page := by simpa using hpage
      exact List.mem_of_mem_filter (List.mem_of_mem_take hx)
  | failReconcile ok =>
      obtain ⟨r, -, rfl⟩ := browserStep_failReconcile hs
      refine h.frame rfl h.config h.snapshot fun r' page hr' hpage => ?_
      obtain rfl := Option.some.inj hr'
      cases ok <;> simp at hpage
  | resumeReconcile =>
      obtain ⟨r, answer, hr, hanswer, rfl⟩ := browserStep_resumeReconcile hs
      exact h.resumeReconcile hr hanswer
  | opened es =>
      obtain ⟨-, rfl⟩ := browserStep_opened hs
      have hopened : (b.setReadyState es .open).Exact := h.frame rfl h.config h.snapshot h.page
      exact hopened.reconcile
  | error es fatal =>
      obtain ⟨-, state, rfl⟩ := browserStep_error hs
      unfold Browser.onError
      split
      · exact h.frame rfl h.config h.snapshot h.page
      · exact h.frame rfl h.config h.snapshot h.page
  | message es n => exact Browser.Exact.message hi h hs
  | tick t =>
      obtain ⟨-, rfl⟩ := browserStep_tick hs
      exact h.reconcile

theorem exact_new {polls : Bool} : (Browser.new polls).Exact :=
  ⟨nofun, Or.inl rfl, nofun, nofun⟩

end Exact

/-! ### The version -/

/-- What the flags of a client can become: what a later event or a page of the log makes of them, or
a snapshot that is not older than they are. -/
inductive Browser.LaterFlags (b : Browser) : (String → Option Json) → Prop
  | same : LaterFlags b b.sdk.flags
  | frame {e : FlagEvent} (he : e ∈ b.log.events) (hlater : b.sdk.configVersion < e.version) :
      LaterFlags b (b.sdk.onMessage e.frame.1 (some e.version) e.frame.2).1.flags
  | page {r : Reconciling} {page : List FlagEvent} (hr : b.reconciling = some r)
      (hpage : r.answer = some (.body page)) : LaterFlags b (b.sdk.applyPage page).1.flags
  | snapshot {i : InitId} {s : Snapshot} (hs : b.inits i = some (.answered (.body s)))
      (hlater : b.sdk.configVersion ≤ s.version) : LaterFlags b (b.sdk.bootstrap s.body).1.flags

/-- The version does not go back, and no snapshot replaces flags that are newer than it is. -/
structure Browser.Forward (b b' : Browser) : Prop where
  version : b.sdk.configVersion ≤ b'.sdk.configVersion
  flags : b.LaterFlags b'.sdk.flags

/-- The answer that a `bootstrap` goes on with is not late: of the events that were committed after
the server read it, the client has none. -/
def Browser.InOrder (b : Browser) : BrowserAction → Prop
  | .resumeInit i => ∀ s, b.inits i = some (.answered (.body s)) →
      ∀ e ∈ b.log.events, s.version < e.version → b.sdk.configVersion < e.version
  | _ => True

section Version

variable {b b' : Browser} {a : BrowserAction} {polls : Bool} {run : List BrowserAction}

theorem Browser.forward_of_sdk (h : b'.sdk = b.sdk) : b.Forward b' := by
  refine ⟨?_, ?_⟩
  · rw [h]
  · rw [h]
    exact .same

theorem Browser.reconcile_sdk (b : Browser) : b.reconcile.sdk = b.sdk := by
  obtain ⟨status, r, heq⟩ := b.reconcile_frame
  rw [heq]

/-- An answer to `reconcile`. -/
theorem Browser.forward_resumeReconcile {r : Reconciling} {answer : Answer (List FlagEvent)}
    (hr : b.reconciling = some r) (hanswer : r.answer = some answer) :
    b.Forward (b.resumeReconcile r answer) := by
  cases answer with
  | notOk | rejected => exact Browser.forward_of_sdk rfl
  | body page =>
      obtain ⟨-, heq⟩ | ⟨-, heq⟩ := b.resumeReconcile_page r page
      · rw [heq]
        exact ⟨b.sdk.applyPage_le page, .page hr hanswer⟩
      · rw [heq]
        exact ⟨b.sdk.applyPage_le page, .page hr hanswer⟩

/-- A frame. -/
theorem Browser.forward_message (hi : BrowserInv b) (h : b.Exact) {es : SourceId} {n : Nat}
    (hs : browserStep b (.message es n) = some b') : b.Forward b' := by
  obtain ⟨e, b₁, he, -, rfl, hb'⟩ := browserStep_message hi.positive hs
  have hmem : e ∈ b.log.events := List.mem_of_getElem? he
  obtain ⟨-, rfl⟩ | ⟨-, -, rfl⟩ | ⟨hexpects, sdk, hsdk, heq, rfl⟩ := hb'
  · exact Browser.forward_of_sdk rfl
  · exact Browser.forward_of_sdk (Browser.reconcile_sdk _)
  · have hlater := hexpects.1
    refine ⟨?_, ?_⟩
    · show b.sdk.configVersion ≤ sdk.configVersion
      rw [hsdk]
      exact hlater.le
    · show b.LaterFlags sdk.flags
      rw [heq]
      rw [jsNumber_of_exact (h.log e hmem)] at hlater
      exact .frame hmem hlater

/-- Only `bootstrap` writes without a look at the version. -/
theorem Browser.forward_of_ne (hi : BrowserInv b) (h : b.Exact) (hs : browserStep b a = some b')
    (hinit : ∀ i, a ≠ .resumeInit i) : b.Forward b' := by
  cases a with
  | append e =>
      obtain ⟨log, -, -, rfl⟩ := browserStep_append hs
      exact Browser.forward_of_sdk rfl
  | init i =>
      obtain rfl := browserStep_init hs
      exact Browser.forward_of_sdk rfl
  | disconnect | reconnect | destroy =>
      obtain rfl := Option.some.inj hs
      exact Browser.forward_of_sdk rfl
  | reconcile =>
      obtain rfl := Option.some.inj hs
      exact Browser.forward_of_sdk b.reconcile_sdk
  | answerInit i flags =>
      obtain rfl := browserStep_answerInit hs
      exact Browser.forward_of_sdk rfl
  | failInit i ok =>
      obtain rfl := browserStep_failInit hs
      exact Browser.forward_of_sdk rfl
  | resumeInit i => exact absurd rfl (hinit i)
  | continueInit i =>
      obtain rfl := browserStep_continueInit hs
      split
      · exact Browser.forward_of_sdk rfl
      · exact Browser.forward_of_sdk rfl
  | answerReconcile n =>
      obtain ⟨r, -, -, rfl⟩ := browserStep_answerReconcile hs
      exact Browser.forward_of_sdk rfl
  | failReconcile ok =>
      obtain ⟨r, -, rfl⟩ := browserStep_failReconcile hs
      exact Browser.forward_of_sdk rfl
  | resumeReconcile =>
      obtain ⟨r, answer, hr, hanswer, rfl⟩ := browserStep_resumeReconcile hs
      exact Browser.forward_resumeReconcile hr hanswer
  | opened es =>
      obtain ⟨-, rfl⟩ := browserStep_opened hs
      exact Browser.forward_of_sdk (Browser.reconcile_sdk _)
  | error es fatal =>
      obtain ⟨-, state, rfl⟩ := browserStep_error hs
      unfold Browser.onError
      split
      · exact Browser.forward_of_sdk rfl
      · exact Browser.forward_of_sdk rfl
  | message es n => exact Browser.forward_message hi h hs
  | tick t =>
      obtain ⟨-, rfl⟩ := browserStep_tick hs
      exact Browser.forward_of_sdk b.reconcile_sdk

end Version

end FlagPlane
