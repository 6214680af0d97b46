import FlagPlane.Client.Browser

/-!
# FlagPlane.Client.Lifecycle

**What a browser client holds over its life, and exactly when it should.** It owns at most one stream
and one interval, and its status is true of its stream. Each fails on some run, and for each there
is the condition on a step under which, from a state that is in order, the step leaves one in
order. `transitions_iff` makes of that an exact condition on runs.
-/

namespace FlagPlane

/-! ### Streams and intervals -/

/-- At most one stream is not closed and at most one interval not cleared; after `destroy`, none. -/
structure Browser.OwnsAtMostOne (b : Browser) : Prop where
  stream : ∀ es es', (b.sources es).readyState ≠ .closed → (b.sources es').readyState ≠ .closed →
    es = es'
  interval : ∀ t t', b.timers t = true → b.timers t' = true → t = t'
  released : b.destroyed = true →
    (∀ es, (b.sources es).readyState = .closed) ∧ ∀ t, b.timers t = false

/-- An `init` that goes on finds the client not destroyed, and no interval where it sets one. -/
def Browser.MayAcquire (b : Browser) : BrowserAction → Prop
  | .continueInit _ => b.destroyed = false ∧ (b.polls = true → ∀ t, b.timers t = false)
  | _ => True

/-- What carries the bound on intervals along: one that is not cleared is the one `destroy` will
clear. -/
structure Browser.Tracked (b : Browser) : Prop where
  owns : b.OwnsAtMostOne
  refreshTimer : ∀ t, b.timers t = true → b.refreshTimer = some t

section Resources

variable {b b' : Browser} {a : BrowserAction} {polls : Bool} {run : List BrowserAction}

theorem BrowserInv.stream (hi : BrowserInv b) {es es' : SourceId}
    (hopen : (b.sources es).readyState ≠ .closed) (hopen' : (b.sources es').readyState ≠ .closed) :
    es = es' :=
  Option.some.inj ((hi.held es hopen).symm.trans (hi.held es' hopen'))

theorem Browser.tracked_of (hi : BrowserInv b)
    (htimers : ∀ t, b.timers t = true → b.refreshTimer = some t)
    (hreleased : b.destroyed = true →
      (∀ es, (b.sources es).readyState = .closed) ∧ ∀ t, b.timers t = false) : b.Tracked :=
  ⟨⟨fun _ _ => hi.stream,
    fun t t' ht ht' => Option.some.inj ((htimers t ht).symm.trans (htimers t' ht')),
    hreleased⟩, htimers⟩

/-- A step that leaves the intervals alone, and the streams too if the client is destroyed. -/
theorem Browser.Tracked.frame (h : b.Tracked) (hi' : BrowserInv b') (htimers : b'.timers = b.timers)
    (hrefresh : b'.refreshTimer = b.refreshTimer)
    (hreleased : b'.destroyed = true → b.destroyed = true ∧
      ((∀ es, (b.sources es).readyState = .closed) → ∀ es, (b'.sources es).readyState = .closed)) :
    b'.Tracked := by
  refine Browser.tracked_of hi' ?_ fun hdestroyed => ?_
  · rw [htimers, hrefresh]
    exact h.refreshTimer
  · obtain ⟨hwas, hclosed⟩ := hreleased hdestroyed
    obtain ⟨hstreams, hintervals⟩ := h.owns.released hwas
    rw [htimers]
    exact ⟨hclosed hstreams, hintervals⟩

/-- A call of `reconcile`. -/
theorem Browser.Tracked.reconcile (h : b.Tracked) (hi' : BrowserInv b.reconcile) :
    b.reconcile.Tracked := by
  obtain ⟨status, r, heq⟩ := b.reconcile_frame
  rw [heq] at hi' ⊢
  exact h.frame hi' rfl rfl fun hd => ⟨hd, id⟩

/-- `destroy` clears the interval in `refreshTimer`, which is the one that is not cleared yet. -/
theorem Browser.Tracked.destroy (hi : BrowserInv b) (h : b.Tracked)
    (hs : browserStep b .destroy = some b') : b'.Tracked := by
  have hi' := hi.step hs
  obtain rfl := Option.some.inj hs
  have hnone : ∀ t, b.clearInterval.timers t = false := by
    intro t
    by_contra ht
    obtain ⟨hactive, hne⟩ := Browser.clearInterval_timers (Bool.eq_true_of_not_eq_false ht)
    exact hne (h.refreshTimer t hactive)
  refine Browser.tracked_of hi' (fun t ht => ?_) fun _ =>
    ⟨Browser.closeStream_closed hi.held, hnone⟩
  exact absurd ((hnone t).symm.trans ht) (by simp)

/-- An `init` sets an interval where there is none. -/
theorem Browser.Tracked.continueInit {i : InitId} (hi : BrowserInv b) (h : b.Tracked)
    (hs : browserStep b (.continueInit i) = some b') (ha : b.MayAcquire (.continueInit i)) :
    b'.Tracked := by
  have hi' := hi.step hs
  obtain ⟨hnot, hfree⟩ := ha
  have heq := browserStep_continueInit hs
  split at heq
  · rename_i hpolls
    subst heq
    refine Browser.tracked_of hi' (fun t ht => ?_) fun hd => ?_
    · rw [Browser.setInterval_timers] at ht
      split at ht
      · rename_i heq
        rw [heq]
        rfl
      · exact absurd ((hfree hpolls t).symm.trans ht) (by simp)
    · exact absurd (hnot.symm.trans hd) (by simp)
  · subst heq
    exact h.frame hi' rfl rfl fun hd => absurd (hnot.symm.trans hd) (by simp)

/-- A frame comes from an open stream, so the client is not destroyed. -/
theorem Browser.Tracked.message {es : SourceId} {n : Nat} (hi : BrowserInv b) (h : b.Tracked)
    (hs : browserStep b (.message es n) = some b') : b'.Tracked := by
  have hi' := hi.step hs
  obtain ⟨e, b₁, -, hopen, rfl, hb'⟩ := browserStep_message hi.positive hs
  have hall : (∀ es, (b.sources es).readyState = .closed) → False := fun hall =>
    absurd (hall es) (by simp [hopen])
  obtain ⟨-, rfl⟩ | ⟨-, -, rfl⟩ | ⟨-, sdk, -, -, rfl⟩ := hb'
  · exact h.frame hi' rfl rfl fun hd => ⟨hd, fun h => (hall h).elim⟩
  · obtain ⟨status, r, heq⟩ := Browser.reconcile_frame { b with
      sources := Function.update b.sources es
        { b.sources es with lastEventId := some e.version }
      received := b.received ++ [jsNumber e.version] }
    rw [heq] at hi' ⊢
    exact h.frame hi' rfl rfl fun hd => ⟨hd, fun h => (hall h).elim⟩
  · exact h.frame hi' rfl rfl fun hd => ⟨hd, fun h => (hall h).elim⟩

theorem Browser.Tracked.step (hi : BrowserInv b) (h : b.Tracked) (hs : browserStep b a = some b')
    (ha : b.MayAcquire a) : b'.Tracked := by
  have hi' := hi.step hs
  cases a with
  | append e =>
      obtain ⟨log, -, -, rfl⟩ := browserStep_append hs
      exact h.frame hi' rfl rfl fun hd => ⟨hd, id⟩
  | init i =>
      obtain rfl := browserStep_init hs
      exact h.frame hi' rfl rfl fun hd => by cases hd
  | disconnect =>
      obtain rfl := Option.some.inj hs
      exact h.frame hi' rfl rfl fun hd => ⟨hd, fun _ => Browser.closeStream_closed hi.held⟩
  | reconnect =>
      obtain rfl := Option.some.inj hs
      exact h.frame hi' rfl rfl fun hd => by cases hd
  | destroy => exact Browser.Tracked.destroy hi h hs
  | reconcile =>
      obtain rfl := Option.some.inj hs
      exact h.reconcile hi'
  | answerInit i flags =>
      obtain rfl := browserStep_answerInit hs
      exact h.frame hi' rfl rfl fun hd => ⟨hd, id⟩
  | failInit i ok =>
      obtain rfl := browserStep_failInit hs
      exact h.frame hi' rfl rfl fun hd => ⟨hd, id⟩
  | resumeInit i =>
      obtain ⟨snapshot, -, rfl⟩ | ⟨-, rfl⟩ := browserStep_resumeInit hs
      · exact h.frame hi' rfl rfl fun hd => ⟨hd, id⟩
      · exact h.frame hi' rfl rfl fun hd => ⟨hd, id⟩
  | continueInit i => exact Browser.Tracked.continueInit hi h hs ha
  | answerReconcile n =>
      obtain ⟨r, -, -, rfl⟩ := browserStep_answerReconcile hs
      exact h.frame hi' rfl rfl fun hd => ⟨hd, id⟩
  | failReconcile ok =>
      obtain ⟨r, -, rfl⟩ := browserStep_failReconcile hs
      exact h.frame hi' rfl rfl fun hd => ⟨hd, id⟩
  | resumeReconcile =>
      obtain ⟨r, a, -, -, rfl⟩ := browserStep_resumeReconcile hs
      obtain ⟨sdk, status, r', -, heq⟩ := b.resumeReconcile_frame r a
      rw [heq] at hi' ⊢
      exact h.frame hi' rfl rfl fun hd => ⟨hd, id⟩
  | opened es =>
      obtain ⟨hstate, rfl⟩ := browserStep_opened hs
      obtain ⟨status, r, heq⟩ := (b.setReadyState es .open).reconcile_frame
      rw [heq] at hi' ⊢
      exact h.frame hi' rfl rfl fun hd => ⟨hd, fun hall => absurd (hall es) (by simp [hstate])⟩
  | error es fatal =>
      obtain ⟨hstate, state, rfl⟩ := browserStep_error hs
      unfold Browser.onError at hi' ⊢
      split at hi'
      · rename_i hclosed
        rw [if_pos hclosed]
        exact h.frame hi' rfl rfl fun hd => ⟨hd, fun hall => absurd (hall es) hstate⟩
      · rename_i hclosed
        rw [if_neg hclosed]
        exact h.frame hi' rfl rfl fun hd => ⟨hd, fun hall => absurd (hall es) hstate⟩
  | message es n => exact Browser.Tracked.message hi h hs
  | tick t =>
      obtain ⟨-, rfl⟩ := browserStep_tick hs
      exact h.reconcile hi'

/-- What an `init` acquires where it may not is one too many. -/
theorem Browser.mayAcquire_of_owns {i : InitId} (hi : BrowserInv b)
    (hs : browserStep b (.continueInit i) = some b') (h : b'.OwnsAtMostOne) :
    b.MayAcquire (.continueInit i) := by
  have heq := browserStep_continueInit hs
  have hnew : (b'.sources b.nextSource).readyState = .connecting ∧ b'.destroyed = b.destroyed := by
    rw [heq]
    split <;> simp [Browser.connectSSE, Browser.setInterval, Browser.closeStream]
  refine ⟨?_, fun hpolls t => ?_⟩
  · -- a stream that connects after `destroy` stays
    by_contra hdestroyed
    have hclosed := (h.released (hnew.2.trans (Bool.eq_true_of_not_eq_false hdestroyed))).1
      b.nextSource
    cases hclosed.symm.trans hnew.1
  · rw [if_pos hpolls] at heq
    by_contra ht
    have hactive := Bool.eq_true_of_not_eq_false ht
    have hlt := hi.created t hactive
    -- the interval that was there and the one of this `init` are two
    have heq' : t = b.nextTimer := by
      refine h.interval t b.nextTimer ?_ ?_
      · rw [heq, Browser.setInterval_timers]
        split
        · rfl
        · exact hactive
      · rw [heq, Browser.setInterval_timers]
        exact if_pos rfl
    exact absurd heq' (Nat.ne_of_lt hlt)

/-- **The client owns at most one stream and one interval, exactly as long as every `init` that
goes on may acquire them.** -/
theorem browser_ownsAtMostOne :
    (∀ tr ∈ transitions browserStep (Browser.new polls) run, tr.post.OwnsAtMostOne) ↔
      ∀ tr ∈ transitions browserStep (Browser.new polls) run, tr.pre.MayAcquire tr.act := by
  refine transitions_iff (I := BrowserInv) (P := Browser.Tracked)
    (Q := fun _ _ b' => b'.OwnsAtMostOne) (C := Browser.MayAcquire) (fun hi hs => hi.step hs) ?_
    (fun hi h hs ha => h.step hi hs ha) browserInv_new ?_
  · intro b a b' hi h hs
    refine ⟨fun howns => ?_, fun ha => (h.step hi hs ha).owns⟩
    cases a with
    | continueInit i => exact Browser.mayAcquire_of_owns hi hs howns
    | _ => trivial
  · exact Browser.tracked_of browserInv_new (by simp [Browser.new]) (by simp [Browser.new])

/-- The page unmounts while its `init` waits for the snapshot. -/
def lateInit : List BrowserAction :=
  [ .init 0, .answerInit 0 [], .destroy, .resumeInit 0, .continueInit 0 ]

theorem lateInit_leaks :
    ∃ b, exec browserStep (Browser.new true) lateInit = some b ∧ ¬ b.OwnsAtMostOne := by
  refine ⟨_, rfl, fun h => ?_⟩
  have hclosed := (h.released rfl).1 0
  cases hclosed

end Resources

/-! ### The status -/

/-- The client holds an open stream and was not disconnected. -/
def Browser.OpenHeld (b : Browser) : Prop :=
  b.manuallyClosed = false ∧ ∃ es, b.eventSource = some es ∧ (b.sources es).readyState = .open

/-- `live` means an open stream; after `disconnect` or `destroy` the status is `offline`. -/
structure Browser.Truthful (b : Browser) : Prop where
  live : b.status = .live → b.OpenHeld
  offline : b.hungUp = true → b.status = .offline

/-- No `reconcile` starts or fails on a client that was hung up, none succeeds without an open
stream, none puts a status back that is no longer true, no frame is applied while
`manuallyClosed` is set, and no `init` connects a client that is live. -/
def Browser.Honest (b : Browser) : BrowserAction → Prop
  | .reconcile | .opened _ | .tick _ => b.reconciling = none → b.hungUp = false
  | .message _ n => ∀ e, b.log.events[n]? = some e →
      (b.sdk.configVersion < jsNumber e.version → b.sdk.nextVersion < jsNumber e.version →
        b.reconciling = none → b.hungUp = false) ∧
      (b.sdk.Expects (jsNumber e.version) → b.manuallyClosed = false)
  | .resumeReconcile => ∀ r, b.reconciling = some r →
      (r.answer = some .rejected → b.hungUp = false) ∧
      (r.answer = some .notOk → (r.restored = .live → b.OpenHeld) ∧
        (b.hungUp = true → r.restored = .offline)) ∧
      ∀ page, r.answer = some (.body page) → b.LastPage r page → b.OpenHeld
  | .continueInit _ => b.status ≠ .live
  | _ => True

section Truthful

variable {b b' : Browser} {a : BrowserAction} {polls : Bool} {run : List BrowserAction}

/-- Wherever the streams are, a `reconcile` that starts is honest exactly when the client was not
hung up. -/
theorem Browser.truthful_reconcile {sources : SourceId → Source} {received : List Int}
    (h : ({ b with sources := sources, received := received } : Browser).Truthful) :
    ({ b with sources := sources, received := received } : Browser).reconcile.Truthful ↔
      (b.reconciling = none → b.hungUp = false) := by
  by_cases hidle : b.reconciling = none
  · have heq : ({ b with sources := sources, received := received } : Browser).reconcile = _ :=
      Browser.reconcile_of_idle hidle
    rw [heq]
    constructor
    · intro h' _
      by_contra hhung
      cases h'.offline (Bool.eq_true_of_not_eq_false hhung)
    · exact fun hnot => ⟨fun hlive => (by cases hlive),
        fun hhung => absurd ((hnot hidle).symm.trans hhung) (by simp)⟩
  · have heq : ({ b with sources := sources, received := received } : Browser).reconcile = _ :=
      Browser.reconcile_of_running hidle
    rw [heq]
    exact iff_of_true h fun hnone => absurd hnone hidle

theorem Browser.OpenHeld.notHungUp (hi : BrowserInv b) (h : b.OpenHeld) : b.hungUp = false := by
  by_contra hhung
  have hclosed := hi.hungUp (Bool.eq_true_of_not_eq_false hhung)
  cases h.1.symm.trans hclosed

/-- A stream that opens, or reads a frame, is no less open than before. -/
theorem Browser.OpenHeld.mono {sources : SourceId → Source} {received : List Int}
    (h : b.OpenHeld) (hsources : ∀ es, (b.sources es).readyState = .open →
      (sources es).readyState = .open) :
    ({ b with sources := sources, received := received } : Browser).OpenHeld := by
  obtain ⟨hnot, es, heq, hopen⟩ := h
  exact ⟨hnot, es, heq, hsources es hopen⟩

/-- A frame. -/
theorem Browser.truthful_message {es : SourceId} {n : Nat} (hi : BrowserInv b) (h : b.Truthful)
    (hs : browserStep b (.message es n) = some b') :
    b'.Truthful ↔ b.Honest (.message es n) := by
  obtain ⟨e, b₁, he, hopen, rfl, hb'⟩ := browserStep_message hi.positive hs
  have honly : ∀ e', b.log.events[n]? = some e' → e' = e := fun e' he' =>
    Option.some.inj (he'.symm.trans he)
  have hsources : ∀ es', (b.sources es').readyState = .open → (Function.update b.sources es
      { b.sources es with lastEventId := some e.version } es').readyState = .open := by
    intro es' hopen'
    rwa [Function.apply_update (fun _ => Source.readyState), Function.update_eq_self]
  have h₁ : ({ b with
      sources := Function.update b.sources es { b.sources es with lastEventId := some e.version }
      received := b.received ++ [jsNumber e.version] } : Browser).Truthful :=
    ⟨fun hlive => (h.live hlive).mono hsources, h.offline⟩
  obtain ⟨hstale, rfl⟩ | ⟨hlater, hgap, rfl⟩ | ⟨hnext, sdk, -, -, rfl⟩ := hb'
  · refine iff_of_true h₁ fun e' he' => ?_
    rw [honly e' he']
    exact ⟨fun hlater => absurd hlater (not_lt.mpr hstale),
      fun hnext => absurd hnext.1 (not_lt.mpr hstale)⟩
  · rw [Browser.truthful_reconcile h₁]
    constructor
    · intro hnot e' he'
      rw [honly e' he']
      exact ⟨fun _ _ => hnot, fun hnext => absurd hnext.2 (not_le.mpr hgap)⟩
    · exact fun hhonest => (hhonest e he).1 hlater hgap
  · -- the stream the frame came from is open, so it is the one held
    have hheld := hi.held es (by simp [hopen])
    constructor
    · intro h' e' he'
      rw [honly e' he']
      exact ⟨fun _ hgap => absurd hnext.2 (not_le.mpr hgap), fun _ => (h'.live rfl).1⟩
    · intro hhonest
      have hnot := (hhonest e he).2 hnext
      refine ⟨fun _ => ⟨hnot, es, hheld, hsources es hopen⟩, fun hhung => ?_⟩
      exact absurd (hnot.symm.trans (hi.hungUp hhung)) (by simp)

/-- An answer to `reconcile`. -/
theorem Browser.truthful_resumeReconcile (hi : BrowserInv b) (h : b.Truthful)
    (hs : browserStep b .resumeReconcile = some b') :
    b'.Truthful ↔ b.Honest .resumeReconcile := by
  obtain ⟨r, answer, hr, hanswer, rfl⟩ := browserStep_resumeReconcile hs
  have hhonest : b.Honest .resumeReconcile ↔
      (answer = .rejected → b.hungUp = false) ∧
      (answer = .notOk → (r.restored = .live → b.OpenHeld) ∧
        (b.hungUp = true → r.restored = .offline)) ∧
      ∀ page, answer = .body page → b.LastPage r page → b.OpenHeld := by
    constructor
    · intro hall
      have hthis := hall r hr
      rw [hanswer] at hthis
      simpa using hthis
    · intro hthis r' hr'
      obtain rfl : r = r' := Option.some.inj (hr.symm.trans hr')
      rw [hanswer]
      simpa using hthis
  -- a `notOk` puts the old status back, a `rejected` writes `reconnecting`
  rw [hhonest]
  cases answer with
  | notOk =>
      constructor
      · exact fun h' => ⟨fun hno => (by cases hno), fun _ => ⟨h'.live, h'.offline⟩,
          fun page hno => (by cases hno)⟩
      · exact fun hall => ⟨(hall.2.1 rfl).1, (hall.2.1 rfl).2⟩
  | rejected =>
      constructor
      · refine fun h' => ⟨fun _ => ?_, fun hno => (by cases hno), fun page hno => (by cases hno)⟩
        by_contra hhung
        cases h'.offline (Bool.eq_true_of_not_eq_false hhung)
      · exact fun hall => ⟨fun hlive => (by cases hlive),
          fun hhung => absurd ((hall.1 rfl).symm.trans hhung) (by simp)⟩
  | body page =>
      have honly : ((∀ page', Answer.body page = .body page' → b.LastPage r page' → b.OpenHeld) ↔
          (b.LastPage r page → b.OpenHeld)) := by
        simp
      simp only [reduceCtorEq, false_implies, true_and, honly]
      obtain ⟨hlast, heq⟩ | ⟨hmore, heq⟩ := b.resumeReconcile_page r page
      · rw [heq]
        constructor
        · exact fun h' _ => h'.live rfl
        · intro hopen
          refine ⟨fun _ => hopen hlast, fun hhung => ?_⟩
          exact absurd ((hopen hlast).notHungUp hi |>.symm.trans hhung) (by simp)
      · rw [heq]
        exact iff_of_true ⟨h.live, h.offline⟩ fun hlast => absurd hlast hmore

theorem Browser.truthful_iff (hi : BrowserInv b) (h : b.Truthful) (hs : browserStep b a = some b') :
    b'.Truthful ↔ b.Honest a := by
  cases a with
  | append e =>
      obtain ⟨log, -, -, rfl⟩ := browserStep_append hs
      exact iff_of_true ⟨h.live, h.offline⟩ trivial
  | init i =>
      obtain rfl := browserStep_init hs
      exact iff_of_true ⟨fun hlive => (by cases hlive), fun hhung => (by cases hhung)⟩ trivial
  | disconnect | destroy =>
      obtain rfl := Option.some.inj hs
      exact iff_of_true ⟨fun hlive => (by cases hlive), fun _ => rfl⟩ trivial
  | reconnect =>
      obtain rfl := Option.some.inj hs
      exact iff_of_true ⟨fun hlive => (by cases hlive), fun hhung => (by cases hhung)⟩ trivial
  | reconcile =>
      obtain rfl := Option.some.inj hs
      exact Browser.truthful_reconcile h
  | answerInit i flags =>
      obtain rfl := browserStep_answerInit hs
      exact iff_of_true ⟨h.live, h.offline⟩ trivial
  | failInit i ok =>
      obtain rfl := browserStep_failInit hs
      exact iff_of_true ⟨h.live, h.offline⟩ trivial
  | resumeInit i =>
      obtain ⟨snapshot, -, rfl⟩ | ⟨-, rfl⟩ := browserStep_resumeInit hs
      · exact iff_of_true ⟨h.live, h.offline⟩ trivial
      · exact iff_of_true ⟨h.live, h.offline⟩ trivial
  | continueInit i =>
      have heq := browserStep_continueInit hs
      have hfields : b'.status = b.status ∧ b'.hungUp = b.hungUp ∧
          b'.eventSource = some b.nextSource ∧
          (b'.sources b.nextSource).readyState = .connecting := by
        rw [heq]
        split <;> simp [connectSSE, setInterval, closeStream]
      obtain ⟨hstatus, hhungUp, hsource, hstate⟩ := hfields
      constructor
      · intro h' hlive
        -- the stream that is held now is the new one
        obtain ⟨-, es, hes, hopen⟩ := h'.live (hstatus.trans hlive)
        obtain rfl := Option.some.inj (hsource.symm.trans hes)
        cases hstate.symm.trans hopen
      · refine fun hnot => ⟨fun hlive => absurd (hstatus.symm.trans hlive) hnot, fun hhung => ?_⟩
        exact hstatus.trans (h.offline (hhungUp.symm.trans hhung))
  | answerReconcile n =>
      obtain ⟨r, -, -, rfl⟩ := browserStep_answerReconcile hs
      exact iff_of_true ⟨h.live, h.offline⟩ trivial
  | failReconcile ok =>
      obtain ⟨r, -, rfl⟩ := browserStep_failReconcile hs
      exact iff_of_true ⟨h.live, h.offline⟩ trivial
  | resumeReconcile => exact Browser.truthful_resumeReconcile hi h hs
  | opened es =>
      obtain ⟨hstate, rfl⟩ := browserStep_opened hs
      refine Browser.truthful_reconcile ⟨fun hlive => (h.live hlive).mono fun es' hopen => ?_,
        h.offline⟩
      by_cases heq : es' = es
      · subst heq
        simp
      · simpa [heq] using hopen
  | error es fatal =>
      obtain ⟨-, state, rfl⟩ := browserStep_error hs
      unfold Browser.onError
      refine iff_of_true ?_ trivial
      split
      · rename_i hclosed
        refine ⟨fun hlive => ?_, h.offline⟩
        exact absurd ((h.live hlive).1.symm.trans hclosed) (by simp)
      · rename_i hnot
        exact ⟨fun hlive => (by cases hlive), fun hhung => absurd (hi.hungUp hhung) hnot⟩
  | message es n => exact Browser.truthful_message hi h hs
  | tick t =>
      obtain ⟨-, rfl⟩ := browserStep_tick hs
      exact Browser.truthful_reconcile h

/-- **The status is true of the stream, exactly as long as the client is honest.** -/
theorem browser_truthful :
    (∀ tr ∈ transitions browserStep (Browser.new polls) run, tr.post.Truthful) ↔
      ∀ tr ∈ transitions browserStep (Browser.new polls) run, tr.pre.Honest tr.act :=
  transitions_iff (I := BrowserInv) (P := Browser.Truthful) (Q := fun _ _ b' => b'.Truthful)
    (C := Browser.Honest) (fun hi hs => hi.step hs) (fun hi h hs => Browser.truthful_iff hi h hs)
    (fun hi h hs ha => (Browser.truthful_iff hi h hs).mpr ha) browserInv_new
    ⟨fun hlive => (by cases hlive), fun hhung => (by cases hhung)⟩

/-- The client is disconnected while a `reconcile` waits for its answer. -/
def liveOffline : List BrowserAction :=
  [ .init 0, .answerInit 0 [], .resumeInit 0, .continueInit 0, .opened 0, .disconnect,
    .answerReconcile 0, .resumeReconcile ]

theorem liveOffline_false :
    ∃ b, exec browserStep (Browser.new false) liveOffline = some b ∧ b.status = .live ∧
      b.eventSource = none ∧ ¬ b.Truthful := by
  refine ⟨_, rfl, rfl, rfl, fun h => ?_⟩
  cases h.offline rfl

end Truthful

end FlagPlane
