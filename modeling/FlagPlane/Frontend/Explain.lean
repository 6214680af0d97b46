import FlagPlane.Client.Evaluate
import FlagPlane.Handler.Events
import FlagPlane.Service.Calls

/-!
# FlagPlane.Frontend.Explain

**`lib/evaluate.ts`**, the evaluation that the UI explains, against `isEnabled`, the one that the
browser's client makes. They hash different keys: `isEnabled` the one it is asked for, `evaluate`
the one in the record. So they agree as long as every record of the map is filed under its own key,
which bootstrap, live frames and pages each see to in their own way.
-/

namespace FlagPlane

/-! ### The trace -/

inductive EvalReason
  | noFlag
  | disabled
  | targeted
  | rolloutZero
  | rolloutFull
  | inRollout
  | outOfRollout
  deriving DecidableEq, Repr

structure EvalTrace where
  on : Bool
  reason : EvalReason
  enabled : Bool
  targeted : Bool
  percentage : Int
  bucket : Option Int
  hashInput : String
  deriving Repr

def rolloutBucket (flagKey userId : String) : Int :=
  fnv1a32 (flagKey ++ ":" ++ userId) % 100

/-- The rules of `evaluate` for a flag that is there, from its four properties. -/
def evaluateFlag (key : String) (enabled : Bool) (percentage : Int) (targetedUsers : List Json)
    (userId : String) : EvalTrace :=
  let hashInput := key ++ ":" ++ userId
  let targeted := targetedUsers.any fun u => u.isStr userId
  if !enabled then ⟨false, .disabled, false, targeted, percentage, none, hashInput⟩
  else if targeted then ⟨true, .targeted, true, true, percentage, none, hashInput⟩
  else if percentage ≤ 0 then ⟨false, .rolloutZero, true, false, percentage, none, hashInput⟩
  else if percentage ≥ 100 then ⟨true, .rolloutFull, true, false, percentage, none, hashInput⟩
  else
    let bucket := rolloutBucket key userId
    let on := decide (bucket < percentage)
    ⟨on, if on then .inRollout else .outOfRollout, true, false, percentage, some bucket, hashInput⟩

/-- `evaluate`. `none` stands for a record whose properties are not of the types that
`EvaluableFlag` declares. -/
def evaluate (flag : Option Json) (userId : String) : Option EvalTrace :=
  match flag with
  | none => some ⟨false, .noFlag, false, false, 0, none, userId⟩
  | some flag =>
    match flag.prop "key", flag.prop "enabled", flag.prop "rollout_percentage",
      flag.prop "targeted_users" with
    | some (.str key), some (.bool enabled), some (.int percentage), some (.arr users) =>
      some (evaluateFlag key enabled percentage users userId)
    | _, _, _, _ => none

/-- What a reason says of the verdict. -/
def EvalReason.on : EvalReason → Bool
  | targeted | rolloutFull | inRollout => true
  | noFlag | disabled | rolloutZero | outOfRollout => false

/-- The dice roll is the last rule: it decides when no rule before it does. -/
def EvalTrace.Rolled (t : EvalTrace) : Prop :=
  t.enabled = true ∧ t.targeted = false ∧ 0 < t.percentage ∧ t.percentage < 100

/-- **A coherent trace.** The reason determines the verdict, and there is a bucket exactly when the
dice roll decided, which then agrees with it. -/
structure EvalTrace.Coherent (t : EvalTrace) : Prop where
  reason : t.on = t.reason.on
  rolled : t.bucket.isSome = true ↔ t.Rolled
  rolledReason : t.bucket.isSome = true ↔ t.reason = .inRollout ∨ t.reason = .outOfRollout
  bucket : ∀ b, t.bucket = some b → 0 ≤ b ∧ b < 100 ∧ (t.on = true ↔ b < t.percentage)

section Trace

variable {flag : Option Json} {key userId : String} {enabled : Bool} {percentage : Int}
  {users : List Json} {trace : EvalTrace}

theorem rolloutBucket_bounds (key userId : String) :
    0 ≤ rolloutBucket key userId ∧ rolloutBucket key userId < 100 := by
  rw [rolloutBucket]
  omega

/-- **Every trace is coherent.** One case for each rule. -/
theorem evaluateFlag_coherent :
    (evaluateFlag key enabled percentage users userId).Coherent := by
  obtain ⟨hlow, hhigh⟩ := rolloutBucket_bounds key userId
  unfold evaluateFlag
  dsimp only
  split
  · exact ⟨rfl, by simp [EvalTrace.Rolled], by simp, by simp⟩
  split
  · exact ⟨rfl, by simp [EvalTrace.Rolled], by simp, by simp⟩
  split
  · rename_i hzero
    refine ⟨rfl, ?_, by simp, by simp⟩
    simpa [EvalTrace.Rolled] using fun hpos => absurd hzero (not_le.mpr hpos)
  split
  · refine ⟨rfl, ?_, by simp, by simp⟩
    simpa [EvalTrace.Rolled] using fun _ => by assumption
  · rename_i hzero hfull
    by_cases hbucket : rolloutBucket key userId < percentage
    · refine ⟨by simp [hbucket, EvalReason.on], ?_, by simp [hbucket], ?_⟩
      · simpa [EvalTrace.Rolled] using And.intro (by omega) (by omega)
      · simp [hbucket, hlow, hhigh]
    · refine ⟨by simp [hbucket, EvalReason.on], ?_, by simp [hbucket], ?_⟩
      · simpa [EvalTrace.Rolled] using And.intro (by omega) (by omega)
      · simp [hbucket, hlow, hhigh, not_lt.mp hbucket]

theorem evaluate_coherent (h : evaluate flag userId = some trace) : trace.Coherent := by
  unfold evaluate at h
  split at h
  · obtain rfl := Option.some.inj h
    exact ⟨rfl, by simp [EvalTrace.Rolled], by simp, by simp⟩
  split at h
  · obtain rfl := Option.some.inj h
    exact evaluateFlag_coherent
  · cases h

end Trace

/-! ### The map of the client -/

/-- The record of a flag of this key: the key is in it, and the properties that are read have the
types that `FlagConfig` declares. -/
def FlagRecord (key : String) (record : Json) : Prop :=
  record.prop "key" = some (.str key) ∧ ∃ f : ClientFlag, f.IsRecord record

/-- Every record is filed under its own key. -/
def FeatureFlagClient.Filed (c : FeatureFlagClient) : Prop :=
  ∀ key record, c.flags key = some record → FlagRecord key record

/-- What the browser's client takes in. -/
inductive BrowserInput
  /-- The response to a bootstrap. -/
  | bootstrap (body : FlagsBody)
  /-- A message of the stream, and the last id before it and its own. -/
  | live (event : String) (lastEventId : Option Int) (data : Json)
  /-- A page of a reconcile. -/
  | page (events : List FlagEvent)

def FeatureFlagClient.take (c : FeatureFlagClient) : BrowserInput → FeatureFlagClient
  | .bootstrap body => (c.bootstrap body).1
  | .live event lastEventId data => (c.onMessage event lastEventId data).1
  | .page events => (c.applyPage events).1

/-- The input is server data: whatever is set is the record of a flag, and what an event of a page
carries is filed under its `flag_key`. -/
def BrowserInput.OfServer : BrowserInput → Prop
  | bootstrap body =>
    ∀ flags, body.flags = some flags → ∀ record ∈ flags, ∃ key, FlagRecord key record
  | live event _ data => event = "flag_updated" → ∃ key, FlagRecord key data
  | page events => ∀ e ∈ events, e.eventType = .deleted ∨ FlagRecord e.flagKey e.payload

/-- A client right after its construction. -/
def FeatureFlagClient.new : FeatureFlagClient := ⟨fun _ => none, 0⟩

section Filed

variable {c : FeatureFlagClient} {key : String} {record : Json}

theorem FeatureFlagClient.filed_new : new.Filed := fun _ _ h => by cases h

theorem FeatureFlagClient.Filed.set (h : c.Filed) (hrecord : FlagRecord key record) :
    (c.set key record).Filed := by
  intro key' record' hget
  rcases update_some_cases hget with ⟨rfl, rfl⟩ | ⟨-, hget⟩
  · exact hrecord
  · exact h key' record' hget

theorem FeatureFlagClient.Filed.delete (h : c.Filed) (key : String) : (c.delete key).Filed := by
  intro key' record' hget
  have hupdate : Function.update c.flags key none key' = some record' := hget
  rw [Function.update_apply] at hupdate
  split at hupdate
  · cases hupdate
  · exact h key' record' hupdate

theorem FeatureFlagClient.Filed.setVersion (h : c.Filed) (v : Int) :
    FeatureFlagClient.Filed { c with configVersion := v } := h

/-- The record of a flag is filed under the key in it. -/
theorem FlagRecord.setParsed (h : FlagRecord key record) (c : FeatureFlagClient) :
    FeatureFlagClient.setParsed record c = some (c.set key record) := by
  have hkey : record.stringProp "key" = some key := by rw [Json.stringProp, h.1]
  have hne : record ≠ .null := by
    rintro rfl
    cases h.1
  unfold FeatureFlagClient.setParsed
  split
  · exact absurd rfl hne
  · rw [hkey]

theorem FeatureFlagClient.Filed.setAll (h : c.Filed) {flags : List Json}
    (hflags : ∀ record ∈ flags, ∃ key, FlagRecord key record) : (c.setAll flags).1.Filed := by
  induction flags generalizing c with
  | nil => exact h
  | cons record flags ih =>
      rw [List.forall_mem_cons] at hflags
      obtain ⟨⟨key, hrecord⟩, hflags⟩ := hflags
      rw [FeatureFlagClient.setAll, hrecord.setParsed c]
      exact ih (h.set hrecord) hflags

/-- A bootstrap starts from an empty map. -/
theorem filed_bootstrap {body : FlagsBody} (hbody : (BrowserInput.bootstrap body).OfServer) :
    (c.bootstrap body).1.Filed := by
  have hcleared : FeatureFlagClient.Filed { c with flags := fun _ => none } :=
    fun _ _ hget => by cases hget
  rw [FeatureFlagClient.bootstrap]
  split
  · exact hcleared
  · rename_i flags hflags
    have hall := hcleared.setAll (hbody flags hflags)
    split
    · rename_i c' heq
      rw [heq] at hall
      exact hall
    · rename_i c' heq
      rw [heq] at hall
      exact hall.setVersion _

/-- A mutation that files what it sets, behind the version gate. -/
theorem FeatureFlagClient.Filed.applyEvent (h : c.Filed) {v : Int}
    {mutate : FeatureFlagClient → Option FeatureFlagClient}
    (hmutate : ∀ c', mutate c = some c' → c'.Filed) : (c.applyEvent v mutate).1.Filed := by
  rw [FeatureFlagClient.applyEvent]
  split
  · exact h
  split
  · exact h
  split
  · rename_i c' hc'
    exact (hmutate c' hc').setVersion v
  · exact h

theorem FeatureFlagClient.Filed.onFlagDeleted (h : c.Filed) (lastEventId : Option Int)
    (data : Json) : (c.onFlagDeleted lastEventId data).1.Filed := by
  rw [FeatureFlagClient.onFlagDeleted.eq_def]
  split
  · exact h
  · refine h.applyEvent fun c' hc' => ?_
    obtain rfl := Option.some.inj hc'
    split
    · exact h.delete _
    · exact h

theorem FeatureFlagClient.Filed.onMessage (h : c.Filed) {event : String} {lastEventId : Option Int}
    {data : Json} (hdata : (BrowserInput.live event lastEventId data).OfServer) :
    (c.onMessage event lastEventId data).1.Filed := by
  rw [FeatureFlagClient.onMessage]
  split
  · rename_i hevent
    obtain ⟨key, hrecord⟩ := hdata hevent
    refine h.applyEvent fun c' hc' => ?_
    obtain rfl := Option.some.inj ((hrecord.setParsed c).symm.trans hc')
    exact h.set hrecord
  split
  · exact h.onFlagDeleted lastEventId data
  · exact h

theorem FeatureFlagClient.Filed.applyPage (h : c.Filed) {events : List FlagEvent}
    (hevents : (BrowserInput.page events).OfServer) : (c.applyPage events).1.Filed := by
  suffices H : ∀ s : FeatureFlagClient × Bool, s.1.Filed →
      (events.foldl FeatureFlagClient.applyNext s).1.Filed from H (c, false) h
  have hpage : ∀ e ∈ events, e.eventType = .deleted ∨ FlagRecord e.flagKey e.payload := hevents
  clear hevents
  induction events with
  | nil => exact fun _ hs => hs
  | cons e events ih =>
      intro s hs
      rw [List.forall_mem_cons] at hpage
      refine ih hpage.2 _ ?_
      rw [FeatureFlagClient.applyNext]
      split
      · exact hs
      dsimp only
      split
      · exact (hs.delete _).setVersion _
      · rename_i hty
        exact (hs.set (hpage.1.resolve_left hty)).setVersion _

/-- **Every input keeps the records filed.** -/
theorem FeatureFlagClient.Filed.take (h : c.Filed) {input : BrowserInput} (hinput : input.OfServer) :
    (c.take input).Filed := by
  cases input with
  | bootstrap body => exact filed_bootstrap hinput
  | live event lastEventId data => exact h.onMessage hinput
  | page events => exact h.applyPage hinput

theorem filed_of_inputs {inputs : List BrowserInput} (hinputs : ∀ input ∈ inputs, input.OfServer)
    (h : c.Filed) : (inputs.foldl FeatureFlagClient.take c).Filed := by
  induction inputs generalizing c with
  | nil => exact h
  | cons input inputs ih =>
      rw [List.forall_mem_cons] at hinputs
      exact ih hinputs.2 (h.take hinputs.1)

end Filed

/-! ### What the server sends -/

/-- Every event of the log that sets a flag carries its record. -/
def LogRecords (db : Db) : Prop :=
  ∀ e ∈ db.events, e.eventType = .deleted ∨ FlagRecord e.flagKey e.payload

section Server

variable {db db' : Db} {a : Action}

theorem flagRecord_payload (flag : Flag) : FlagRecord flag.key (flagPayload flag) :=
  ⟨rfl, ⟨flag.id, flag.key, flag.description, flag.enabled, flag.rolloutPercentage,
    flag.targetedUsers.getD [], flag.version⟩, rfl, rfl, rfl⟩

theorem flagRecord_clientFlagJson (flag : Flag) : FlagRecord flag.key (clientFlagJson flag) :=
  ⟨rfl, ⟨flag.id, flag.key, flag.description, flag.enabled, flag.rolloutPercentage,
    flag.targetedUsers.getD [], flag.version⟩, rfl, rfl, rfl⟩

theorem event_records (op : Op) (x : Locals) (w : RowWrite) :
    (op.event x w).eventType = .deleted ∨
      FlagRecord (op.event x w).flagKey (op.event x w).payload := by
  cases w with
  | insert row | update row => exact Or.inr (flagRecord_payload _)
  | delete row | nothing => exact Or.inl rfl

theorem LogRecords.step (h : LogRecords db) (hinv : DbInv db) (hs : step db a = some db') :
    LogRecords db' := by
  rcases step_tables hs with ⟨-, -, hevents⟩ | ⟨t, c, -, ht, -, rfl⟩
  · rwa [LogRecords, hevents]
  · intro e he
    rcases List.mem_append.mp he with he | he
    · exact h e he
    · rw [List.mem_singleton.mp he, hinv.event_eq ht]
      exact event_records _ _ _

theorem Service.Reachable.logRecords {s : Service} (hs : s.Reachable) : LogRecords s.db := by
  refine hs.induct (I := fun s => LogRecords s.db) (fun rows e he => by cases he) ?_
  intro s a s' hinv h hs
  rcases serviceStep_db hs with heq | ⟨b, hb⟩
  · rwa [heq]
  · exact h.step hinv.db hb

/-- The answer to a bootstrap. -/
theorem ofServer_bootstrap (db : Db) (version : Option Int) :
    (BrowserInput.bootstrap ⟨some ((listFlags db.flags).map clientFlagJson), version⟩).OfServer := by
  intro flags hflags record hrecord
  obtain rfl := Option.some.inj hflags
  obtain ⟨flag, -, rfl⟩ := List.mem_map.mp hrecord
  exact ⟨flag.key, flagRecord_clientFlagJson flag⟩

/-- The frame of whatever the service publishes. -/
theorem ofServer_live {s : Service} {a : ServiceAction} {env : Envelope}
    (h : s.publishing a = some env) (lastEventId : Option Int) :
    (BrowserInput.live env.sseEvent.frame.event lastEventId env.sseEvent.frame.data).OfServer := by
  intro hevent
  unfold Service.publishing at h
  split at h
  swap
  · cases h
  split at h
  swap
  · cases h
  rename_i r _ _
  cases r with
  | created flag =>
      obtain rfl := Option.some.inj h
      exact ⟨flag.key, flagRecord_payload flag⟩
  | flag flag =>
      cases flag with
      | none => cases h
      | some flag =>
          obtain rfl := Option.some.inj h
          exact ⟨flag.key, flagRecord_payload flag⟩
  | deleted v =>
      obtain rfl := Option.some.inj h
      exact absurd hevent (show ¬ "flag_deleted" = "flag_updated" by decide)
  | error err => cases h

/-- A page of the log. -/
theorem ofServer_page {s : Service} (hs : s.Reachable) (since limit : Int) :
    (BrowserInput.page (listEventsSince s.db.events since limit)).OfServer := fun e he =>
  hs.logRecords e (mem_listEventsSince he).1

end Server

/-! ### Parity -/

section Parity

variable {c : FeatureFlagClient} {flagKey userId : String}

/-- `isInRollout` is the last three rules. -/
theorem isInRollout_eq_evaluateFlag {percentage : Int} {users : List Json}
    (huser : (users.any fun u => u.isStr userId) = false) :
    isInRollout flagKey userId percentage =
      (evaluateFlag flagKey true percentage users userId).on := by
  rw [isInRollout, evaluateFlag, huser]
  simp only [Bool.not_true, Bool.false_eq_true, if_false]
  split
  · rfl
  split
  · rfl
  · rfl

/-- **A filed record is evaluated as `isEnabled` does.** -/
theorem FeatureFlagClient.Filed.parity (h : c.Filed) (flagKey userId : String) :
    ∃ trace, evaluate (c.flags flagKey) userId = some trace ∧
      c.isEnabled flagKey userId = some trace.on := by
  rw [FeatureFlagClient.isEnabled]
  cases hget : c.flags flagKey with
  | none => exact ⟨_, rfl, rfl⟩
  | some record =>
      obtain ⟨hkey, f, hrecord⟩ := h flagKey record hget
      refine ⟨evaluateFlag flagKey f.enabled f.rolloutPercentage (f.targetedUsers.map .str) userId,
        ?_, ?_⟩
      · simp only [evaluate, hkey, hrecord.enabled, hrecord.rolloutPercentage,
          hrecord.targetedUsers]
      dsimp only
      rw [hrecord.enabled]
      cases henabled : f.enabled with
      | false => rfl
      | true =>
          dsimp only
          rw [hrecord.targetedUsers, hrecord.rolloutPercentage]
          dsimp only
          cases huser : (f.targetedUsers.map Json.str).any fun u => u.isStr userId with
          | true => simp [evaluateFlag, huser]
          | false => simp [isInRollout_eq_evaluateFlag huser]

/-- **The explained verdict is the shipped one.** In every state that the browser's client reaches
on server data, and for every key and user, `evaluate` of the record under the key gives a
coherent trace whose verdict is that of `isEnabled`. -/
theorem explained_verdict_is_shipped {inputs : List BrowserInput}
    (hinputs : ∀ input ∈ inputs, input.OfServer) (flagKey userId : String) :
    ∃ trace, evaluate ((inputs.foldl FeatureFlagClient.take .new).flags flagKey) userId =
        some trace ∧
      (inputs.foldl FeatureFlagClient.take .new).isEnabled flagKey userId = some trace.on ∧
      trace.Coherent := by
  have hfiled := filed_of_inputs hinputs FeatureFlagClient.filed_new
  obtain ⟨trace, htrace, hon⟩ := hfiled.parity flagKey userId
  exact ⟨trace, htrace, hon, evaluate_coherent htrace⟩

/-- A bootstrap, a frame and a page of one flag. -/
def checkoutInputs : List BrowserInput :=
  [.bootstrap ⟨some [clientFlagJson (scanFlag checkoutRow)], some 0⟩,
    .live "flag_updated" (some 1) (flagPayload (scanFlag halfRow)),
    .page [⟨2, .updated, "checkout", flagPayload (scanFlag halfRow), 0⟩]]

theorem explained_verdict_is_shipped_checkout :
    ∃ trace, evaluate ((checkoutInputs.foldl FeatureFlagClient.take .new).flags "checkout") "u" =
        some trace ∧
      (checkoutInputs.foldl FeatureFlagClient.take .new).isEnabled "checkout" "u" =
        some trace.on ∧
      trace.Coherent := by
  refine explained_verdict_is_shipped ?_ "checkout" "u"
  simp only [checkoutInputs, List.forall_mem_cons]
  refine ⟨fun flags hflags record hrecord => ?_, fun _ => ⟨_, flagRecord_payload _⟩,
    fun e he => ?_, by simp⟩
  · obtain rfl := Option.some.inj hflags
    rw [List.mem_singleton.mp hrecord]
    exact ⟨_, flagRecord_clientFlagJson _⟩
  · rw [List.mem_singleton.mp he]
    exact Or.inr (flagRecord_payload (scanFlag halfRow))

end Parity

end FlagPlane
