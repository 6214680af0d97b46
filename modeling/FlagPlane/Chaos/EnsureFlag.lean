import FlagPlane.Chaos.ConcurrentWriters
import FlagPlane.Handler.RacingCreates

/-!
# FlagPlane.Chaos.EnsureFlag

**`EnsureFlag` of `chaoskit.go`**, with which every scenario gets the id of its flag: it creates the
flag, and when the key is taken it searches the flags of `GET /api/admin/flags` for it. Any number
of calls run beside any other calls of the service, and a call that is told of a taken key comes
back for the flag later.

`ensure_flag` says what a returned id is worth: it was the flag's while the call ran. While nobody
deletes the flag, all calls return one id, and none comes back to find the flag gone.
-/

namespace FlagPlane

/-! ### `AdminHandler.ListFlags`, and what the toolkit reads of it -/

/-- `AdminHandler.ListFlags`, from what `List` and `GetLatestVersion` returned. -/
def listFlagsResponse (flags : List Flag) (version : Int) : HttpResponse :=
  ⟨200, some (.obj [("config_version", .int version),
    ("flags", .arr (flags.map fun f => f.toResponse.toJson))])⟩

/-- `AdminFlag`. -/
structure AdminFlag where
  id : String
  key : String
  enabled : Bool
  rolloutPercentage : Int
  targetedUsers : List String
  version : Int
  deriving DecidableEq, Repr

def AdminFlag.setField (name : String) (v : Json) :
    Json.Decoding AdminFlag → Option (Json.Decoding AdminFlag)
  | (f, spare) =>
    match name with
    | "id" => (v.decodeString f.id).map fun x => ({ f with id := x }, spare)
    | "key" => (v.decodeString f.key).map fun x => ({ f with key := x }, spare)
    | "enabled" => (v.decodeBool f.enabled).map fun x => ({ f with enabled := x }, spare)
    | "rollout_percentage" =>
      (v.decodeInt f.rolloutPercentage).map fun x => ({ f with rolloutPercentage := x }, spare)
    | "targeted_users" =>
      (v.decodeStrings ⟨f.targetedUsers, spare⟩).map fun x =>
        ({ f with targetedUsers := x.elems }, x.spare)
    | "version" => (v.decodeInt f.version).map fun x => ({ f with version := x }, spare)
    | _ => some (f, spare)

def unmarshalAdminFlag (data : Json) : Option AdminFlag :=
  (Json.decodeStruct (⟨"", "", false, 0, [], 0⟩, []) AdminFlag.setField data).map Prod.fst

def unmarshalAdminFlags : Json → Option (List AdminFlag)
  | .arr items => items.mapM unmarshalAdminFlag
  | .null => some []
  | _ => none

/-- The body of the list, as `Admin.ListFlags` decodes it. -/
structure ListBody where
  flags : List AdminFlag
  configVersion : Int
  deriving DecidableEq, Repr

def ListBody.setField (name : String) (v : Json) (b : ListBody) : Option ListBody :=
  match name with
  | "flags" => (unmarshalAdminFlags v).map fun flags => { b with flags := flags }
  | "config_version" => (v.decodeInt b.configVersion).map fun n => { b with configVersion := n }
  | _ => some b

/-- `Admin.ListFlags`; `none` is an error. -/
def adminListFlags (answer : Option HttpResponse) : Option ListBody :=
  answer.bind fun resp =>
    if resp.status ≠ 200 then none
    else resp.body.bind (Json.decodeStruct ⟨[], 0⟩ ListBody.setField)

/-- How a call of `EnsureFlag` ends. -/
inductive EnsureResult
  | id (id : String)
  /-- `create flag: status …`. -/
  | createFailed (status : Nat)
  /-- `flag … not found`. -/
  | notFound
  /-- A request has failed, or an answer does not decode. -/
  | failed
  deriving DecidableEq, Repr

/-- `Admin.flagByKey`, as far as `EnsureFlag` looks at it. -/
def flagByKey (answer : Option HttpResponse) (key : String) : EnsureResult :=
  match adminListFlags answer with
  | none => .failed
  | some body =>
    match body.flags.find? fun f => f.key = key with
    | some f => .id f.id
    | none => .notFound

/-- The body of `EnsureFlag`'s `POST`. -/
def ensureBody (flagKey : String) : Json :=
  .obj [("description", .str "chaos experiment flag (safe to toggle)"), ("enabled", .bool true),
    ("key", .str flagKey), ("rollout_percentage", .int 50), ("targeted_users", .arr [])]

/-- The struct that `EnsureFlag` decodes the answer to its `POST` into has one field. -/
def setID (name : String) (v : Json) (id : String) : Option String :=
  match name with
  | "id" => v.decodeString id
  | _ => some id

/-- The flag's id in the answer to the `POST`. -/
def unmarshalID (body : Option Json) : Option String :=
  body.bind (Json.decodeStruct "" setID)

section Decode

variable {r : FlagRow} {rows : List FlagRow} {db₁ db₂ : Db} {key : String}

/-- A row as the toolkit sees it. -/
def adminFlag (r : FlagRow) : AdminFlag :=
  ⟨r.id, r.key, r.enabled, r.rolloutPercentage, r.targetedUsers, r.version⟩

theorem unmarshalAdminFlag_row (hp : Json.InInt64 r.rolloutPercentage)
    (hv : Json.InInt64 r.version) :
    unmarshalAdminFlag (scanFlag r).toResponse.toJson = some (adminFlag r) := by
  simp (disch := decide) [unmarshalAdminFlag, FlagResponse.toJson, Flag.toResponse, scanFlag,
    adminFlag, Json.decodeStruct, AdminFlag.setField, Json.decodeInt_int hp, Json.decodeInt_int hv,
    Json.foldName_of_plain]

theorem decodeStruct_listBody {flags : Json} {decoded : List AdminFlag} {version : Int}
    (hflags : unmarshalAdminFlags flags = some decoded) (hversion : Json.InInt64 version) :
    Json.decodeStruct ⟨[], 0⟩ ListBody.setField
      (.obj [("config_version", .int version), ("flags", flags)]) = some ⟨decoded, version⟩ := by
  simp (disch := decide) [Json.decodeStruct, ListBody.setField, Json.foldName_of_plain,
    Json.decodeInt_int hversion, hflags]

/-- Decoding what was marshalled, element by element. -/
theorem mapM_marshalled {α β γ δ : Type*} {l : List α} {f : α → β} {marshal : β → γ}
    {decode : γ → Option δ} {g : α → δ} (h : ∀ x ∈ l, decode (marshal (f x)) = some (g x)) :
    ((l.map f).map marshal).mapM decode = some (l.map g) := by
  rw [List.mapM_map, List.mapM_map]
  exact mapM_eq_some_map h

theorem unmarshalAdminFlags_rows
    (h : ∀ r ∈ rows, unmarshalAdminFlag (scanFlag r).toResponse.toJson = some (adminFlag r)) :
    unmarshalAdminFlags (.arr ((rows.map scanFlag).map fun f => f.toResponse.toJson)) =
      some (rows.map adminFlag) :=
  mapM_marshalled h

/-- **What the toolkit makes of the list**: the rows that `List` saw, and the version that
`GetLatestVersion` saw. -/
theorem adminListFlags_response (h₁ : DbInv db₁) (h₂ : DbInv db₂) :
    adminListFlags (some (listFlagsResponse (listFlags db₁.flags) (getLatestVersion db₂.events))) =
      some ⟨(db₁.flags.insertionSort fun a b => b.createdAt ≤ a.createdAt).map adminFlag,
        getLatestVersion db₂.events⟩ := by
  have hversion := inInt64_of_version h₂.latest_bounds.1 h₂.latest_bounds.2
  simp only [adminListFlags, listFlagsResponse, Option.bind_some, ne_eq, not_true_eq_false,
    if_false]
  refine decodeStruct_listBody (unmarshalAdminFlags_rows fun r hr => ?_) hversion
  have hmem : r ∈ db₁.flags := (List.perm_insertionSort _ _).mem_iff.mp hr
  exact unmarshalAdminFlag_row (inInt64_of_columnsOk (h₁.columns r hmem))
    (h₁.version_inInt64 hmem)

/-- `flagByKey` finds the row of the key, if the list has one. -/
theorem flagByKey_response (h₁ : DbInv db₁) (h₂ : DbInv db₂) (key : String) :
    flagByKey (some (listFlagsResponse (listFlags db₁.flags) (getLatestVersion db₂.events))) key =
      match findByKey db₁.flags key with
      | some r => .id r.id
      | none => .notFound := by
  rw [flagByKey, adminListFlags_response h₁ h₂]
  have hperm := List.perm_insertionSort (fun a b : FlagRow => b.createdAt ≤ a.createdAt) db₁.flags
  generalize db₁.flags.insertionSort (fun a b => b.createdAt ≤ a.createdAt) = rows at hperm
  have hfind : rows.find? (fun r => r.key = key) = findByKey db₁.flags key := by
    ext r
    rw [find?_field_eq_some ((hperm.map FlagRow.key).nodup_iff.mpr h₁.table.keys),
      h₁.table.findByKey_eq_some, hperm.mem_iff]
  have hmap : (rows.map adminFlag).find? (fun f => f.key = key) =
      (findByKey db₁.flags key).map adminFlag := by
    rw [← hfind, List.find?_map]
    rfl
  simp only [hmap]
  cases findByKey db₁.flags key <;> rfl

/-- The request that the handler reads. -/
theorem createFlagRequest_ensureBody (flagKey : String) :
    createFlagRequest (some (ensureBody flagKey)) =
      some ⟨flagKey, "chaos experiment flag (safe to toggle)", true, 50, some []⟩ := by
  have hint : Json.InInt64 50 := by decide
  have husers : Json.decodeUsers none [] (.arr []) = some (some [], []) := rfl
  simp (disch := decide) [createFlagRequest, ensureBody, Json.decodeStruct,
    CreateFlagRequest.setField, Json.decodeInt_int hint, Json.foldName_of_plain, husers]

theorem unmarshalID_flag (status : Nat) (flag : Flag) :
    unmarshalID (writeFlag status flag).body = some flag.id := by
  simp (disch := decide) [unmarshalID, writeFlag, FlagResponse.toJson, Flag.toResponse,
    Json.decodeStruct, setID, Json.foldName_of_plain]

end Decode

/-! ### Calls of `EnsureFlag` beside other calls -/

/-- How far a call of `EnsureFlag` has come. -/
inductive EnsureStage
  /-- Its `POST` is call `t` of the service. -/
  | posted (t : TxId)
  /-- The key is taken. -/
  | taken
  /-- The handler of its `GET` has run `List`. -/
  | listed (flags : List Flag)
  | returned (r : EnsureResult)
  deriving DecidableEq

structure Toolkit where
  service : Service
  /-- Each call of `EnsureFlag`, with its key. -/
  ensures : Nat → Option (String × EnsureStage)

def Toolkit.setEnsure (s : Toolkit) (k : Nat) (flagKey : String) (stage : EnsureStage) : Toolkit :=
  { s with ensures := Function.update s.ensures k (some (flagKey, stage)) }

inductive ToolkitAction
  /-- Anything that the service does for its calls. -/
  | service (a : ServiceAction)
  /-- `EnsureFlag` is called and sends its `POST`. -/
  | ensureFlag (k : Nat) (flagKey : String) (t : TxId)
  /-- The `POST` is answered. -/
  | answered (k : Nat) (driver : String)
  /-- `List` runs for the `GET`. -/
  | list (k : Nat)
  /-- `GetLatestVersion` runs for it, and the answer arrives. -/
  | latest (k : Nat)
  /-- The request fails, or the handler's query does. -/
  | fail (k : Nat)

/-- How `EnsureFlag` goes on after the answer to its `POST`. -/
def EnsureStage.afterPost (resp : HttpResponse) : EnsureStage :=
  match ensureFlag resp with
  | .created =>
    match unmarshalID resp.body with
    | some id => .returned (.id id)
    | none => .returned .failed
  | .failed status => .returned (.createFailed status)
  | .flagByKey => .taken

def toolkitStep (s : Toolkit) : ToolkitAction → Option Toolkit
  | .service a => (serviceStep s.service a).map fun service => { s with service := service }
  | .ensureFlag k flagKey t =>
    match s.ensures k, createFlagRequest (some (ensureBody flagKey)) with
    | none, some req =>
      (serviceStep s.service (.request t (.createFlag req))).map fun service =>
        { s with service := service }.setEnsure k flagKey (.posted t)
    | _, _ => none
  | .answered k driver =>
    match s.ensures k with
    | some (flagKey, .posted t) =>
      (s.service.answer driver t).map fun resp => s.setEnsure k flagKey (.afterPost resp)
    | _ => none
  | .list k =>
    match s.ensures k with
    | some (flagKey, .taken) =>
      some (s.setEnsure k flagKey (.listed (listFlags s.service.db.flags)))
    | _ => none
  | .latest k =>
    match s.ensures k with
    | some (flagKey, .listed flags) =>
      let resp := listFlagsResponse flags (getLatestVersion s.service.db.events)
      some (s.setEnsure k flagKey (.returned (flagByKey (some resp) flagKey)))
    | _ => none
  | .fail k =>
    match s.ensures k with
    | none | some (_, .returned _) => none
    | some (flagKey, _) => some (s.setEnsure k flagKey (.returned .failed))

def Toolkit.migrated (rows : List FlagRow) : Toolkit :=
  ⟨Service.migrated rows, fun _ => none⟩

/-! ### What the service keeps for them -/

section Database

variable {db db' : Db} {a : Action} {t : TxId} {flag f : Flag} {r : FlagRow} {key : String}

/-- **A flag that `Create` returns is a row by then.** -/
theorem step_created (h : DbInv db) (hs : step db a = some db')
    (ht : db'.txs t = some ⟨.create flag, .returned (.created f)⟩) :
    db.txs t = some ⟨.create flag, .returned (.created f)⟩ ∨
      ∃ r ∈ db'.flags, r.key = flag.key ∧ r.id = f.id := by
  refine (step_returns hs ht).imp_right fun hreturns => ?_
  generalize hop : Op.create flag = op at hreturns
  generalize hr : RepoResult.created f = res at hreturns
  cases hreturns with
  | read | gone | nilUsers | refused | duplicate | eventTaken | fail => cases hr
  | noRow =>
      subst hop
      cases hr
  | @commit c htx =>
      rw [step, htx] at hs
      obtain rfl := Option.some.inj hs
      have hwrite := h.writeInv htx
      cases hw : c.write with
      | insert row =>
          rw [hw] at hr hwrite
          obtain ⟨⟨flag', users, uuid, hop', -, rfl⟩, -⟩ := hwrite
          obtain rfl : flag = flag' := Op.create.inj (hop.trans hop')
          obtain rfl := RepoResult.created.inj hr
          refine ⟨_, mem_applyWrite_insert.mpr (Or.inr rfl), rfl, ?_⟩
          rw [hop']
          rfl
      | update row | delete row | nothing =>
          rw [hw] at hr
          cases hr

/-- The statement deletes a row of the key. -/
def Db.Deletes (db : Db) (a : Action) (key : String) : Prop :=
  ∃ c row, db.committing a = some c ∧ c.write = .delete row ∧ row.key = key

/-- The key has a row of the id. -/
def Db.HasId (db : Db) (key id : String) : Prop :=
  ∃ r ∈ db.flags, r.key = key ∧ r.id = id

/-- **A row stays, and keeps its id**, until it is deleted. -/
theorem Db.HasId.step {id : String} (h : DbInv db) (hr : db.HasId key id)
    (hs : FlagPlane.step db a = some db') (hkeep : ¬ db.Deletes a key) : db'.HasId key id := by
  obtain ⟨r, hr, rfl, rfl⟩ := hr
  rcases step_tables hs with ⟨-, hflags, -⟩ | ⟨t, c, rfl, ht, hc, rfl⟩
  · exact ⟨r, hflags ▸ hr, rfl, rfl⟩
  have hfit := h.write_fits ht
  by_cases hother : ∀ row, c.write.row? = some row → r.id ≠ row.id
  · exact ⟨r, mem_applyWrite_of_ne hfit hr hother, rfl, rfl⟩
  push Not at hother
  obtain ⟨row, hrow, hid⟩ := hother
  cases hw : c.write with
  | insert row' =>
      rw [hw] at hrow hfit
      obtain rfl := Option.some.inj hrow
      exact absurd hid (hfit r hr).1
  | update row' =>
      rw [hw] at hrow hfit
      obtain rfl := Option.some.inj hrow
      obtain ⟨old, hold, hoid, hokey⟩ := hfit
      obtain rfl := h.table.eq_of_id hr hold (hid.trans hoid.symm)
      exact ⟨row', h.mem_committed ht (Or.inr hw), hokey.symm, hoid.symm⟩
  | delete row' =>
      rw [hw] at hrow hfit
      obtain rfl := Option.some.inj hrow
      obtain rfl := h.table.eq_of_id hr hfit hid
      exact absurd ⟨c, r, hc, hw, rfl⟩ hkeep
  | nothing =>
      rw [hw] at hrow
      cases hrow

end Database

/-! ### What an id is worth -/

/-- Call `k` of `EnsureFlag` has begun and not returned. -/
def Toolkit.Running (s : Toolkit) (k : Nat) (flagKey : String) : Prop :=
  ∃ stage, s.ensures k = some (flagKey, stage) ∧ ∀ r, stage ≠ .returned r

/-- At some moment at which call `k` ran, the id was the flag's. -/
def SeenBy (trs : List (Transition Toolkit ToolkitAction)) (k : Nat) (flagKey id : String) : Prop :=
  ∃ tr ∈ trs, tr.post.Running k flagKey ∧ tr.post.service.db.HasId flagKey id

/-- The action deletes a row of the key. -/
def Toolkit.Deletes (s : Toolkit) (a : ToolkitAction) (flagKey : String) : Prop :=
  ∃ b, a = .service (.repo b) ∧ s.service.db.Deletes b flagKey

/-- What a call may rely on at its stage. -/
def EnsureStage.Sound (trs : List (Transition Toolkit ToolkitAction)) (s : Service) (k : Nat)
    (flagKey : String) : EnsureStage → Prop
  | .posted t => ∃ req stage, req.key = flagKey ∧ s.calls t = some (.createFlag req, stage) ∧
      ∀ f, s.db.txs t = some ⟨.create (newFlag req), .returned (.created f)⟩ →
        SeenBy trs k flagKey f.id
  | .taken => True
  | .listed flags => ∃ db, DbInv db ∧ flags = listFlags db.flags ∧
      ∀ id, db.HasId flagKey id → SeenBy trs k flagKey id
  | .returned r => ∀ id, r = .id id → SeenBy trs k flagKey id

/-- What a run keeps. -/
structure EnsureInv (trs : List (Transition Toolkit ToolkitAction)) (s : Toolkit) : Prop where
  service : s.service.Reachable
  calls : ∀ k flagKey stage, s.ensures k = some (flagKey, stage) →
    stage.Sound trs s.service k flagKey

section Sound

variable {trs : List (Transition Toolkit ToolkitAction)} {s s' : Toolkit} {a : ToolkitAction}
  {k : Nat} {flagKey id : String} {stage : EnsureStage} {driver : String} {resp : HttpResponse}

theorem Service.Reachable.step {s s' : Service} {a : ServiceAction} (h : s.Reachable)
    (hs : serviceStep s a = some s') : s'.Reachable := by
  obtain ⟨rows, as, hrows, hrun⟩ := h
  exact ⟨rows, as ++ [a], hrows, exec_append_eq_some.mpr ⟨s, hrun, by rw [exec, hs]; rfl⟩⟩

theorem Service.Reachable.dbInv {s : Service} (h : s.Reachable) : DbInv s.db := by
  obtain ⟨rows, as, hrows, hrun⟩ := h
  exact (ServiceAccount.of_exec hrows hrun).inv.db

theorem SeenBy.append (h : SeenBy trs k flagKey id) (tr : Transition Toolkit ToolkitAction) :
    SeenBy (trs ++ [tr]) k flagKey id := by
  obtain ⟨tr', htr', hseen⟩ := h
  exact ⟨tr', List.mem_append_left _ htr', hseen⟩

theorem seenBy_last (hrun : s'.Running k flagKey) (hid : s'.service.db.HasId flagKey id) :
    SeenBy (trs ++ [⟨s, a, s'⟩]) k flagKey id :=
  ⟨_, List.mem_append_right _ (List.mem_singleton_self _), hrun, hid⟩

/-- A call that waits while the service does something, or nothing. -/
theorem EnsureStage.Sound.wait (h : stage.Sound trs s.service k flagKey)
    (hreach : s.service.Reachable)
    (hs : s'.service = s.service ∨ ∃ b, serviceStep s.service b = some s'.service)
    (hk : s'.ensures k = some (flagKey, stage)) :
    stage.Sound (trs ++ [⟨s, a, s'⟩]) s'.service k flagKey := by
  cases stage with
  | posted t =>
      obtain ⟨req, stage, hkey, hcall, hseen⟩ := h
      rcases hs with hs | ⟨b, hs⟩
      · rw [hs]
        exact ⟨req, stage, hkey, hcall, fun f hf => (hseen f hf).append _⟩
      obtain ⟨stage', hcall'⟩ := serviceStep_call hs hcall
      refine ⟨req, stage', hkey, hcall', fun f hf => ?_⟩
      rcases serviceStep_db hs with hdb | ⟨c, hdb⟩
      · rw [hdb] at hf
        exact (hseen f hf).append _
      rcases step_created hreach.dbInv hdb hf with hold | ⟨r, hr, hrkey, hrid⟩
      · exact (hseen f hold).append _
      · exact seenBy_last ⟨_, hk, by simp⟩ ⟨r, hr, hrkey.trans hkey, hrid⟩
  | taken => trivial
  | listed flags =>
      obtain ⟨db, hdb, hflags, hseen⟩ := h
      exact ⟨db, hdb, hflags, fun id hid => (hseen id hid).append _⟩
  | returned r => exact fun id hid => (h id hid).append _

/-- The answer to a `POST` that was accepted. -/
theorem answer_created {t : TxId} {req : CreateFlagRequest} {serviceStage : ServiceStage}
    (hreach : s.service.Reachable)
    (hcall : s.service.calls t = some (.createFlag req, serviceStage))
    (hanswer : s.service.answer driver t = some resp) (hstatus : resp.status = 201) :
    ∃ f, resp = writeFlag 201 f ∧
      s.service.db.txs t = some ⟨.create (newFlag req), .returned (.created f)⟩ := by
  rw [Service.answer, hcall] at hanswer
  cases serviceStage with
  | checked | calling _ => cases hanswer
  | returned r =>
      have hcreated : (createFlagResponse driver r).map HttpResponse.status = some 201 := by
        rw [show createFlagResponse driver r = some resp from hanswer, Option.map_some, hstatus]
      obtain ⟨f, rfl⟩ := createFlagResponse_created.mp hcreated
      obtain rfl : writeFlag 201 f = resp := Option.some.inj hanswer
      refine ⟨f, rfl, ?_⟩
      rcases hreach.linked.answered t _ _ hcall with ⟨r', htx, hr⟩ | ⟨-, hown⟩
      · have hfit := hreach.resultsFit t _ _ htx
        cases r' with
        | created f' =>
            obtain rfl : f = f' := by simpa [RepoResult.response] using hr
            exact htx
        | flag f' =>
            obtain rfl : some f = f' := by simpa [RepoResult.response] using hr
            cases hfit
        | deleted _ | error _ => cases hr
      · cases hown

theorem EnsureStage.sound_afterPost {t : TxId}
    (h : (EnsureStage.posted t).Sound trs s.service k flagKey) (hreach : s.service.Reachable)
    (hanswer : s.service.answer driver t = some resp) :
    (EnsureStage.afterPost resp).Sound trs s.service k flagKey := by
  obtain ⟨req, serviceStage, hkey, hcall, hseen⟩ := h
  rw [EnsureStage.afterPost, ensureFlag]
  by_cases hstatus : resp.status = 201
  · obtain ⟨f, rfl, htx⟩ := answer_created hreach hcall hanswer hstatus
    simp only [hstatus, if_true, unmarshalID_flag]
    intro id hid
    obtain rfl := EnsureResult.id.inj hid
    exact hseen f htx
  · rw [if_neg hstatus]
    split_ifs
    · exact fun id hid => by cases hid
    · trivial

/-- A call goes on to its next stage; the service may take a step for it. -/
theorem EnsureInv.next (h : EnsureInv trs s)
    (hs : s'.service = s.service ∨ ∃ b, serviceStep s.service b = some s'.service)
    (hother : ∀ j, j ≠ k → s'.ensures j = s.ensures j)
    (hk : s'.ensures k = some (flagKey, stage))
    (hstage : stage.Sound (trs ++ [⟨s, a, s'⟩]) s'.service k flagKey) :
    EnsureInv (trs ++ [⟨s, a, s'⟩]) s' where
  service := by
    rcases hs with hs | ⟨b, hs⟩
    · exact hs ▸ h.service
    · exact h.service.step hs
  calls j key stage' hj := by
    by_cases hjk : j = k
    · subst hjk
      obtain ⟨rfl, rfl⟩ := Prod.mk.inj (Option.some.inj (hk.symm.trans hj))
      exact hstage
    · exact (h.calls j key stage' (hother j hjk ▸ hj)).wait h.service hs hj

end Sound

section Step

variable {trs : List (Transition Toolkit ToolkitAction)} {s s' : Toolkit} {a : ToolkitAction}
  {flagKey : String}

theorem Toolkit.setEnsure_self (s : Toolkit) (k : Nat) (flagKey : String) (stage : EnsureStage) :
    (s.setEnsure k flagKey stage).ensures k = some (flagKey, stage) :=
  Function.update_self ..

theorem Toolkit.setEnsure_of_ne (s : Toolkit) (flagKey : String) (stage : EnsureStage) {j k : Nat}
    (h : j ≠ k) : (s.setEnsure k flagKey stage).ensures j = s.ensures j :=
  Function.update_of_ne h _ _

/-- The outcomes of one action. -/
inductive ToolkitEffect (s : Toolkit) : ToolkitAction → Toolkit → Prop
  | service {a : ServiceAction} {service : Service} (hs : serviceStep s.service a = some service) :
      ToolkitEffect s (.service a) { s with service := service }
  | post {k : Nat} {flagKey : String} {t : TxId} {req : CreateFlagRequest} {service : Service}
      (hk : s.ensures k = none) (hkey : req.key = flagKey)
      (hs : serviceStep s.service (.request t (.createFlag req)) = some service) :
      ToolkitEffect s (.ensureFlag k flagKey t)
        ({ s with service := service }.setEnsure k flagKey (.posted t))
  | answered {k : Nat} {driver flagKey : String} {t : TxId} {resp : HttpResponse}
      (hk : s.ensures k = some (flagKey, .posted t))
      (hanswer : s.service.answer driver t = some resp) :
      ToolkitEffect s (.answered k driver) (s.setEnsure k flagKey (.afterPost resp))
  | list {k : Nat} {flagKey : String} (hk : s.ensures k = some (flagKey, .taken)) :
      ToolkitEffect s (.list k) (s.setEnsure k flagKey (.listed (listFlags s.service.db.flags)))
  | latest {k : Nat} {flagKey : String} {flags : List Flag}
      (hk : s.ensures k = some (flagKey, .listed flags)) :
      ToolkitEffect s (.latest k) (s.setEnsure k flagKey (.returned (flagByKey
        (some (listFlagsResponse flags (getLatestVersion s.service.db.events))) flagKey)))
  | fail {k : Nat} {flagKey : String} {stage : EnsureStage}
      (hk : s.ensures k = some (flagKey, stage)) (hstage : ∀ r, stage ≠ .returned r) :
      ToolkitEffect s (.fail k) (s.setEnsure k flagKey (.returned .failed))

/-- **Inversion of `toolkitStep`.** -/
theorem toolkitStep_effect (hs : toolkitStep s a = some s') : ToolkitEffect s a s' := by
  cases a with
  | service a =>
      obtain ⟨service, hservice, rfl⟩ := Option.map_eq_some_iff.mp hs
      exact .service hservice
  | ensureFlag k flagKey t =>
      rw [toolkitStep, createFlagRequest_ensureBody] at hs
      split at hs
      · rename_i req hk hreq
        obtain ⟨service, hservice, rfl⟩ := Option.map_eq_some_iff.mp hs
        exact .post hk (by rw [← Option.some.inj hreq]) hservice
      · cases hs
  | answered k driver =>
      rw [toolkitStep] at hs
      split at hs
      · rename_i flagKey t hk
        obtain ⟨resp, hanswer, rfl⟩ := Option.map_eq_some_iff.mp hs
        exact .answered hk hanswer
      · cases hs
  | list k =>
      rw [toolkitStep] at hs
      split at hs
      · rename_i flagKey hk
        obtain rfl := Option.some.inj hs
        exact .list hk
      · cases hs
  | latest k =>
      rw [toolkitStep] at hs
      split at hs
      · rename_i flagKey flags hk
        obtain rfl := Option.some.inj hs
        exact .latest hk
      · cases hs
  | fail k =>
      rw [toolkitStep] at hs
      split at hs
      · cases hs
      · cases hs
      · rename_i flagKey stage hstage hk
        obtain rfl := Option.some.inj hs
        exact .fail hk hstage

/-- A `POST` that has been sent has inserted nothing yet. -/
theorem request_fresh {s s' : Service} {t : TxId} {req : CreateFlagRequest}
    (hlinked : Linked s) (hs : serviceStep s (.request t (.createFlag req)) = some s') :
    (∃ stage, s'.calls t = some (.createFlag req, stage)) ∧
      ∀ op r, s'.db.txs t ≠ some ⟨op, .returned r⟩ := by
  have hnone : s.calls t = none → ∀ op r, s.db.txs t ≠ some ⟨op, .returned r⟩ := by
    intro hcall op r htx
    rw [hlinked.tx_none (Or.inl hcall)] at htx
    cases htx
  cases serviceStep_effect hs with
  | refuse hcall | pass hcall => exact ⟨⟨_, s.setCall_calls_self t _ _⟩, hnone hcall⟩
  | issue ha =>
      rcases ha with ⟨ha, -⟩ | ⟨ha, -⟩
      · obtain ⟨rfl, rfl⟩ := ServiceAction.request.inj ha
        refine ⟨⟨_, Service.setCall_calls_self _ t _ _⟩, fun op r htx => ?_⟩
        cases (returned_of_setStage htx).2
      · cases ha

/-- **Every action keeps what the calls rely on.** -/
theorem EnsureInv.step (h : EnsureInv trs s) (hs : toolkitStep s a = some s') :
    EnsureInv (trs ++ [⟨s, a, s'⟩]) s' := by
  cases toolkitStep_effect hs with
  | @service b service hservice =>
      exact ⟨h.service.step hservice, fun k key stage hk =>
        (h.calls k key stage hk).wait h.service (Or.inr ⟨b, hservice⟩) hk⟩
  | @post k key t req service hk hkey hservice =>
      obtain ⟨⟨stage, hcall⟩, hfresh⟩ := request_fresh h.service.linked hservice
      refine h.next (Or.inr ⟨_, hservice⟩) (fun j hj => Toolkit.setEnsure_of_ne _ _ _ hj)
        (Toolkit.setEnsure_self _ k key _) ⟨req, stage, hkey, hcall, fun f hf => ?_⟩
      exact absurd hf (hfresh _ _)
  | @answered k driver key t resp hk hanswer =>
      refine h.next (Or.inl rfl) (fun j hj => s.setEnsure_of_ne _ _ hj) (s.setEnsure_self k key _)
        ?_
      have hsound := EnsureStage.sound_afterPost (h.calls k key _ hk) h.service hanswer
      exact hsound.wait h.service (Or.inl rfl) (s.setEnsure_self k key _)
  | @list k key hk =>
      refine h.next (Or.inl rfl) (fun j hj => s.setEnsure_of_ne _ _ hj) (s.setEnsure_self k key _)
        ⟨s.service.db, h.service.dbInv, rfl, fun id hid => ?_⟩
      exact seenBy_last ⟨_, s.setEnsure_self k key _, by simp⟩ hid
  | @latest k key flags hk =>
      refine h.next (Or.inl rfl) (fun j hj => s.setEnsure_of_ne _ _ hj) (s.setEnsure_self k key _)
        fun id hid => ?_
      obtain ⟨db, hdb, rfl, hseen⟩ := h.calls k key _ hk
      rw [flagByKey_response hdb h.service.dbInv] at hid
      cases hrow : findByKey db.flags key with
      | none =>
          rw [hrow] at hid
          cases hid
      | some r =>
          rw [hrow] at hid
          obtain rfl := EnsureResult.id.inj hid
          obtain ⟨hr, hrkey⟩ := hdb.table.findByKey_eq_some.mp hrow
          exact (hseen r.id ⟨r, hr, hrkey, rfl⟩).append _
  | @fail k key stage hk =>
      exact h.next (Or.inl rfl) (fun j hj => s.setEnsure_of_ne _ _ hj) (s.setEnsure_self k key _)
        fun id hid => by cases hid

/-- A row stays, as the toolkit sees it. -/
theorem Db.HasId.toolkitStep {id : String} (h : s.service.Reachable)
    (hid : s.service.db.HasId flagKey id) (hs : FlagPlane.toolkitStep s a = some s')
    (hkeep : ¬ s.Deletes a flagKey) : s'.service.db.HasId flagKey id := by
  have hservice : ∀ {b : ServiceAction} {service : Service},
      serviceStep s.service b = some service →
      (∀ c, b = .repo c → a = .service b) → service.db.HasId flagKey id := by
    intro b service hb ha
    cases serviceStep_effect hb with
    | @repo c db' hc hdb =>
        exact hid.step h.dbInv hdb fun hdel => hkeep ⟨c, ha c rfl, hdel⟩
    | refuse | pass | duplicate | notFound | failLookup | issue | respond => exact hid
  cases toolkitStep_effect hs with
  | service hb => exact hservice hb fun _ _ => rfl
  | post _ _ hb => exact hservice hb fun c hc => by cases hc
  | answered | list | latest | fail => exact hid

end Step

/-! ### A flag that nobody deletes -/

/-- What a call comes back to while its flag stays. -/
def EnsureStage.Finds (db : Db) (flagKey : String) : EnsureStage → Prop
  | .posted _ => True
  | .taken => ∃ id, db.HasId flagKey id
  | .listed flags => ∃ db, DbInv db ∧ flags = listFlags db.flags ∧ ∃ id, db.HasId flagKey id
  | .returned r => r ≠ .notFound

/-- What a run keeps in which nobody deletes the flag: whoever is told of a taken key has it to
find. -/
structure Lasting (flagKey : String) (s : Toolkit) : Prop where
  told : ∀ t req, s.service.calls t = some (.createFlag req, .returned (.invalid "duplicate_key")) →
    req.key = flagKey → ∃ id, s.service.db.HasId flagKey id
  calls : ∀ k stage, s.ensures k = some (flagKey, stage) → stage.Finds s.service.db flagKey

section Lasting

variable {trs : List (Transition Toolkit ToolkitAction)} {s s' : Toolkit} {a : ToolkitAction}
  {k : Nat} {flagKey driver : String} {stage : EnsureStage} {resp : HttpResponse}

/-- The driver does not use the service's text for a taken key. -/
def ToolkitAction.Plain (a : ToolkitAction) : Prop :=
  ∀ k driver, a = .answered k driver → containsText driver "duplicate_key" = false

/-- A 409 stands for the lookup that has found the key taken. -/
theorem duplicate_of_conflict {req : CreateFlagRequest} {r : ServiceResult} {s : Service} {t : TxId}
    (hlinked : Linked s) (hcall : s.calls t = some (.createFlag req, .returned r))
    (hdriver : containsText driver "duplicate_key" = false)
    (hresp : createFlagResponse driver r = some resp) (hstatus : resp.status = 409) :
    r = .invalid "duplicate_key" := by
  have herror : ∀ text, containsText text "duplicate_key" = false →
      createFlagError text ≠ resp := by
    rintro text htext rfl
    rw [createFlagError, htext, if_neg Bool.false_ne_true] at hstatus
    split_ifs at hstatus <;> cases hstatus
  cases r with
  | flag flag =>
      cases flag with
      | none => cases hresp
      | some flag =>
          obtain rfl : writeFlag 201 flag = resp := Option.some.inj hresp
          cases hstatus
  | deleted => cases hresp
  | invalid text =>
      rcases hlinked.answered t _ _ hcall with ⟨r', -, hr⟩ | ⟨-, hown⟩
      · cases r' <;> cases hr
      · cases hown with
        | refused hcheck =>
            have hrefused := response_refused hcheck driver
            obtain rfl : validationError text = resp :=
              Option.some.inj (hrefused.symm.trans hresp)
            cases hstatus
        | duplicate => rfl
  | failed err =>
      have htext : createFlagError (err.text driver) = resp := Option.some.inj hresp
      cases err with
      | versionConflict | flagNotFound =>
          exact absurd htext (herror _ (by rw [RepoError.text]; decide))
      | uniqueViolation =>
          have htaken := createFlagResponse_uniqueViolation driver
          obtain rfl := Option.some.inj (htaken.symm.trans hresp)
          cases hstatus
      | constraintViolation | other => exact absurd htext (herror _ hdriver)

/-- Whoever the service has told of a taken key. -/
theorem Lasting.told_step {s s' : Service} {b : ServiceAction}
    (h : ∀ t req, s.calls t = some (.createFlag req, .returned (.invalid "duplicate_key")) →
      req.key = flagKey → ∃ id, s.db.HasId flagKey id)
    (hreach : s.Reachable) (hs : serviceStep s b = some s')
    (hlasts : ∀ id, s.db.HasId flagKey id → s'.db.HasId flagKey id) (t : TxId)
    (req : CreateFlagRequest)
    (ht : s'.calls t = some (.createFlag req, .returned (.invalid "duplicate_key")))
    (hkey : req.key = flagKey) : ∃ id, s'.db.HasId flagKey id := by
  have hold : s.calls t = some (.createFlag req, .returned (.invalid "duplicate_key")) →
      ∃ id, s'.db.HasId flagKey id := fun ht => (h t req ht hkey).imp hlasts
  cases serviceStep_effect hs with
  | @refuse u call text hcall hcheck =>
      rcases update_some_cases ht with ⟨-, heq⟩ | ⟨-, ht⟩
      · obtain ⟨-, hstage⟩ := Prod.mk.inj heq
        obtain rfl := ServiceResult.invalid.inj (ServiceStage.returned.inj hstage)
        have hnot : "duplicate_key" ∉ checkTexts := by decide
        exact absurd (check_text hcheck) hnot
      · exact hold ht
  | @duplicate u req' hcall hfound =>
      rcases update_some_cases ht with ⟨-, heq⟩ | ⟨-, ht⟩
      · obtain rfl : req = req' := by simpa using (Prod.mk.inj heq).1
        obtain ⟨r, hr⟩ := Option.isSome_iff_exists.mp hfound
        obtain ⟨hmem, hrkey⟩ := hreach.dbInv.table.findByKey_eq_some.mp hr
        exact ⟨r.id, r, hmem, hrkey.trans hkey, rfl⟩
      · exact hold ht
  | @respond u call key op r hcall htx =>
      rcases update_some_cases ht with ⟨-, heq⟩ | ⟨-, ht⟩
      · obtain ⟨-, hstage⟩ := Prod.mk.inj heq
        cases r <;> cases ServiceStage.returned.inj hstage
      · exact hold ht
  | notFound =>
      rcases update_some_cases ht with ⟨-, heq⟩ | ⟨-, ht⟩
      · cases (Prod.mk.inj heq).1
      · exact hold ht
  | pass | failLookup | issue =>
      rcases update_some_cases ht with ⟨-, heq⟩ | ⟨-, ht⟩
      · cases (Prod.mk.inj heq).2
      · exact hold ht
  | repo => exact hold ht

theorem EnsureStage.Finds.mono {db db' : Db} (h : stage.Finds db flagKey)
    (hlasts : ∀ id, db.HasId flagKey id → db'.HasId flagKey id) : stage.Finds db' flagKey := by
  cases stage with
  | posted t => trivial
  | taken => exact h.imp hlasts
  | listed flags => exact h
  | returned r => exact h

/-- The answer to a `POST` sends a call to look for its flag only if there is one. -/
theorem Lasting.afterPost {t : TxId} (h : Lasting flagKey s)
    (hsound : (EnsureStage.posted t).Sound trs s.service k flagKey) (hreach : s.service.Reachable)
    (hanswer : s.service.answer driver t = some resp)
    (hdriver : containsText driver "duplicate_key" = false) :
    (EnsureStage.afterPost resp).Finds s.service.db flagKey := by
  obtain ⟨req, serviceStage, hkey, hcall, -⟩ := hsound
  rw [EnsureStage.afterPost, ensureFlag]
  split_ifs with hcreated hconflict
  · dsimp only
    split <;> simp [EnsureStage.Finds]
  · simp [EnsureStage.Finds]
  · rw [Service.answer, hcall] at hanswer
    cases serviceStage with
    | checked | calling _ => cases hanswer
    | returned r =>
        obtain rfl := duplicate_of_conflict hreach.linked hcall hdriver hanswer
          (not_not.mp hconflict)
        exact h.told t req hcall hkey

/-- **Every action keeps the flag to be found.** -/
theorem Lasting.step (h : Lasting flagKey s) (hinv : EnsureInv trs s)
    (hs : toolkitStep s a = some s') (hkeep : ¬ s.Deletes a flagKey) (hplain : a.Plain) :
    Lasting flagKey s' := by
  have hlasts : ∀ id, s.service.db.HasId flagKey id → s'.service.db.HasId flagKey id :=
    fun id hid => hid.toolkitStep hinv.service hs hkeep
  -- call `k`, of the key `key`, goes on to its next stage
  have hnext : ∀ {k : Nat} {key : String} {stage : EnsureStage},
      (∀ j, j ≠ k → s'.ensures j = s.ensures j) → s'.ensures k = some (key, stage) →
      (key = flagKey → stage.Finds s'.service.db flagKey) →
      ∀ j stage, s'.ensures j = some (flagKey, stage) → stage.Finds s'.service.db flagKey := by
    intro k key stage hother hk hstage j stage' hj
    by_cases hjk : j = k
    · subst hjk
      obtain ⟨rfl, rfl⟩ := Prod.mk.inj (Option.some.inj (hk.symm.trans hj))
      exact hstage rfl
    · exact (h.calls j stage' (hother j hjk ▸ hj)).mono hlasts
  cases toolkitStep_effect hs with
  | @service b service hservice =>
      exact ⟨Lasting.told_step h.told hinv.service hservice hlasts, fun k stage hk =>
        (h.calls k stage hk).mono hlasts⟩
  | @post k key t req service hk hkey hservice =>
      exact ⟨Lasting.told_step h.told hinv.service hservice hlasts,
        hnext (fun j hj => Toolkit.setEnsure_of_ne _ _ _ hj) (Toolkit.setEnsure_self _ k key _)
          fun _ => trivial⟩
  | @answered k driver key t resp hk hanswer =>
      refine ⟨h.told, hnext (fun j hj => s.setEnsure_of_ne _ _ hj) (s.setEnsure_self k key _) ?_⟩
      rintro rfl
      exact h.afterPost (hinv.calls k key _ hk) hinv.service hanswer (hplain k driver rfl)
  | @list k key hk =>
      refine ⟨h.told, hnext (fun j hj => s.setEnsure_of_ne _ _ hj) (s.setEnsure_self k key _) ?_⟩
      rintro rfl
      exact ⟨s.service.db, hinv.service.dbInv, rfl, h.calls k _ hk⟩
  | @latest k key flags hk =>
      refine ⟨h.told, hnext (fun j hj => s.setEnsure_of_ne _ _ hj) (s.setEnsure_self k key _) ?_⟩
      rintro rfl
      obtain ⟨db, hdb, rfl, id, r, hr, hrkey, -⟩ := h.calls k _ hk
      show flagByKey _ key ≠ .notFound
      rw [flagByKey_response hdb hinv.service.dbInv, hdb.table.findByKey_eq_some.mpr ⟨hr, hrkey⟩]
      simp
  | @fail k key stage hk =>
      exact ⟨h.told, hnext (fun j hj => s.setEnsure_of_ne _ _ hj) (s.setEnsure_self k key _)
        fun _ => by simp [EnsureStage.Finds]⟩

end Lasting

/-! ### The toolkit's promise -/

/-- **What `EnsureFlag` is worth**, at the end of a run. -/
structure EnsuresFlag (trs : List (Transition Toolkit ToolkitAction)) (s : Toolkit)
    (flagKey : String) : Prop where
  /-- An id that is returned was the flag's while the call ran. -/
  seen : ∀ k id, s.ensures k = some (flagKey, .returned (.id id)) → SeenBy trs k flagKey id
  /-- While nobody deletes the flag, every call returns the id that it still has. -/
  agree : (∀ tr ∈ trs, ¬ tr.pre.Deletes tr.act flagKey) →
    ∀ k id, s.ensures k = some (flagKey, .returned (.id id)) →
      (findByKey s.service.db.flags flagKey).map FlagRow.id = some id
  /-- And no call comes back to find that there is no such flag. -/
  finds : (∀ tr ∈ trs, ¬ tr.pre.Deletes tr.act flagKey ∧ tr.act.Plain) →
    ∀ k, s.ensures k ≠ some (flagKey, .returned .notFound)

/-- What a run keeps for one flag. -/
structure EnsureRun (flagKey : String) (trs : List (Transition Toolkit ToolkitAction))
    (s : Toolkit) : Prop where
  inv : EnsureInv trs s
  lasts : (∀ tr ∈ trs, ¬ tr.pre.Deletes tr.act flagKey) →
    ∀ k id, SeenBy trs k flagKey id → s.service.db.HasId flagKey id
  lasting : (∀ tr ∈ trs, ¬ tr.pre.Deletes tr.act flagKey ∧ tr.act.Plain) → Lasting flagKey s

section Promise

variable {trs : List (Transition Toolkit ToolkitAction)} {s s' : Toolkit} {a : ToolkitAction}
  {flagKey : String}

theorem EnsureRun.step (h : EnsureRun flagKey trs s) (hs : toolkitStep s a = some s') :
    EnsureRun flagKey (trs ++ [⟨s, a, s'⟩]) s' where
  inv := h.inv.step hs
  lasts hkeep k id hseen := by
    rw [List.forall_mem_append, List.forall_mem_singleton] at hkeep
    obtain ⟨tr, htr, hrun, hid⟩ := hseen
    rcases List.mem_append.mp htr with htr | htr
    · exact (h.lasts hkeep.1 k id ⟨tr, htr, hrun, hid⟩).toolkitStep h.inv.service hs hkeep.2
    · obtain rfl := List.mem_singleton.mp htr
      exact hid
  lasting hkeep := by
    rw [List.forall_mem_append, List.forall_mem_singleton] at hkeep
    exact (h.lasting hkeep.1).step h.inv hs hkeep.2.1 hkeep.2.2

theorem EnsureRun.migrated {rows : List FlagRow} (hrows : Migrated rows) :
    EnsureRun flagKey [] (Toolkit.migrated rows) where
  inv := ⟨⟨rows, [], hrows, rfl⟩, fun _ _ _ hk => by cases hk⟩
  lasts _ _ _ hseen := by
    obtain ⟨tr, htr, -⟩ := hseen
    cases htr
  lasting _ := ⟨fun _ _ ht => (nomatch ht), fun _ _ hk => (nomatch hk)⟩

theorem EnsureRun.ensuresFlag (h : EnsureRun flagKey trs s) : EnsuresFlag trs s flagKey where
  seen k id hk := h.inv.calls k flagKey _ hk id rfl
  agree hkeep k id hk := by
    obtain ⟨r, hr, hkey, rfl⟩ := h.lasts hkeep k id (h.inv.calls k flagKey _ hk id rfl)
    rw [h.inv.service.dbInv.table.findByKey_eq_some.mpr ⟨hr, hkey⟩]
    rfl
  finds hkeep k hk := (h.lasting hkeep).calls k _ hk rfl

end Promise

/-- **`EnsureFlag`.** From any table migration 002 can leave, with any number of calls at once,
whatever else is written meanwhile and whichever requests fail. -/
theorem ensure_flag {rows : List FlagRow} {as : List ToolkitAction} {s : Toolkit}
    (hrows : Migrated rows) (hrun : exec toolkitStep (Toolkit.migrated rows) as = some s)
    (flagKey : String) :
    EnsuresFlag (transitions toolkitStep (Toolkit.migrated rows) as) s flagKey :=
  (exec_history (fun h hs => h.step hs) (EnsureRun.migrated hrows) hrun).ensuresFlag

/-- Two calls for `checkout`: one creates it, the other one is told of it and looks it up, while
the flag is toggled. -/
def ensuredTwice : List ToolkitAction :=
  [.ensureFlag 0 "checkout" 0, .ensureFlag 1 "checkout" 1, .service (.lookup 0),
    .service (.repo (.begin 0 1)), .service (.repo (.nextval 0)), .service (.repo (.insert 0 "u")),
    .service (.repo (.appendEvent 0)), .service (.repo (.commit 0)), .service (.lookup 1),
    .service (.respond 0), .answered 1 "", .list 1, .answered 0 "",
    .service (.request 2 (.toggleFlag "u")), .service (.repo (.begin 2 2)), .latest 1]

theorem ensure_flag_ensuredTwice :
    ∃ s, exec toolkitStep (Toolkit.migrated []) ensuredTwice = some s ∧
      s.ensures 1 = some ("checkout", .returned (.id "u")) ∧
      EnsuresFlag (transitions toolkitStep (Toolkit.migrated []) ensuredTwice) s "checkout" := by
  have hrun : (exec toolkitStep (Toolkit.migrated []) ensuredTwice).bind (·.ensures 1) =
      some ("checkout", .returned (.id "u")) := by
    decide
  obtain ⟨s, hs, hk⟩ := Option.bind_eq_some_iff.mp hrun
  exact ⟨s, hs, hk, ensure_flag migrated_nil hs "checkout"⟩

end FlagPlane
