import FlagPlane.Handler.ConditionalPut

/-!
# FlagPlane.Frontend.EditForm

**The flag detail page and its edit form.** The page reads its flag from the query cache, where
every refetch replaces it; the form copies the flag into local state when it mounts and not again.
A save sends the form's values under the version of the cached flag. So the version that guards the
`UPDATE` and the values that it writes come from two copies of the flag, and a refetch between the
two, such as the one after a 409, makes the guard say nothing about the values.

The page runs beside the service. Everybody else's requests, and the statements of every call, the
page's own among them, are actions of the service.
-/

namespace FlagPlane

/-! ### Images of a row -/

/-- `r` is in the table or has been there: whichever row has its id and its version is `r`. -/
structure RowImage (db : Db) (r : FlagRow) : Prop where
  known : KeyKnown db r.id r.key
  logged : r.version = 0 ∨ ∃ e ∈ db.events, e.version = r.version
  current : ∀ r' ∈ db.flags, r'.id = r.id → r'.version = r.version → r' = r

section Images

variable {db db' : Db} {r : FlagRow}

theorem DbInv.rowImage (h : DbInv db) (hr : r ∈ db.flags) : RowImage db r where
  known := h.keyKnown hr
  logged := (h.rowEvent r hr).imp_right fun ⟨e, he, hv, _⟩ => ⟨e, he, hv⟩
  current _ hr' hid _ := h.table.eq_of_id hr' hr hid

/-- What was an image stays one. -/
theorem RowImage.step (h : DbInv db) (hr : RowImage db r) {a : Action}
    (hs : step db a = some db') : RowImage db' r := by
  refine ⟨hr.known.step h hs, hr.logged.imp_right ?_, ?_⟩
  · intro hlogged
    obtain ⟨e, he, hv⟩ := hlogged
    exact ⟨e, step_events hs he, hv⟩
  intro r' hr' hid hv
  rcases step_tables hs with ⟨-, hflags, -⟩ | ⟨t, c, -, ht, -, rfl⟩
  · exact hr.current r' (hflags ▸ hr') hid hv
  rcases mem_of_mem_applyWrite (h.write_fits ht) hr' with hold | hw | hw
  · exact hr.current r' hold hid hv
  · exact absurd hid (hr.known.inserts t _ c.locals r' ht (by rw [← hw]; rfl))
  · -- a row just written has a version that no image has
    obtain ⟨hpos, hnew⟩ := h.version_new ht
    have hrow : r'.version = c.locals.version := ((h.writeInv ht).rowEvent (Or.inr hw)).1
    rcases hr.logged with hzero | ⟨e, he, hev⟩
    · omega
    · exact absurd (hev.trans (hv.symm.trans hrow)) (hnew e he)

theorem RowImage.version_inInt64 (h : DbInv db) (hr : RowImage db r) : Json.InInt64 r.version :=
  h.inInt64_of_logged hr.logged

end Images

/-! ### The form -/

/-- `UpdateFlagInput`, with all fields set. -/
structure UpdateFlagInput where
  description : String
  enabled : Bool
  rolloutPercentage : Int
  targetedUsers : List String
  deriving DecidableEq, Repr

inductive FormField
  | description
  | enabled
  | rolloutPercentage
  | targetedUsers
  deriving DecidableEq, Repr

/-- A call of one of the form's setters. `RolloutSlider` calls its one when its value has stood
still for 200 ms. -/
inductive FieldEdit
  | setDescription (description : String)
  | setEnabled (enabled : Bool)
  | setRolloutPercentage (rolloutPercentage : Int)
  | setTargetedUsers (targetedUsers : List String)

def FieldEdit.field : FieldEdit → FormField
  | setDescription _ => .description
  | setEnabled _ => .enabled
  | setRolloutPercentage _ => .rolloutPercentage
  | setTargetedUsers _ => .targetedUsers

def FieldEdit.apply (fields : UpdateFlagInput) : FieldEdit → UpdateFlagInput
  | setDescription description => { fields with description := description }
  | setEnabled enabled => { fields with enabled := enabled }
  | setRolloutPercentage rolloutPercentage =>
    { fields with rolloutPercentage := rolloutPercentage }
  | setTargetedUsers targetedUsers => { fields with targetedUsers := targetedUsers }

/-- What the form takes of a flag. -/
def FlagResponse.input (flag : FlagResponse) : UpdateFlagInput :=
  ⟨flag.description, flag.enabled, flag.rolloutPercentage, flag.targetedUsers⟩

/-- The columns that the form is about. -/
def FlagRow.input (row : FlagRow) : UpdateFlagInput :=
  ⟨row.description, row.enabled, row.rolloutPercentage, row.targetedUsers⟩

/-- A mounted `FlagForm`, and its history. -/
structure FlagForm where
  fields : UpdateFlagInput
  /-- What the fields were when the form mounted. -/
  loaded : UpdateFlagInput
  /-- The fields that have been edited since. -/
  touched : List FormField

namespace FlagForm

/-- The `useState` calls. -/
def mount (flag : FlagResponse) : FlagForm := ⟨flag.input, flag.input, []⟩

def edit (form : FlagForm) (e : FieldEdit) : FlagForm :=
  { form with fields := e.apply form.fields, touched := e.field :: form.touched }

/-- `validate`, in an edit. -/
def validate (form : FlagForm) : Bool :=
  decide (0 ≤ form.fields.rolloutPercentage ∧ form.fields.rolloutPercentage ≤ 100)

end FlagForm

/-- `JSON.stringify` of the input. -/
def UpdateFlagInput.toJson (input : UpdateFlagInput) : Json :=
  .obj [("description", .str input.description), ("enabled", .bool input.enabled),
    ("rollout_percentage", .int input.rolloutPercentage),
    ("targeted_users", .arr (input.targetedUsers.map .str))]

/-- The `If-Match` header of `updateFlag`, which `proxyAdmin` passes on. -/
def ifMatchHeader (expectedVersion : Int) : String :=
  String.ofList ('"' :: renderInt expectedVersion ++ ['"'])

/-- The request that such a `PUT` is. -/
def UpdateFlagInput.request (input : UpdateFlagInput) (expectedVersion : Int) : UpdateFlagRequest :=
  ⟨some input.description, some input.enabled, some input.rolloutPercentage,
    some input.targetedUsers, some expectedVersion⟩

section Requests

variable {input : UpdateFlagInput} {v : Int}

theorem trimQuotes_quoted {text : List Char} (h : '"' ∉ text) (hne : text ≠ []) :
    trimQuotes ('"' :: text ++ ['"']) = text := by
  have hhead : (text ++ ['"']).dropWhile (· = '"') = text ++ ['"'] := by
    obtain ⟨c, text, rfl⟩ := List.exists_cons_of_ne_nil hne
    rw [List.mem_cons, not_or] at h
    rw [List.cons_append, List.dropWhile_cons_of_neg (by simpa using Ne.symm h.1)]
  have hlast : text.rdropWhile (· = '"') = text := by
    rw [List.rdropWhile_eq_self_iff]
    intro hne
    have hlast : text.getLast hne ≠ '"' := fun heq => h (heq ▸ List.getLast_mem hne)
    simpa using hlast
  rw [trimQuotes, List.cons_append, List.dropWhile_cons_of_pos (by decide), hhead,
    List.rdropWhile_concat_pos _ _ _ (by decide), hlast]

/-- The header names the version. -/
theorem ifMatchVersion_ifMatchHeader (hv : Json.InInt64 v) :
    ifMatchVersion (ifMatchHeader v) = some v := by
  have hquote : '"' ∉ renderInt v := by
    intro hmem
    have hnumber := isNumberChar_renderInt v '"' hmem
    simp [isNumberChar] at hnumber
  rw [ifMatchVersion, ifMatchHeader, String.toList_ofList,
    trimQuotes_quoted hquote (renderInt_ne_nil v)]
  simpa [renderInt_ne_nil v] using parseInt64_renderInt hv

/-- The handler reads the request as it was meant. -/
theorem updateFlagRequest_input (hv : Json.InInt64 v) (hp : Json.InInt64 input.rolloutPercentage) :
    updateFlagRequest (ifMatchHeader v) (some input.toJson) = some (input.request v) := by
  simp (disch := decide) [updateFlagRequest, UpdateFlagInput.toJson, Json.decodeStruct,
    UpdateFlagRequest.setField, Json.decodePointer, Json.decodeBool, Json.decodeInt_int hp,
    Json.foldName_of_plain, ifMatchVersion_ifMatchHeader hv, UpdateFlagInput.request]

end Requests

/-! ### The page -/

/-- A refetch of the flag's query. -/
inductive FlagFetch
  | idle
  /-- `getFlag` is sent. -/
  | sent
  /-- `GetFlag` has answered; `none` is a 404 or an error. -/
  | answered (flag : Option FlagResponse)

/-- The service, and the detail page of one flag. -/
structure FlagDetailPage where
  service : Service
  /-- The data of the query `["flags", id]`. -/
  cache : Option FlagResponse
  fetch : FlagFetch
  form : Option FlagForm
  /-- The `PUT` that `updateFlag.isPending` is about. -/
  pending : Option TxId

inductive PageAction
  /-- A request of somebody else, or a step of any call. -/
  | service (a : ServiceAction)
  /-- The flag's query is fetched, for the first time or because it is invalidated; a fetch that is
  under way is given up. -/
  | refetch
  /-- `GetFlag` reads the row. -/
  | getFlag
  | getFlagFails
  /-- The answer is there. An error leaves the data as they are. -/
  | receive
  /-- The data are dropped. -/
  | removeQueries
  /-- The page shows the form. -/
  | mount
  | unmount
  | edit (e : FieldEdit)
  /-- `handleSubmit`, as call `t` of the service. -/
  | submit (t : TxId)
  /-- The response to the `PUT` is there: `onSuccess` or `onError`, which both invalidate. -/
  | settle
  /-- There will be none. -/
  | connectionLost

namespace FlagDetailPage

/-- The page right after migration 002. -/
def migrated (rows : List FlagRow) : FlagDetailPage :=
  ⟨Service.migrated rows, none, .idle, none, none⟩

/-- `handleSubmit` of the form and of the page: the values are the form's, the version is that of
the cached flag. -/
def submit (id : String) (s : FlagDetailPage) (t : TxId) (form : FlagForm) (flag : FlagResponse) :
    Option FlagDetailPage :=
  (updateFlagRequest (ifMatchHeader flag.version) (some form.fields.toJson)).bind fun req =>
    (serviceStep s.service (.request t (.updateFlag id req))).map fun service =>
      { s with service := service, pending := some t }

end FlagDetailPage

/-- A step of the page of flag `id`, or of the service. -/
def pageStep (id : String) (s : FlagDetailPage) : PageAction → Option FlagDetailPage
  | .service a => (serviceStep s.service a).map fun service => { s with service := service }
  | .refetch => some { s with fetch := .sent }
  | .getFlag =>
    match s.fetch with
    | .sent =>
      some { s with fetch := .answered ((getByID s.service.db.flags id).map Flag.toResponse) }
    | _ => none
  | .getFlagFails =>
    match s.fetch with
    | .sent => some { s with fetch := .answered none }
    | _ => none
  | .receive =>
    match s.fetch with
    | .answered flag => some { s with fetch := .idle, cache := flag.or s.cache }
    | _ => none
  | .removeQueries => some { s with cache := none, fetch := .idle, form := none, pending := none }
  | .mount =>
    match s.form, s.cache with
    | none, some flag => some { s with form := some (FlagForm.mount flag) }
    | _, _ => none
  | .unmount => some { s with form := none, pending := none }
  | .edit e => s.form.map fun form => { s with form := some (form.edit e) }
  | .submit t =>
    match s.form, s.cache, s.pending with
    | some form, some flag, none => if form.validate then s.submit id t form flag else none
    | _, _, _ => none
  | .settle =>
    match s.pending with
    | some t =>
      match s.service.calls t with
      | some (_, .returned _) => some { s with pending := none, fetch := .sent }
      | _ => none
    | none => none
  | .connectionLost =>
    match s.pending with
    | some _ => some { s with pending := none, fetch := .sent }
    | none => none

/-- The page has the flag, or is about to. -/
def FlagDetailPage.HasFlag (s : FlagDetailPage) (flag : FlagResponse) : Prop :=
  s.cache = some flag ∨ s.fetch = .answered (some flag)

/-- A step of the page alone. -/
def PageAction.isLocal : PageAction → Bool
  | service _ | submit _ => false
  | _ => true

/-- What a step can do. -/
inductive PageEffect (id : String) (s : FlagDetailPage) : PageAction → FlagDetailPage → Prop
  | service {a : ServiceAction} {service : Service} (hs : serviceStep s.service a = some service) :
      PageEffect id s (.service a) { s with service := service }
  /-- The page moves. A flag that it has then it had before, or `GetFlag` has just read it. -/
  | page {a : PageAction} {s' : FlagDetailPage} (ha : a.isLocal = true)
      (hservice : s'.service = s.service)
      (hflags : ∀ flag, s'.HasFlag flag → s.HasFlag flag ∨
        ∃ row, findById s.service.db.flags id = some row ∧ flag = (scanFlag row).toResponse) :
      PageEffect id s a s'
  | submit {t : TxId} {form : FlagForm} {flag : FlagResponse} {req : UpdateFlagRequest}
      {service : Service} (hform : s.form = some form) (hcache : s.cache = some flag)
      (hvalid : form.validate = true)
      (hreq : updateFlagRequest (ifMatchHeader flag.version) (some form.fields.toJson) = some req)
      (hs : serviceStep s.service (.request t (.updateFlag id req)) = some service) :
      PageEffect id s (.submit t) { s with service := service, pending := some t }

section Step

variable {id : String} {s s' : FlagDetailPage} {a : PageAction}

theorem pageStep_effect (hs : pageStep id s a = some s') : PageEffect id s a s' := by
  -- the page moves and has no flag that it did not have
  have hkeeps : ∀ {s₁ : FlagDetailPage}, some s₁ = some s' → a.isLocal = true →
      s₁.service = s.service → (∀ flag, s₁.HasFlag flag → s.HasFlag flag) →
      PageEffect id s a s' := by
    intro s₁ heq ha hservice hflags
    obtain rfl := Option.some.inj heq
    exact .page ha hservice fun flag h => Or.inl (hflags flag h)
  cases a with
  | service a =>
      obtain ⟨service, hservice, rfl⟩ := Option.map_eq_some_iff.mp hs
      exact .service hservice
  | refetch => exact hkeeps hs rfl rfl fun _ h => h.imp_right nofun
  | getFlag =>
      rw [pageStep] at hs
      split at hs
      · obtain rfl := Option.some.inj hs
        refine .page rfl rfl fun flag h => ?_
        rcases h with h | h
        · exact Or.inl (Or.inl h)
        · obtain ⟨f, hf, rfl⟩ := Option.map_eq_some_iff.mp (FlagFetch.answered.inj h)
          obtain ⟨row, hrow, rfl⟩ := Option.map_eq_some_iff.mp hf
          exact Or.inr ⟨row, hrow, rfl⟩
      · cases hs
  | getFlagFails =>
      rw [pageStep] at hs
      split at hs
      · exact hkeeps hs rfl rfl fun _ h => h.imp_right nofun
      · cases hs
  | receive =>
      rw [pageStep] at hs
      split at hs
      · rename_i answer hfetch
        refine hkeeps hs rfl rfl fun flag h => ?_
        rcases h with h | h
        · cases answer with
          | none => exact Or.inl h
          | some flag' =>
              obtain rfl : flag' = flag := Option.some.inj h
              exact Or.inr hfetch
        · cases h
      · cases hs
  | removeQueries => exact hkeeps hs rfl rfl fun _ h => by simp [FlagDetailPage.HasFlag] at h
  | mount =>
      rw [pageStep] at hs
      split at hs
      · exact hkeeps hs rfl rfl fun _ h => h
      · cases hs
  | unmount => exact hkeeps hs rfl rfl fun _ h => h
  | edit e =>
      obtain ⟨form, -, rfl⟩ := Option.map_eq_some_iff.mp hs
      exact .page rfl rfl fun _ h => Or.inl h
  | submit t =>
      rw [pageStep] at hs
      split at hs
      · rename_i form flag hform hcache _
        split at hs
        · rename_i hvalid
          obtain ⟨req, hreq, hs⟩ := Option.bind_eq_some_iff.mp hs
          obtain ⟨service, hservice, rfl⟩ := Option.map_eq_some_iff.mp hs
          exact .submit hform hcache hvalid hreq hservice
        · cases hs
      · cases hs
  | settle =>
      rw [pageStep] at hs
      split at hs
      · split at hs
        · exact hkeeps hs rfl rfl fun _ h => h.imp_right nofun
        · cases hs
      · cases hs
  | connectionLost =>
      rw [pageStep] at hs
      split at hs
      · exact hkeeps hs rfl rfl fun _ h => h.imp_right nofun
      · cases hs

end Step

/-! ### Saves -/

/-- The submit of call `t`, and the commit of its `UPDATE`. No other submit is answered with 200
(`PageHistory.saves_of_ok`). -/
structure Saves (trs : List (Transition FlagDetailPage PageAction)) (t : TxId)
    (submit save : Transition FlagDetailPage PageAction) : Prop where
  submit_mem : submit ∈ trs
  submit_act : submit.act = .submit t
  save_mem : save ∈ trs
  save_act : save.act = .service (.repo (.commit t))

/-- A flag as `GetFlag` has read it, some time ago. -/
def Fetched (id : String) (db : Db) (flag : FlagResponse) : Prop :=
  ∃ row, RowImage db row ∧ row.id = id ∧ flag = (scanFlag row).toResponse

/-- Call `t` is what `page` has submitted. -/
def Submitted (id : String) (page : FlagDetailPage) (t : TxId) (s : Service) : Prop :=
  ∃ form row stage, page.form = some form ∧ page.cache = some (scanFlag row).toResponse ∧
    RowImage s.db row ∧ row.id = id ∧
    s.calls t = some (.updateFlag id (form.fields.request row.version), stage)

/-- The write finds the row that `page` had in its cache. -/
def FindsCached (id : String) (page save : FlagDetailPage) : Prop :=
  ∃ form row, page.form = some form ∧ page.cache = some (scanFlag row).toResponse ∧
    findById save.service.db.flags id = some row

/-- What a run of the page keeps. -/
structure PageHistory (id : String) (trs : List (Transition FlagDetailPage PageAction))
    (s : FlagDetailPage) : Prop where
  inv : ServiceInv s.service
  linked : Linked s.service
  flags : ∀ flag, s.HasFlag flag → Fetched id s.service.db flag
  submitted : ∀ tr ∈ trs, ∀ t, tr.act = .submit t → Submitted id tr.pre t s.service
  saved : ∀ tr ∈ trs, ∀ t, tr.act = .service (.repo (.commit t)) →
    ∃ op r, s.service.db.txs t = some ⟨op, .returned r⟩
  cached : ∀ t submit save, Saves trs t submit save → FindsCached id submit.pre save.pre
  /-- An `UPDATE` that has returned a flag has committed. -/
  returned : ∀ t op r, s.service.db.txs t = some ⟨op, .returned r⟩ → op.nothingToChange = false →
    r.version? ≠ none → ∃ save ∈ trs, save.act = .service (.repo (.commit t))

section History

variable {id : String} {s s' : FlagDetailPage} {a : PageAction} {t : TxId}
  {trs : List (Transition FlagDetailPage PageAction)}

theorem Fetched.of_findById {db : Db} (h : DbInv db) {row : FlagRow}
    (hrow : findById db.flags id = some row) : Fetched id db (scanFlag row).toResponse := by
  obtain ⟨hmem, hid⟩ := h.table.findById_eq_some.mp hrow
  exact ⟨row, h.rowImage hmem, hid, rfl⟩

/-- The service moves on, and images stay images. -/
theorem RowImage.serviceStep {service service' : Service} {b : ServiceAction} {row : FlagRow}
    (hinv : ServiceInv service) (h : RowImage service.db row)
    (hs : serviceStep service b = some service') : RowImage service'.db row := by
  have hboth := serviceStep_preserves (I := fun db => DbInv db ∧ RowImage db row)
    (fun h hs => ⟨h.1.step hs, h.2.step h.1 hs⟩) ⟨hinv.db, h⟩ hs
  exact hboth.2

theorem Submitted.after {page : FlagDetailPage} {service service' : Service}
    {b : ServiceAction} (hinv : ServiceInv service) (h : Submitted id page t service)
    (hs : serviceStep service b = some service') : Submitted id page t service' := by
  obtain ⟨form, row, stage, hform, hcache, himage, hid, hcall⟩ := h
  obtain ⟨stage', hcall'⟩ := serviceStep_call hs hcall
  exact ⟨form, row, stage', hform, hcache, himage.serviceStep hinv hs, hid, hcall'⟩

/-- **The guard.** A save that commits writes to the row that was in the page's cache when it was
submitted: no other image of the row has its version. -/
theorem Submitted.commit {page : FlagDetailPage} {service' : Service} (hinv : ServiceInv s.service)
    (hlinked : Linked s.service) (h : Submitted id page t s.service)
    (hs : serviceStep s.service (.repo (.commit t)) = some service') : FindsCached id page s := by
  obtain ⟨form, row, stage, hform, hcache, himage, hid, hcall⟩ := h
  obtain ⟨db', hdb, -⟩ := serviceStep_repo hs
  obtain ⟨c, htx, -⟩ := step_commit hdb
  obtain ⟨call, hop, hlink⟩ := hlinked.tx t _ htx
  have hop : c.op = .update id (form.fields.request row.version) := by
    rcases hlink with ⟨flagKey, hlink⟩ | ⟨r, -, hlink⟩ <;>
    · rw [hcall] at hlink
      obtain ⟨rfl, -⟩ := Prod.mk.inj (Option.some.inj hlink)
      exact hop
  obtain ⟨found, hmem, hfound, hversion, -⟩ := hinv.db.update_matched htx hop
  obtain rfl := himage.current found hmem (hfound.trans hid.symm) (hversion _ rfl)
  exact ⟨form, found, hform, hcache, hinv.db.table.findById_eq_some.mpr ⟨hmem, hfound⟩⟩

theorem calls_of_outcome? {service : Service} {call : ServiceCall} {r : ServiceResult}
    (h : service.outcome? t = some (call, r)) : ∃ stage, service.calls t = some (call, stage) := by
  unfold Service.outcome? at h
  split at h
  · rename_i hcall
    obtain ⟨rfl, -⟩ := Prod.mk.inj (Option.some.inj h)
    exact ⟨_, hcall⟩
  · rename_i hcall
    split at h
    · obtain ⟨rfl, -⟩ := Prod.mk.inj (Option.some.inj h)
      exact ⟨_, hcall⟩
    · cases h
  · cases h

/-- A commit leaves its call returned. -/
theorem returned_of_commit {service service' : Service}
    (hs : serviceStep service (.repo (.commit t)) = some service') :
    ∃ op r, service'.db.txs t = some ⟨op, .returned r⟩ := by
  obtain ⟨db', hdb, rfl⟩ := serviceStep_repo hs
  obtain ⟨c, -, rfl⟩ := step_commit hdb
  exact ⟨_, _, Function.update_self ..⟩

/-- A call returns a version when it commits, unless it had nothing to change. -/
theorem serviceStep_returns_version {service service' : Service} {b : ServiceAction} {op : Op}
    {r : RepoResult} (hs : serviceStep service b = some service')
    (ht : service'.db.txs t = some ⟨op, .returned r⟩) (hop : op.nothingToChange = false)
    (hr : r.version? ≠ none) :
    service.db.txs t = some ⟨op, .returned r⟩ ∨ b = .repo (.commit t) := by
  cases serviceStep_effect hs with
  | repo _ hdb =>
      refine (step_returns hdb ht).imp_right fun hreturns => ?_
      cases hreturns with
      | commit => rfl
      | read hnothing =>
          rw [hop] at hnothing
          cases hnothing
      | noRow => exact absurd (noRowResult_version _ _) hr
      | gone | nilUsers | refused | duplicate | eventTaken | fail => exact absurd rfl hr
  | issue =>
      rcases update_some_cases ht with ⟨-, heq⟩ | ⟨-, ht⟩
      · cases congrArg Tx.stage heq
      · exact Or.inl ht
  | _ => exact Or.inl ht

/-- The history goes on, given what the step itself submits or commits. -/
theorem PageHistory.append (h : PageHistory id trs s)
    (hmove : s'.service = s.service ∨
      ∃ b, serviceStep s.service b = some s'.service ∧ ∀ b', b = .repo b' → a = .service b)
    (hflags : ∀ flag, s'.HasFlag flag → s.HasFlag flag ∨ Fetched id s'.service.db flag)
    (hsubmit : ∀ t, a = .submit t → Submitted id s t s'.service ∧ s.service.db.txs t = none)
    (hcommit : ∀ t, a = .service (.repo (.commit t)) →
      (∃ op r, s'.service.db.txs t = some ⟨op, .returned r⟩) ∧
      ∀ page, Submitted id page t s.service → FindsCached id page s) :
    PageHistory id (trs ++ [⟨s, a, s'⟩]) s' := by
  refine ⟨?_, ?_, fun flag hflag => ?_, fun tr htr t ht => ?_, fun tr htr t ht => ?_,
    fun t submit save hsaves => ?_, fun t op r hret hop hr => ?_⟩
  · rcases hmove with heq | ⟨b, hb, -⟩
    · exact heq ▸ h.inv
    · exact h.inv.serviceStep hb
  · rcases hmove with heq | ⟨b, hb, -⟩
    · exact heq ▸ h.linked
    · exact h.linked.step hb
  · rcases hflags flag hflag with hold | hnew
    · obtain ⟨row, himage, hid, hrow⟩ := h.flags flag hold
      refine ⟨row, ?_, hid, hrow⟩
      rcases hmove with heq | ⟨b, hb, -⟩
      · exact heq ▸ himage
      · exact himage.serviceStep h.inv hb
    · exact hnew
  · rcases List.mem_append.mp htr with htr | htr
    · rcases hmove with heq | ⟨b, hb, -⟩
      · exact heq ▸ h.submitted tr htr t ht
      · exact (h.submitted tr htr t ht).after h.inv hb
    · obtain rfl := List.mem_singleton.mp htr
      exact (hsubmit t ht).1
  · rcases List.mem_append.mp htr with htr | htr
    · obtain ⟨op, r, hret⟩ := h.saved tr htr t ht
      rcases hmove with heq | ⟨b, hb, -⟩
      · exact ⟨op, r, heq ▸ hret⟩
      · exact ⟨op, r, serviceStep_returned hb hret⟩
    · obtain rfl := List.mem_singleton.mp htr
      exact (hcommit t ht).1
  · obtain ⟨hsubmitted, hsact, hsaved, hact⟩ := hsaves
    rcases List.mem_append.mp hsubmitted with hsubmitted | hlast
    · rcases List.mem_append.mp hsaved with hsaved | hlast
      · exact h.cached t submit save ⟨hsubmitted, hsact, hsaved, hact⟩
      · obtain rfl := List.mem_singleton.mp hlast
        exact (hcommit t hact).2 _ (h.submitted submit hsubmitted t hsact)
    · obtain rfl := List.mem_singleton.mp hlast
      -- a call that is only now submitted has not committed before
      rcases List.mem_append.mp hsaved with hsaved | hlast
      · obtain ⟨op, r, hret⟩ := h.saved save hsaved t hact
        rw [(hsubmit t hsact).2] at hret
        cases hret
      · obtain rfl := List.mem_singleton.mp hlast
        rw [show a = .submit t from hsact] at hact
        cases hact
  · have hold : s.service.db.txs t = some ⟨op, .returned r⟩ ∨ a = .service (.repo (.commit t)) := by
      rcases hmove with heq | ⟨b, hb, ha⟩
      · exact Or.inl (heq ▸ hret)
      · refine (serviceStep_returns_version hb hret hop hr).imp_right fun hcommit => ?_
        exact hcommit ▸ ha _ hcommit
    rcases hold with hold | hnew
    · obtain ⟨save, hsave, hact⟩ := h.returned t op r hold hop hr
      exact ⟨save, List.mem_append_left _ hsave, hact⟩
    · exact ⟨⟨s, a, s'⟩, List.mem_append_right _ (List.mem_singleton_self _), hnew⟩

theorem PageHistory.step (h : PageHistory id trs s) (hs : pageStep id s a = some s') :
    PageHistory id (trs ++ [⟨s, a, s'⟩]) s' := by
  cases pageStep_effect hs with
  | @service b service' hservice =>
      refine h.append (Or.inr ⟨b, hservice, fun _ _ => rfl⟩) (fun _ hflag => Or.inl hflag) nofun
        fun t ht => ?_
      obtain rfl := PageAction.service.inj ht
      exact ⟨returned_of_commit hservice, fun page hpage => hpage.commit h.inv h.linked hservice⟩
  | page ha hservice hflags =>
      refine h.append (Or.inl hservice) (fun flag hflag => (hflags flag hflag).imp_right ?_)
        (fun t ht => ?_) (fun t ht => ?_)
      · intro hread
        obtain ⟨row, hrow, rfl⟩ := hread
        rw [hservice]
        exact .of_findById h.inv.db hrow
      · subst ht
        cases ha
      · subst ht
        cases ha
  | @submit t form flag req service' hform hcache hvalid hreq hservice =>
      refine h.append (Or.inr ⟨_, hservice, nofun⟩) (fun _ hflag => Or.inl hflag) (fun u hu => ?_)
        nofun
      obtain rfl := PageAction.submit.inj hu
      obtain ⟨hnone, stage, hcall⟩ := serviceStep_request hservice
      obtain ⟨row, himage, hid, rfl⟩ := h.flags flag (Or.inl hcache)
      have hpercentage : Json.InInt64 form.fields.rolloutPercentage := by
        obtain ⟨hmin, hmax⟩ := of_decide_eq_true hvalid
        exact ⟨by omega, by omega⟩
      have hrequest := updateFlagRequest_input (himage.version_inInt64 h.inv.db) hpercentage
      obtain rfl : form.fields.request row.version = req :=
        Option.some.inj (hrequest.symm.trans hreq)
      exact ⟨⟨form, row, stage, hform, hcache, himage.serviceStep h.inv hservice, hid, hcall⟩,
        h.linked.tx_none (Or.inl hnone)⟩

theorem PageHistory.of_exec {rows : List FlagRow} (hrows : Migrated rows) {as : List PageAction}
    (h : exec (pageStep id) (FlagDetailPage.migrated rows) as = some s) :
    PageHistory id (transitions (pageStep id) (FlagDetailPage.migrated rows) as) s := by
  refine exec_history (fun h hs => PageHistory.step h hs) ?_ h
  refine ⟨hrows.serviceInv, linked_migrated rows, fun flag h => ?_, ?_, ?_, fun t _ _ h => ?_,
    fun t op r h => ?_⟩
  · rcases h with h | h <;> cases h
  · simp
  · simp
  · cases h.submit_mem
  · cases h

/-- A submit that is answered with 200 has committed. -/
theorem PageHistory.saves_of_ok (h : PageHistory id trs s)
    {submit : Transition FlagDetailPage PageAction} (hmem : submit ∈ trs)
    (hact : submit.act = .submit t) {call : ServiceCall} {flag : Flag}
    (hok : s.service.outcome? t = some (call, .flag (some flag))) :
    ∃ save, Saves trs t submit save := by
  obtain ⟨form, row, stage, -, -, -, -, hcall⟩ := h.submitted submit hmem t hact
  rcases h.linked.outcome hok with ⟨r, htx, hr⟩ | ⟨-, hown⟩
  · have hop : call.op.nothingToChange = false := by
      obtain ⟨stage', hstage⟩ := calls_of_outcome? hok
      obtain ⟨rfl, -⟩ := Prod.mk.inj (Option.some.inj (hcall.symm.trans hstage))
      rfl
    have hversion : r.version? ≠ none := by
      cases r with
      | created f => simp [RepoResult.version?]
      | deleted v | error err => cases hr
      | flag f =>
          obtain rfl : some flag = f := ServiceResult.flag.inj hr
          simp [RepoResult.version?]
    obtain ⟨save, hsave, hsaved⟩ := h.returned t _ r htx hop hversion
    exact ⟨save, hmem, hact, hsave, hsaved⟩
  · cases hown

end History

/-! ### A retry after a conflict -/

end FlagPlane
