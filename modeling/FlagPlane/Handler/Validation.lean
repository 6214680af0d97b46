import FlagPlane.Handler.Admin
import FlagPlane.Repository.RowChain

/-!
# FlagPlane.Handler.Validation

**The checks of the service against the columns of `feature_flags`.** The service checks the key and
the percentage. The columns also bound the description and take no NUL character; that part
(`storable`) no check looks at, and a request that fails it is only refused by Postgres, after a
version is drawn, and is answered 500.
-/

namespace FlagPlane

/-! ### What the columns ask of a request -/

/-- The `description` column holds the text. -/
def descriptionOk (description : String) : Bool :=
  decide (description.length ≤ 256) && noNul description

/-- The columns take the texts that a request sets, its key aside: a description without the blanks
that are too many. -/
def CreateFlagRequest.storable (req : CreateFlagRequest) : Bool :=
  descriptionOk (assignVarchar 256 req.description) && (req.targetedUsers.getD []).all noNul

def UpdateFlagRequest.storable (req : UpdateFlagRequest) : Bool :=
  req.description.all (fun d => descriptionOk (assignVarchar 256 d)) &&
    req.targetedUsers.all (·.all noNul)

def ServiceCall.storable : ServiceCall → Bool
  | createFlag req => req.storable
  | updateFlag _ req => req.storable
  | toggleFlag _ | deleteFlag _ => true

section Columns

variable {key : String} {r : FlagRow}

theorem length_le_byteLength (key : String) : key.length ≤ byteLength key := by
  rw [byteLength, utf8Units, List.length_map, ← String.length_toList]
  induction key.toList with
  | nil => exact Nat.zero_le _
  | cons c cs ih =>
      have hpos : 0 < c.utf8Size := Char.utf8Size_pos c
      rw [List.flatMap_cons, List.length_append, List.length_cons, String.length_utf8EncodeChar]
      omega

/-- A key that passes the checks fits its column. -/
theorem key_fits (hlen : byteLength key ≤ 64) (hregex : keyRegex key = true) :
    key.length ≤ 64 ∧ noNul key = true := by
  refine ⟨(length_le_byteLength key).trans hlen, ?_⟩
  rw [keyRegex, Bool.and_eq_true, List.all_eq_true] at hregex
  rw [noNul, List.all_eq_true]
  intro c hc
  have hchar := hregex.2 c hc
  refine decide_eq_true fun hzero => ?_
  obtain rfl : c = '\x00' := Char.ext hzero
  exact absurd hchar (by decide)

theorem of_checkCreate {req : CreateFlagRequest} (h : checkCreate req = none) :
    byteLength req.key ≤ 64 ∧ keyRegex req.key = true ∧
      0 ≤ req.rolloutPercentage ∧ req.rolloutPercentage ≤ 100 := by
  rw [checkCreate] at h
  split at h
  · cases h
  rename_i hlen
  split at h
  · cases h
  rename_i hregex
  split at h
  · cases h
  rename_i hp
  exact ⟨by omega, by simpa using hregex, by omega, by omega⟩

theorem of_checkUpdate {req : UpdateFlagRequest} (h : checkUpdate req = none) {p : Int}
    (hp : req.rolloutPercentage = some p) : 0 ≤ p ∧ p ≤ 100 := by
  rw [checkUpdate, hp] at h
  dsimp only at h
  split at h
  · cases h
  · omega

theorem columnsOk_iff : r.columnsOk = true ↔
    (r.key.length ≤ 64 ∧ noNul r.key = true) ∧ descriptionOk r.description = true ∧
      (0 ≤ r.rolloutPercentage ∧ r.rolloutPercentage ≤ 100) ∧ r.targetedUsers.all noNul = true := by
  simp only [FlagRow.columnsOk, descriptionOk, Bool.and_eq_true, decide_eq_true_eq]
  tauto

/-- **`CREATE`.** Once the checks pass, the row fits the columns exactly when its texts do. -/
theorem insertedRow_columnsOk {req : CreateFlagRequest} (h : checkCreate req = none) (uuid : String)
    (x : Locals) :
    (insertedRow (newFlag req) (req.targetedUsers.getD []) uuid x).columnsOk = true ↔
      req.storable = true := by
  obtain ⟨hlen, hregex, hp⟩ := of_checkCreate h
  have hkey := key_fits hlen hregex
  have hrow : (insertedRow (newFlag req) (req.targetedUsers.getD []) uuid x).description =
      assignVarchar 256 req.description := rfl
  rw [columnsOk_iff, hrow, CreateFlagRequest.storable, Bool.and_eq_true]
  constructor
  · intro hcolumns
    exact ⟨hcolumns.2.1, hcolumns.2.2.2⟩
  · intro hstorable
    exact ⟨hkey, hstorable.1, hp, hstorable.2⟩

/-- The texts of an update whose row fits the columns do. -/
theorem storable_of_applyTo {req : UpdateFlagRequest} {x : Locals}
    (h : (req.applyTo x r).columnsOk = true) : req.storable = true := by
  obtain ⟨-, hdescription, -, husers⟩ := columnsOk_iff.mp h
  rw [UpdateFlagRequest.storable, Bool.and_eq_true]
  constructor
  · cases hset : req.description with
    | none => rfl
    | some description => simpa [UpdateFlagRequest.applyTo, hset] using hdescription
  · cases hset : req.targetedUsers with
    | none => rfl
    | some users => simpa [UpdateFlagRequest.applyTo, hset] using husers

/-- **`UPDATE`.** An update that passes the checks leaves a row that fits exactly when the texts it
sets do. -/
theorem applyTo_columnsOk {req : UpdateFlagRequest} (h : checkUpdate req = none) (x : Locals)
    (hr : r.columnsOk = true) :
    (req.applyTo x r).columnsOk = true ↔ req.storable = true := by
  refine ⟨storable_of_applyTo, fun hstorable => ?_⟩
  obtain ⟨hkey, hdescription, hp, husers⟩ := columnsOk_iff.mp hr
  rw [UpdateFlagRequest.storable, Bool.and_eq_true] at hstorable
  refine columnsOk_iff.mpr ⟨hkey, ?_, ?_, ?_⟩
  · show descriptionOk ((req.description.map (assignVarchar 256)).getD r.description) = true
    cases hset : req.description with
    | none => exact hdescription
    | some description => simpa [hset] using hstorable.1
  · show 0 ≤ req.rolloutPercentage.getD r.rolloutPercentage ∧
      req.rolloutPercentage.getD r.rolloutPercentage ≤ 100
    cases hset : req.rolloutPercentage with
    | none => exact hp
    | some p => exact of_checkUpdate h hset
  · show (req.targetedUsers.getD r.targetedUsers).all noNul = true
    cases hset : req.targetedUsers with
    | none => exact husers
    | some users => simpa [hset] using hstorable.2

end Columns

/-! ### Requests and rows -/

/-- Some row that the operation can leave, from a table that fits the columns, does not fit them. -/
def Op.Unfit (op : Op) : Prop :=
  ∃ flags, (∀ r ∈ flags, r.columnsOk = true) ∧ ∃ row, op.Leaves flags row ∧ row.columnsOk = false

/-- **The part no check looks at.** Of the requests that pass the checks, the columns take exactly
those whose texts they take. -/
theorem unfit_iff {call : ServiceCall} (h : call.check = none) :
    call.op.Unfit ↔ call.storable = false := by
  cases call with
  | createFlag req =>
      constructor
      · rintro ⟨flags, -, row, ⟨users, uuid, x, husers, rfl⟩, hok⟩
        obtain rfl : req.targetedUsers.getD [] = users := Option.some.inj husers
        rw [← Bool.not_eq_true] at hok ⊢
        exact fun hstorable => hok ((insertedRow_columnsOk h uuid x).mpr hstorable)
      · intro hstorable
        refine ⟨[], by simp, _, ⟨_, "u", ⟨0, "", 1⟩, rfl, rfl⟩, ?_⟩
        rw [← Bool.not_eq_true] at hstorable ⊢
        exact fun hok => hstorable ((insertedRow_columnsOk h "u" ⟨0, "", 1⟩).mp hok)
  | updateFlag id req =>
      constructor
      · rintro ⟨flags, hflags, row, ⟨x, r, hr, -, rfl⟩, hok⟩
        rw [ServiceCall.op, postImage_update, ← Bool.not_eq_true] at hok
        rw [← Bool.not_eq_true]
        exact fun hstorable => hok ((applyTo_columnsOk h x (hflags r hr)).mpr hstorable)
      · intro hstorable
        -- a row that the `WHERE` finds
        let r : FlagRow := { checkoutRow with id := id, version := req.expectedVersion.getD 0 }
        have hr : r.columnsOk = true := show checkoutRow.columnsOk = true by decide
        have hwhere : (Op.update id req).whereClause r = true := by
          cases he : req.expectedVersion <;> simp [Op.whereClause, r, he]
        refine ⟨[r], by simpa using hr, _,
          ⟨⟨0, "", 1⟩, r, List.mem_singleton_self r, hwhere, rfl⟩, ?_⟩
        rw [ServiceCall.op, postImage_update]
        rw [← Bool.not_eq_true] at hstorable ⊢
        exact fun hok => hstorable ((applyTo_columnsOk h ⟨0, "", 1⟩ hr).mp hok)
  | toggleFlag id =>
      constructor
      · rintro ⟨flags, hflags, row, ⟨x, r, hr, -, rfl⟩, hok⟩
        rw [show (ServiceCall.toggleFlag id).op.postImage x r = toggled x r from rfl,
          show (toggled x r).columnsOk = r.columnsOk from rfl, hflags r hr] at hok
        cases hok
      · intro hstorable
        cases hstorable
  | deleteFlag id =>
      constructor
      · rintro ⟨flags, -, row, hleaves, -⟩
        exact hleaves.elim
      · intro hstorable
        cases hstorable

/-! ### Errors -/

/-- A constraint is only ever violated by an operation that can leave a row the columns refuse. -/
def Refusals (db : Db) : Prop :=
  ∀ t op, db.txs t = some ⟨op, .returned (.error .constraintViolation)⟩ →
    (∃ flag, op = .create flag ∧ flag.targetedUsers = none) ∨ op.Unfit

theorem Refusals.step {db db' : Db} {a : Action} (h : Refusals db) (hinv : DbInv db)
    (hs : FlagPlane.step db a = some db') : Refusals db' := by
  intro t op ht
  rcases step_returns hs ht with hold | hreturns
  · exact h t op hold
  · generalize hr : RepoResult.error .constraintViolation = r at hreturns
    cases hreturns with
    | nilUsers husers => exact Or.inl ⟨_, rfl, husers⟩
    | @refused _ _ row _ hrow hok => exact Or.inr ⟨db.flags, hinv.columns, row, hrow, hok⟩
    | noRow =>
        unfold Db.noRowResult at hr
        split at hr
        · split at hr <;> cases hr
        · cases hr
    | @commit c ht =>
        rw [Op.result.eq_def] at hr
        split at hr <;> cases hr
    | read | gone | duplicate | eventTaken | fail => cases hr

/-- The errors that an accepted request may end in. -/
def ServiceResult.expected : ServiceResult → Bool
  | .invalid text => text = "duplicate_key" || text = "flag not found"
  | .failed err => err ≠ .constraintViolation
  | .flag _ | .deleted => true

/-- The response of a validation error. -/
def validationError (text : String) : HttpResponse :=
  writeError 400 "validation_error" text

/-- The texts of failed checks. -/
def checkTexts : List String :=
  ["key is required and must be at most 64 characters",
    "key must be alphanumeric with hyphens only",
    "rollout_percentage must be between 0 and 100"]

theorem check_text {call : ServiceCall} {text : String} (h : call.check = some text) :
    text ∈ checkTexts := by
  cases call with
  | createFlag req =>
      rw [ServiceCall.check, checkCreate] at h
      split_ifs at h <;> (obtain rfl := Option.some.inj h; simp [checkTexts])
  | updateFlag id req =>
      rw [ServiceCall.check, checkUpdate] at h
      split at h
      · split_ifs at h
        obtain rfl := Option.some.inj h
        simp [checkTexts]
      · cases h
  | toggleFlag id | deleteFlag id => cases h

/-- The handlers recognise the text of a failed check. -/
theorem response_refused {call : ServiceCall} {text : String} (h : call.check = some text)
    (driver : String) : call.response driver (.invalid text) = some (validationError text) := by
  have htext := check_text h
  have hduplicate : ∀ text ∈ checkTexts, containsText text "duplicate_key" = false := by
    decide
  have hmust : ∀ text ∈ checkTexts, containsText text "must be" = true := by
    decide
  cases call with
  | createFlag req =>
      simp [ServiceCall.response, createFlagResponse, ServiceResult.error?, createFlagError,
        hduplicate text htext, hmust text htext, validationError]
  | updateFlag id req =>
      simp [ServiceCall.response, updateFlagResponse, ServiceResult.error?, updateFlagError,
        hmust text htext, validationError]
  | toggleFlag id | deleteFlag id => cases h

theorem Service.Reachable.refusals {s : Service} (hs : s.Reachable) : Refusals s.db := by
  refine hs.induct (I := fun s => Refusals s.db) (fun rows t op h => by cases h) ?_
  intro s a s' hinv h hs
  rcases serviceStep_db hs with heq | ⟨b, hb⟩
  · rwa [heq]
  · exact h.step hinv.db hb

/-! ### Agreement -/

/-- **The checks agree with the columns on a request.** If it passes them, every row it can leave
fits the columns, and in no run does it end in an error but for a taken key, another version, a
missing row or a failing database; and if some row it can leave does not fit, it is answered as a
validation error in every run, with nothing sent to the database and so no version drawn. -/
structure ServiceCall.Agrees (call : ServiceCall) : Prop where
  rows : call.check = none → ¬ call.op.Unfit
  failures : call.check = none → ∀ s : Service, s.Reachable → ∀ t r,
    s.outcome? t = some (call, r) → r.expected = true
  refusals : call.op.Unfit → ∀ s : Service, s.Reachable → ∀ t r,
    s.outcome? t = some (call, r) → s.db.txs t = none ∧
      ∃ text, r = .invalid text ∧
        ∀ driver, call.response driver r = some (validationError text)

/-- An accepted and storable request never violates a constraint. -/
theorem expected_of_storable {call : ServiceCall} (hcheck : call.check = none)
    (hstorable : call.storable = true) {s : Service} (hs : s.Reachable) {t : TxId}
    {r : ServiceResult} (hr : s.outcome? t = some (call, r)) : r.expected = true := by
  rcases hs.linked.outcome hr with ⟨r', htx, rfl⟩ | ⟨-, hown⟩
  · cases r' with
    | created _ | flag _ | deleted _ => rfl
    | error err =>
        refine decide_eq_true fun herr => ?_
        subst herr
        rcases hs.refusals t _ htx with ⟨flag, hop, husers⟩ | hunfit
        · cases call with
          | createFlag req =>
              obtain rfl := Op.create.inj hop
              cases husers
          | updateFlag _ _ | toggleFlag _ | deleteFlag _ => cases hop
        · rw [unfit_iff hcheck, hstorable] at hunfit
          cases hunfit
  · cases hown with
    | refused htext =>
        rw [hcheck] at htext
        cases htext
    | duplicate | notFound | failLookup => rfl

/-- **Validation and schema.** The checks agree with the columns on exactly the requests that they
refuse or whose texts the columns take. -/
theorem validation_agrees_iff (call : ServiceCall) :
    call.Agrees ↔ (call.check = none → call.storable = true) := by
  constructor
  · intro h hcheck
    have hfit := h.rows hcheck
    rwa [unfit_iff hcheck, Bool.not_eq_false] at hfit
  · intro h
    refine ⟨fun hcheck => ?_, fun hcheck s hs t r hr => ?_, fun hunfit s hs t r hr => ?_⟩
    · rw [unfit_iff hcheck, h hcheck]
      exact Bool.noConfusion
    · exact expected_of_storable hcheck (h hcheck) hs hr
    · cases hcheck : call.check with
      | none =>
          rw [unfit_iff hcheck, h hcheck] at hunfit
          cases hunfit
      | some text =>
          obtain ⟨rfl, hnone⟩ := hs.linked.outcome_refused hr hcheck
          exact ⟨hnone, text, rfl, response_refused hcheck⟩

/-- A flag whose description is a NUL character. -/
def nulDescription : ServiceCall :=
  .createFlag ⟨"checkout", "\x00", false, 0, none⟩

/-- It passes the checks, draws version 1, is refused by Postgres and answered 500. -/
theorem nulDescription_disagrees :
    ¬ nulDescription.Agrees ∧ nulDescription.check = none ∧
      ∃ s, exec serviceStep (Service.migrated []) [.request 0 nulDescription, .lookup 0,
          .repo (.begin 0 1), .repo (.nextval 0), .repo (.insert 0 "u"), .respond 0] = some s ∧
        s.db.seq = 1 ∧ s.outcome? 0 = some (nulDescription, .failed .constraintViolation) ∧
        (nulDescription.response (pgErrorText "invalid byte sequence for encoding \"UTF8\": 0x00"
          "22021") (.failed .constraintViolation)).map HttpResponse.status = some 500 := by
  have hcheck : nulDescription.check = none := by decide
  have hstorable : nulDescription.storable = false := by decide
  have hrun : (exec serviceStep (Service.migrated []) [.request 0 nulDescription, .lookup 0,
      .repo (.begin 0 1), .repo (.nextval 0), .repo (.insert 0 "u"), .respond 0]).map
        (fun s => (s.db.seq, s.outcome? 0)) =
      some (1, some (nulDescription, .failed .constraintViolation)) := by
    decide
  obtain ⟨s, hs, hrun⟩ := Option.map_eq_some_iff.mp hrun
  obtain ⟨hseq, houtcome⟩ := Prod.mk.inj hrun
  refine ⟨?_, hcheck, s, hs, hseq, houtcome, by decide +kernel⟩
  exact fun h => h.rows hcheck ((unfit_iff hcheck).mpr hstorable)

end FlagPlane
