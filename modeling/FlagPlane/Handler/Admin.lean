import FlagPlane.Lines
import FlagPlane.Service.Calls

/-!
# FlagPlane.Handler.Admin

**`admin_handler.go`**: how a request is read into a service call, and what is written for the
call's result. The service tells its errors apart by value, `ErrVersionConflict`, or by their text,
and the handlers look at the text. So the texts are part of the model: the service's own, the
repository's own, and what Postgres says of a violated unique key. The text of any other error of
the driver is left open (`driver`).
-/

namespace FlagPlane

/-- What a handler writes. -/
structure HttpResponse where
  status : Nat
  body : Option Json
  deriving Repr

/-- `writeError`. -/
def writeError (status : Nat) (errType message : String) : HttpResponse :=
  ⟨status, some (.obj [("error", .str errType), ("message", .str message)])⟩

/-- `writeJSON` of a flag. -/
def writeFlag (status : Nat) (flag : Flag) : HttpResponse :=
  ⟨status, some flag.toResponse.toJson⟩

/-! ### Requests -/

/-- Decode into a pointer or a slice, which `null` makes `nil`. -/
def Json.decodePointer {α : Type*} (decode : Json → Option α) : Json → Option (Option α)
  | .null => some none
  | v => (decode v).map some

/-- Decode the targeted users, which are `nil` at first. -/
def Json.decodeUsers (users : Option (List String)) (spare : List String) (v : Json) :
    Option (Option (List String) × List String) :=
  (v.decodePointer (Json.decodeStrings ⟨users.getD [], spare⟩)).map fun
    | some users => (some users.elems, users.spare)
    | none => (none, [])

@[simp] theorem Json.decodeUsers_strs (ss : List String) :
    Json.decodeUsers none [] (.arr (ss.map .str)) = some (some ss, []) := by
  simp [Json.decodeUsers, Json.decodePointer]

def CreateFlagRequest.setField (name : String) (v : Json) :
    Json.Decoding CreateFlagRequest → Option (Json.Decoding CreateFlagRequest)
  | (req, spare) =>
    match name with
    | "key" => (v.decodeString req.key).map fun x => ({ req with key := x }, spare)
    | "description" =>
      (v.decodeString req.description).map fun x => ({ req with description := x }, spare)
    | "enabled" => (v.decodeBool req.enabled).map fun x => ({ req with enabled := x }, spare)
    | "rollout_percentage" =>
      (v.decodeInt req.rolloutPercentage).map fun x => ({ req with rolloutPercentage := x }, spare)
    | "targeted_users" =>
      (v.decodeUsers req.targetedUsers spare).map fun x => ({ req with targetedUsers := x.1 }, x.2)
    | _ => some (req, spare)

/-- `json.NewDecoder(r.Body).Decode(&req)` in `CreateFlag`; a `body` of `none` is no JSON. -/
def createFlagRequest (body : Option Json) : Option CreateFlagRequest :=
  (body.bind (Json.decodeStruct (⟨"", "", false, 0, none⟩, []) CreateFlagRequest.setField)).map
    Prod.fst

/-- `ExpectedVersion` is no JSON member. -/
def UpdateFlagRequest.setField (name : String) (v : Json) :
    Json.Decoding UpdateFlagRequest → Option (Json.Decoding UpdateFlagRequest)
  | (req, spare) =>
    match name with
    | "description" =>
      (v.decodePointer (Json.decodeString "")).map fun x => ({ req with description := x }, spare)
    | "enabled" =>
      (v.decodePointer (Json.decodeBool false)).map fun x => ({ req with enabled := x }, spare)
    | "rollout_percentage" =>
      (v.decodePointer (Json.decodeInt 0)).map fun x => ({ req with rolloutPercentage := x }, spare)
    | "targeted_users" =>
      (v.decodeUsers req.targetedUsers spare).map fun x => ({ req with targetedUsers := x.1 }, x.2)
    | _ => some (req, spare)

/-- `strings.Trim(s, "\"")`. -/
def trimQuotes (text : List Char) : List Char :=
  (text.dropWhile (· = '"')).rdropWhile (· = '"')

/-- The version that `UpdateFlag` takes from the `If-Match` header. A header that is no integer is
passed over. -/
def ifMatchVersion (header : String) : Option Int :=
  let ifMatch := trimQuotes header.toList
  if ifMatch = [] then none else parseInt64 ifMatch

/-- The request that `UpdateFlag` reads; a missing header is `""`. -/
def updateFlagRequest (header : String) (body : Option Json) : Option UpdateFlagRequest :=
  (body.bind (Json.decodeStruct (⟨none, none, none, none, none⟩, []) UpdateFlagRequest.setField)).map
    fun decoded => { decoded.1 with expectedVersion := ifMatchVersion header }

/-! ### Errors -/

/-- `strings.Contains`. -/
def containsText (text sub : String) : Bool :=
  decide (sub.toList <:+: text.toList)

/-- `PgError.Error()`. -/
def pgErrorText (message code : String) : String :=
  "ERROR: " ++ message ++ " (SQLSTATE " ++ code ++ ")"

/-- `err.Error()`. -/
def RepoError.text (driver : String) : RepoError → String
  | versionConflict => "version conflict"
  | flagNotFound => "flag not found"
  | uniqueViolation =>
    pgErrorText "duplicate key value violates unique constraint \"feature_flags_key_key\"" "23505"
  | constraintViolation | other => driver

/-- The text of the error that a service call returns. -/
def ServiceResult.error? (driver : String) : ServiceResult → Option String
  | invalid text => some text
  | failed err => some (err.text driver)
  | flag _ | deleted => none

def createFlagError (text : String) : HttpResponse :=
  if containsText text "duplicate_key" then
    writeError 409 "duplicate_key" "A flag with this key already exists"
  else if containsText text "must be" || containsText text "required" then
    writeError 400 "validation_error" text
  else writeError 500 "internal_error" "Failed to create flag"

def updateFlagError (text : String) : HttpResponse :=
  if containsText text "must be" then writeError 400 "validation_error" text
  else writeError 500 "internal_error" "Failed to update flag"

def deleteFlagError (text : String) : HttpResponse :=
  if containsText text "not found" then writeError 404 "not_found" "Flag not found"
  else writeError 500 "internal_error" "Failed to delete flag"

/-- `GetFlag`, `UpdateFlag` and `ToggleFlag` on a `nil` flag. -/
def notFoundResponse : HttpResponse :=
  writeError 404 "not_found" "Flag not found"

/-! ### Responses

What a handler writes for the result of its service call; `none` for a result that the method does
not return. -/

def createFlagResponse (driver : String) : ServiceResult → Option HttpResponse
  | .flag (some flag) => some (writeFlag 201 flag)
  | r => (r.error? driver).map createFlagError

def updateFlagResponse (driver : String) : ServiceResult → Option HttpResponse
  | .flag (some flag) => some (writeFlag 200 flag)
  | .flag none => some notFoundResponse
  | .failed .versionConflict =>
    some (writeError 409 "version_conflict"
      "This flag was changed by someone else. Reload and try again.")
  | r => (r.error? driver).map updateFlagError

def toggleFlagResponse (driver : String) : ServiceResult → Option HttpResponse
  | .flag (some flag) => some (writeFlag 200 flag)
  | .flag none => some notFoundResponse
  | r => (r.error? driver).map fun _ => writeError 500 "internal_error" "Failed to toggle flag"

def deleteFlagResponse (driver : String) : ServiceResult → Option HttpResponse
  | .deleted => some ⟨204, none⟩
  | r => (r.error? driver).map deleteFlagError

/-- The response to a call of one of the four mutating methods. -/
def ServiceCall.response (driver : String) : ServiceCall → ServiceResult → Option HttpResponse
  | createFlag _ => createFlagResponse driver
  | updateFlag _ _ => updateFlagResponse driver
  | toggleFlag _ => toggleFlagResponse driver
  | deleteFlag _ => deleteFlagResponse driver

end FlagPlane
