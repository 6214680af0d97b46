import FlagPlane.Json

/-!
# FlagPlane.Model.Flag

The Go structs of `internal/model/flag.go` and the JSON they are marshalled to.

A Go slice that may be `nil` is an `Option (List _)`, since both `ToResponse` and
the repository's `Update` tell `nil` from empty. Times are microseconds since
the Unix epoch, the resolution of `TIMESTAMPTZ`.
-/

namespace FlagPlane

/-- A point in time: microseconds since the Unix epoch. -/
abbrev Timestamp := Int

/-- `model.Flag`. -/
structure Flag where
  id : String
  key : String
  description : String
  enabled : Bool
  rolloutPercentage : Int
  targetedUsers : Option (List String)
  version : Int
  createdAt : Timestamp
  updatedAt : Timestamp
  deriving DecidableEq, Repr

/-- `model.CreateFlagRequest`. -/
structure CreateFlagRequest where
  key : String
  description : String
  enabled : Bool
  rolloutPercentage : Int
  targetedUsers : Option (List String)
  deriving DecidableEq, Repr

/-- `model.UpdateFlagRequest`: `none` is a field the request does not set. -/
structure UpdateFlagRequest where
  description : Option String
  enabled : Option Bool
  rolloutPercentage : Option Int
  targetedUsers : Option (List String)
  expectedVersion : Option Int
  deriving DecidableEq, Repr

/-- `model.FlagResponse`. -/
structure FlagResponse where
  id : String
  key : String
  description : String
  enabled : Bool
  rolloutPercentage : Int
  targetedUsers : List String
  version : Int
  createdAt : String
  updatedAt : String
  deriving DecidableEq, Repr

/-! ### `Format(time.RFC3339)` -/

/-- A decimal number, zero-padded on the left to `width` digits. -/
def padded (width : Nat) (n : Int) : String :=
  let digits := toString n.toNat
  String.ofList (List.replicate (width - digits.length) '0') ++ digits

/-- The civil date (year, month, day) of a day counted from 1970-01-01, in the
proleptic Gregorian calendar. Years start in March here, so that the leap day
is the last day of its year. -/
def civilDate (day : Int) : Int × Int × Int :=
  let z := day + 719468
  let era := z / 146097
  let doe := z % 146097
  let yoe := (doe - doe / 1460 + doe / 36524 - doe / 146096) / 365
  let doy := doe - (365 * yoe + yoe / 4 - yoe / 100)
  let mp := (5 * doy + 2) / 153
  let month := if mp < 10 then mp + 3 else mp - 9
  let year := yoe + era * 400 + (if month ≤ 2 then 1 else 0)
  (year, month, doy - (153 * mp + 2) / 5 + 1)

/-- `t.Format(time.RFC3339)` in UTC: whole seconds, the fraction dropped. -/
def formatRFC3339 (t : Timestamp) : String :=
  let seconds := t / 1000000
  let date := civilDate (seconds / 86400)
  let clock := seconds % 86400
  padded 4 date.1 ++ "-" ++ padded 2 date.2.1 ++ "-" ++ padded 2 date.2.2 ++ "T" ++
    padded 2 (clock / 3600) ++ ":" ++ padded 2 (clock / 60 % 60) ++ ":" ++
    padded 2 (clock % 60) ++ "Z"

example : formatRFC3339 951827696123456 = "2000-02-29T12:34:56Z" := by decide

/-- `Flag.ToResponse`: a `nil` user list is sent as an empty one. -/
def Flag.toResponse (f : Flag) : FlagResponse where
  id := f.id
  key := f.key
  description := f.description
  enabled := f.enabled
  rolloutPercentage := f.rolloutPercentage
  targetedUsers := f.targetedUsers.getD []
  version := f.version
  createdAt := formatRFC3339 f.createdAt
  updatedAt := formatRFC3339 f.updatedAt

/-- `json.Marshal` of a `FlagResponse`, under its field tags. -/
def FlagResponse.toJson (r : FlagResponse) : Json :=
  .obj [("id", .str r.id), ("key", .str r.key), ("description", .str r.description),
    ("enabled", .bool r.enabled), ("rollout_percentage", .int r.rolloutPercentage),
    ("targeted_users", .arr (r.targetedUsers.map .str)), ("version", .int r.version),
    ("created_at", .str r.createdAt), ("updated_at", .str r.updatedAt)]

/-- `repository.flagPayload`: the JSON of a flag's response image. -/
def flagPayload (f : Flag) : Json :=
  f.toResponse.toJson

/-- A payload shows the description and the version. -/
theorem flagPayload_inj {f g : Flag} (h : flagPayload f = flagPayload g) :
    f.description = g.description ∧ f.version = g.version := by
  simp only [flagPayload, FlagResponse.toJson, Json.obj.injEq, List.cons.injEq, Prod.mk.injEq,
    Json.str.injEq, Json.int.injEq] at h
  exact ⟨h.2.2.1.2, h.2.2.2.2.2.2.1.2⟩

end FlagPlane
