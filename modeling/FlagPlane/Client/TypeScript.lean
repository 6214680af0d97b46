import FlagPlane.Double
import FlagPlane.Hash.Rollout
import FlagPlane.Repository.Tables

/-!
# FlagPlane.Client.TypeScript

**The browser SDK**, `sdk/FeatureFlagClient.ts`: the client's state, its two ways of applying
an event, and `isEnabled`. A record of the map is whatever `JSON.parse` made of a payload:
nothing checks that it has the type the code casts it to, and only `isEnabled` looks inside.

Versions are numbers, so those past `2 ^ 53` are rounded, when they are read and when one is added.
The integers inside a record, with which nothing is computed, are kept as they were sent.
-/

namespace FlagPlane

/-- `FeatureFlagClient`: the flags and the version, which is a number. -/
structure FeatureFlagClient where
  flags : String → Option Json
  configVersion : Int

/-- The body of `GET /api/client/flags`; a member may be missing. -/
structure FlagsBody where
  flags : Option (List Json)
  configVersion : Option Int

/-- A property that is a string, as the code expects `flag.key` to be. -/
def Json.stringProp (name : String) (v : Json) : Option String :=
  match v.prop name with
  | some (.str s) => some s
  | _ => none

/-- `v === s` for a string `s`. -/
def Json.isStr (s : String) : Json → Bool
  | .str t => t = s
  | _ => false

namespace FeatureFlagClient

/-- `this.flags.set(key, record)`. -/
def set (c : FeatureFlagClient) (key : String) (record : Json) : FeatureFlagClient :=
  { c with flags := Function.update c.flags key (some record) }

/-- `this.flags.delete(key)`. -/
def delete (c : FeatureFlagClient) (key : String) : FeatureFlagClient :=
  { c with flags := Function.update c.flags key none }

/-- `this.configVersion + 1`. -/
def nextVersion (c : FeatureFlagClient) : Int := jsNumber (c.configVersion + 1)

/-- `eventVersion`: the number in the frame's last event id, else the next version. -/
def eventVersion (c : FeatureFlagClient) (lastEventId : Option Int) : Int :=
  (lastEventId.map jsNumber).getD c.nextVersion

/-- `applyEvent`: the client after it, and whether it must reconcile. `mutate` is `none`
when it throws, which leaves the client as it was. -/
def applyEvent (c : FeatureFlagClient) (version : Int)
    (mutate : FeatureFlagClient → Option FeatureFlagClient) : FeatureFlagClient × Bool :=
  if version ≤ c.configVersion then (c, false)
  else if version > c.nextVersion then (c, true)
  else
    match mutate c with
    | some c' => ({ c' with configVersion := version }, false)
    | none => (c, false)

/-- `() => this.flags.set(flag.key, flag)`. A key that is no string is one that `get` is never
asked for; reading a property of `null` throws. -/
def setParsed (flag : Json) (c : FeatureFlagClient) : Option FeatureFlagClient :=
  match flag with
  | .null => none
  | _ => some (match flag.stringProp "key" with
    | some key => c.set key flag
    | none => c)

/-- The listener of `flag_updated`. -/
def onFlagUpdated (c : FeatureFlagClient) (lastEventId : Option Int) (data : Json) :
    FeatureFlagClient × Bool :=
  c.applyEvent (c.eventVersion lastEventId) (setParsed data)

/-- The listener of `flag_deleted`. Destructuring `null` throws before anything is applied. -/
def onFlagDeleted (c : FeatureFlagClient) (lastEventId : Option Int) (data : Json) :
    FeatureFlagClient × Bool :=
  match data with
  | .null => (c, false)
  | _ => c.applyEvent (c.eventVersion lastEventId) fun c =>
    some (match data.stringProp "key" with
      | some key => c.delete key
      | none => c)

/-- A message of the stream: no other event has a listener. -/
def onMessage (c : FeatureFlagClient) (event : String) (lastEventId : Option Int) (data : Json) :
    FeatureFlagClient × Bool :=
  if event = "flag_updated" then c.onFlagUpdated lastEventId data
  else if event = "flag_deleted" then c.onFlagDeleted lastEventId data
  else (c, false)

/-- One event of a page in `reconcile`, with the `advanced` flag. -/
def applyNext (s : FeatureFlagClient × Bool) (ev : FlagEvent) : FeatureFlagClient × Bool :=
  let version := jsNumber ev.version
  if version ≤ s.1.configVersion then s
  else
    let c := if ev.eventType = .deleted then s.1.delete ev.flagKey else s.1.set ev.flagKey ev.payload
    ({ c with configVersion := version }, true)

/-- A page in `reconcile`. -/
def applyPage (c : FeatureFlagClient) (events : List FlagEvent) : FeatureFlagClient × Bool :=
  events.foldl applyNext (c, false)

/-- `for (const flag of data.flags) this.flags.set(flag.key, flag)`: the client after it, and
whether no record threw. -/
def setAll (c : FeatureFlagClient) : List Json → FeatureFlagClient × Bool
  | [] => (c, true)
  | flag :: rest =>
    match setParsed flag c with
    | some c' => c'.setAll rest
    | none => (c, false)

/-- `bootstrap` after `res.json()`: the client after it, and whether it ran to its end. Reading
the missing `flags` throws when the map is already cleared. -/
def bootstrap (c : FeatureFlagClient) (body : FlagsBody) : FeatureFlagClient × Bool :=
  let cleared : FeatureFlagClient := { c with flags := fun _ => none }
  match body.flags with
  | none => (cleared, false)
  | some flags =>
    match cleared.setAll flags with
    | (c', false) => (c', false)
    | (c', true) =>
      ({ c' with configVersion := (body.configVersion.map jsNumber).getD c'.configVersion }, true)

/-- `isEnabled`. `none` stands for a record whose properties are not of the types that
`FlagConfig` declares. -/
def isEnabled (c : FeatureFlagClient) (flagKey userId : String) : Option Bool :=
  match c.flags flagKey with
  | none => some false
  | some flag =>
    match flag.prop "enabled" with
    | some (.bool false) => some false
    | some (.bool true) =>
      match flag.prop "targeted_users" with
      | some (.arr users) =>
        if users.any fun u => u.isStr userId then some true
        else
          match flag.prop "rollout_percentage" with
          | some (.int percentage) => some (isInRollout flagKey userId percentage)
          | _ => none
      | _ => none
    | _ => none

/-- One is added exactly, if there is a number above the version. -/
theorem nextVersion_of_lt {c : FeatureFlagClient} {v : Int} (hc : ExactInt c.configVersion)
    (hv : ExactInt v) (hlt : c.configVersion < v) : c.nextVersion = c.configVersion + 1 :=
  jsNumber_of_exact ⟨hc.1.trans (Int.le_add_one (le_refl _)), (Int.add_one_le_of_lt hlt).trans hv.2⟩

end FeatureFlagClient

end FlagPlane
