import FlagPlane.Fnv
import FlagPlane.Model.Flag

/-!
# FlagPlane.Service.Requests

What `flag_service.go` checks of a request before it calls the repository, with the texts
of its errors.
-/

namespace FlagPlane

/-- `keyRegex`, `^[a-zA-Z0-9-]+$`. -/
def keyRegex (key : String) : Bool :=
  key ≠ "" && key.toList.all fun c => c.isAlphanum || c = '-'

/-- `len(key)`: Go counts bytes. -/
def byteLength (key : String) : Nat :=
  (utf8Units key).length

/-- The checks of `CreateFlag`, in their order: the error's text, if one fails. -/
def checkCreate (req : CreateFlagRequest) : Option String :=
  if req.key = "" ∨ byteLength req.key > 64 then
    some "key is required and must be at most 64 characters"
  else if ¬ keyRegex req.key then
    some "key must be alphanumeric with hyphens only"
  else if req.rolloutPercentage < 0 ∨ req.rolloutPercentage > 100 then
    some "rollout_percentage must be between 0 and 100"
  else none

/-- The check of `UpdateFlag`. -/
def checkUpdate (req : UpdateFlagRequest) : Option String :=
  match req.rolloutPercentage with
  | some p => if p < 0 ∨ p > 100 then some "rollout_percentage must be between 0 and 100" else none
  | none => none

/-- The flag that `CreateFlag` hands to the repository: a `nil` user list becomes an empty one. -/
def newFlag (req : CreateFlagRequest) : Flag where
  id := ""
  key := req.key
  description := req.description
  enabled := req.enabled
  rolloutPercentage := req.rolloutPercentage
  targetedUsers := some (req.targetedUsers.getD [])
  version := 0
  createdAt := 0
  updatedAt := 0

/-- A key that `keyRegex` accepts is ASCII. -/
theorem ascii_of_keyRegex {key : String} (h : keyRegex key = true) : Ascii key := by
  rw [keyRegex, Bool.and_eq_true, List.all_eq_true] at h
  intro c hc
  have hchar := h.2 c hc
  unfold Char.isAlphanum Char.isAlpha Char.isUpper Char.isLower Char.isDigit at hchar
  simp only [Bool.or_eq_true, Bool.and_eq_true, decide_eq_true_eq, UInt32.le_iff_toNat_le,
    ge_iff_le] at hchar
  have hval : c.val.toNat = c.toNat := rfl
  have hupper : 'Z'.val.toNat = 90 := rfl
  have hlower : 'z'.val.toNat = 122 := rfl
  have hdigit : '9'.val.toNat = 57 := rfl
  rcases hchar with hchar | rfl
  · omega
  · decide

end FlagPlane
