import Mathlib.Algebra.Ring.Int.Defs
import Mathlib.Data.List.Basic

/-!
# FlagPlane.Json

**JSON values and how Go's `encoding/json` decodes them into a struct.** Values, not
text: an object is the list of its members as written. Both languages of the
system read such values, and they differ in how they do it: Go matches member
names case-insensitively and fails on a member of the wrong type, JavaScript
reads the last member of exactly the asked name and checks nothing.
-/

namespace FlagPlane

/-- A JSON value. A number is kept apart by how it is written, since Go's integer
fields only accept integer literals. -/
inductive Json
  | null
  | bool (b : Bool)
  | int (n : Int)
  /-- A number literal with a fraction or an exponent, as written. -/
  | float (literal : String)
  | str (s : String)
  | arr (items : List Json)
  | obj (members : List (String × Json))
  deriving Repr

/-- Decoding element by element, when every element decodes. -/
theorem mapM_eq_some_map {α β : Type*} {l : List α} {f : α → Option β} {g : α → β}
    (h : ∀ x ∈ l, f x = some (g x)) : l.mapM f = some (l.map g) := by
  induction l with
  | nil => rfl
  | cons x l ih =>
      rw [List.forall_mem_cons] at h
      rw [List.mapM_cons, h.1, ih h.2]
      rfl

namespace Json

/-- A JavaScript property read `v.name` on a parsed value: the last member of that
exact name, `none` for `undefined`. -/
def prop (name : String) : Json → Option Json
  | obj members => (members.reverse.find? (fun m => m.1 = name)).map Prod.snd
  | _ => none

/-! ### `encoding/json` -/

/-- The folding under which `encoding/json` compares member names with the (ASCII)
field names of a struct: ASCII letters without case, and the two other code
points that fold to an ASCII letter. -/
def foldName (name : String) : String :=
  String.ofList (name.toList.map fun c =>
    -- U+017F folds to `s`, U+212A (the Kelvin sign) to `k`
    if c.val = 0x17f then 's' else if c.val = 0x212a then 'k' else c.toLower)

/-- A name that folding leaves alone, such as the names in the struct tags. -/
def plainName (name : String) : Bool :=
  name.toList.all fun c => c.val ≠ 0x17f && c.val ≠ 0x212a && c.toLower = c

theorem foldName_of_plain {name : String} (h : plainName name = true) : foldName name = name := by
  have hchars : ∀ c ∈ name.toList, c.val ≠ 0x17f ∧ c.val ≠ 0x212a ∧ c.toLower = c := by
    simpa [plainName, and_assoc] using h
  rw [foldName, List.map_congr_left (g := id), List.map_id, String.ofList_toList]
  intro c hc
  obtain ⟨hs, hk, hlower⟩ := hchars c hc
  rw [if_neg hs, if_neg hk, hlower, id]

/-- Decode into a `string` that holds `old`. -/
def decodeString (old : String) : Json → Option String
  | str s => some s
  | null => some old
  | _ => none

/-- Decode into a `bool` that holds `old`. -/
def decodeBool (old : Bool) : Json → Option Bool
  | bool b => some b
  | null => some old
  | _ => none

/-- The values of a 64-bit signed integer. -/
def InInt64 (n : Int) : Prop := -2 ^ 63 ≤ n ∧ n < 2 ^ 63

instance (n : Int) : Decidable (InInt64 n) := inferInstanceAs (Decidable (_ ∧ _))

/-- Decode into an `int` or `int64` that holds `old`. -/
def decodeInt (old : Int) : Json → Option Int
  | int n => if InInt64 n then some n else none
  | null => some old
  | _ => none

/-- A `[]string` that is decoded into, and what its array still holds past its end. -/
structure Strings where
  elems : List String
  spare : List String
  deriving DecidableEq

/-- A struct that is being decoded, and what the array of its `[]string` holds past its end. -/
abbrev Decoding (α : Type*) := α × List String

/-- Decode into the elements of an array. -/
def decodeElems : List String → List Json → Option (List String)
  | _, [] => some []
  | array, v :: items => do
    let s ← decodeString (array.headD "") v
    let ss ← decodeElems array.tail items
    some (s :: ss)

/-- Decode into a `[]string`: into the array that it has, so that a `null` among the items leaves what
is there. An empty array makes a new slice, and `null` sets the slice to `nil`. -/
def decodeStrings (old : Strings) : Json → Option Strings
  | arr [] => some ⟨[], []⟩
  | arr items =>
    (decodeElems (old.elems ++ old.spare) items).map fun elems =>
      ⟨elems, (old.elems ++ old.spare).drop items.length⟩
  | null => some ⟨[], []⟩
  | _ => none

/-- Decode an object into a struct that starts from its zero value: every member in
turn goes through `setField`, which ignores the names it does not know. `null`
leaves the struct as it is; anything but an object is an error. -/
def decodeStruct {α : Type*} (zero : α) (setField : String → Json → α → Option α) :
    Json → Option α
  | obj members => members.foldlM (fun x m => setField (foldName m.1) m.2 x) zero
  | null => some zero
  | _ => none

@[simp] theorem decodeString_str (old s : String) : decodeString old (str s) = some s := rfl

@[simp] theorem decodeBool_bool (old b : Bool) : decodeBool old (bool b) = some b := rfl

theorem decodeInt_int {old n : Int} (h : InInt64 n) : decodeInt old (int n) = some n := by
  rw [decodeInt, if_pos h]

theorem decodeElems_strs (array ss : List String) : decodeElems array (ss.map str) = some ss := by
  induction ss generalizing array with
  | nil => rfl
  | cons s ss ih => simp [decodeElems, ih]

/-- Strings overwrite whatever is there. -/
theorem decodeStrings_strs (old : Strings) (ss : List String) :
    ∃ spare, decodeStrings old (arr (ss.map str)) = some ⟨ss, spare⟩ := by
  cases ss with
  | nil => exact ⟨[], rfl⟩
  | cons s ss =>
      refine ⟨(old.elems ++ old.spare).drop (ss.length + 1), ?_⟩
      simp [decodeStrings, decodeElems, decodeElems_strs]

@[simp] theorem decodeStrings_nil (ss : List String) :
    decodeStrings ⟨[], []⟩ (arr (ss.map str)) = some ⟨ss, []⟩ := by
  cases ss with
  | nil => rfl
  | cons s ss => simp [decodeStrings, decodeElems, decodeElems_strs]

/-- The second `null` finds what the first member has left past the end of the second. -/
example : (decodeStrings ⟨["a", "b"], []⟩ (arr [str "c"])).bind
    (decodeStrings · (arr [null, null])) = some ⟨["c", "b"], []⟩ := by decide

end Json

end FlagPlane
