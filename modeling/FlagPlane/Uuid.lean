import Mathlib.Data.List.Basic

/-!
# FlagPlane.Uuid

**Texts of a `uuid` column.** A text is read as a UUID when it has 32 hexadecimal digits, in upper or
lower case, with a hyphen after any group of four of them, and with braces around it or not. The
column prints a UUID in lower case, in groups of 8, 4, 4, 4 and 12. A text that is read as none is
not a value of the column: a statement that has it for a parameter fails.
-/

namespace FlagPlane

/-- A hexadecimal digit, in lower case. -/
def hexDigit (c : Char) : Option Char :=
  if c ∈ ['0', '1', '2', '3', '4', '5', '6', '7', '8', '9', 'a', 'b', 'c', 'd', 'e', 'f'] then some c
  else if c ∈ ['A', 'B', 'C', 'D', 'E', 'F'] then some c.toLower
  else none

/-- A hyphen may stand between two groups of four digits. -/
def dropHyphen : List Char → List Char
  | '-' :: text => text
  | text => text

/-- `n` bytes, and the text after them. -/
def uuidBytes : Nat → List Char → Option (List Char × List Char)
  | 0, text => some ([], text)
  | n + 1, c :: d :: text => do
    let c ← hexDigit c
    let d ← hexDigit d
    let (digits, rest) ← uuidBytes n (if n % 2 = 0 ∧ 0 < n then dropHyphen text else text)
    some (c :: d :: digits, rest)
  | _ + 1, _ => none

/-- The text that the column prints, with `n` bytes to go. -/
def printBytes : Nat → List Char → List Char
  | n + 1, c :: d :: digits =>
    c :: d :: (if n ∈ [12, 10, 8, 6] then '-' :: printBytes n digits else printBytes n digits)
  | _, _ => []

def printUuid (digits : List Char) : List Char := printBytes 16 digits

/-- The UUID that a text is read as, in the form in which the column prints it. -/
def readUuid (text : String) : Option String :=
  match text.toList with
  | '{' :: text => do
    let (digits, rest) ← uuidBytes 16 text
    if rest = ['}'] then some (String.ofList (printUuid digits)) else none
  | text => do
    let (digits, rest) ← uuidBytes 16 text
    if rest = [] then some (String.ofList (printUuid digits)) else none

section Uuid

variable {c d : Char} {n : Nat} {text digits rest : List Char}

theorem hexDigit_idem (h : hexDigit c = some d) : hexDigit d = some d := by
  unfold hexDigit at h
  split at h
  · rename_i hc
    obtain rfl := Option.some.inj h
    exact if_pos hc
  · split at h
    · rename_i hc
      obtain rfl := Option.some.inj h
      simp only [List.mem_cons, List.not_mem_nil, or_false] at hc
      rcases hc with rfl | rfl | rfl | rfl | rfl | rfl <;> decide
    · cases h

theorem hexDigit_ne (h : hexDigit c = some d) : d ≠ '-' ∧ d ≠ '{' := by
  have hd := hexDigit_idem h
  constructor
  · rintro rfl
    revert hd
    decide
  · rintro rfl
    revert hd
    decide

/-- Two digits for each byte, in lower case. -/
theorem uuidBytes_digits (h : uuidBytes n text = some (digits, rest)) :
    digits.length = 2 * n ∧ ∀ c ∈ digits, hexDigit c = some c := by
  induction n generalizing text digits with
  | zero =>
      obtain ⟨rfl, -⟩ := Prod.mk.inj (Option.some.inj h)
      exact ⟨rfl, nofun⟩
  | succ n ih =>
      obtain _ | ⟨c, _ | ⟨d, text⟩⟩ := text
      · cases h
      · cases h
      · simp only [uuidBytes, Option.bind_eq_bind, Option.bind_eq_some_iff] at h
        obtain ⟨c', hc, d', hd, ⟨digits', rest'⟩, hrest, heq⟩ := h
        obtain ⟨rfl, rfl⟩ := Prod.mk.inj (Option.some.inj heq)
        obtain ⟨hlength, hall⟩ := ih hrest
        refine ⟨by simp only [List.length_cons, hlength]; omega, ?_⟩
        simp only [List.forall_mem_cons]
        exact ⟨hexDigit_idem hc, hexDigit_idem hd, hall⟩

theorem dropHyphen_of_digit (h : hexDigit c = some c) : dropHyphen (c :: text) = c :: text := by
  unfold dropHyphen
  split
  · rename_i heq
    exact absurd (List.cons.inj heq).1 (hexDigit_ne h).1
  · rfl

theorem uuidBytes_printBytes (hlength : digits.length = 2 * n)
    (hall : ∀ c ∈ digits, hexDigit c = some c) :
    uuidBytes n (printBytes n digits) = some (digits, []) := by
  induction n generalizing digits with
  | zero =>
      obtain rfl := List.eq_nil_of_length_eq_zero hlength
      rfl
  | succ n ih =>
      obtain _ | ⟨c, _ | ⟨d, digits⟩⟩ := digits
      · simp at hlength
      · simp at hlength
        omega
      · simp only [List.forall_mem_cons] at hall
        obtain ⟨hc, hd, hall⟩ := hall
        have hlength' : digits.length = 2 * n := by
          simp only [List.length_cons] at hlength
          omega
        -- the hyphen that is printed here is dropped, and a digit is not
        have htext : (if n % 2 = 0 ∧ 0 < n then
            dropHyphen (if n ∈ [12, 10, 8, 6] then '-' :: printBytes n digits
              else printBytes n digits)
            else if n ∈ [12, 10, 8, 6] then '-' :: printBytes n digits
              else printBytes n digits) = printBytes n digits := by
          by_cases hgroup : n ∈ [12, 10, 8, 6]
          · have heven : n % 2 = 0 ∧ 0 < n := by
              simp only [List.mem_cons, List.not_mem_nil, or_false] at hgroup
              omega
            rw [if_pos hgroup, if_pos heven]
            rfl
          · rw [if_neg hgroup]
            split
            · rename_i heven
              obtain _ | ⟨c', _ | ⟨d', digits⟩⟩ := digits
              · simp at hlength'
                omega
              · simp at hlength'
                omega
              · obtain _ | n := n
                · exact absurd heven.2 (Nat.lt_irrefl 0)
                · exact dropHyphen_of_digit (hall c' List.mem_cons_self)
            · rfl
        simp only [printBytes, uuidBytes, htext, hc, hd, ih hlength' hall, Option.bind_eq_bind,
          Option.bind_some]

/-- **What the column prints is read as it is.** -/
theorem readUuid_idem {text id : String} (h : readUuid text = some id) : readUuid id = some id := by
  -- either way, the digits are those of sixteen bytes
  obtain ⟨digits, hlength, hall, rfl⟩ : ∃ digits : List Char, digits.length = 2 * 16 ∧
      (∀ c ∈ digits, hexDigit c = some c) ∧ id = String.ofList (printUuid digits) := by
    unfold readUuid at h
    split at h
    all_goals
      simp only [Option.bind_eq_bind, Option.bind_eq_some_iff] at h
      obtain ⟨⟨digits, rest⟩, hbytes, h⟩ := h
      obtain ⟨hlength, hall⟩ := uuidBytes_digits hbytes
      dsimp only at h
      split at h
      · exact ⟨digits, hlength, hall, (Option.some.inj h).symm⟩
      · cases h
  have hread := uuidBytes_printBytes hlength hall
  obtain _ | ⟨c, _ | ⟨d, digits'⟩⟩ := digits
  · cases hlength
  · cases hlength
  have hc := hexDigit_ne (hall c List.mem_cons_self)
  unfold readUuid
  rw [String.toList_ofList]
  split
  · rename_i heq
    exact absurd (List.cons.inj heq).1 hc.2
  · rw [printUuid, hread]
    rfl

/-- Upper case, and other groups. -/
example : readUuid "{6BA7B810-9DAD11D1-80B4-00C04FD430C8}" =
    some "6ba7b810-9dad-11d1-80b4-00c04fd430c8" := by decide

end Uuid

end FlagPlane
