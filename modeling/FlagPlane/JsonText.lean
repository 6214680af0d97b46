import Mathlib.Data.List.TakeWhile
import FlagPlane.Json

/-!
# FlagPlane.JsonText

**The text of a JSON value**, as `encoding/json` writes and reads it. `Json.render` is the compact
text, in which control characters, the quote, the backslash, `<`, `>`, `&` and the two line
separators of Unicode are escaped; `parseJson` reads any JSON text, and reads back what was
rendered (`parseJson_render`).

Parts of a text can be handled without being decoded. `rawObject` splits an object into its
members and leaves their values as they are written, and `compactJson` is what the encoder does
to a value that is text already. On rendered text the one finds the texts of the members
(`rawObject_render`) and the other changes nothing (`compactJson_render`).
-/

namespace FlagPlane

/-! ### Writing -/

/-- The two-character escapes: the character, and what follows the backslash. -/
def shortEscapes : List (Char × Char) :=
  [('"', '"'), ('\\', '\\'), ('\n', 'n'), ('\r', 'r'), ('\t', 't'), ('\x08', 'b'), ('\x0c', 'f')]

/-- `<`, `>`, `&` and the two line separators. -/
def isHtmlChar (c : Char) : Bool :=
  c = '<' || c = '>' || c = '&' || c = '\u2028' || c = '\u2029'

/-- `\u` and four digits. -/
def unicodeEscape (c : Char) : List Char :=
  ['\\', 'u', Nat.digitChar (c.toNat / 4096 % 16), Nat.digitChar (c.toNat / 256 % 16),
    Nat.digitChar (c.toNat / 16 % 16), Nat.digitChar (c.toNat % 16)]

/-- A character inside a string. -/
def escapeChar (c : Char) : List Char :=
  match shortEscapes.lookup c with
  | some e => ['\\', e]
  | none => if c.toNat < 0x20 || isHtmlChar c then unicodeEscape c else [c]

def renderString (s : String) : List Char :=
  '"' :: (s.toList.flatMap escapeChar ++ ['"'])

def renderInt (n : Int) : List Char :=
  if n < 0 then '-' :: Nat.toDigits 10 n.natAbs else Nat.toDigits 10 n.natAbs

/-- What follows the first item of an array. -/
def renderItems : List (List Char) → List Char
  | [] => [']']
  | item :: rest => ',' :: (item ++ renderItems rest)

/-- An array after its bracket. -/
def arrayBody : List (List Char) → List Char
  | [] => [']']
  | item :: rest => item ++ renderItems rest

/-- An array, from the texts of its items. -/
def renderArray (items : List (List Char)) : List Char :=
  '[' :: arrayBody items

def renderMember (m : String × List Char) : List Char :=
  renderString m.1 ++ ':' :: m.2

/-- What follows the first member of an object. -/
def renderMembers : List (String × List Char) → List Char
  | [] => ['}']
  | m :: rest => ',' :: (renderMember m ++ renderMembers rest)

/-- An object after its brace. -/
def objectBody : List (String × List Char) → List Char
  | [] => ['}']
  | m :: rest => renderMember m ++ renderMembers rest

/-- An object, from the texts of its members' values. -/
def renderObject (members : List (String × List Char)) : List Char :=
  '{' :: objectBody members

mutual

/-- `json.Marshal`. -/
def Json.render : Json → List Char
  | .null => ['n', 'u', 'l', 'l']
  | .bool true => ['t', 'r', 'u', 'e']
  | .bool false => ['f', 'a', 'l', 's', 'e']
  | .int n => renderInt n
  | .float literal => literal.toList
  | .str s => renderString s
  | .arr items => renderArray (itemTexts items)
  | .obj members => renderObject (memberTexts members)

def itemTexts : List Json → List (List Char)
  | [] => []
  | item :: rest => item.render :: itemTexts rest

def memberTexts : List (String × Json) → List (String × List Char)
  | [] => []
  | (name, v) :: rest => (name, v.render) :: memberTexts rest

end

theorem itemTexts_eq (items : List Json) : itemTexts items = items.map Json.render := by
  induction items with
  | nil => rfl
  | cons item rest ih => rw [itemTexts, ih, List.map_cons]

theorem memberTexts_eq (members : List (String × Json)) :
    memberTexts members = members.map fun m => (m.1, m.2.render) := by
  induction members with
  | nil => rfl
  | cons m rest ih => rw [memberTexts, ih, List.map_cons]

/-! ### Reading -/

/-- JSON's white space. -/
def isJsonSpace (c : Char) : Bool :=
  c = ' ' || c = '\t' || c = '\n' || c = '\r'

def skipSpace (text : List Char) : List Char :=
  text.dropWhile isJsonSpace

def hexValue (c : Char) : Option Nat :=
  if '0' ≤ c ∧ c ≤ '9' then some (c.toNat - '0'.toNat)
  else if 'a' ≤ c ∧ c ≤ 'f' then some (c.toNat - 'a'.toNat + 10)
  else if 'A' ≤ c ∧ c ≤ 'F' then some (c.toNat - 'A'.toNat + 10)
  else none

/-- The value of four hexadecimal digits. -/
def hexValue₄ (a b c d : Char) : Option Nat :=
  (hexValue a).bind fun a => (hexValue b).bind fun b => (hexValue c).bind fun c =>
    (hexValue d).map fun d => ((a * 16 + b) * 16 + c) * 16 + d

/-- What a backslash and this character stand for. -/
def unescapeChar (e : Char) : Option Char :=
  if e = '/' then some '/' else (shortEscapes.find? fun p => p.2 = e).map Prod.fst

/-- The rest of a string after its opening quote: its characters, a surrogate where a `\u` says
so, and what follows the closing quote. -/
def parseUnits : List Char → Option (List Nat × List Char)
  | [] => none
  | c :: rest =>
    if c = '"' then some ([], rest)
    else if c = '\\' then
      match rest with
      | [] => none
      | e :: rest =>
        if e = 'u' then
          match rest with
          | h₃ :: h₂ :: h₁ :: h₀ :: rest =>
            (hexValue₄ h₃ h₂ h₁ h₀).bind fun u => (parseUnits rest).map fun p => (u :: p.1, p.2)
          | _ => none
        else
          (unescapeChar e).bind fun u => (parseUnits rest).map fun p => (u.toNat :: p.1, p.2)
    else if c.toNat < 0x20 then none
    else (parseUnits rest).map fun p => (c.toNat :: p.1, p.2)

def isHighSurrogate (u : Nat) : Bool := 0xd800 ≤ u && u < 0xdc00

def isLowSurrogate (u : Nat) : Bool := 0xdc00 ≤ u && u < 0xe000

/-- A unit that is not part of a pair. -/
def unitChar (u : Nat) : Char :=
  if isHighSurrogate u || isLowSurrogate u then '\ufffd' else Char.ofNat u

/-- Put surrogate pairs together. -/
def joinUnits : List Nat → List Char
  | [] => []
  | [u] => [unitChar u]
  | u :: u' :: rest =>
    if isHighSurrogate u && isLowSurrogate u' then
      Char.ofNat ((u - 0xd800) * 0x400 + (u' - 0xdc00) + 0x10000) :: joinUnits rest
    else unitChar u :: joinUnits (u' :: rest)

/-- The rest of a string after its opening quote, and what follows the string. -/
def parseString (text : List Char) : Option (String × List Char) :=
  (parseUnits text).map fun p => (String.ofList (joinUnits p.1), p.2)

/-- The characters that numbers consist of. -/
def isNumberChar (c : Char) : Bool :=
  c.isDigit || c = '-' || c = '+' || c = '.' || c = 'e' || c = 'E'

def allDigits (l : List Char) : Bool := !l.isEmpty && l.all Char.isDigit

/-- The exponent of a number. -/
def isExponent : List Char → Bool
  | 'e' :: '+' :: l | 'e' :: '-' :: l | 'E' :: '+' :: l | 'E' :: '-' :: l => allDigits l
  | 'e' :: l | 'E' :: l => allDigits l
  | _ => false

/-- What may follow the integer part of a number. -/
def isFraction : List Char → Bool
  | '.' :: l =>
    let rest := l.dropWhile Char.isDigit
    !(l.takeWhile Char.isDigit).isEmpty && (rest.isEmpty || isExponent rest)
  | l => isExponent l

/-- A number, given as all its characters. -/
def readNumber (token : List Char) : Option Json :=
  let negative := token.head? = some '-'
  let unsigned := if negative then token.tail else token
  let whole := unsigned.takeWhile Char.isDigit
  let rest := unsigned.dropWhile Char.isDigit
  if whole = [] ∨ whole.head? = some '0' ∧ whole ≠ ['0'] then none
  else if rest = [] then
    let n : Int := Nat.ofDigitChars 10 whole 0
    some (.int (if negative then -n else n))
  else if isFraction rest then some (.float (String.ofList token))
  else none

def parseNumber (text : List Char) : Option (Json × List Char) :=
  (readNumber (text.takeWhile isNumberChar)).map fun v => (v, text.dropWhile isNumberChar)

/-- A value that is no string, array or object. -/
def parseLiteral : List Char → Option (Json × List Char)
  | 'n' :: 'u' :: 'l' :: 'l' :: rest => some (.null, rest)
  | 't' :: 'r' :: 'u' :: 'e' :: rest => some (.bool true, rest)
  | 'f' :: 'a' :: 'l' :: 's' :: 'e' :: rest => some (.bool false, rest)
  | text => parseNumber text

section Containers

variable {β : Type} (value : List Char → Option (β × List Char))

/-- What follows the first item of an array. -/
def parseItems : Nat → List Char → Option (List β × List Char)
  | 0, _ => none
  | fuel + 1, text =>
    match skipSpace text with
    | ']' :: rest => some ([], rest)
    | ',' :: rest =>
      (value rest).bind fun p => (parseItems fuel p.2).map fun q => (p.1 :: q.1, q.2)
    | _ => none

/-- An array after its bracket. -/
def parseArray (fuel : Nat) (text : List Char) : Option (List β × List Char) :=
  match skipSpace text with
  | ']' :: rest => some ([], rest)
  | text => (value text).bind fun p => (parseItems value fuel p.2).map fun q => (p.1 :: q.1, q.2)

def parseMember (text : List Char) : Option ((String × β) × List Char) :=
  match skipSpace text with
  | '"' :: rest =>
    (parseString rest).bind fun name =>
      match skipSpace name.2 with
      | ':' :: rest => (value rest).map fun p => ((name.1, p.1), p.2)
      | _ => none
  | _ => none

/-- What follows the first member of an object. -/
def parseMembers : Nat → List Char → Option (List (String × β) × List Char)
  | 0, _ => none
  | fuel + 1, text =>
    match skipSpace text with
    | '}' :: rest => some ([], rest)
    | ',' :: rest =>
      (parseMember value rest).bind fun p => (parseMembers fuel p.2).map fun q => (p.1 :: q.1, q.2)
    | _ => none

/-- An object after its brace. -/
def parseObject (fuel : Nat) (text : List Char) : Option (List (String × β) × List Char) :=
  match skipSpace text with
  | '}' :: rest => some ([], rest)
  | text =>
    (parseMember value text).bind fun p => (parseMembers value fuel p.2).map fun q => (p.1 :: q.1, q.2)

end Containers

/-- A value, and what follows it. The fuel bounds both the depth of the value and the lengths of
its arrays and objects. -/
def parseValue : Nat → List Char → Option (Json × List Char)
  | 0, _ => none
  | fuel + 1, text =>
    match skipSpace text with
    | '"' :: rest => (parseString rest).map fun p => (.str p.1, p.2)
    | '[' :: rest => (parseArray (parseValue fuel) (fuel + 1) rest).map fun p => (.arr p.1, p.2)
    | '{' :: rest => (parseObject (parseValue fuel) (fuel + 1) rest).map fun p => (.obj p.1, p.2)
    | text => parseLiteral text

/-- The text is one value. -/
def whole {β : Type} (p : β × List Char) : Option β :=
  if skipSpace p.2 = [] then some p.1 else none

/-- `json.Unmarshal`, up to the value. -/
def parseJson (text : List Char) : Option Json :=
  (parseValue (text.length + 1) text).bind whole

/-- The text of the value that comes next, and what follows it. -/
def rawValue (fuel : Nat) (text : List Char) : Option (List Char × List Char) :=
  let text := skipSpace text
  (parseValue fuel text).map fun p => (text.take (text.length - p.2.length), p.2)

/-- The members of the object that the text is. -/
def rawObject (text : List Char) : Option (List (String × List Char)) :=
  match skipSpace text with
  | '{' :: rest =>
    (parseObject (rawValue (text.length + 1)) (text.length + 1) rest).bind whole
  | _ => none

/-- Where a scan through a text is. -/
inductive ScanState
  | outside
  | inString
  | escaped

def ScanState.next (s : ScanState) (c : Char) : ScanState :=
  match s with
  | outside => if c = '"' then inString else outside
  | inString => if c = '\\' then escaped else if c = '"' then outside else inString
  | escaped => inString

/-- Leave out white space and escape the characters of `isHtmlChar`. -/
def squeeze : ScanState → List Char → List Char
  | _, [] => []
  | s, c :: rest =>
    match s, isJsonSpace c with
    | .outside, true => squeeze s rest
    | _, _ => (if isHtmlChar c then unicodeEscape c else [c]) ++ squeeze (s.next c) rest

/-- What `json.Marshal` makes of a `json.RawMessage`. -/
def compactJson (text : List Char) : Option (List Char) :=
  (parseJson text).map fun _ => squeeze .outside text

/-! ### Strings -/

section Strings

variable {c : Char} {rest : List Char}

theorem hexValue_digitChar : ∀ n < 16, hexValue (Nat.digitChar n) = some n := by decide

theorem shortEscapes_spec : ∀ p ∈ shortEscapes,
    unescapeChar p.2 = some p.1 ∧ p.2 ≠ 'u' ∧ isHtmlChar p.2 = false ∧ 0x20 ≤ p.2.toNat := by
  decide

/-- What `escapeChar` does, by the three forms of a character in a string. -/
theorem escapeChar_cases (c : Char) :
    (∃ e, escapeChar c = ['\\', e] ∧ unescapeChar e = some c ∧ e ≠ 'u' ∧
      isHtmlChar e = false ∧ 0x20 ≤ e.toNat) ∨
    (escapeChar c = unicodeEscape c ∧ c.toNat < 0x10000) ∨
    (escapeChar c = [c] ∧ 0x20 ≤ c.toNat ∧ isHtmlChar c = false ∧ c ≠ '"' ∧ c ≠ '\\') := by
  unfold escapeChar
  -- a short escape, else a unicode one, else the character itself
  cases hlookup : shortEscapes.lookup c with
  | some e =>
      obtain ⟨l₁, l₂, htable, -⟩ := List.lookup_eq_some_iff.mp hlookup
      have hmem : (c, e) ∈ shortEscapes := by rw [htable]; simp
      exact Or.inl ⟨e, rfl, shortEscapes_spec _ hmem⟩
  | none =>
      rw [List.lookup_eq_none_iff] at hlookup
      dsimp only
      split
      · rename_i hescape
        refine Or.inr (Or.inl ⟨rfl, ?_⟩)
        rcases Bool.or_eq_true_iff.mp hescape with hlow | hhtml
        · exact lt_trans (of_decide_eq_true hlow) (by decide)
        · have hchars : c ∈ ['<', '>', '&', '\u2028', '\u2029'] := by
            simpa [isHtmlChar, or_assoc] using hhtml
          have hsmall : ∀ c ∈ ['<', '>', '&', '\u2028', '\u2029'], c.toNat < 0x10000 := by simp
          exact hsmall c hchars
      · rename_i hplain
        rw [Bool.or_eq_true, not_or, decide_eq_true_eq, not_lt, Bool.not_eq_true] at hplain
        have hne : ∀ p ∈ shortEscapes, c ≠ p.1 := by simpa using hlookup
        exact Or.inr (Or.inr ⟨rfl, hplain.1, hplain.2, hne ('"', '"') (by decide),
          hne ('\\', '\\') (by decide)⟩)

theorem parseUnits_unicodeEscape (h : c.toNat < 0x10000) :
    parseUnits (unicodeEscape c ++ rest) =
      (parseUnits rest).map fun p => (c.toNat :: p.1, p.2) := by
  have hdigit : ∀ n, hexValue (Nat.digitChar (n % 16)) = some (n % 16) := fun n =>
    hexValue_digitChar _ (Nat.mod_lt _ (by decide))
  have hvalue : ((c.toNat / 4096 % 16 * 16 + c.toNat / 256 % 16) * 16 + c.toNat / 16 % 16) * 16 +
      c.toNat % 16 = c.toNat := by
    omega
  rw [unicodeEscape, parseUnits.eq_def]
  simp [hexValue₄, hdigit, hvalue]

/-- One character of a string is read back. -/
theorem parseUnits_escapeChar (c : Char) (rest : List Char) :
    parseUnits (escapeChar c ++ rest) =
      (parseUnits rest).map fun p => (c.toNat :: p.1, p.2) := by
  rcases escapeChar_cases c with ⟨e, he, hunescape, hu, -⟩ | ⟨he, hsmall⟩ |
    ⟨he, hlow, -, hquote, hback⟩
  · rw [he]
    show parseUnits ('\\' :: e :: rest) = _
    rw [parseUnits.eq_def]
    simp [hunescape, hu]
  · rw [he]
    exact parseUnits_unicodeEscape hsmall
  · rw [he]
    show parseUnits (c :: rest) = _
    rw [parseUnits.eq_def]
    simp [hquote, hback, not_lt.mpr hlow]

theorem parseUnits_escaped (l rest : List Char) :
    parseUnits (l.flatMap escapeChar ++ '"' :: rest) = some (l.map Char.toNat, rest) := by
  induction l with
  | nil =>
      show parseUnits ('"' :: rest) = _
      rw [parseUnits.eq_def]
      rfl
  | cons c l ih =>
      rw [List.flatMap_cons, List.append_assoc, parseUnits_escapeChar, ih]
      rfl

/-- A character is no surrogate. -/
theorem not_surrogate (c : Char) :
    isHighSurrogate c.toNat = false ∧ isLowSurrogate c.toNat = false := by
  have hvalid : c.toNat < 0xd800 ∨ 0xdfff < c.toNat ∧ c.toNat < 0x110000 := c.valid
  simp only [isHighSurrogate, isLowSurrogate, Bool.and_eq_false_iff, decide_eq_false_iff_not]
  omega

theorem joinUnits_chars (l : List Char) : joinUnits (l.map Char.toNat) = l := by
  have hchar : ∀ c : Char, unitChar c.toNat = c := by
    intro c
    simp [unitChar, not_surrogate c]
  induction l with
  | nil => rfl
  | cons c l ih =>
      cases l with
      | nil => simp [joinUnits, hchar]
      | cons c' l =>
          rw [List.map_cons, List.map_cons, joinUnits, (not_surrogate c).1, Bool.false_and,
            if_neg Bool.false_ne_true, hchar, ← List.map_cons, ih]

/-- **A string is read back.** -/
theorem parseString_escaped (s : String) (rest : List Char) :
    parseString (s.toList.flatMap escapeChar ++ '"' :: rest) = some (s, rest) := by
  rw [parseString, parseUnits_escaped, Option.map_some, joinUnits_chars, String.ofList_toList]

end Strings

/-! ### Numbers -/

theorem toDigits_head (n : Nat) (h : 0 < n) : (Nat.toDigits 10 n).head? ≠ some '0' := by
  induction n using Nat.strongRecOn with
  | _ n ih =>
      by_cases hsmall : n < 10
      · rw [Nat.toDigits_of_lt_base hsmall]
        have hdigits : ∀ n < 10, 0 < n → [n.digitChar].head? ≠ some '0' := by decide
        exact hdigits n hsmall h
      · rw [Nat.toDigits_of_base_le (by decide) (not_lt.mp hsmall),
          List.head?_append_of_ne_nil _ Nat.toDigits_ne_nil]
        exact ih (n / 10) (by omega) (by omega)

theorem toDigits_isDigit {n : Nat} : ∀ c ∈ Nat.toDigits 10 n, c.isDigit = true := fun _ hc =>
  Nat.isDigit_of_mem_toDigits (by decide) (by decide) hc

theorem isNumberChar_renderInt (n : Int) : ∀ c ∈ renderInt n, isNumberChar c = true := by
  have hdigits : ∀ c ∈ Nat.toDigits 10 n.natAbs, isNumberChar c = true := fun c hc => by
    simp [isNumberChar, toDigits_isDigit c hc]
  unfold renderInt
  split
  · rw [List.forall_mem_cons]
    exact ⟨by decide, hdigits⟩
  · exact hdigits

/-- **An integer is read back.** -/
theorem readNumber_renderInt (n : Int) : readNumber (renderInt n) = some (.int n) := by
  have hall := toDigits_isDigit (n := n.natAbs)
  have htake : (Nat.toDigits 10 n.natAbs).takeWhile Char.isDigit = Nat.toDigits 10 n.natAbs := by
    rw [List.takeWhile_eq_self_iff]
    exact hall
  have hdrop : (Nat.toDigits 10 n.natAbs).dropWhile Char.isDigit = [] := by
    rw [List.dropWhile_eq_nil_iff]
    exact hall
  -- no leading zero, but for zero itself
  have hlead : ¬ (Nat.toDigits 10 n.natAbs = [] ∨
      (Nat.toDigits 10 n.natAbs).head? = some '0' ∧ Nat.toDigits 10 n.natAbs ≠ ['0']) := by
    intro hcase
    rcases hcase with hnil | ⟨hzero, hlong⟩
    · exact Nat.toDigits_ne_nil hnil
    · rcases Nat.eq_zero_or_pos n.natAbs with heq | hpos
      · rw [heq, Nat.toDigits_zero] at hlong
        exact hlong rfl
      · exact toDigits_head _ hpos hzero
  have hminus : (Nat.toDigits 10 n.natAbs).head? ≠ some '-' := by
    intro hhead
    have := hall '-' (List.mem_of_mem_head? hhead)
    revert this
    decide
  unfold renderInt
  split <;> unfold readNumber
  · have hn : -(n.natAbs : Int) = n := by omega
    simp only [List.head?_cons, List.tail_cons, if_true, htake, hdrop, if_neg hlead,
      Nat.ofDigitChars_ten_toDigits, hn]
  · have hn : (n.natAbs : Int) = n := by omega
    simp only [if_neg hminus, htake, hdrop, if_neg hlead, if_true,
      Nat.ofDigitChars_ten_toDigits, hn]

/-! ### Values -/

/-- A number with a fraction or an exponent, as JSON writes it. -/
structure FloatLiteral (literal : String) : Prop where
  chars : ∀ c ∈ literal.toList, isNumberChar c = true
  read : readNumber literal.toList = some (.float literal)

/-- The literals in the value are numbers of JSON. -/
inductive Json.Writable : Json → Prop
  | null : Writable .null
  | bool (b : Bool) : Writable (.bool b)
  | int (n : Int) : Writable (.int n)
  | float {literal : String} (h : FloatLiteral literal) : Writable (.float literal)
  | str (s : String) : Writable (.str s)
  | arr {items : List Json} (h : ∀ item ∈ items, item.Writable) : Writable (.arr items)
  | obj {members : List (String × Json)} (h : ∀ m ∈ members, m.2.Writable) :
      Writable (.obj members)

/-- The text does not go on with a character of a number. -/
def EndsNumber (rest : List Char) : Prop := ∀ c ∈ rest.head?, isNumberChar c = false

/-- The text begins with a character that begins a value. -/
def BeginsValue (text : List Char) : Prop :=
  ∃ c l, text = c :: l ∧ isJsonSpace c = false ∧ c ≠ ']'

section Values

variable {c x : Char} {rest token : List Char} {v : Json}

theorem skipSpace_cons (h : isJsonSpace c = false) : skipSpace (c :: rest) = c :: rest := by
  rw [skipSpace, List.dropWhile_cons_of_neg (by simp [h])]

theorem ne_of_isNumberChar (h : isNumberChar c = true) (hx : isNumberChar x = false) : c ≠ x := by
  intro heq
  rw [heq, hx] at h
  cases h

/-- The characters of numbers are ASCII. -/
theorem isNumberChar_toNat (h : isNumberChar c = true) : 0x20 ≤ c.toNat ∧ c.toNat < 0x80 := by
  simp only [isNumberChar, Bool.or_eq_true, decide_eq_true_eq] at h
  rcases h with ((((hdigit | rfl) | rfl) | rfl) | rfl) | rfl
  · obtain ⟨hlow, hhigh⟩ := Char.isDigit_iff_toNat.mp hdigit
    exact ⟨le_trans (by decide) hlow, lt_of_le_of_lt hhigh (by decide)⟩
  all_goals decide

theorem isNumberChar_notSpace (h : isNumberChar c = true) : isJsonSpace c = false := by
  have hchars : ∀ x ∈ [' ', '\t', '\n', '\r'], isNumberChar x = false := by simp [isNumberChar]
  have hne : ∀ x ∈ [' ', '\t', '\n', '\r'], c ≠ x := fun x hx =>
    ne_of_isNumberChar h (hchars x hx)
  simpa [isJsonSpace, and_assoc] using hne

theorem beginsValue_number (h : ∀ c ∈ token, isNumberChar c = true) (hne : token ≠ []) :
    BeginsValue token := by
  obtain ⟨c, l, rfl⟩ := List.exists_cons_of_ne_nil hne
  have hc := h c List.mem_cons_self
  exact ⟨c, l, rfl, isNumberChar_notSpace hc, ne_of_isNumberChar hc (by decide)⟩

theorem readNumber_nil : readNumber [] = none := by decide

theorem FloatLiteral.ne_nil {literal : String} (h : FloatLiteral literal) :
    literal.toList ≠ [] := by
  intro hnil
  have hread := h.read
  rw [hnil, readNumber_nil] at hread
  cases hread

theorem renderInt_ne_nil (n : Int) : renderInt n ≠ [] := by
  unfold renderInt
  split
  · exact List.cons_ne_nil _ _
  · exact Nat.toDigits_ne_nil

theorem Json.Writable.beginsValue (h : v.Writable) : BeginsValue v.render := by
  cases h with
  | null => exact ⟨_, _, rfl, by decide, by decide⟩
  | bool b => cases b <;> exact ⟨_, _, rfl, by decide, by decide⟩
  | int n => exact beginsValue_number (isNumberChar_renderInt n) (renderInt_ne_nil n)
  | float h => exact beginsValue_number h.chars h.ne_nil
  | str s => exact ⟨_, _, rfl, by decide, by decide⟩
  | arr => exact ⟨_, _, rfl, by decide, by decide⟩
  | obj => exact ⟨_, _, rfl, by decide, by decide⟩

theorem BeginsValue.skipSpace_append (h : BeginsValue token) (rest : List Char) :
    skipSpace (token ++ rest) = token ++ rest := by
  obtain ⟨c, l, rfl, hspace, -⟩ := h
  exact skipSpace_cons hspace

theorem parseNumber_append (htoken : ∀ c ∈ token, isNumberChar c = true)
    (hread : readNumber token = some v) (hrest : EndsNumber rest) :
    parseNumber (token ++ rest) = some (v, rest) := by
  have htake : rest.takeWhile isNumberChar = [] ∧ rest.dropWhile isNumberChar = rest := by
    cases rest with
    | nil => exact ⟨rfl, rfl⟩
    | cons c rest =>
        have hc := hrest c rfl
        simp [hc]
  rw [parseNumber, List.takeWhile_append_of_pos htoken, List.dropWhile_append_of_pos htoken,
    htake.1, htake.2, List.append_nil, hread]
  rfl

/-- A number is read back as a value. -/
theorem parseValue_number {fuel : Nat} (htoken : ∀ c ∈ token, isNumberChar c = true)
    (hread : readNumber token = some v) (hrest : EndsNumber rest) :
    parseValue (fuel + 1) (token ++ rest) = some (v, rest) := by
  have hne : token ≠ [] := by
    intro hnil
    rw [hnil, readNumber_nil] at hread
    cases hread
  have hnumber := parseNumber_append htoken hread hrest
  have hbegins := (beginsValue_number htoken hne).skipSpace_append rest
  obtain ⟨c, l, rfl⟩ := List.exists_cons_of_ne_nil hne
  have hc : ∀ x, isNumberChar x = false → c ≠ x := fun x =>
    ne_of_isNumberChar (htoken c List.mem_cons_self)
  rw [List.cons_append] at hnumber hbegins ⊢
  rw [parseValue, hbegins]
  -- no character of a number opens another kind of value
  split
  · rename_i heq
    exact absurd (List.cons.inj heq).1 (hc _ (by decide))
  · rename_i heq
    exact absurd (List.cons.inj heq).1 (hc _ (by decide))
  · rename_i heq
    exact absurd (List.cons.inj heq).1 (hc _ (by decide))
  · unfold parseLiteral
    split
    · rename_i heq
      exact absurd (List.cons.inj heq).1 (hc _ (by decide))
    · rename_i heq
      exact absurd (List.cons.inj heq).1 (hc _ (by decide))
    · rename_i heq
      exact absurd (List.cons.inj heq).1 (hc _ (by decide))
    · exact hnumber

end Values

/-! ### Arrays and objects -/

section Containers

variable {β : Type} {value : List Char → Option (β × List Char)} {text : β → List Char}
  {fuel : Nat} {rest : List Char}

/-- The parser `value` reads the text of `b` back, whatever follows it. -/
def Reads (value : List Char → Option (β × List Char)) (text : β → List Char) (b : β) : Prop :=
  BeginsValue (text b) ∧ ∀ rest, EndsNumber rest → value (text b ++ rest) = some (b, rest)

theorem endsNumber_renderItems (texts : List (List Char)) (rest : List Char) :
    EndsNumber (renderItems texts ++ rest) := by
  intro c hc
  cases texts <;> obtain rfl := Option.some.inj hc <;> decide

theorem endsNumber_renderMembers (members : List (String × List Char)) (rest : List Char) :
    EndsNumber (renderMembers members ++ rest) := by
  intro c hc
  cases members <;> obtain rfl := Option.some.inj hc <;> decide

theorem parseItems_render {items : List β} (h : ∀ b ∈ items, Reads value text b)
    (hfuel : items.length < fuel) (rest : List Char) :
    parseItems value fuel (renderItems (items.map text) ++ rest) = some (items, rest) := by
  induction items generalizing fuel with
  | nil =>
      obtain ⟨fuel, rfl⟩ := Nat.exists_eq_add_of_lt hfuel
      rfl
  | cons b items ih =>
      rw [List.forall_mem_cons] at h
      cases fuel with
      | zero => cases hfuel
      | succ fuel =>
          show ((value ((text b ++ renderItems (items.map text)) ++ rest)).bind _) = _
          rw [List.append_assoc, h.1.2 _ (endsNumber_renderItems _ _), Option.bind_some,
            ih h.2 (Nat.lt_of_succ_lt_succ hfuel)]
          rfl

theorem parseArray_render {items : List β} (h : ∀ b ∈ items, Reads value text b)
    (hfuel : items.length < fuel) (rest : List Char) :
    parseArray value fuel (arrayBody (items.map text) ++ rest) = some (items, rest) := by
  cases items with
  | nil => rfl
  | cons b items =>
      rw [List.forall_mem_cons] at h
      have hitems := parseItems_render h.2 (Nat.lt_of_succ_lt hfuel) rest
      have hfirst := h.1.2 _ (endsNumber_renderItems (items.map text) rest)
      obtain ⟨c, l, hc, hspace, hbracket⟩ := h.1.1
      rw [List.map_cons, arrayBody, List.append_assoc, parseArray, hc, List.cons_append,
        skipSpace_cons hspace, ← List.cons_append, ← hc]
      -- the first item is no closing bracket
      split
      · rename_i heq
        rw [hc] at heq
        exact absurd (List.cons.inj heq).1 hbracket
      · rw [hfirst, Option.bind_some, hitems]
        rfl

theorem parseMember_render {b : β} (h : Reads value text b) (name : String)
    (hrest : EndsNumber rest) :
    parseMember value (renderMember (name, text b) ++ rest) = some ((name, b), rest) := by
  have hname : renderMember (name, text b) ++ rest =
      '"' :: (name.toList.flatMap escapeChar ++ '"' :: ':' :: (text b ++ rest)) := by
    simp [renderMember, renderString]
  rw [hname, parseMember, skipSpace_cons (by decide)]
  show (parseString (name.toList.flatMap escapeChar ++ _)).bind _ = _
  rw [parseString_escaped, Option.bind_some, skipSpace_cons (by decide)]
  show (value (text b ++ rest)).map _ = _
  rw [h.2 rest hrest]
  rfl

theorem parseMembers_render {members : List (String × β)}
    (h : ∀ m ∈ members, Reads value text m.2) (hfuel : members.length < fuel)
    (rest : List Char) :
    parseMembers value fuel (renderMembers (members.map fun m => (m.1, text m.2)) ++ rest) =
      some (members, rest) := by
  induction members generalizing fuel with
  | nil =>
      obtain ⟨fuel, rfl⟩ := Nat.exists_eq_add_of_lt hfuel
      rfl
  | cons m members ih =>
      rw [List.forall_mem_cons] at h
      cases fuel with
      | zero => cases hfuel
      | succ fuel =>
          show ((parseMember value ((renderMember (m.1, text m.2) ++ _) ++ rest)).bind _) = _
          rw [List.append_assoc, parseMember_render h.1 m.1 (endsNumber_renderMembers _ _),
            Option.bind_some, ih h.2 (Nat.lt_of_succ_lt_succ hfuel)]
          rfl

theorem parseObject_render {members : List (String × β)}
    (h : ∀ m ∈ members, Reads value text m.2) (hfuel : members.length < fuel)
    (rest : List Char) :
    parseObject value fuel (objectBody (members.map fun m => (m.1, text m.2)) ++ rest) =
      some (members, rest) := by
  cases members with
  | nil => rfl
  | cons m members =>
      rw [List.forall_mem_cons] at h
      have hmembers := parseMembers_render h.2 (Nat.lt_of_succ_lt hfuel) rest
      have hfirst := parseMember_render h.1 m.1
        (endsNumber_renderMembers (members.map fun m => (m.1, text m.2)) rest)
      rw [List.map_cons, objectBody, List.append_assoc, parseObject]
      have hquote : ∀ l, skipSpace (renderMember (m.1, text m.2) ++ l) =
          renderMember (m.1, text m.2) ++ l := fun l => skipSpace_cons (by decide)
      rw [hquote]
      split
      · rename_i heq
        cases heq
      · rw [hfirst, Option.bind_some, hmembers]
        rfl

end Containers

/-! ### Reading back -/

section ReadBack

variable {v : Json} {rest : List Char}

theorem length_le_renderItems (texts : List (List Char)) :
    texts.length < (renderItems texts).length ∧
      ∀ t ∈ texts, t.length < (renderItems texts).length := by
  induction texts with
  | nil => simp [renderItems]
  | cons t texts ih =>
      simp only [renderItems, List.length_cons, List.length_append, List.forall_mem_cons]
      refine ⟨by omega, by omega, fun t' ht' => ?_⟩
      have := ih.2 t' ht'
      omega

theorem length_le_arrayBody (texts : List (List Char)) :
    texts.length ≤ (arrayBody texts).length ∧ ∀ t ∈ texts, t.length ≤ (arrayBody texts).length := by
  cases texts with
  | nil => simp [arrayBody]
  | cons t texts =>
      obtain ⟨hlength, hitems⟩ := length_le_renderItems texts
      simp only [arrayBody, List.length_cons, List.length_append, List.forall_mem_cons]
      refine ⟨by omega, by omega, fun t' ht' => ?_⟩
      have := hitems t' ht'
      omega

theorem length_le_renderMember (m : String × List Char) : m.2.length < (renderMember m).length := by
  simp only [renderMember, List.length_append, List.length_cons]
  omega

theorem length_le_renderMembers (members : List (String × List Char)) :
    members.length < (renderMembers members).length ∧
      ∀ m ∈ members, m.2.length < (renderMembers members).length := by
  induction members with
  | nil => simp [renderMembers]
  | cons m members ih =>
      have hm := length_le_renderMember m
      simp only [renderMembers, List.length_cons, List.length_append, List.forall_mem_cons]
      refine ⟨by omega, by omega, fun m' hm' => ?_⟩
      have := ih.2 m' hm'
      omega

theorem length_le_objectBody (members : List (String × List Char)) :
    members.length ≤ (objectBody members).length ∧
      ∀ m ∈ members, m.2.length ≤ (objectBody members).length := by
  cases members with
  | nil => simp [objectBody]
  | cons m members =>
      have hm := length_le_renderMember m
      obtain ⟨hlength, hmembers⟩ := length_le_renderMembers members
      simp only [objectBody, List.length_cons, List.length_append, List.forall_mem_cons]
      refine ⟨by omega, by omega, fun m' hm' => ?_⟩
      have := hmembers m' hm'
      omega

/-- A rendered value is not empty. -/
theorem Json.Writable.render_pos (h : v.Writable) : 0 < v.render.length := by
  obtain ⟨c, l, heq, -⟩ := h.beginsValue
  rw [heq]
  exact Nat.succ_pos _

/-- A value that can be read with any fuel from the length of its text is read from its text. -/
theorem Json.Writable.reads {fuel : Nat} (h : v.Writable) (hlength : v.render.length ≤ fuel)
    (hread : ∀ {fuel rest}, v.render.length ≤ fuel + 1 → EndsNumber rest →
      parseValue (fuel + 1) (v.render ++ rest) = some (v, rest)) :
    Reads (parseValue fuel) Json.render v := by
  refine ⟨h.beginsValue, fun rest hrest => ?_⟩
  cases fuel with
  | zero => exact absurd hlength (not_le.mpr h.render_pos)
  | succ fuel => exact hread hlength hrest

/-- **Every value is read back**, by induction on the value: the fuel for an item is what the
brackets around it leave. -/
theorem parseValue_render (h : v.Writable) {fuel : Nat} (hfuel : v.render.length ≤ fuel + 1)
    (hrest : EndsNumber rest) : parseValue (fuel + 1) (v.render ++ rest) = some (v, rest) := by
  induction h generalizing fuel rest with
  | null => rfl
  | bool b => cases b <;> rfl
  | int n => exact parseValue_number (isNumberChar_renderInt n) (readNumber_renderInt n) hrest
  | float h => exact parseValue_number h.chars h.read hrest
  | str s =>
      have hstring : (Json.str s).render ++ rest =
          '"' :: (s.toList.flatMap escapeChar ++ '"' :: rest) := by
        simp [Json.render, renderString]
      rw [hstring, parseValue, skipSpace_cons (by decide)]
      show (parseString _).map _ = _
      rw [parseString_escaped]
      rfl
  | arr h ih =>
      rename_i items
      rw [Json.render, itemTexts_eq, renderArray] at hfuel ⊢
      obtain ⟨hlength, hitems⟩ := length_le_arrayBody (items.map Json.render)
      rw [List.length_map] at hlength
      have hbody : (arrayBody (items.map Json.render)).length ≤ fuel := Nat.le_of_succ_le_succ hfuel
      have hreads : ∀ item ∈ items, Reads (parseValue fuel) Json.render item := fun item hitem =>
        (h item hitem).reads ((hitems _ (List.mem_map_of_mem hitem)).trans hbody) (ih item hitem)
      rw [List.cons_append, parseValue, skipSpace_cons (by decide)]
      show (parseArray _ _ _).map _ = _
      rw [parseArray_render hreads (by omega)]
      rfl
  | obj h ih =>
      rename_i members
      rw [Json.render, memberTexts_eq, renderObject] at hfuel ⊢
      obtain ⟨hlength, hmembers⟩ := length_le_objectBody (members.map fun m => (m.1, m.2.render))
      rw [List.length_map] at hlength
      have hbody : (objectBody (members.map fun m => (m.1, m.2.render))).length ≤ fuel :=
        Nat.le_of_succ_le_succ hfuel
      have hreads : ∀ m ∈ members, Reads (parseValue fuel) Json.render m.2 := fun m hm =>
        (h m hm).reads ((hmembers _ (List.mem_map_of_mem hm)).trans hbody) (ih m hm)
      rw [List.cons_append, parseValue, skipSpace_cons (by decide)]
      show (parseObject _ _ _).map _ = _
      rw [parseObject_render hreads (by omega)]
      rfl

/-- `json.Unmarshal` undoes `json.Marshal`. -/
theorem parseJson_render (h : v.Writable) : parseJson v.render = some v := by
  have hend : EndsNumber [] := by simp [EndsNumber]
  have hread := parseValue_render h (Nat.le_succ v.render.length) hend
  rw [List.append_nil] at hread
  rw [parseJson, hread]
  rfl

/-- The text of a value is found as it is. -/
theorem rawValue_reads {fuel : Nat} (h : v.Writable) (hfuel : v.render.length ≤ fuel + 1) :
    Reads (rawValue (fuel + 1)) id v.render := by
  refine ⟨h.beginsValue, fun rest hrest => ?_⟩
  rw [id, rawValue, h.beginsValue.skipSpace_append]
  show (parseValue _ _).map _ = _
  rw [parseValue_render h hfuel hrest]
  simp

/-- **An object of rendered values is split into their texts.** -/
theorem rawObject_render {members : List (String × List Char)}
    (h : ∀ m ∈ members, ∃ v : Json, v.Writable ∧ m.2 = v.render) :
    rawObject (renderObject members) = some members := by
  obtain ⟨hlength, hmembers⟩ := length_le_objectBody members
  rw [rawObject, renderObject, skipSpace_cons (by decide)]
  show (parseObject _ _ (objectBody members)).bind _ = _
  -- each member has enough fuel: its text is a part of the whole
  have hreads : ∀ m ∈ members,
      Reads (rawValue (('{' :: objectBody members).length + 1)) id m.2 := by
    intro m hm
    obtain ⟨v, hv, heq⟩ := h m hm
    have hlen := hmembers m hm
    rw [heq] at hlen ⊢
    exact rawValue_reads hv (by rw [List.length_cons]; omega)
  have hfuel : members.length < ('{' :: objectBody members).length + 1 := by
    rw [List.length_cons]
    omega
  have hparse := parseObject_render hreads hfuel []
  simp only [id, List.map_id', List.append_nil] at hparse
  rw [hparse]
  rfl

end ReadBack

theorem renderMembers_last (members : List (String × List Char)) :
    (renderMembers members).getLast? = some '}' := by
  induction members with
  | nil => rfl
  | cons m members ih => simp [renderMembers, List.getLast?_cons, ih]

/-- An object ends in its brace. -/
theorem renderObject_last (members : List (String × List Char)) :
    (renderObject members).getLast? = some '}' := by
  cases members with
  | nil => rfl
  | cons m members => simp [renderObject, objectBody, List.getLast?_cons, renderMembers_last]

/-! ### What all rendered text has in common -/

/-- A property of texts that passes from parts to the whole, and that the smallest parts of rendered
text have. -/
structure ClosedText (P : List Char → Prop) : Prop where
  append : ∀ {s t}, P s → P t → P (s ++ t)
  punctuation : ∀ c ∈ [',', ':', '[', ']', '{', '}'], P [c]
  literal : ∀ t ∈ [Json.null.render, (Json.bool true).render, (Json.bool false).render], P t
  number : ∀ t, (∀ c ∈ t, isNumberChar c = true) → P t
  string : ∀ s, P (renderString s)

namespace ClosedText

variable {P : List Char → Prop} (hP : ClosedText P)

include hP

theorem cons {c : Char} {t : List Char} (hc : c ∈ [',', ':', '[', ']', '{', '}']) (ht : P t) :
    P (c :: t) := hP.append (hP.punctuation c hc) ht

theorem renderItems {texts : List (List Char)} (h : ∀ t ∈ texts, P t) : P (renderItems texts) := by
  induction texts with
  | nil => exact hP.punctuation _ (by decide)
  | cons t texts ih =>
      rw [List.forall_mem_cons] at h
      exact hP.cons (by decide) (hP.append h.1 (ih h.2))

theorem renderArray {texts : List (List Char)} (h : ∀ t ∈ texts, P t) : P (renderArray texts) := by
  refine hP.cons (by decide) ?_
  cases texts with
  | nil => exact hP.punctuation _ (by decide)
  | cons t texts =>
      rw [List.forall_mem_cons] at h
      exact hP.append h.1 (hP.renderItems h.2)

theorem renderMember {m : String × List Char} (h : P m.2) : P (renderMember m) :=
  hP.append (hP.string m.1) (hP.cons (by decide) h)

theorem renderMembers {members : List (String × List Char)} (h : ∀ m ∈ members, P m.2) :
    P (renderMembers members) := by
  induction members with
  | nil => exact hP.punctuation _ (by decide)
  | cons m members ih =>
      rw [List.forall_mem_cons] at h
      exact hP.cons (by decide) (hP.append (hP.renderMember h.1) (ih h.2))

theorem renderObject {members : List (String × List Char)} (h : ∀ m ∈ members, P m.2) :
    P (renderObject members) := by
  refine hP.cons (by decide) ?_
  cases members with
  | nil => exact hP.punctuation _ (by decide)
  | cons m members =>
      rw [List.forall_mem_cons] at h
      exact hP.append (hP.renderMember h.1) (hP.renderMembers h.2)

/-- **All rendered text has it.** -/
theorem render {v : Json} (h : v.Writable) : P v.render := by
  induction h with
  | null => exact hP.literal _ (by simp)
  | bool b => cases b <;> exact hP.literal _ (by simp)
  | int n => exact hP.number _ (isNumberChar_renderInt n)
  | float h => exact hP.number _ h.chars
  | str s => exact hP.string s
  | arr h ih =>
      rw [Json.render, itemTexts_eq]
      exact hP.renderArray (by simpa using ih)
  | obj h ih =>
      rw [Json.render, memberTexts_eq]
      refine hP.renderObject fun m hm => ?_
      obtain ⟨m, hmem, rfl⟩ := List.mem_map.mp hm
      exact ih m hmem

end ClosedText

/-- No character is a control character. -/
def Printable (text : List Char) : Prop := ∀ c ∈ text, 0x20 ≤ c.toNat

instance (text : List Char) : Decidable (Printable text) :=
  List.decidableBAll (fun c : Char => 0x20 ≤ c.toNat) text

/-- `compactJson` leaves the text alone. -/
def Squeezed (text : List Char) : Prop :=
  ∀ rest, squeeze .outside (text ++ rest) = text ++ squeeze .outside rest

section Common

variable {c : Char} {rest : List Char}

theorem digitChar_spec : ∀ n < 16, isHtmlChar (Nat.digitChar n) = false ∧
    Nat.digitChar n ≠ '"' ∧ Nat.digitChar n ≠ '\\' ∧ 0x20 ≤ (Nat.digitChar n).toNat := by
  decide

theorem printable_escapeChar (c : Char) : Printable (escapeChar c) := by
  have hdigit : ∀ n, 0x20 ≤ (Nat.digitChar (n % 16)).toNat := fun n =>
    (digitChar_spec _ (Nat.mod_lt _ (by decide))).2.2.2
  rcases escapeChar_cases c with ⟨e, he, -, -, -, hlow⟩ | ⟨he, -⟩ | ⟨he, hlow, -⟩
  · rw [he]
    simp [Printable, hlow]
  · rw [he]
    simp [Printable, unicodeEscape, hdigit]
  · rw [he]
    simp [Printable, hlow]

theorem isNumberChar_notHtml (h : isNumberChar c = true) : isHtmlChar c = false := by
  have hchars : ∀ x ∈ ['<', '>', '&', '\u2028', '\u2029'], isNumberChar x = false := by
    simp [isNumberChar]
  have hne : ∀ x ∈ ['<', '>', '&', '\u2028', '\u2029'], c ≠ x := fun x hx =>
    ne_of_isNumberChar h (hchars x hx)
  simpa [isHtmlChar, and_assoc] using hne

theorem printable_closed : ClosedText Printable where
  append hs ht := List.forall_mem_append.mpr ⟨hs, ht⟩
  punctuation := by simp [Printable]
  literal := by
    simp only [List.forall_mem_cons, Json.render]
    exact ⟨by decide, by decide, by decide, by simp⟩
  number _ h c hc := (isNumberChar_toNat (h c hc)).1
  string s := by
    simp only [renderString, Printable, List.forall_mem_cons, List.forall_mem_append]
    refine ⟨by decide, fun c hc => ?_, by simp⟩
    obtain ⟨c', -, hc⟩ := List.mem_flatMap.mp hc
    exact printable_escapeChar c' c hc

theorem squeeze_plain (hspace : isJsonSpace c = false) (hhtml : isHtmlChar c = false)
    (hquote : c ≠ '"') : squeeze .outside (c :: rest) = c :: squeeze .outside rest := by
  simp [squeeze, hspace, hhtml, ScanState.next, hquote]

theorem squeeze_inString_cons (hhtml : isHtmlChar c = false) (hquote : c ≠ '"') (hback : c ≠ '\\') :
    squeeze .inString (c :: rest) = c :: squeeze .inString rest := by
  simp [squeeze, hhtml, ScanState.next, hquote, hback]

theorem squeeze_backslash (hhtml : isHtmlChar c = false) :
    squeeze .inString ('\\' :: c :: rest) = '\\' :: c :: squeeze .inString rest := by
  have hback : isHtmlChar '\\' = false := by decide
  simp [squeeze, hhtml, hback, ScanState.next]

theorem squeeze_escapeChar (c : Char) (rest : List Char) :
    squeeze .inString (escapeChar c ++ rest) = escapeChar c ++ squeeze .inString rest := by
  rcases escapeChar_cases c with ⟨e, he, -, -, hhtml, -⟩ | ⟨he, -⟩ | ⟨he, -, hhtml, hquote, hback⟩
  · rw [he]
    exact squeeze_backslash hhtml
  · have hdigit : ∀ n rest, squeeze .inString (Nat.digitChar (n % 16) :: rest) =
        Nat.digitChar (n % 16) :: squeeze .inString rest := by
      intro n rest
      obtain ⟨hhtml, hquote, hback, -⟩ := digitChar_spec _ (Nat.mod_lt n (by decide : 16 > 0))
      exact squeeze_inString_cons hhtml hquote hback
    rw [he, unicodeEscape]
    simp only [List.cons_append, List.nil_append]
    rw [squeeze_backslash (by decide), hdigit, hdigit, hdigit, hdigit]
  · rw [he]
    exact squeeze_inString_cons hhtml hquote hback

theorem squeeze_escaped (l rest : List Char) :
    squeeze .inString (l.flatMap escapeChar ++ '"' :: rest) =
      l.flatMap escapeChar ++ '"' :: squeeze .outside rest := by
  induction l with
  | nil => rfl
  | cons c l ih =>
      rw [List.flatMap_cons, List.append_assoc, squeeze_escapeChar, ih, List.append_assoc]

theorem squeezed_closed : ClosedText Squeezed where
  append hs ht rest := by rw [List.append_assoc, hs, ht, List.append_assoc]
  punctuation := by
    intro c hc rest
    have hplain : ∀ c ∈ [',', ':', '[', ']', '{', '}'],
        isJsonSpace c = false ∧ isHtmlChar c = false ∧ c ≠ '"' := by
      simp [isJsonSpace, isHtmlChar]
    obtain ⟨hspace, hhtml, hquote⟩ := hplain c hc
    exact squeeze_plain hspace hhtml hquote
  literal := by
    simp only [List.forall_mem_cons, Json.render]
    exact ⟨fun _ => rfl, fun _ => rfl, fun _ => rfl, by simp⟩
  number := by
    intro t h
    induction t with
    | nil => exact fun _ => rfl
    | cons c t ih =>
        rw [List.forall_mem_cons] at h
        intro rest
        rw [List.cons_append, squeeze_plain (isNumberChar_notSpace h.1)
          (isNumberChar_notHtml h.1) (ne_of_isNumberChar h.1 (by decide)), ih h.2]
        rfl
  string s rest := by
    have hstring : renderString s ++ rest =
        '"' :: (s.toList.flatMap escapeChar ++ '"' :: rest) := by
      simp [renderString]
    rw [hstring]
    show '"' :: squeeze .inString _ = _
    rw [squeeze_escaped]
    simp [renderString]

/-- `json.Marshal` writes rendered text as it is. -/
theorem compactJson_render {v : Json} (h : v.Writable) : compactJson v.render = some v.render := by
  have hsqueeze := squeezed_closed.render h []
  rw [List.append_nil, squeeze, List.append_nil] at hsqueeze
  rw [compactJson, parseJson_render h, Option.map_some, hsqueeze]

end Common

end FlagPlane
