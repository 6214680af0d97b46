import Mathlib.Data.List.DropRight
import FlagPlane.JsonText

/-!
# FlagPlane.Lines

**Text read line by line**: `bufio.Scanner` with `ScanLines` and a bound on the buffer,
`strings.TrimSpace`, and `strconv.ParseInt`. A text is a list of characters; its length, where it
matters, is counted in bytes of UTF-8.
-/

namespace FlagPlane

/-- The lines of a text, when `cur` is what has been read of the first one, backwards. A last line
without a newline counts, unless it is empty. -/
def linesFrom (cur : List Char) : List Char → List (List Char)
  | [] => if cur = [] then [] else [cur.reverse]
  | c :: rest => if c = '\n' then cur.reverse :: linesFrom [] rest else linesFrom (c :: cur) rest

/-- The number of bytes of a text. -/
def utf8Length : List Char → Nat
  | [] => 0
  | c :: text => c.utf8Size + utf8Length text

/-- A line without the carriage return it may end in. -/
def dropCR (line : List Char) : List Char :=
  if line.getLast? = some '\r' then line.dropLast else line

/-- The tokens of a `bufio.Scanner` over lines: it stops at a line that fills its buffer. -/
def scanLines (limit : Nat) (text : List Char) : List (List Char) :=
  ((linesFrom [] text).takeWhile fun line => utf8Length line < limit).map dropCR

/-- `unicode.IsSpace`. -/
def isSpace (c : Char) : Bool :=
  c ∈ ['\t', '\n', '\x0b', '\x0c', '\r', ' ', '\u0085', '\u00a0', '\u1680', '\u2028', '\u2029',
    '\u202f', '\u205f', '\u3000'] || ('\u2000' ≤ c && c ≤ '\u200a')

/-- `strings.TrimSpace`. -/
def trimSpace (text : List Char) : List Char :=
  (text.dropWhile isSpace).rdropWhile isSpace

/-- `strconv.ParseInt(s, 10, 64)`. -/
def parseInt64 (text : List Char) : Option Int :=
  let digits := if text.head? = some '-' ∨ text.head? = some '+' then text.tail else text
  let n : Int := Nat.ofDigitChars 10 digits 0
  let v := if text.head? = some '-' then -n else n
  if allDigits digits = true ∧ Json.InInt64 v then some v else none

section Lines

variable {line rest text : List Char} {limit : Nat} {n : Int}

theorem linesFrom_line (cur : List Char) (h : '\n' ∉ line) :
    linesFrom cur (line ++ '\n' :: rest) = (cur.reverse ++ line) :: linesFrom [] rest := by
  induction line generalizing cur with
  | nil => simp [linesFrom]
  | cons c line ih =>
      rw [List.mem_cons, not_or] at h
      rw [List.cons_append, linesFrom, if_neg (Ne.symm h.1), ih _ h.2]
      simp

/-- A line that fits is the next token. -/
theorem scanLines_line (h : Printable line) (hfits : utf8Length line < limit) :
    scanLines limit (line ++ '\n' :: rest) = line :: scanLines limit rest := by
  have hnewline : '\n' ∉ line := fun hmem => absurd (h _ hmem) (by decide)
  have hreturn : line.getLast? ≠ some '\r' := fun hlast =>
    absurd (h _ (List.mem_of_getLast? hlast)) (by decide)
  rw [scanLines, linesFrom_line [] hnewline, List.reverse_nil, List.nil_append,
    List.takeWhile_cons_of_pos (by simpa using hfits), List.map_cons, dropCR, if_neg hreturn]
  rfl

/-- A beginning of a text made of two ends in the first part, or goes on into the second. -/
theorem prefix_append_cases {α : Type*} {l l₁ l₂ : List α} (h : l <+: l₁ ++ l₂) :
    l <+: l₁ ∨ ∃ rest, l = l₁ ++ rest ∧ rest <+: l₂ := by
  rcases List.prefix_or_prefix_of_prefix h (List.prefix_append l₁ l₂) with hshort | hlong
  · exact Or.inl hshort
  · obtain ⟨rest, rfl⟩ := hlong
    exact Or.inr ⟨rest, rfl, (List.prefix_append_right_inj l₁).mp h⟩

/-- A text without a newline is one line, or none. -/
theorem mem_linesFrom_of_single (h : '\n' ∉ text) :
    ∀ (cur : List Char), ∀ l ∈ linesFrom cur text, l = cur.reverse ++ text ∧ l ≠ [] := by
  induction text with
  | nil =>
      intro cur l hl
      rw [linesFrom] at hl
      split at hl
      · cases hl
      · obtain rfl := List.mem_singleton.mp hl
        simpa
  | cons c text ih =>
      intro cur l hl
      rw [List.mem_cons, not_or] at h
      rw [linesFrom, if_neg (Ne.symm h.1)] at hl
      simpa using ih h.2 (c :: cur) l hl

/-- **A text that is cut short.** `text` is the beginning of some lines, none of them empty, and
something without a newline follows it: no token of it is empty. -/
theorem mem_scanLines_of_cut {lines : List (List Char)} {junk : List Char}
    (hlines : ∀ line ∈ lines, line ≠ [] ∧ Printable line) (hjunk : Printable junk)
    (h : text <+: lines.flatMap fun line => line ++ ['\n']) :
    ∀ token ∈ scanLines limit (text ++ junk), token ≠ [] := by
  have hnewline : ∀ {l : List Char}, Printable l → '\n' ∉ l := fun hl hmem =>
    absurd (hl _ hmem) (by decide)
  -- a line that is not empty and holds no carriage return is a token as it is
  suffices htokens : ∀ l ∈ linesFrom [] (text ++ junk), l ≠ [] ∧ Printable l by
    intro token htoken
    obtain ⟨l, hl, rfl⟩ := List.mem_map.mp htoken
    obtain ⟨hne, hprintable⟩ := htokens l ((List.takeWhile_sublist _).subset hl)
    rw [dropCR, if_neg]
    · exact hne
    · exact fun hlast => absurd (hprintable _ (List.mem_of_getLast? hlast)) (by decide)
  have hshort : ∀ {t : List Char}, Printable t →
      ∀ l ∈ linesFrom [] (t ++ junk), l ≠ [] ∧ Printable l := by
    intro t ht l hl
    have hall : Printable (t ++ junk) := fun c hc =>
      (List.mem_append.mp hc).elim (ht c) (hjunk c)
    obtain ⟨rfl, hne⟩ := mem_linesFrom_of_single (hnewline hall) [] l hl
    exact ⟨hne, hall⟩
  induction lines generalizing text with
  | nil =>
      obtain rfl : text = [] := by simpa using h
      exact hshort fun c hc => by cases hc
  | cons line lines ih =>
      rw [List.forall_mem_cons] at hlines
      rw [List.flatMap_cons, List.append_assoc] at h
      rcases prefix_append_cases h with hcut | ⟨rest, rfl, hrest⟩
      · exact hshort fun c hc => hlines.1.2 c (hcut.subset hc)
      rcases List.prefix_cons_iff.mp hrest with rfl | ⟨text, rfl, htext⟩
      · rw [List.append_nil]
        exact hshort hlines.1.2
      · rw [List.append_assoc, List.cons_append, linesFrom_line [] (hnewline hlines.1.2)]
        exact List.forall_mem_cons.mpr ⟨hlines.1, ih hlines.2 htext⟩

/-- No character takes more than four bytes. -/
theorem utf8Length_le (text : List Char) : utf8Length text ≤ 4 * text.length := by
  induction text with
  | nil => rfl
  | cons c text ih =>
      have hc : c.utf8Size ≤ 4 := Char.utf8Size_le_four c
      rw [utf8Length, List.length_cons]
      omega

/-- A text with no space at either end is left as it is, also after a space. -/
theorem trimSpace_space (hhead : ∀ c ∈ text.head?, isSpace c = false)
    (hlast : ∀ c ∈ text.getLast?, isSpace c = false) : trimSpace (' ' :: text) = text := by
  have hstart : text.dropWhile isSpace = text := by
    cases text with
    | nil => rfl
    | cons c text => rw [List.dropWhile_cons_of_neg (by simp [hhead c rfl])]
  rw [trimSpace, List.dropWhile_cons_of_pos (by decide), hstart, List.rdropWhile_eq_self_iff]
  intro hne
  rw [hlast _ (List.getLast?_eq_getLast_of_ne_nil hne)]
  exact Bool.false_ne_true

theorem trimSpace_self (hhead : ∀ c ∈ text.head?, isSpace c = false)
    (hlast : ∀ c ∈ text.getLast?, isSpace c = false) : trimSpace text = text := by
  have htrim := trimSpace_space hhead hlast
  rwa [trimSpace, List.dropWhile_cons_of_pos (by decide), ← trimSpace] at htrim

theorem isSpace_of_isNumberChar {c : Char} (h : isNumberChar c = true) : isSpace c = false := by
  have hsmall := (isNumberChar_toNat h).2
  have hnumber : ∀ x ∈ ['\t', '\n', '\x0b', '\x0c', '\r', ' ', '\u0085', '\u00a0', '\u1680',
      '\u2028', '\u2029', '\u202f', '\u205f', '\u3000'], isNumberChar x = false := by
    simp [isNumberChar]
  rw [isSpace, Bool.or_eq_false_iff]
  constructor
  · exact decide_eq_false fun hmem => absurd h (by rw [hnumber c hmem]; decide)
  · refine Bool.and_eq_false_imp.mpr fun hle => ?_
    have hlarge : '\u2000'.toNat ≤ c.toNat := of_decide_eq_true hle
    exact absurd (lt_of_le_of_lt hlarge hsmall) (by decide)

/-- A number in a line is read back. -/
theorem parseInt64_renderInt (h : Json.InInt64 n) : parseInt64 (renderInt n) = some n := by
  have hdigits : allDigits (Nat.toDigits 10 n.natAbs) = true := by
    rw [allDigits, Bool.and_eq_true, List.all_eq_true]
    refine ⟨?_, toDigits_isDigit⟩
    simp [Nat.toDigits_ne_nil]
  have hsign : ∀ x, x.isDigit = false → (Nat.toDigits 10 n.natAbs).head? ≠ some x := by
    intro x hx hhead
    rw [toDigits_isDigit x (List.mem_of_mem_head? hhead)] at hx
    cases hx
  have hminus := hsign '-' (by decide)
  have hplus := hsign '+' (by decide)
  unfold renderInt
  split <;> unfold parseInt64
  · have hn : -(n.natAbs : Int) = n := by omega
    generalize n.natAbs = m at hdigits hn ⊢
    simp [hdigits, hn, h]
  · have hn : (n.natAbs : Int) = n := by omega
    generalize n.natAbs = m at hdigits hminus hplus hn ⊢
    simp [hdigits, hminus, hplus, hn, h]

end Lines

end FlagPlane
