import FlagPlane.Fnv

/-!
# FlagPlane.Hash.Rollout

**The percentage rollout, three times**: `internal/hash/rollout.go`, `inRollout` of the Go SDK
and `isInRollout` of the browser SDK. All three are FNV-1a of `flagKey:userID` modulo 100.
Go hashes the bytes of the string in `uint32`, JavaScript its UTF-16 code units in numbers that
each operator converts to 32 bits and back.

Both arithmetics are `Fnv.run` at width 32 (`sum32_toBitVec`, `fnv1a32_eq`), so the rollouts agree
wherever the code units do.
-/

namespace FlagPlane

/-! ### Go -/

/-- The bytes of a Go string. -/
def goBytes (s : String) : List UInt8 :=
  s.toList.flatMap String.utf8EncodeChar

/-- `fnv.New32a`. -/
def new32a : UInt32 := 2166136261

/-- `Write` of `hash/fnv`'s 32-bit FNV-1a. -/
def write32a (h : UInt32) (data : List UInt8) : UInt32 :=
  data.foldl (fun h c => (h ^^^ c.toUInt32) * 16777619) h

/-- `IsUserInRollout` of the backend. -/
def isUserInRollout (flagKey userID : String) (percentage : Int) : Bool :=
  if percentage ≤ 0 then false
  else if percentage ≥ 100 then true
  else
    let hashValue := write32a new32a (goBytes (flagKey ++ ":" ++ userID))
    let bucket := hashValue % 100
    decide ((bucket.toNat : Int) < percentage)

/-- `inRollout` of the Go SDK. -/
def inRollout (flagKey userID : String) (percentage : Int) : Bool :=
  if percentage ≤ 0 then false
  else if percentage ≥ 100 then true
  else
    decide (((write32a new32a (goBytes (flagKey ++ ":" ++ userID)) % 100).toNat : Int) < percentage)

/-! ### JavaScript -/

/-- `a ^ b` on integral numbers. -/
def jsXor (a b : Int) : Int :=
  (BitVec.ofInt 32 a ^^^ BitVec.ofInt 32 b).toInt

/-- `Math.imul(a, b)`. -/
def jsImul (a b : Int) : Int :=
  (BitVec.ofInt 32 a * BitVec.ofInt 32 b).toInt

/-- `a >>> 0`. -/
def jsUnsigned (a : Int) : Int :=
  (BitVec.ofInt 32 a).toNat

/-- `fnv1a32`. -/
def fnv1a32 (input : String) : Int :=
  (utf16Units input).foldl
    (fun (hash : Int) (charCode : Nat) => jsUnsigned (jsImul (jsXor hash charCode) 0x01000193))
    0x811c9dc5

/-- `isInRollout` of the browser SDK. -/
def isInRollout (flagKey userId : String) (percentage : Int) : Bool :=
  if percentage ≤ 0 then false
  else if percentage ≥ 100 then true
  else
    let hash := fnv1a32 (flagKey ++ ":" ++ userId)
    decide (hash % 100 < percentage)

/-! ### Both are FNV-1a -/

/-- The offset basis and the prime of 32-bit FNV. -/
def fnvBasis : BitVec 32 := 0x811c9dc5#32

def fnvPrime : BitVec 32 := 0x01000193#32

variable {s flagKey userID : String} {percentage : Int}

theorem toBitVec_toUInt32 (c : UInt8) : c.toUInt32.toBitVec = BitVec.ofNat 32 c.toNat :=
  BitVec.eq_of_toNat_eq (by simp)

theorem write32a_toBitVec (h : UInt32) (data : List UInt8) :
    (write32a h data).toBitVec = Fnv.run fnvPrime h.toBitVec (data.map UInt8.toNat) := by
  induction data generalizing h with
  | nil => rfl
  | cons c data ih =>
      rw [write32a, List.foldl_cons, ← write32a, ih, List.map_cons, Fnv.run_cons, Fnv.round,
        UInt32.toBitVec_mul, UInt32.toBitVec_xor, toBitVec_toUInt32]
      rfl

/-- Go's hash of a string. -/
theorem sum32_toBitVec (s : String) :
    (write32a new32a (goBytes s)).toBitVec = Fnv.run fnvPrime fnvBasis (utf8Units s) :=
  write32a_toBitVec new32a (goBytes s)

/-- One turn of the loop of `fnv1a32`. -/
theorem jsRound_eq (h : BitVec 32) (u : Nat) :
    jsUnsigned (jsImul (jsXor (h.toNat : Int) u) 0x01000193) =
      ((Fnv.round fnvPrime h u).toNat : Int) := by
  have hxor : BitVec.ofInt 32 (jsXor (h.toNat : Int) u) = h ^^^ BitVec.ofNat 32 u := by
    rw [jsXor, BitVec.ofInt_toInt, BitVec.ofInt_natCast, BitVec.ofInt_natCast, BitVec.ofNat_toNat,
      BitVec.setWidth_eq]
  have hmul : BitVec.ofInt 32 (jsImul (jsXor (h.toNat : Int) u) 0x01000193) =
      Fnv.round fnvPrime h u := by
    rw [jsImul, BitVec.ofInt_toInt, hxor]
    rfl
  rw [jsUnsigned, hmul]

/-- JavaScript's hash of a string. -/
theorem fnv1a32_eq (s : String) :
    fnv1a32 s = ((Fnv.run fnvPrime fnvBasis (utf16Units s)).toNat : Int) := by
  have hloop : ∀ (us : List Nat) (h : BitVec 32),
      us.foldl (fun (hash : Int) (c : Nat) => jsUnsigned (jsImul (jsXor hash c) 0x01000193)) h.toNat =
        ((Fnv.run fnvPrime h us).toNat : Int) := by
    intro us
    induction us with
    | nil => exact fun _ => rfl
    | cons u us ih =>
        intro h
        rw [List.foldl_cons, jsRound_eq, ih, Fnv.run_cons]
  have hbasis : (0x811c9dc5 : Int) = (fnvBasis.toNat : Int) := by decide
  rw [fnv1a32, hbasis]
  exact hloop _ _

/-! ### Agreement -/

/-- The backend and the Go SDK are the same code. -/
theorem isUserInRollout_eq_inRollout (flagKey userID : String) (percentage : Int) :
    isUserInRollout flagKey userID percentage = inRollout flagKey userID percentage := rfl

/-- The buckets of the two languages for one string. -/
theorem bucket_eq_of_run
    (h : Fnv.run fnvPrime fnvBasis (utf8Units s) = Fnv.run fnvPrime fnvBasis (utf16Units s)) :
    ((write32a new32a (goBytes s) % 100).toNat : Int) = fnv1a32 s % 100 := by
  have hgo : (write32a new32a (goBytes s)).toNat =
      (Fnv.run fnvPrime fnvBasis (utf8Units s)).toNat :=
    congrArg BitVec.toNat (sum32_toBitVec s)
  rw [fnv1a32_eq, UInt32.toNat_mod, hgo, h]
  rfl

/-- **Equal hashes, equal rollout.** -/
theorem isInRollout_eq_of_run
    (h : Fnv.run fnvPrime fnvBasis (utf8Units (flagKey ++ ":" ++ userID)) =
      Fnv.run fnvPrime fnvBasis (utf16Units (flagKey ++ ":" ++ userID))) :
    isInRollout flagKey userID percentage = isUserInRollout flagKey userID percentage := by
  rw [isInRollout, isUserInRollout]
  dsimp only
  rw [bucket_eq_of_run h]

/-- Outside 1 to 99 nothing is hashed. -/
theorem isInRollout_eq_of_bounds (h : percentage ≤ 0 ∨ 100 ≤ percentage) :
    isInRollout flagKey userID percentage = isUserInRollout flagKey userID percentage := by
  rw [isInRollout, isUserInRollout]
  rcases h with h | h
  · rw [if_pos h, if_pos h]
  · have hpos : ¬ percentage ≤ 0 := by omega
    rw [if_neg hpos, if_neg hpos, if_pos h, if_pos h]

theorem ascii_colon : Ascii ":" := by
  simp [Ascii]

/-- ASCII is hashed alike. -/
theorem isInRollout_eq_of_ascii (hkey : Ascii flagKey) (huser : Ascii userID) :
    isInRollout flagKey userID percentage = isUserInRollout flagKey userID percentage := by
  have hunits := utf8Units_eq_utf16Units.mpr ((hkey.append ascii_colon).append huser)
  exact isInRollout_eq_of_run (by rw [hunits])

/-! ### Agreement beyond ASCII -/

/-- A string of `n` copies of a character. -/
def repeated (n : Nat) (c : Char) : String :=
  String.ofList (List.replicate n c)

theorem utf8Units_repeated (n : Nat) (c : Char) :
    utf8Units (repeated n c) = Fnv.copies n ((String.utf8EncodeChar c).map UInt8.toNat) := by
  simp [utf8Units, repeated, Fnv.copies, List.flatMap_def, List.map_flatten]

theorem utf16Units_repeated (n : Nat) (c : Char) :
    utf16Units (repeated n c) = Fnv.copies n (utf16EncodeChar c) := by
  simp [utf16Units, repeated, Fnv.copies, List.flatMap_def]

/-- **ASCII is not necessary.** For every character some repetition of it is a user that both
languages put in the same bucket, under every flag key: no condition on the user id alone
short of the hashes themselves is exact. -/
theorem exists_repeated_agrees (c : Char) :
    ∃ n, 0 < n ∧ ∀ flagKey, Ascii flagKey → ∀ percentage,
      isInRollout flagKey (repeated n c) percentage =
        isUserInRollout flagKey (repeated n c) percentage := by
  have hinv : fnvPrime * 0x359c449b#32 = 1#32 := by decide
  obtain ⟨n, hn, hgo⟩ := Fnv.exists_run_copies hinv ((String.utf8EncodeChar c).map UInt8.toNat)
  obtain ⟨m, hm, hjs⟩ := Fnv.exists_run_copies hinv (utf16EncodeChar c)
  refine ⟨n * m, Nat.mul_pos hn hm, fun flagKey hkey percentage => ?_⟩
  have hprefix := utf8Units_eq_utf16Units.mpr (hkey.append ascii_colon)
  have hrun : Fnv.run fnvPrime fnvBasis (utf8Units (flagKey ++ ":" ++ repeated (n * m) c)) =
      Fnv.run fnvPrime fnvBasis (utf16Units (flagKey ++ ":" ++ repeated (n * m) c)) := by
    rw [utf8Units_append, utf16Units_append, Fnv.run_append, Fnv.run_append, utf8Units_repeated,
      utf16Units_repeated, hgo, Nat.mul_comm n m, hjs, hprefix]
  exact isInRollout_eq_of_run hrun

/-! ### Disagreement -/

section Tail

variable {front tail : String}

/-- Go's bucket, from the state after an ASCII front. -/
theorem goBucket_append (hfront : Ascii front) :
    (write32a new32a (goBytes (front ++ tail)) % 100).toNat =
      (Fnv.run fnvPrime (Fnv.run fnvPrime fnvBasis (utf16Units front))
        (utf8Units tail)).toNat % 100 := by
  have hbytes := congrArg BitVec.toNat (sum32_toBitVec (front ++ tail))
  rw [utf8Units_append, Fnv.run_append, utf8Units_eq_utf16Units.mpr hfront] at hbytes
  rw [UInt32.toNat_mod]
  exact congrArg (· % 100) hbytes

/-- JavaScript's bucket, from the state after any front. -/
theorem jsBucket_append :
    fnv1a32 (front ++ tail) % 100 =
      (((Fnv.run fnvPrime (Fnv.run fnvPrime fnvBasis (utf16Units front)) (utf16Units tail)).toNat % 100 :
        Nat) : Int) := by
  rw [fnv1a32_eq, utf16Units_append, Fnv.run_append]
  rfl

end Tail

/-- From state 1 this character leads Go to bucket 99 and JavaScript to bucket 0. -/
def partingChar : Char := Char.ofNat 0x471

theorem partingChar_buckets :
    (Fnv.run fnvPrime 1#32 (utf8Units (String.singleton partingChar))).toNat % 100 = 99 ∧
      (Fnv.run fnvPrime 1#32 (utf16Units (String.singleton partingChar))).toNat % 100 = 0 := by
  decide

/-- **No flag with a partial rollout is safe.** Under every key and every percentage from 1 to 99
some user is in the rollout for one language and not for the other, and there is one
outside any given list. -/
theorem exists_user_disagrees (hkey : Ascii flagKey) (hpos : 0 < percentage)
    (hlt : percentage < 100)
    (users : List String) :
    ∃ userID, userID ∉ users ∧
      isInRollout flagKey userID percentage ≠ isUserInRollout flagKey userID percentage := by
  have hinv : fnvPrime * 0x359c449b#32 = 1#32 := by decide
  -- ASCII that takes both languages to state 1, and is longer than every listed user
  obtain ⟨us, hus, hlong, hrun⟩ := Fnv.exists_run hinv (by decide) (by decide)
    (Fnv.run fnvPrime fnvBasis (utf16Units (flagKey ++ ":"))) 1#32
      ((users.map String.length).sum + 1)
  have hascii : ∀ u ∈ us, u < 0x80 := fun u hu => (hus u hu).trans (by decide)
  have hfront : Ascii (flagKey ++ ":" ++ asciiString us) :=
    (hkey.append ascii_colon).append (ascii_asciiString hascii)
  have hstate : Fnv.run fnvPrime fnvBasis (utf16Units (flagKey ++ ":" ++ asciiString us)) =
      1#32 := by
    rw [utf16Units_append, Fnv.run_append, utf16Units_asciiString hascii, hrun]
  refine ⟨asciiString us ++ String.singleton partingChar, fun hmem => ?_, ?_⟩
  · have hle := List.le_sum_of_mem (List.mem_map_of_mem (f := String.length) hmem)
    rw [String.length_append, asciiString, String.length_ofList, List.length_map] at hle
    omega
  · have hn₁ : ¬ percentage ≤ 0 := by omega
    have hn₂ : ¬ percentage ≥ 100 := by omega
    rw [isInRollout, isUserInRollout, if_neg hn₁, if_neg hn₁, if_neg hn₂, if_neg hn₂,
      ← String.append_assoc]
    dsimp only
    rw [goBucket_append hfront, jsBucket_append, hstate, partingChar_buckets.1,
      partingChar_buckets.2]
    have hin : ((0 : Nat) : Int) < percentage := hpos
    have hout : ¬ ((99 : Nat) : Int) < percentage := by omega
    rw [decide_eq_true hin, decide_eq_false hout]
    decide

end FlagPlane
