import Mathlib.Data.BitVec
import Mathlib.Data.Fintype.EquivFin
import Mathlib.Data.Nat.ModEq
import Mathlib.GroupTheory.OrderOfElement
import Mathlib.Tactic.Ring

/-!
# FlagPlane.Fnv

**FNV-1a over code units, and the code units of a string.** The hash is a fold over
numbers, at any word width; what those numbers are for a string depends on the
encoding the caller's language has. The two encodings here give the same numbers for
a string exactly when it is ASCII (`utf8Units_eq_utf16Units`).

Every unit acts on the state as a permutation. So different units need not mean different
hashes: some repetition of any string is hashed as if it were not there
(`exists_run_copies`). And small units alone lead from any state to any other (`exists_run`),
because the powers of a prime of remainder 3 modulo 8, together with the three lowest bits,
make up every odd number.
-/

namespace FlagPlane

namespace Fnv

variable {w : Nat} {prime h : BitVec w} {u v : Nat} {us vs : List Nat}

/-- One unit: xor, then multiply. -/
def round (prime h : BitVec w) (u : Nat) : BitVec w :=
  (h ^^^ BitVec.ofNat w u) * prime

/-- FNV-1a over code units, from the state `h`. -/
def run (prime h : BitVec w) (us : List Nat) : BitVec w :=
  us.foldl (round prime) h

@[simp] theorem run_nil : run prime h [] = h := rfl

@[simp] theorem run_cons : run prime h (u :: us) = run prime (round prime h u) us := rfl

theorem run_append : run prime h (us ++ vs) = run prime (run prime h us) vs :=
  List.foldl_append

/-! ### Repetitions that hash to nothing -/

/-- With a prime that has an inverse, no unit forgets anything of the state. -/
theorem round_injective {inv : BitVec w} (hinv : prime * inv = 1#w) (u : Nat) :
    Function.Injective fun h => round prime h u := by
  intro a b hab
  have hxor : ∀ x : BitVec w, round prime x u * inv = x ^^^ BitVec.ofNat w u := by
    intro x
    rw [round, BitVec.mul_assoc, hinv, BitVec.mul_one]
  have heq : a ^^^ BitVec.ofNat w u = b ^^^ BitVec.ofNat w u := by
    rw [← hxor, ← hxor]
    exact congrArg (· * inv) hab
  exact (BitVec.xor_left_inj _).mp heq

theorem run_injective {inv : BitVec w} (hinv : prime * inv = 1#w) (us : List Nat) :
    Function.Injective fun h => run prime h us := by
  induction us with
  | nil => exact fun _ _ hab => hab
  | cons u us ih => exact ih.comp (round_injective hinv u)

/-- The units of `n` copies of a string. -/
def copies (n : Nat) (us : List Nat) : List Nat :=
  (List.replicate n us).flatten

theorem run_copies (n : Nat) : run prime h (copies n us) = (fun h => run prime h us)^[n] h := by
  induction n generalizing h with
  | zero => rfl
  | succ n ih =>
      rw [copies, List.replicate_succ, List.flatten_cons, run_append, ← copies, ih,
        Function.iterate_succ_apply]

/-- Some repetition of the units leaves every state as it was. -/
theorem exists_run_copies {inv : BitVec w} (hinv : prime * inv = 1#w) (us : List Nat) :
    ∃ n, 0 < n ∧ ∀ k h, run prime h (copies (n * k) us) = h := by
  have : Finite (BitVec w) := Finite.of_injective BitVec.toFin (fun _ _ => BitVec.eq_of_toFin_eq)
  have hbij : Function.Bijective fun h => run prime h us :=
    Finite.injective_iff_bijective.mp (run_injective hinv us)
  let σ : Equiv.Perm (BitVec w) := Equiv.ofBijective _ hbij
  refine ⟨orderOf σ, orderOf_pos σ, fun k h => ?_⟩
  have hpow : σ ^ (orderOf σ * k) = 1 := by rw [pow_mul, pow_orderOf_eq_one, one_pow]
  rw [run_copies]
  calc
    (fun h => run prime h us)^[orderOf σ * k] h = (σ ^ (orderOf σ * k)) h := rfl
    _ = h := by rw [hpow, Equiv.Perm.one_apply]

/-! ### Every state is reached -/

/-- Units below 8 lead from `h` to `h'`. -/
def Joined (prime h h' : BitVec w) : Prop :=
  ∃ us : List Nat, (∀ u ∈ us, u < 8) ∧ run prime h us = h'

theorem Joined.refl (h : BitVec w) : Joined prime h h :=
  ⟨[], by simp, rfl⟩

theorem Joined.trans {h₁ h₂ h₃ : BitVec w} (h₁₂ : Joined prime h₁ h₂) (h₂₃ : Joined prime h₂ h₃) :
    Joined prime h₁ h₃ := by
  obtain ⟨us, hus, rfl⟩ := h₁₂
  obtain ⟨vs, hvs, rfl⟩ := h₂₃
  exact ⟨us ++ vs, List.forall_mem_append.mpr ⟨hus, hvs⟩, run_append⟩

theorem mem_copies {n : Nat} (h : u ∈ copies n us) : u ∈ us := by
  obtain ⟨vs, hvs, hu⟩ := List.mem_flatten.mp h
  exact List.eq_of_mem_replicate hvs ▸ hu

theorem joined_mul (prime h : BitVec w) (n : Nat) : Joined prime h (h * prime ^ n) := by
  induction n with
  | zero =>
      rw [BitVec.pow_zero, BitVec.mul_one]
      exact Joined.refl h
  | succ n ih =>
      refine ih.trans ⟨[0], by simp, ?_⟩
      rw [run_cons, run_nil, round, BitVec.pow_succ, ← BitVec.mul_assoc]
      exact congrArg (fun x => x * prime) BitVec.xor_zero

theorem toNat_mul_pow (h prime : BitVec w) (n : Nat) :
    (h * prime ^ n).toNat = h.toNat * prime.toNat ^ n % 2 ^ w := by
  induction n with
  | zero =>
      rw [BitVec.pow_zero, BitVec.mul_one, Nat.pow_zero, Nat.mul_one, Nat.mod_eq_of_lt h.isLt]
  | succ n ih =>
      rw [BitVec.pow_succ, ← BitVec.mul_assoc, BitVec.toNat_mul, ih, Nat.mod_mul_mod, Nat.pow_succ,
        Nat.mul_assoc]

/-- The powers of a prime of remainder 3 modulo 8 that are 1 up to one given bit. -/
theorem pow_two_pow_eq {p : Nat} (hp : p % 8 = 3) (j : Nat) :
    ∃ m, p ^ 2 ^ (j + 1) = 1 + 2 ^ (j + 3) * (2 * m + 1) := by
  induction j with
  | zero =>
      refine ⟨4 * (p / 8) ^ 2 + 3 * (p / 8), ?_⟩
      have hsplit : p = 8 * (p / 8) + 3 := by omega
      generalize p / 8 = q at hsplit
      subst hsplit
      ring
  | succ j ih =>
      obtain ⟨m, hm⟩ := ih
      refine ⟨m + 2 ^ (j + 1) * (2 * m + 1) ^ 2, ?_⟩
      rw [pow_succ 2 (j + 1), pow_mul, hm]
      ring

section Inverse

variable {inv : BitVec w} (hinv : prime * inv = 1#w)
include hinv

/-- What was done can be undone, by doing it often enough. -/
theorem Joined.symm {h₁ h₂ : BitVec w} (h₁₂ : Joined prime h₁ h₂) : Joined prime h₂ h₁ := by
  obtain ⟨us, hus, rfl⟩ := h₁₂
  obtain ⟨n, hn, hid⟩ := exists_run_copies hinv us
  refine ⟨copies (n - 1) us, fun u hu => hus u (mem_copies hu), ?_⟩
  have hsplit : us ++ copies (n - 1) us = copies (n * 1) us := by
    obtain ⟨m, rfl⟩ : ∃ m, n = m + 1 := ⟨n - 1, by omega⟩
    rw [copies, copies, Nat.mul_one, List.replicate_succ, List.flatten_cons, Nat.add_sub_cancel]
  rw [← run_append, hsplit, hid]

/-- Any low three bits can be flipped. -/
theorem joined_xor (h : BitVec w) (hu : u < 8) : Joined prime h (h ^^^ BitVec.ofNat w u) := by
  have hround : Joined prime h ((h ^^^ BitVec.ofNat w u) * prime) := ⟨[u], by simpa using hu, rfl⟩
  have hback := joined_mul prime (h ^^^ BitVec.ofNat w u) 1
  rw [BitVec.pow_succ, BitVec.pow_zero, BitVec.one_mul] at hback
  exact hround.trans (hback.symm hinv)

/-- Every state leads to one whose low `k` bits are those of 1. -/
theorem exists_joined_low (hprime : prime.toNat % 8 = 3) (h : BitVec w) {k : Nat} (hk : 3 ≤ k)
    (hw : k ≤ w) : ∃ h', Joined prime h h' ∧ h'.toNat % 2 ^ k = 1 := by
  induction k, hk using Nat.le_induction with
  | base =>
      refine ⟨_, joined_xor hinv h (u := h.toNat % 8 ^^^ 1) ?_, ?_⟩
      · exact Nat.xor_lt_two_pow (n := 3) (Nat.mod_lt _ (by decide)) (by decide)
      · have hlt : h.toNat % 8 ^^^ 1 < 2 ^ 3 :=
          Nat.xor_lt_two_pow (Nat.mod_lt _ (by decide)) (by decide)
        have hle : 2 ^ 3 ≤ 2 ^ w := Nat.pow_le_pow_right (by decide) hw
        rw [BitVec.toNat_xor, BitVec.toNat_ofNat, Nat.mod_eq_of_lt (hlt.trans_le hle),
          Nat.xor_mod_two_pow, Nat.mod_eq_of_lt hlt, ← Nat.xor_assoc]
        simp
  | succ k hk ih =>
      obtain ⟨h', hjoin, hlow⟩ := ih (by omega)
      have hpos : 0 < 2 ^ k := Nat.two_pow_pos k
      have hdouble : 2 ^ (k + 1) = 2 * 2 ^ k := by rw [Nat.pow_succ, Nat.mul_comm]
      have hcases : h'.toNat % 2 ^ (k + 1) = 1 ∨ h'.toNat % 2 ^ (k + 1) = 1 + 2 ^ k := by
        rw [Nat.pow_succ, Nat.mod_mul, hlow]
        have hbit := Nat.mod_two_eq_zero_or_one (h'.toNat / 2 ^ k)
        rcases hbit with hbit | hbit <;> simp [hbit]
      rcases hcases with hone | hbit
      · exact ⟨h', hjoin, hone⟩
      · -- bit `k` is set: multiply by a power of the prime that is `1 + 2 ^ k` up to there
        obtain ⟨m, hm⟩ := pow_two_pow_eq hprime (k - 3)
        rw [show k - 3 + 3 = k by omega] at hm
        have hdvd : 2 ^ (k + 1) ∣ 2 ^ w := Nat.pow_dvd_pow 2 hw
        have hpow : prime.toNat ^ 2 ^ (k - 3 + 1) % 2 ^ (k + 1) = 1 + 2 ^ k := by
          rw [hm, show 1 + 2 ^ k * (2 * m + 1) = 1 + 2 ^ k + 2 ^ (k + 1) * m by rw [hdouble]; ring,
            Nat.add_mul_mod_self_left]
          exact Nat.mod_eq_of_lt (by omega)
        refine ⟨_, hjoin.trans (joined_mul prime h' (2 ^ (k - 3 + 1))), ?_⟩
        rw [toNat_mul_pow, Nat.mod_mod_of_dvd _ hdvd, Nat.mul_mod, hbit, hpow]
        have hsquare : (1 + 2 ^ k) * (1 + 2 ^ k) = 1 + 2 ^ (k + 1) * (1 + 2 ^ (k - 1)) := by
          obtain ⟨i, rfl⟩ : ∃ i, k = i + 1 := ⟨k - 1, by omega⟩
          rw [Nat.add_sub_cancel]
          ring
        rw [hsquare, Nat.add_mul_mod_self_left]
        exact Nat.mod_eq_of_lt (by omega)

/-- **Units below 8 lead from every state to every state.** -/
theorem joined (hprime : prime.toNat % 8 = 3) (hw : 3 ≤ w) (h h' : BitVec w) :
    Joined prime h h' := by
  have hone : ∀ h : BitVec w, Joined prime h 1#w := by
    intro h
    obtain ⟨h', hjoin, hlow⟩ := exists_joined_low hinv hprime h hw (le_refl w)
    rw [Nat.mod_eq_of_lt h'.isLt] at hlow
    have heq : h' = 1#w := by
      refine BitVec.eq_of_toNat_eq ?_
      rw [hlow, BitVec.toNat_ofNat, Nat.mod_eq_of_lt (Nat.one_lt_two_pow (by omega))]
    exact heq ▸ hjoin
  exact (hone h).trans ((hone h').symm hinv)

/-- And they do so at any length from some length on. -/
theorem exists_run (hprime : prime.toNat % 8 = 3) (hw : 3 ≤ w) (h h' : BitVec w) (n : Nat) :
    ∃ us : List Nat, (∀ u ∈ us, u < 8) ∧ n ≤ us.length ∧ run prime h us = h' := by
  obtain ⟨us, hus, hrun⟩ := joined hinv hprime hw h h'
  obtain ⟨m, hm, hid⟩ := exists_run_copies hinv [0]
  refine ⟨us ++ copies (m * n) [0], ?_, ?_, ?_⟩
  · refine List.forall_mem_append.mpr ⟨hus, fun u hu => ?_⟩
    rw [List.mem_singleton.mp (mem_copies hu)]
    decide
  · have hle : n ≤ m * n := Nat.le_mul_of_pos_left n hm
    have hlength : (copies (m * n) [0]).length = m * n := by simp [copies]
    rw [List.length_append, hlength]
    omega
  · rw [run_append, hrun, hid]

end Inverse

end Fnv

/-! ### The code units of a string -/

/-- The bytes of a string in UTF-8. -/
def utf8Units (s : String) : List Nat :=
  (s.toList.flatMap String.utf8EncodeChar).map UInt8.toNat

/-- The code units of a character in UTF-16: one, or a surrogate pair. -/
def utf16EncodeChar (c : Char) : List Nat :=
  if c.toNat < 0x10000 then [c.toNat]
  else [0xd800 + (c.toNat - 0x10000) / 0x400, 0xdc00 + (c.toNat - 0x10000) % 0x400]

/-- The code units of a string in UTF-16. -/
def utf16Units (s : String) : List Nat :=
  s.toList.flatMap utf16EncodeChar

/-- Every character is below U+0080. -/
def Ascii (s : String) : Prop :=
  ∀ c ∈ s.toList, c.toNat < 0x80

instance (s : String) : Decidable (Ascii s) :=
  inferInstanceAs (Decidable (∀ c ∈ s.toList, _))

variable {s t : String} {c : Char}

theorem utf8Units_append : utf8Units (s ++ t) = utf8Units s ++ utf8Units t := by
  rw [utf8Units, String.toList_append, List.flatMap_append, List.map_append]
  rfl

theorem utf16Units_append : utf16Units (s ++ t) = utf16Units s ++ utf16Units t := by
  rw [utf16Units, String.toList_append, List.flatMap_append]
  rfl

theorem Ascii.append (hs : Ascii s) (ht : Ascii t) : Ascii (s ++ t) := by
  intro c hc
  rw [String.toList_append] at hc
  rcases List.mem_append.mp hc with hc | hc
  · exact hs c hc
  · exact ht c hc

theorem utf8EncodeChar_of_ascii (h : c.toNat < 0x80) :
    (String.utf8EncodeChar c).map UInt8.toNat = utf16EncodeChar c := by
  have hval : c.val.toNat < 0x80 := h
  have hsize : c.utf8Size = 1 :=
    Char.utf8Size_eq_one_iff.mpr (by rw [UInt32.le_iff_toNat_le]; exact Nat.le_of_lt_succ h)
  rw [String.utf8EncodeChar_eq_singleton hsize, utf16EncodeChar, if_pos (by omega)]
  simp only [List.map_singleton, UInt32.toNat_toUInt8, Char.toNat]
  rw [Nat.mod_eq_of_lt (by omega)]

/-- UTF-8 is never shorter, and longer beyond ASCII. -/
theorem length_utf16EncodeChar_le (c : Char) :
    (utf16EncodeChar c).length ≤ c.utf8Size ∧
      ((utf16EncodeChar c).length = c.utf8Size → c.toNat < 0x80) := by
  have h₁ := Char.utf8Size_eq_one_iff (c := c)
  have h₂ := Char.utf8Size_eq_two_iff (c := c)
  have h₃ := Char.utf8Size_eq_three_iff (c := c)
  have h₄ := Char.utf8Size_eq_four_iff (c := c)
  simp only [UInt32.le_iff_toNat_le, UInt32.lt_iff_toNat_lt] at h₁ h₂ h₃ h₄
  have hlen : (utf16EncodeChar c).length = if c.toNat < 0x10000 then 1 else 2 := by
    rw [utf16EncodeChar]
    split <;> rfl
  have hval : c.val.toNat = c.toNat := rfl
  rw [hlen]
  rcases c.utf8Size_eq with h | h | h | h <;> simp [h, hval] at h₁ h₂ h₃ h₄ ⊢ <;> split <;> omega

theorem length_utf16_le (cs : List Char) :
    (cs.flatMap utf16EncodeChar).length ≤ (cs.flatMap String.utf8EncodeChar).length ∧
      ((cs.flatMap utf16EncodeChar).length = (cs.flatMap String.utf8EncodeChar).length →
        ∀ c ∈ cs, c.toNat < 0x80) := by
  induction cs with
  | nil => simp
  | cons c cs ih =>
      obtain ⟨hle, heq⟩ := length_utf16EncodeChar_le c
      obtain ⟨ihle, iheq⟩ := ih
      rw [List.flatMap_cons, List.flatMap_cons, List.length_append, List.length_append,
        String.length_utf8EncodeChar, List.forall_mem_cons]
      exact ⟨by omega, fun h => ⟨heq (by omega), iheq (by omega)⟩⟩

/-- **The two encodings agree on ASCII and on nothing else.** -/
theorem utf8Units_eq_utf16Units : utf8Units s = utf16Units s ↔ Ascii s := by
  rw [utf8Units, utf16Units, Ascii]
  constructor
  · intro h
    refine (length_utf16_le s.toList).2 ?_
    rw [← h, List.length_map]
  · intro h
    generalize s.toList = cs at h
    induction cs with
    | nil => rfl
    | cons c cs ih =>
        rw [List.forall_mem_cons] at h
        rw [List.flatMap_cons, List.flatMap_cons, List.map_append, utf8EncodeChar_of_ascii h.1,
          ih h.2]

/-- The string of these ASCII codes. -/
def asciiString (us : List Nat) : String :=
  String.ofList (us.map Char.ofNat)

theorem toNat_ofNat_of_ascii {u : Nat} (h : u < 0x80) : (Char.ofNat u).toNat = u := by
  have hvalid : u.isValidChar := Or.inl (by omega)
  rw [Char.ofNat, dif_pos hvalid]
  rfl

theorem ascii_asciiString {us : List Nat} (h : ∀ u ∈ us, u < 0x80) : Ascii (asciiString us) := by
  intro c hc
  rw [asciiString, String.toList_ofList] at hc
  obtain ⟨u, hu, rfl⟩ := List.mem_map.mp hc
  rw [toNat_ofNat_of_ascii (h u hu)]
  exact h u hu

theorem utf16Units_asciiString {us : List Nat} (h : ∀ u ∈ us, u < 0x80) :
    utf16Units (asciiString us) = us := by
  rw [utf16Units, asciiString, String.toList_ofList, List.flatMap_map]
  induction us with
  | nil => rfl
  | cons u us ih =>
      rw [List.forall_mem_cons] at h
      have hu := toNat_ofNat_of_ascii h.1
      rw [List.flatMap_cons, utf16EncodeChar, hu, if_pos (by omega), ih h.2]
      rfl

end FlagPlane
