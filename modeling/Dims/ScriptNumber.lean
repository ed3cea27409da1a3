import Dims.Script

/-!
# Numbers of the script language

`CBigNum::setvch` and `getvch` of bignum.h between numbers and stack elements: the
magnitude least significant byte first, the sign in the top bit of the last byte.
OpenSSL does the conversion. An operand has four bytes at most (`CastToBigNum`),
a result may need a fifth.
-/

namespace Dims
open ByteCodec

namespace CBigNum

/-- The number without the sign bit. -/
def magnitude : Bytes → ℕ
  | [] => 0
  | [b] => b.toNat % 128
  | b :: b' :: vch => b.toNat + 256 * magnitude (b' :: vch)

def isNegative (vch : Bytes) : Bool := 0x80 ≤ vch.getLastD 0

def setvch (vch : Bytes) : ℤ :=
  if isNegative vch then -(magnitude vch : ℤ) else magnitude vch

/-- The bytes of a magnitude. A number whose top bit would be taken for the sign gets a
byte more. -/
def magnitudeBytes (sign : UInt8) : ℕ → ℕ → Bytes
  | 0, n => [UInt8.ofNat n + sign]
  | fuel + 1, n =>
    if n < 128 then [UInt8.ofNat n + sign]
    else UInt8.ofNat n :: magnitudeBytes sign fuel (n / 256)

def getvch (v : ℤ) : Bytes :=
  if v = 0 then [] else magnitudeBytes (if v < 0 then 0x80 else 0) v.natAbs v.natAbs

/-- `getint`, which stops at the bounds of an `int`. -/
def getint (v : ℤ) : ℤ :=
  if v.natAbs ≤ 2 ^ 31 - 1 then v else if v < 0 then -2 ^ 31 else 2 ^ 31 - 1

end CBigNum

/-- `CastToBool`: not zero, and not the negative zero. -/
def castToBool : Bytes → Bool
  | [] => false
  | b :: vch => if b = 0 then castToBool vch else !(vch = [] ∧ b = 0x80)

/-- `CastToBigNum` -/
def castToBigNum (vch : Bytes) : Option ℤ :=
  if 4 < vch.length then none
  else some (CBigNum.setvch (CBigNum.getvch (CBigNum.setvch vch)))

namespace CBigNum

section Bytes

theorem byte_of_lt {n : ℕ} (h : n < 128) : (UInt8.ofNat n + 0).toNat = n := by
  simp only [UInt8.toNat_add, UInt8.toNat_ofNat', UInt8.toNat_zero]
  omega

theorem signed_byte_of_lt {n : ℕ} (h : n < 128) : (UInt8.ofNat n + 0x80).toNat = n + 128 := by
  simp only [UInt8.toNat_add, UInt8.toNat_ofNat', UInt8.reduceToNat]
  omega

/-- Two bytes at the end of a number with one sign and one magnitude are the same. -/
theorem eq_of_sign_of_magnitude {b c : UInt8} (hsign : 0x80 ≤ b ↔ 0x80 ≤ c)
    (hmag : b.toNat % 128 = c.toNat % 128) : b = c := by
  apply UInt8.toNat_inj.mp
  simp only [UInt8.le_iff_toNat_le, UInt8.reduceToNat] at hsign
  have := b.toNat_lt
  have := c.toNat_lt
  omega

theorem isNegative_cons_cons (b b' : UInt8) (vch : Bytes) :
    isNegative (b :: b' :: vch) = isNegative (b' :: vch) := by
  simp [isNegative]

theorem isNegative_singleton (b : UInt8) : isNegative [b] = decide (0x80 ≤ b) := rfl

end Bytes

section RoundTrip

variable {sign : UInt8}

theorem magnitudeBytes_ne_nil (sign : UInt8) (fuel n : ℕ) : magnitudeBytes sign fuel n ≠ [] := by
  cases fuel with
  | zero => simp [magnitudeBytes]
  | succ fuel =>
    rw [magnitudeBytes]
    split <;> simp

theorem magnitude_cons (b : UInt8) {vch : Bytes} (h : vch ≠ []) :
    magnitude (b :: vch) = b.toNat + 256 * magnitude vch := by
  cases vch with
  | nil => exact absurd rfl h
  | cons b' vch => rfl

theorem isNegative_cons (b : UInt8) {vch : Bytes} (h : vch ≠ []) :
    isNegative (b :: vch) = isNegative vch := by
  cases vch with
  | nil => exact absurd rfl h
  | cons b' vch => exact isNegative_cons_cons b b' vch

/-- What is written has the magnitude, and the sign that was asked for. -/
theorem magnitudeBytes_spec (neg : Bool) (fuel n : ℕ) (h : n ≤ fuel) :
    magnitude (magnitudeBytes (if neg then 0x80 else 0) fuel n) = n ∧
      isNegative (magnitudeBytes (if neg then 0x80 else 0) fuel n) = neg := by
  induction fuel generalizing n with
  | zero =>
    obtain rfl : n = 0 := by omega
    cases neg <;> decide
  | succ fuel ih =>
    rw [magnitudeBytes]
    split
    case isTrue hlt =>
      cases neg with
      | false =>
        have hb := byte_of_lt hlt
        simp only [Bool.false_eq_true, if_false, magnitude, isNegative_singleton,
          decide_eq_false_iff_not, UInt8.le_iff_toNat_le, UInt8.reduceToNat, hb]
        omega
      | true =>
        have hb := signed_byte_of_lt hlt
        simp only [if_true, magnitude, isNegative_singleton, decide_eq_true_eq,
          UInt8.le_iff_toNat_le, UInt8.reduceToNat, hb]
        omega
    case isFalse hge =>
      have hrest := ih (n / 256) (by omega)
      have hne := magnitudeBytes_ne_nil (if neg then 0x80 else 0) fuel (n / 256)
      rw [magnitude_cons _ hne, isNegative_cons _ hne, hrest.1, hrest.2]
      simp only [UInt8.toNat_ofNat', and_true]
      omega

@[simp] theorem setvch_getvch (v : ℤ) : setvch (getvch v) = v := by
  by_cases hv : v = 0
  · subst hv
    decide
  · have hspec := magnitudeBytes_spec (decide (v < 0)) v.natAbs v.natAbs (Nat.le_refl _)
    simp only [decide_eq_true_eq] at hspec
    simp only [setvch, getvch, hv, if_false, hspec.1, hspec.2, decide_eq_true_eq]
    split <;> omega

end RoundTrip

section Shortest

theorem magnitude_lt (vch : Bytes) : magnitude vch < 2 ^ (8 * vch.length - 1) := by
  induction vch with
  | nil => simp [magnitude]
  | cons b vch ih =>
    cases vch with
    | nil =>
      simp only [magnitude, List.length_singleton]
      omega
    | cons b' vch =>
      have hb := b.toNat_lt
      have hpow : (2 : ℕ) ^ (8 * (b :: b' :: vch).length - 1) =
          256 * 2 ^ (8 * (b' :: vch).length - 1) := by
        rw [show (256 : ℕ) = 2 ^ 8 from rfl, ← pow_add]
        congr 1
        simp only [List.length_cons]
        omega
      rw [hpow, magnitude]
      omega

theorem length_magnitudeBytes_le (fuel n k : ℕ) (hk : 0 < k) (h : n < 2 ^ (8 * k - 1)) :
    (magnitudeBytes sign fuel n).length ≤ k := by
  induction fuel generalizing n k with
  | zero =>
    simp only [magnitudeBytes, List.length_singleton]
    omega
  | succ fuel ih =>
    rw [magnitudeBytes]
    split
    case isTrue =>
      simp only [List.length_singleton]
      omega
    case isFalse hge =>
      have hk2 : 2 ≤ k := by
        by_contra hlt
        obtain rfl : k = 1 := by omega
        omega
      have hpow : (2 : ℕ) ^ (8 * k - 1) = 256 * 2 ^ (8 * (k - 1) - 1) := by
        rw [show (256 : ℕ) = 2 ^ 8 from rfl, ← pow_add]
        congr 1
        omega
      have hrest := ih (n / 256) (k - 1) (by omega) (by omega)
      simp only [List.length_cons]
      omega

theorem length_getvch_le {v : ℤ} {k : ℕ} (h : v.natAbs < 2 ^ (8 * k - 1)) :
    (getvch v).length ≤ k := by
  by_cases hv : v = 0
  · simp [getvch, hv]
  · simp only [getvch, hv, if_false]
    apply length_magnitudeBytes_le _ _ _ _ h
    by_contra hk
    obtain rfl : k = 0 := by omega
    simp only [Nat.mul_zero, Nat.zero_sub, pow_zero] at h
    omega

theorem natAbs_setvch (vch : Bytes) : (setvch vch).natAbs = magnitude vch := by
  rw [setvch]
  split <;> simp

/-- Nothing shorter than what is written reads as the number. -/
theorem length_getvch_setvch (vch : Bytes) : (getvch (setvch vch)).length ≤ vch.length :=
  length_getvch_le (by rw [natAbs_setvch]; exact magnitude_lt vch)

theorem eq_of_magnitude {vch vch' : Bytes} (hlen : vch.length = vch'.length)
    (hsign : isNegative vch = isNegative vch') (hmag : magnitude vch = magnitude vch') :
    vch = vch' := by
  induction vch generalizing vch' with
  | nil => simpa using hlen.symm
  | cons b vch ih =>
    cases vch' with
    | nil => simp at hlen
    | cons c vch' =>
      have hlen' : vch.length = vch'.length := by simpa using hlen
      cases vch with
      | nil =>
        obtain rfl : vch' = [] := by simpa using hlen'.symm
        simp only [isNegative_singleton, decide_eq_decide] at hsign
        rw [eq_of_sign_of_magnitude hsign hmag]
      | cons b' vch =>
        have hne : vch' ≠ [] := by
          intro h
          simp [h] at hlen'
        rw [isNegative_cons _ (by simp), isNegative_cons _ hne] at hsign
        rw [magnitude_cons _ (by simp), magnitude_cons _ hne] at hmag
        have hb := b.toNat_lt
        have hc := c.toNat_lt
        rw [ih hlen' hsign (by omega), UInt8.toNat_inj.mp (show b.toNat = c.toNat by omega)]

end Shortest

end CBigNum

section Cast
open CBigNum

theorem castToBool_eq_false_iff {vch : Bytes} : castToBool vch = false ↔ magnitude vch = 0 := by
  induction vch with
  | nil => simp [castToBool, magnitude]
  | cons b vch ih =>
    have hb : b = 0 ↔ b.toNat = 0 := UInt8.toNat_inj.symm
    have hb' : b = 0x80 ↔ b.toNat = 128 := UInt8.toNat_inj.symm
    have hlt := b.toNat_lt
    cases vch with
    | nil =>
      simp only [castToBool, magnitude, hb, hb']
      split <;> simp <;> omega
    | cons b' vch =>
      rw [castToBool, magnitude_cons _ (by simp)]
      split
      case isTrue h =>
        rw [ih, hb.mp h, Nat.zero_add, Nat.mul_eq_zero]
        simp
      case isFalse h =>
        have := hb.not.mp h
        simp [this]

theorem castToBool_iff {vch : Bytes} : castToBool vch = true ↔ setvch vch ≠ 0 := by
  rw [← Bool.not_eq_false, castToBool_eq_false_iff, ← natAbs_setvch]
  omega

theorem castToBigNum_eq_some {vch : Bytes} {v : ℤ} :
    castToBigNum vch = some v ↔ vch.length ≤ 4 ∧ setvch vch = v := by
  simp only [castToBigNum, setvch_getvch]
  split
  case isTrue h => simp [h]
  case isFalse h => simp [Nat.not_lt.mp h]

theorem natAbs_lt_of_castToBigNum {vch : Bytes} {v : ℤ} (h : castToBigNum vch = some v) :
    v.natAbs < 2 ^ 31 := by
  obtain ⟨hlen, rfl⟩ := castToBigNum_eq_some.mp h
  rw [natAbs_setvch]
  apply lt_of_lt_of_le (magnitude_lt vch)
  exact Nat.pow_le_pow_right (by omega) (by omega)

theorem getint_of_castToBigNum {vch : Bytes} {v : ℤ} (h : castToBigNum vch = some v) :
    getint v = v := by
  have := natAbs_lt_of_castToBigNum h
  rw [getint, if_pos (by omega)]

/-- Bytes of one length that read as one number, not zero, are the same. -/
theorem eq_of_setvch {vch vch' : Bytes} (hlen : vch.length = vch'.length)
    (h : setvch vch = setvch vch') (hne : setvch vch ≠ 0) : vch = vch' := by
  have hmag : magnitude vch = magnitude vch' := by
    rw [← natAbs_setvch, ← natAbs_setvch, h]
  apply eq_of_magnitude hlen _ hmag
  simp only [setvch, hmag] at h hne
  cases hneg : isNegative vch <;> cases hneg' : isNegative vch'
  all_goals
    simp only [hneg, hneg', if_true, if_false, Bool.false_eq_true] at h hne
    first | rfl | omega

/-- What is written for a number is the shortest element that reads as it. -/
theorem eq_getvch_iff {v : ℤ} {vch : Bytes} :
    vch = getvch v ↔ setvch vch = v ∧ vch.length ≤ (getvch v).length := by
  constructor
  · rintro rfl
    exact ⟨setvch_getvch v, le_refl _⟩
  · rintro ⟨rfl, hlen⟩
    by_cases hzero : setvch vch = 0
    · have hnil : getvch (setvch vch) = [] := by simp [getvch, hzero]
      simpa [hnil] using hlen
    · have hshort := length_getvch_setvch vch
      exact eq_of_setvch (by omega) (setvch_getvch _).symm hzero

/-- The numbers of stack elements: a number is read back from what is written for it, which is
the shortest element that reads as it. An element is true where its number is not zero, and
every element of up to four bytes is an operand. -/
theorem scriptNumber_encoding (v : ℤ) (vch : Bytes) :
    setvch (getvch v) = v ∧
      (vch = getvch v ↔ setvch vch = v ∧ vch.length ≤ (getvch v).length) ∧
      (castToBool vch = true ↔ setvch vch ≠ 0) ∧
      (castToBigNum vch = some v ↔ vch.length ≤ 4 ∧ setvch vch = v) :=
  ⟨setvch_getvch v, eq_getvch_iff, castToBool_iff, castToBigNum_eq_some⟩

end Cast

end Dims
