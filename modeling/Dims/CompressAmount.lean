import Mathlib.Logic.Function.Iterate
import Mathlib.Tactic.Linarith
import Mathlib.Tactic.Ring

/-!
# Compressed amounts

`CTxOutCompressor` writes an amount without its zeros at the end. The arithmetic
is that of 64-bit words, and the largest amounts are not read back as they were
written; those below `2 ^ 60` are.
-/

namespace Dims.CTxOut

/-- The zeros taken off the end of an amount, at most `steps` of them. -/
def stripZeros : ℕ → UInt64 → UInt64 × ℕ
  | 0, n => (n, 0)
  | steps + 1, n =>
    if n % 10 = 0 then
      let stripped := stripZeros steps (n / 10)
      (stripped.1, stripped.2 + 1)
    else (n, 0)

/-- `CTxOutCompressor::CompressAmount` -/
def compressAmount (n : UInt64) : UInt64 :=
  if n = 0 then 0
  else
    let stripped := stripZeros 9 n
    let e := UInt64.ofNat stripped.2
    if stripped.2 < 9 then
      1 + (stripped.1 / 10 * 9 + stripped.1 % 10 - 1) * 10 + e
    else 1 + (stripped.1 - 1) * 10 + 9

/-- `CTxOutCompressor::DecompressAmount` -/
def decompressAmount (x : UInt64) : UInt64 :=
  if x = 0 then 0
  else
    let e := (x - 1) % 10
    let y := (x - 1) / 10
    let n := if e < 9 then y / 9 * 10 + (y % 9 + 1) else y + 1
    (fun m => m * 10)^[e.toNat] n

theorem stripZeros_spec (steps : ℕ) (n : UInt64) :
    (stripZeros steps n).1.toNat * 10 ^ (stripZeros steps n).2 = n.toNat ∧
      (stripZeros steps n).2 ≤ steps ∧
      ((stripZeros steps n).2 < steps → (stripZeros steps n).1.toNat % 10 ≠ 0) := by
  induction steps generalizing n with
  | zero => simp [stripZeros]
  | succ steps ih =>
    by_cases hn : n % 10 = 0
    · have hmod : n.toNat % 10 = 0 := by
        have h := congrArg UInt64.toNat hn
        simpa using h
      rcases ih (n / 10) with ⟨hmul, hle, hlast⟩
      have hdiv : (n / 10).toNat = n.toNat / 10 := by simp
      simp only [stripZeros, hn, if_true]
      refine ⟨?_, by omega, fun hlt => hlast (by omega)⟩
      rw [pow_succ, ← mul_assoc, hmul, hdiv]
      omega
    · have hmod : n.toNat % 10 ≠ 0 := by
        intro h
        apply hn
        apply UInt64.toNat_inj.mp
        simpa using h
      simp [stripZeros, hn, hmod]

theorem iterate_mul_ten (e : ℕ) (m : UInt64) (h : m.toNat * 10 ^ e < 2 ^ 64) :
    ((fun m : UInt64 => m * 10)^[e] m).toNat = m.toNat * 10 ^ e := by
  induction e generalizing m with
  | zero => simp
  | succ e ih =>
    have hpow : 1 ≤ 10 ^ e := Nat.one_le_pow _ _ (by decide)
    have hsucc : m.toNat * 10 ^ (e + 1) = m.toNat * 10 * 10 ^ e := by ring
    have hle : m.toNat * 10 ≤ m.toNat * 10 * 10 ^ e := Nat.le_mul_of_pos_right _ hpow
    have hten : (m * 10).toNat = m.toNat * 10 := by
      rw [UInt64.toNat_mul]
      apply Nat.mod_eq_of_lt
      show m.toNat * 10 < 2 ^ 64
      omega
    rw [Function.iterate_succ_apply, ih (m * 10) (by rw [hten]; omega), hten, hsucc]

private theorem toNat_compressAmount {n m : UInt64} {e : ℕ} (hn : n.toNat < 2 ^ 60) (hzero : n ≠ 0)
    (hstrip : stripZeros 9 n = (m, e)) (hle : e ≤ 9) (hm : m.toNat ≤ n.toNat)
    (hpos : 0 < m.toNat) (hlast : e < 9 → m.toNat % 10 ≠ 0) :
    (compressAmount n).toNat =
      if e < 9 then 1 + (m.toNat / 10 * 9 + m.toNat % 10 - 1) * 10 + e
      else 1 + (m.toNat - 1) * 10 + 9 := by
  simp only [compressAmount, hzero, if_false, hstrip]
  by_cases he : e < 9
  · have hmod := hlast he
    simp only [he, if_true]
    have hsum : (m / 10 * 9 + m % 10).toNat = m.toNat / 10 * 9 + m.toNat % 10 := by
      simp only [UInt64.toNat_add, UInt64.toNat_mul, UInt64.toNat_div, UInt64.toNat_mod,
        UInt64.reduceToNat, Nat.reducePow]
      have hsmall : m.toNat / 10 * 9 < 18446744073709551616 := by omega
      rw [Nat.mod_eq_of_lt hsmall]
      omega
    have hone : (1 : UInt64) ≤ m / 10 * 9 + m % 10 := by
      rw [UInt64.le_iff_toNat_le, hsum]
      show 1 ≤ _
      omega
    simp only [UInt64.toNat_add, UInt64.toNat_mul, UInt64.toNat_sub_of_le _ _ hone, hsum,
      UInt64.toNat_ofNat', UInt64.reduceToNat, Nat.reducePow]
    have hsmall : (m.toNat / 10 * 9 + m.toNat % 10 - 1) * 10 < 18446744073709551616 := by omega
    rw [Nat.mod_eq_of_lt hsmall]
    omega
  · simp only [he, if_false]
    have hone : (1 : UInt64) ≤ m := by
      rw [UInt64.le_iff_toNat_le]
      exact hpos
    simp only [UInt64.toNat_add, UInt64.toNat_mul, UInt64.toNat_sub_of_le _ _ hone,
      UInt64.reduceToNat, Nat.reducePow]
    omega

/-- Amounts below `2 ^ 60` are read back as they were written. -/
theorem decompressAmount_compressAmount (n : UInt64) (hn : n.toNat < 2 ^ 60) :
    decompressAmount (compressAmount n) = n := by
  by_cases hzero : n = 0
  · subst hzero
    rfl
  rcases stripZeros_spec 9 n with ⟨hmul, hle, hlast⟩
  generalize hstrip : stripZeros 9 n = r at hmul hle hlast
  rcases r with ⟨m, e⟩
  dsimp only at hmul hle hlast
  have hm : m.toNat ≤ n.toNat := by
    rw [← hmul]
    exact Nat.le_mul_of_pos_right _ (Nat.pow_pos (by decide))
  have hpos : 0 < m.toNat := by
    apply Nat.pos_of_ne_zero
    intro h
    rw [h, zero_mul] at hmul
    exact hzero (UInt64.toNat_inj.mp hmul.symm)
  have hx := toNat_compressAmount hn hzero hstrip hle hm hpos hlast
  generalize compressAmount n = x at hx
  have hxne : x ≠ 0 := by
    intro h
    rw [h] at hx
    split at hx
    · simp at hx
      omega
    · simp at hx
  have hone : (1 : UInt64) ≤ x := by
    rw [UInt64.le_iff_toNat_le]
    have h0 : x.toNat ≠ 0 := fun h => hxne (UInt64.toNat_inj.mp h)
    show 1 ≤ x.toNat
    omega
  have hsub : (x - 1).toNat = x.toNat - 1 := UInt64.toNat_sub_of_le _ _ hone
  have he : ((x - 1) % 10).toNat = e := by
    rw [UInt64.toNat_mod, hsub, hx]
    show _ % 10 = e
    split <;> omega
  -- the digits in front of the zeros
  have hdigits : ((if (x - 1) % 10 < 9 then (x - 1) / 10 / 9 * 10 + ((x - 1) / 10 % 9 + 1)
      else (x - 1) / 10 + 1 : UInt64)).toNat = m.toNat := by
    have hiff : (x - 1) % 10 < 9 ↔ e < 9 := by
      rw [UInt64.lt_iff_toNat_lt, he]
      exact Iff.rfl
    by_cases h9 : e < 9
    · have hmod := hlast h9
      rw [if_pos (hiff.mpr h9)]
      rw [if_pos h9] at hx
      simp only [UInt64.toNat_add, UInt64.toNat_mul, UInt64.toNat_div, UInt64.toNat_mod, hsub, hx,
        UInt64.reduceToNat, Nat.reducePow]
      omega
    · rw [if_neg (fun h => h9 (hiff.mp h))]
      rw [if_neg h9] at hx
      simp only [UInt64.toNat_add, UInt64.toNat_div, hsub, hx, UInt64.reduceToNat, Nat.reducePow]
      omega
  apply UInt64.toNat_inj.mp
  simp only [decompressAmount, hxne, if_false, he]
  rw [iterate_mul_ten _ _ (by rw [hdigits, hmul]; omega), hdigits, hmul]

end Dims.CTxOut
