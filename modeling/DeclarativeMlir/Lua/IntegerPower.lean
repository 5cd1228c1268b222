import DeclarativeMlir.Lua.CellMachine
import Mathlib.Algebra.Ring.Divisibility.Basic
import Mathlib.Data.Int.ModEq
import Mathlib.Tactic.Linarith
import Mathlib.Tactic.NormNum
import Mathlib.Tactic.Ring

/-!
# Integer powers

`lua_pow` calls `ipow`, which squares a power that it has stored in an `int`. What is lost there
decides for which operands the result is the power modulo `2 ^ 64`.
-/

namespace DeclarativeMlir.Lua

open Cells

/-- The result of the recursive call is stored in an `int`, and an even power is its square in the
width of an `int`. -/
def ipow (x : BitVec 64) (p : ℤ) : BitVec 64 :=
  if p = 0 then 1
  else if p = 1 then x
  else
    let tmp : BitVec 32 := (ipow x (p.tdiv 2)).setWidth 32
    if p.tmod 2 = 0 then (tmp * tmp).signExtend 64
    else x * tmp.signExtend 64 * tmp.signExtend 64
termination_by p.natAbs
decreasing_by
  rw [Int.natAbs_tdiv]
  exact Nat.div_lt_self (by omega) (by decide)

def lua_mul (lhs rhs : TObject) : TObject := .ofInt (lhs.u * rhs.u)

def lua_pow (lhs rhs : TObject) : TObject := .ofInt (ipow lhs.u rhs.u.toInt)

/-- `lua_mul` by `val`, `p` times -/
def mulFold (val : TObject) (p : ℕ) : TObject := (lua_mul val)^[p] (.ofInt 1)

/-- The result is the power modulo `2 ^ 64`, and what `lua_mul` gives. -/
structure PowerExact (x p : BitVec 64) : Prop where
  ipow : (ipow x p.toInt).toInt = (x.toInt ^ p.toInt.toNat).bmod (2 ^ 64)
  lua_pow : lua_pow (.ofInt x) (.ofInt p) = mulFold (.ofInt x) p.toInt.toNat

/-- What an `int` does not hold of a number. -/
def overInt (num : ℤ) : ℤ := (num - num.bmod (2 ^ 32)) / 2 ^ 32

/-- An even power is an `int`; the part of the root of an odd one that is lost makes no
difference. -/
def PowerFits (x : ℤ) (p : ℕ) : Prop :=
  if p % 2 = 0 then
    -2 ^ 31 ≤ (x ^ p).bmod (2 ^ 64) ∧ (x ^ p).bmod (2 ^ 64) < 2 ^ 31
  else 2 ^ 31 ∣ overInt (x ^ (p / 2)) * x ^ (p / 2 + 1)

instance (x : ℤ) (p : ℕ) : Decidable (PowerFits x p) := by
  unfold PowerFits
  infer_instance

/-! ## The low bits -/

theorem modEq_bmod (num : ℤ) (n : ℕ) : num.bmod n ≡ num [ZMOD n] := by
  rw [Int.modEq_iff_dvd]
  exact Int.dvd_self_sub_bmod

theorem bmod_eq_bmod_iff {a b : ℤ} {n : ℕ} : a.bmod n = b.bmod n ↔ a ≡ b [ZMOD n] := by
  constructor
  · intro h
    exact ((modEq_bmod a n).symm.trans (h ▸ Int.ModEq.rfl)).trans (modEq_bmod b n)
  · intro h
    rw [← Int.emod_bmod, h, Int.emod_bmod]

theorem int_dvd_word : ((2 ^ 32 : ℕ) : ℤ) ∣ ((2 ^ 64 : ℕ) : ℤ) :=
  Int.natCast_dvd_natCast.mpr (pow_dvd_pow 2 (by decide))

theorem toInt_setWidth_eq (v : BitVec 64) : (v.setWidth 32).toInt = v.toInt.bmod (2 ^ 32) := by
  rw [BitVec.toInt_setWidth, bmod_eq_bmod_iff, BitVec.toInt_eq_toNat_bmod]
  exact ((modEq_bmod _ _).of_dvd int_dvd_word).symm

theorem half_natCast (p : ℕ) : (p : ℤ).tdiv 2 = (p / 2 : ℕ) := by
  rw [Int.tdiv_eq_ediv_of_nonneg (Int.natCast_nonneg p)]
  rfl

theorem parity_natCast (p : ℕ) : (p : ℤ).tmod 2 = 0 ↔ p % 2 = 0 := by
  rw [Int.tmod_eq_emod_of_nonneg (Int.natCast_nonneg p)]
  omega

theorem ipow_zero (x : BitVec 64) : ipow x 0 = 1 := by
  rw [ipow, if_pos rfl]

theorem ipow_one (x : BitVec 64) : ipow x 1 = x := by
  rw [ipow, if_neg (by decide), if_pos rfl]

section

variable (x : BitVec 64) {p : ℕ} (hp : 2 ≤ p)
include hp

theorem ipow_even (heven : p % 2 = 0) :
    ipow x p =
      (((ipow x (p / 2 : ℕ)).setWidth 32 * (ipow x (p / 2 : ℕ)).setWidth 32 :
        BitVec 32)).signExtend 64 := by
  rw [ipow, if_neg (by omega), if_neg (by omega), half_natCast,
    if_pos ((parity_natCast p).mpr heven)]

theorem ipow_odd (hodd : p % 2 ≠ 0) :
    ipow x p =
      x * ((ipow x (p / 2 : ℕ)).setWidth 32 : BitVec 32).signExtend 64 *
        ((ipow x (p / 2 : ℕ)).setWidth 32 : BitVec 32).signExtend 64 := by
  rw [ipow, if_neg (by omega), if_neg (by omega), half_natCast,
    if_neg fun h ↦ hodd ((parity_natCast p).mp h)]

end

theorem pow_half_even (x : ℤ) {p : ℕ} (heven : p % 2 = 0) :
    x ^ (p / 2) * x ^ (p / 2) = x ^ p := by
  rw [← pow_add]
  congr 1
  omega

theorem pow_half_odd (x : ℤ) {p : ℕ} (hodd : p % 2 ≠ 0) :
    x * x ^ (p / 2) * x ^ (p / 2) = x ^ p := by
  rw [← pow_succ', ← pow_add]
  congr 1
  omega

/-- What `tmp` holds, where the power is known in its low bits. -/
theorem toInt_tmp {y : BitVec 64} {num : ℤ} (hlow : y.toInt ≡ num [ZMOD (2 ^ 32 : ℕ)]) :
    (y.setWidth 32).toInt = num.bmod (2 ^ 32) := by
  rw [toInt_setWidth_eq]
  exact bmod_eq_bmod_iff.mpr hlow

theorem toInt_even {y : BitVec 64} {num : ℤ} (hlow : y.toInt ≡ num [ZMOD (2 ^ 32 : ℕ)]) :
    ((y.setWidth 32 * y.setWidth 32 : BitVec 32).signExtend 64).toInt =
      (num * num).bmod (2 ^ 32) := by
  rw [BitVec.toInt_signExtend_of_le (by decide), BitVec.toInt_mul, toInt_tmp hlow]
  exact bmod_eq_bmod_iff.mpr ((modEq_bmod num _).mul (modEq_bmod num _))

theorem toInt_odd (x : BitVec 64) {y : BitVec 64} {num : ℤ} (hlow : y.toInt ≡ num [ZMOD (2 ^ 32 : ℕ)]) :
    (x * (y.setWidth 32 : BitVec 32).signExtend 64 *
        (y.setWidth 32 : BitVec 32).signExtend 64).toInt =
      (x.toInt * num.bmod (2 ^ 32) * num.bmod (2 ^ 32)).bmod (2 ^ 64) := by
  have htmp : ((y.setWidth 32 : BitVec 32).signExtend 64).toInt = num.bmod (2 ^ 32) := by
    rw [BitVec.toInt_signExtend_of_le (by decide), toInt_tmp hlow]
  rw [BitVec.toInt_mul, BitVec.toInt_mul, htmp]
  exact bmod_eq_bmod_iff.mpr ((modEq_bmod _ _).mul_right _)

/-- The result is right in its low 32 bits. -/
theorem ipow_low (x : BitVec 64) (p : ℕ) : (ipow x p).toInt ≡ x.toInt ^ p [ZMOD (2 ^ 32 : ℕ)] := by
  induction p using Nat.strong_induction_on with
  | h p ih =>
    obtain rfl | rfl | hge : p = 0 ∨ p = 1 ∨ 2 ≤ p := by omega
    · rw [Nat.cast_zero, ipow_zero, pow_zero]
      exact Int.ModEq.refl 1
    · rw [Nat.cast_one, ipow_one, pow_one]
    · have hlow := ih (p / 2) (by omega)
      by_cases heven : p % 2 = 0
      · rw [ipow_even x hge heven, toInt_even hlow, ← pow_half_even _ heven]
        exact modEq_bmod _ _
      · have htmp := modEq_bmod (x.toInt ^ (p / 2)) (2 ^ 32)
        rw [ipow_odd x hge heven, toInt_odd x hlow, ← pow_half_odd _ heven]
        calc
          _ ≡ x.toInt * (x.toInt ^ (p / 2)).bmod (2 ^ 32) * (x.toInt ^ (p / 2)).bmod (2 ^ 32)
              [ZMOD (2 ^ 32 : ℕ)] := (modEq_bmod _ _).of_dvd int_dvd_word
          _ ≡ _ [ZMOD (2 ^ 32 : ℕ)] := (htmp.mul_left _).mul htmp

/-! ## Exact powers -/

theorem fits_int_iff (num : ℤ) :
    num.bmod (2 ^ 32) = num.bmod (2 ^ 64) ↔
      -2 ^ 31 ≤ num.bmod (2 ^ 64) ∧ num.bmod (2 ^ 64) < 2 ^ 31 := by
  constructor
  · intro h
    have hle : -((2 ^ 32 : ℕ) / 2 : ℤ) ≤ num.bmod (2 ^ 32) := Int.le_bmod (by decide)
    have hlt : num.bmod (2 ^ 32) < ((2 ^ 32 : ℕ) + 1 : ℤ) / 2 := Int.bmod_lt (by decide)
    rw [← h]
    norm_num at hle hlt ⊢
    exact ⟨hle, hlt⟩
  · rintro ⟨hle, hlt⟩
    have hmod : num ≡ num.bmod (2 ^ 64) [ZMOD (2 ^ 32 : ℕ)] :=
      (modEq_bmod num (2 ^ 64)).symm.of_dvd int_dvd_word
    rw [bmod_eq_bmod_iff.mpr hmod]
    generalize num.bmod (2 ^ 64) = low at hle hlt
    apply Int.bmod_eq_of_le_mul_two
    · push_cast
      linarith
    · push_cast
      linarith

theorem overInt_spec (num : ℤ) : num = num.bmod (2 ^ 32) + 2 ^ 32 * overInt num := by
  have hdvd : (2 ^ 32 : ℤ) ∣ num - num.bmod (2 ^ 32) := (Int.modEq_iff_dvd).mp (modEq_bmod num _)
  rw [overInt, Int.mul_ediv_cancel' hdvd]
  ring

/-- Squaring without the upper part loses nothing. -/
theorem odd_iff (x root : ℤ) :
    (x * root.bmod (2 ^ 32) * root.bmod (2 ^ 32)).bmod (2 ^ 64) =
        (x * root * root).bmod (2 ^ 64) ↔
      2 ^ 31 ∣ overInt root * (root * x) := by
  obtain ⟨low, hlow⟩ : ∃ low, low = root.bmod (2 ^ 32) := ⟨_, rfl⟩
  obtain ⟨high, hhigh⟩ : ∃ high, high = overInt root := ⟨_, rfl⟩
  have hroot : root = low + 2 ^ 32 * high := by rw [hlow, hhigh, ← overInt_spec]
  have hdiff : x * root * root - x * low * low =
      2 ^ 33 * (high * (root * x)) - 2 ^ 64 * (high * high * x) := by
    rw [hroot]
    ring
  rw [← hlow, ← hhigh, bmod_eq_bmod_iff, Int.modEq_iff_dvd, hdiff]
  have hpow : ((2 ^ 64 : ℕ) : ℤ) = 2 ^ 33 * 2 ^ 31 := by norm_num
  have hsquare : ((2 ^ 64 : ℕ) : ℤ) ∣ 2 ^ 64 * (high * high * x) :=
    Dvd.intro _ (by rw [Nat.cast_pow, Nat.cast_ofNat])
  rw [dvd_sub_left hsquare, hpow]
  exact mul_dvd_mul_iff_left (by norm_num)

theorem ipow_eq_iff (x : BitVec 64) (p : ℕ) :
    (ipow x p).toInt = (x.toInt ^ p).bmod (2 ^ 64) ↔ PowerFits x.toInt p := by
  rw [PowerFits]
  obtain rfl | rfl | hge : p = 0 ∨ p = 1 ∨ 2 ≤ p := by omega
  · rw [Nat.cast_zero, ipow_zero, pow_zero, if_pos rfl]
    decide
  · rw [Nat.cast_one, ipow_one, pow_one, Nat.div_eq_of_lt (by decide), pow_zero, if_neg (by decide)]
    have hover : overInt 1 = 0 := by decide
    rw [hover, zero_mul]
    exact iff_of_true (BitVec.toInt_bmod_cancel x).symm (dvd_zero _)
  · have hlow := ipow_low x (p / 2)
    split
    case isTrue heven =>
      rw [ipow_even x hge heven, toInt_even hlow, pow_half_even _ heven, fits_int_iff]
    case isFalse hodd =>
      rw [ipow_odd x hge hodd, toInt_odd x hlow, ← pow_half_odd _ hodd, odd_iff,
        pow_succ x.toInt (p / 2)]

theorem mulFold_eq (x : BitVec 64) (p : ℕ) :
    ∃ y : BitVec 64, mulFold (.ofInt x) p = .ofInt y ∧ y.toInt = (x.toInt ^ p).bmod (2 ^ 64) := by
  induction p with
  | zero => exact ⟨1, rfl, by rw [pow_zero]; decide⟩
  | succ p ih =>
    obtain ⟨y, hfold, hy⟩ := ih
    have hstep : mulFold (.ofInt x) (p + 1) = lua_mul (.ofInt x) (mulFold (.ofInt x) p) :=
      Function.iterate_succ_apply' _ _ _
    refine ⟨x * y, ?_, ?_⟩
    · rw [hstep, hfold]
      rfl
    · rw [BitVec.toInt_mul, hy, pow_succ' x.toInt p]
      exact bmod_eq_bmod_iff.mpr ((modEq_bmod _ _).mul_left _)

end DeclarativeMlir.Lua
