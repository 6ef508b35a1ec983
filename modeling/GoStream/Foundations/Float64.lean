import GoStream.Foundations.Text
import Mathlib.Data.Int.Log
import Mathlib.Data.List.TakeWhile
import Mathlib.Data.Rat.Floor
import Mathlib.Tactic

/-!
# Rounded arithmetic
-/

namespace GoStream.Foundations.Float64

def nearest (q : ℚ) : ℤ :=
  if q - ⌊q⌋ < 1 / 2 ∨ (q - ⌊q⌋ = 1 / 2 ∧ ⌊q⌋ % 2 = 0) then ⌊q⌋ else ⌊q⌋ + 1

def unit (q : ℚ) : ℚ := 2 ^ (Int.log 2 |q| - 52)

def round (q : ℚ) : ℚ := nearest (q / unit q) * unit q

def mul (x y : ℚ) : ℚ := round (x * y)

def div (x y : ℚ) : ℚ := round (x / y)

theorem nearest_intCast (n : ℤ) : nearest n = n := by
  simp [nearest]

theorem floor_le_nearest (q : ℚ) : ⌊q⌋ ≤ nearest q := by
  unfold nearest
  split_ifs <;> omega

theorem nearest_le_floor_add_one (q : ℚ) : nearest q ≤ ⌊q⌋ + 1 := by
  unfold nearest
  split_ifs <;> omega

theorem nearest_mono {q r : ℚ} (h : q ≤ r) : nearest q ≤ nearest r := by
  rcases (Int.floor_le_floor h).lt_or_eq with hlt | heq
  · calc nearest q ≤ ⌊q⌋ + 1 := nearest_le_floor_add_one q
      _ ≤ ⌊r⌋ := hlt
      _ ≤ nearest r := floor_le_nearest r
  · -- the same integer is below both, so the fractions are in order
    unfold nearest
    rw [heq]
    split_ifs with hq hr hr
    · exact le_rfl
    · omega
    · exfalso
      apply hq
      rcases hr with hr | ⟨hr, heven⟩
      · exact .inl (by linarith)
      · rcases h.lt_or_eq with hlt | rfl
        · exact .inl (by linarith)
        · exact .inr ⟨hr, heven⟩
    · exact le_rfl

theorem unit_pos (q : ℚ) : 0 < unit q := by
  unfold unit
  positivity

theorem two_pow_mul_unit (q : ℚ) (k : ℕ) :
    (2 : ℚ) ^ k * unit q = 2 ^ (Int.log 2 |q| - 52 + k) := by
  rw [unit, ← zpow_natCast, mul_comm, ← zpow_add₀ two_ne_zero]

theorem round_intCast {n : ℤ} (hn : |n| < 2 ^ 53) : round n = n := by
  rcases eq_or_ne n 0 with rfl | hne
  · simp [round, show nearest 0 = 0 from nearest_intCast 0]
  have hpos : (0 : ℚ) < |(n : ℚ)| := abs_pos.mpr (by exact_mod_cast hne)
  have hlog : Int.log 2 |(n : ℚ)| < 53 := by
    apply (Int.lt_zpow_iff_log_lt (by norm_num) hpos).mp
    exact_mod_cast hn
  obtain ⟨k, hk⟩ : ∃ k : ℕ, Int.log 2 |(n : ℚ)| - 52 = -k :=
    ⟨(52 - Int.log 2 |(n : ℚ)|).toNat, by omega⟩
  have hdiv : (n : ℚ) / unit n = ((n * 2 ^ k : ℤ) : ℚ) := by
    rw [unit, hk, zpow_neg, zpow_natCast, div_inv_eq_mul]
    push_cast
    rfl
  rw [round, hdiv, nearest_intCast, ← hdiv, div_mul_cancel₀ _ (unit_pos _).ne']

theorem le_round_of_pos {q : ℚ} (hq : 0 < q) : (2 : ℚ) ^ Int.log 2 |q| ≤ round q := by
  have hexp : (2 : ℚ) ^ 52 * unit q = 2 ^ Int.log 2 |q| := by
    rw [two_pow_mul_unit]
    congr 1
    omega
  have hle : (2 : ℚ) ^ 52 ≤ q / unit q := by
    rw [le_div_iff₀ (unit_pos q), hexp]
    exact (Int.zpow_log_le_self (by norm_num) (abs_pos.mpr hq.ne')).trans_eq (abs_of_pos hq)
  have hint := nearest_mono hle
  rw [show ((2 : ℚ) ^ 52) = ((2 ^ 52 : ℤ) : ℚ) by norm_num, nearest_intCast] at hint
  calc (2 : ℚ) ^ Int.log 2 |q| = 2 ^ 52 * unit q := hexp.symm
    _ ≤ nearest (q / unit q) * unit q := by
        apply mul_le_mul_of_nonneg_right _ (unit_pos q).le
        exact_mod_cast hint

theorem round_le_of_pos {q : ℚ} (hq : 0 < q) : round q ≤ (2 : ℚ) ^ (Int.log 2 |q| + 1) := by
  have hexp : (2 : ℚ) ^ 53 * unit q = 2 ^ (Int.log 2 |q| + 1) := by
    rw [two_pow_mul_unit]
    congr 1
    omega
  have hle : q / unit q ≤ (2 : ℚ) ^ 53 := by
    rw [div_le_iff₀ (unit_pos q), hexp]
    have hlt := Int.lt_zpow_succ_log_self (b := 2) (by norm_num) |q|
    rw [abs_of_pos hq] at hlt ⊢
    exact hlt.le
  have hint := nearest_mono hle
  rw [show ((2 : ℚ) ^ 53) = ((2 ^ 53 : ℤ) : ℚ) by norm_num, nearest_intCast] at hint
  calc round q = nearest (q / unit q) * unit q := rfl
    _ ≤ 2 ^ 53 * unit q := by
        apply mul_le_mul_of_nonneg_right _ (unit_pos q).le
        exact_mod_cast hint
    _ = 2 ^ (Int.log 2 |q| + 1) := hexp

theorem round_nonneg {q : ℚ} (hq : 0 ≤ q) : 0 ≤ round q := by
  have hint := nearest_mono (div_nonneg hq (unit_pos q).le)
  rw [show nearest 0 = 0 from nearest_intCast 0] at hint
  exact mul_nonneg (by exact_mod_cast hint) (unit_pos q).le

theorem round_nonpos {q : ℚ} (hq : q ≤ 0) : round q ≤ 0 := by
  have hint := nearest_mono (div_nonpos_of_nonpos_of_nonneg hq (unit_pos q).le)
  rw [show nearest 0 = 0 from nearest_intCast 0] at hint
  exact mul_nonpos_of_nonpos_of_nonneg (by exact_mod_cast hint) (unit_pos q).le

theorem round_mono {q r : ℚ} (hq : 0 ≤ q) (h : q ≤ r) : round q ≤ round r := by
  rcases hq.lt_or_eq with hpos | rfl
  · have hr : 0 < r := hpos.trans_le h
    have habs : |q| ≤ |r| := by rwa [abs_of_pos hpos, abs_of_pos hr]
    rcases (Int.log_mono_right (b := 2) (abs_pos.mpr hpos.ne') habs).lt_or_eq with hlt | heq
    · calc round q ≤ 2 ^ (Int.log 2 |q| + 1) := round_le_of_pos hpos
        _ ≤ 2 ^ Int.log 2 |r| := zpow_le_zpow_right₀ (by norm_num) hlt
        _ ≤ round r := le_round_of_pos hr
    · have hunit : unit q = unit r := by rw [unit, unit, heq]
      have hint : nearest (q / unit r) ≤ nearest (r / unit r) :=
        nearest_mono ((div_le_div_iff_of_pos_right (unit_pos r)).mpr h)
      rw [round, round, hunit]
      apply mul_le_mul_of_nonneg_right _ (unit_pos r).le
      exact_mod_cast hint
  · rw [show round 0 = 0 by simp [round, show nearest 0 = 0 from nearest_intCast 0]]
    exact round_nonneg h

def parseExponent : Bytes → Option ℤ
  | [] => some 0
  | e :: s =>
    let digits := if s.head? = some 43 ∨ s.head? = some 45 then s.tail else s
    if (e = 101 ∨ e = 69) ∧ digits ≠ [] ∧ digits.all isDecimal then
      some (if s.head? = some 45 then -digitsValue digits else digitsValue digits)
    else none

def parseUnsigned (s : Bytes) : Option ℚ :=
  let whole := s.takeWhile isDecimal
  let rest := s.dropWhile isDecimal
  let point := rest.head? = some 46
  let fraction := if point then rest.tail.takeWhile isDecimal else []
  let rest := if point then rest.tail.dropWhile isDecimal else rest
  if whole = [] ∧ fraction = [] then none
  else
    (parseExponent rest).map fun e : ℤ =>
      (digitsValue (whole ++ fraction) : ℚ) * 10 ^ (e - (fraction.length : ℤ))

def parseFloat (s : Bytes) : Option ℚ :=
  if s.head? = some 45 then (parseUnsigned s.tail).map fun q => round (-q)
  else if s.head? = some 43 then (parseUnsigned s.tail).map round
  else (parseUnsigned s).map round

theorem parseUnsigned_decimal (n : ℕ) : parseUnsigned (decimal n) = some (n : ℚ) := by
  have hall := List.all_eq_true.mp (all_isDecimal_decimal n)
  have htake : (decimal n).takeWhile isDecimal = decimal n := List.takeWhile_eq_self_iff.mpr hall
  have hdrop : (decimal n).dropWhile isDecimal = [] := List.dropWhile_eq_nil_iff.mpr hall
  simp [parseUnsigned, htake, hdrop, decimal_ne_nil, parseExponent, digitsValue_decimal]

theorem parseFloat_itoa {n : ℤ} (hn : |n| < 2 ^ 53) : parseFloat (itoa n) = some (n : ℚ) := by
  cases n with
  | ofNat n =>
    have hsign : ∀ c : UInt8, isDecimal c = false → (decimal n).head? ≠ some c := by
      intro c hc h
      rw [List.all_eq_true.mp (all_isDecimal_decimal n) c (List.mem_of_head? h)] at hc
      cases hc
    rw [itoa, parseFloat, if_neg (hsign 45 rfl), if_neg (hsign 43 rfl), parseUnsigned_decimal,
      Option.map_some]
    exact congrArg some (round_intCast hn)
  | negSucc n =>
    have hcast : -((n + 1 : ℕ) : ℚ) = ((Int.negSucc n : ℤ) : ℚ) := (Int.cast_negSucc n).symm
    rw [itoa, parseFloat, if_pos List.head?_cons, List.tail_cons, parseUnsigned_decimal,
      Option.map_some, hcast, round_intCast hn]

end GoStream.Foundations.Float64
