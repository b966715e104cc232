/-
  BloomFilter/Optimal.lean --- the float formulas of `bloom_filter.py`:
  `create_optimal`, `calculate_optimal_size`, `calculate_optimal_hash_count`,
  `bits_per_element` and `estimate_false_positive_rate`.

  A Python float is modelled as the real number it approximates: `math.log` and
  `math.exp` are `Real.log` and `Real.exp`, `/` is real division, and `int(x)`
  truncates toward zero.  Rounding is not modelled, nor the `OverflowError` of
  an `int` too large for a float, nor `inf` and `nan`.  So only two kinds of
  result are stated over these definitions:

      createOptimal_one_seven_tenths  one value, `create_optimal(1, 0.7)`, whose
                                      float lies in `(0.62, 0.9)`, far from any
                                      integer `int()` could round it to
      run_estimate_mono               an order between two estimates, which the
                                      float code keeps: each of its steps is
                                      monotone, and so is rounding

  Thresholds, strict inequalities and bounds that rounding can cross are not
  stated: at such a boundary the float code and the reals disagree.

  `create_optimal` clamps its hash count to at least `1` but not its size: for
  admissible arguments whose size formula is below `1`, as at `(1, 0.7)`, the
  size truncates to `0` and the constructor it calls raises
  `ValueError("Size must be positive")`.
-/
import SystemDesign.BloomFilter.Refinement

set_option autoImplicit false

namespace SystemDesign.BloomFilter

open SystemDesign.Python

/-- `int(x)` on a float: truncation toward zero. -/
noncomputable def pyInt (x : ℝ) : ℤ := if 0 ≤ x then ⌊x⌋ else ⌈x⌉

/-- `math.log(x)`, which refuses a non-positive argument. -/
noncomputable def pyLog (x : ℝ) : Except PyError ℝ :=
  if x ≤ 0 then .error (.valueError "math domain error") else .ok (Real.log x)

/-- `BloomFilter.create_optimal(expected_elements, fp_rate)`.  The rate is
checked to be positive before `math.log(fp_rate)` is taken. -/
noncomputable def createOptimal (expectedElements : ℤ) (fpRate : ℝ) :
    Except PyError BloomFilter :=
  if expectedElements ≤ 0 then .error (.valueError "Expected elements must be positive")
  else if ¬(0 < fpRate ∧ fpRate < 1) then
    .error (.valueError "False positive rate must be between 0 and 1")
  else
    let size := pyInt (-expectedElements * Real.log fpRate / Real.log 2 ^ 2)
    let hashCount := pyInt (size / expectedElements * Real.log 2)
    let hashCount := max 1 hashCount
    init size hashCount

/-- `calculate_optimal_size(expected_elements, fp_rate)`. -/
noncomputable def calculateOptimalSize (expectedElements : ℤ) (fpRate : ℝ) :
    Except PyError ℤ :=
  (fun logP => pyInt (-expectedElements * logP / Real.log 2 ^ 2)) <$> pyLog fpRate

/-- `calculate_optimal_hash_count(size, expected_elements)`. -/
noncomputable def calculateOptimalHashCount (size expectedElements : ℤ) : Except PyError ℤ :=
  if expectedElements = 0 then .error .zeroDivisionError
  else .ok (max 1 (pyInt (size / expectedElements * Real.log 2)))

/-- `bits_per_element(fp_rate)`. -/
noncomputable def bitsPerElement (fpRate : ℝ) : Except PyError ℝ :=
  (fun logP => -logP / Real.log 2 ^ 2) <$> pyLog fpRate

/-- `estimate_false_positive_rate()`: `(1 - e^(-k n / m)) ^ k` with `n` the
call counter.  The exponent `-k * n` is an `int` divided by `m`; the power is a
float raised to the `int` `k`. -/
noncomputable def estimateFalsePositiveRate (self : BloomFilter) : Except PyError ℝ :=
  if self.itemsAdded = 0 then .ok 0
  else if self.size = 0 then .error .zeroDivisionError
  else
    let exponent : ℝ := ((-self.hashCount * self.itemsAdded : ℤ) : ℝ) / self.size
    let probabilityBitIsOne := 1 - Real.exp exponent
    .ok (probabilityBitIsOne ^ self.hashCount)

/-! ## `int()` and the size formula -/

theorem pyInt_of_nonneg {x : ℝ} (hx : 0 ≤ x) : pyInt x = ⌊x⌋ := if_pos hx

/-- The size formula on admissible arguments is a non-negative real. -/
theorem size_formula_nonneg {n : ℤ} {p : ℝ} (hn : 0 < n) (hp : 0 < p) (hp1 : p < 1) :
    0 ≤ -(n : ℝ) * Real.log p / Real.log 2 ^ 2 := by
  have hlog : Real.log p < 0 := Real.log_neg hp hp1
  have hn' : (0 : ℝ) < n := by exact_mod_cast hn
  exact div_nonneg (mul_nonneg_of_nonpos_of_nonpos (neg_nonpos.2 hn'.le) hlog.le) (sq_nonneg _)

/-- `create_optimal` raises on inadmissible arguments, naming the argument. -/
theorem createOptimal_of_inadmissible {n : ℤ} {p : ℝ} (h : n ≤ 0 ∨ ¬(0 < p ∧ p < 1)) :
    createOptimal n p = .error (.valueError "Expected elements must be positive") ∨
    createOptimal n p = .error (.valueError "False positive rate must be between 0 and 1") := by
  unfold createOptimal
  by_cases hn : n ≤ 0
  · exact .inl (if_pos hn)
  · rw [if_neg hn, if_pos (h.resolve_left hn)]
    exact .inr rfl

/-- `create_optimal(1, 0.7)`: both arguments are admissible, yet the size
`int(-ln 0.7 / (ln 2) ^ 2) = int(0.74...)` is `0`, and the constructor raises. -/
theorem createOptimal_one_seven_tenths :
    createOptimal 1 (7 / 10) = .error (.valueError "Size must be positive") := by
  have hlog : Real.log (7 / 10) < 0 := Real.log_neg (by norm_num) (by norm_num)
  have hlow : -(3 / 7 : ℝ) ≤ Real.log (7 / 10) := by
    have := Real.log_le_sub_one_of_pos (show (0 : ℝ) < 10 / 7 by norm_num)
    rw [show (10 / 7 : ℝ) = (7 / 10)⁻¹ by norm_num, Real.log_inv] at this
    linarith
  have h2 := Real.log_two_gt_d9
  have hsize : pyInt (-((1 : ℤ) : ℝ) * Real.log (7 / 10) / Real.log 2 ^ 2) = 0 := by
    rw [pyInt_of_nonneg (size_formula_nonneg one_pos (by norm_num) (by norm_num)),
      Int.floor_eq_zero_iff, Set.mem_Ico, div_lt_one (by positivity)]
    refine ⟨size_formula_nonneg one_pos (by norm_num) (by norm_num), ?_⟩
    nlinarith
  simp only [createOptimal, show ¬(1 : ℤ) ≤ 0 by decide, if_false,
    show (0 : ℝ) < 7 / 10 ∧ (7 / 10 : ℝ) < 1 by norm_num, not_true_eq_false, hsize]
  rfl

/-! ## The estimated false positive rate -/

/-- With a positive size and hash count the estimate is `(1 - e^(-k n / m)) ^ k`,
also at `n = 0`. -/
theorem estimateFalsePositiveRate_eq {s : BloomFilter} (hm : 0 < s.size) (hk : 0 < s.hashCount) :
    estimateFalsePositiveRate s =
      .ok ((1 - Real.exp (((-s.hashCount * s.itemsAdded : ℤ) : ℝ) / s.size)) ^
        s.hashCount) := by
  unfold estimateFalsePositiveRate
  split_ifs with hn hs
  · simp [hn, zero_zpow _ hk.ne']
  · omega
  · rfl

/-- The estimate's formula grows with the number of items added. -/
theorem estimate_le_of_le {k m : ℤ} {n n' : ℕ} (hm : 0 < m) (hk : 0 < k) (hn : n ≤ n') :
    (1 - Real.exp (((-k * n : ℤ) : ℝ) / m)) ^ k ≤
      (1 - Real.exp (((-k * n' : ℤ) : ℝ) / m)) ^ k := by
  have hm' : (0 : ℝ) < m := by exact_mod_cast hm
  have hcast : (n : ℤ) ≤ n' := by exact_mod_cast hn
  have hx : ((-k * n : ℤ) : ℝ) / m ≤ 0 :=
    div_nonpos_of_nonpos_of_nonneg (Int.cast_nonpos.2
      (mul_nonpos_of_nonpos_of_nonneg (neg_nonpos.2 hk.le) (Nat.cast_nonneg n))) hm'.le
  have hxx : ((-k * n' : ℤ) : ℝ) / m ≤ ((-k * n : ℤ) : ℝ) / m :=
    div_le_div_of_nonneg_right (Int.cast_le.2
      (mul_le_mul_of_nonpos_left hcast (neg_nonpos.2 hk.le))) hm'.le
  obtain ⟨j, rfl⟩ := Int.eq_ofNat_of_zero_le hk.le
  simp only [zpow_natCast]
  exact pow_le_pow_left₀ (by linarith [Real.exp_le_one_iff.2 hx])
    (by linarith [Real.exp_le_exp.2 hxx]) j

variable {α : Type} (H : Hashing α) {size hashCount : Int} {s₀ : BloomFilter}

/-- Along a run from the constructor the estimate never decreases. -/
theorem run_estimate_mono (h₀ : init size hashCount = .ok s₀) (calls more : List (Call α)) :
    ∃ r r', estimateFalsePositiveRate (run H s₀ calls) = .ok r ∧
      estimateFalsePositiveRate (run H s₀ (calls ++ more)) = .ok r' ∧ r ≤ r' := by
  obtain ⟨hm, hk, -⟩ := init_eq_ok_iff.1 h₀
  have hrun : ∀ cs, (run H s₀ cs).size = size ∧ (run H s₀ cs).hashCount = hashCount ∧
      (run H s₀ cs).itemsAdded = (addedKeys H cs).length := fun cs => by
    obtain ⟨L, hL, hkeys, hs, hk⟩ := run_abstracts_init H h₀ cs
    exact ⟨hL.size_eq.trans hs, hL.hashCount_eq.trans hk,
      hL.itemsAdded_eq.trans (by rw [hkeys])⟩
  obtain ⟨hs, hk₁, hn⟩ := hrun calls
  obtain ⟨hs', hk₁', hn'⟩ := hrun (calls ++ more)
  refine ⟨_, _, estimateFalsePositiveRate_eq (hs ▸ hm) (hk₁ ▸ hk),
    estimateFalsePositiveRate_eq (hs' ▸ hm) (hk₁' ▸ hk), ?_⟩
  rw [hs, hk₁, hs', hk₁']
  refine estimate_le_of_le hm hk ?_
  rw [hn, hn', addedKeys, addedKeys, List.filterMap_append, List.length_append]
  omega

/-- The estimate along `add(1)`, then `add(True)`, on `BloomFilter(10, 3)`. -/
theorem run_estimate_mono_add_one :
    init 10 3 = .ok ⟨10, 3, List.replicate 10 false, 0⟩ ∧
    ∃ r r', estimateFalsePositiveRate
        (run pyHashing ⟨10, 3, List.replicate 10 false, 0⟩ [.add (.int 1)]) = .ok r ∧
      estimateFalsePositiveRate (run pyHashing ⟨10, 3, List.replicate 10 false, 0⟩
        ([.add (.int 1)] ++ [.add (.bool true)])) = .ok r' ∧ r ≤ r' :=
  ⟨rfl, run_estimate_mono pyHashing
    (show init 10 3 = .ok ⟨10, 3, List.replicate 10 false, 0⟩ from rfl) [.add (.int 1)]
    [.add (.bool true)]⟩

end SystemDesign.BloomFilter
