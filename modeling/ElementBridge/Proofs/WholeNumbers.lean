import ElementBridge.Number.Literal
import ElementBridge.Number.Positional

namespace ElementBridge.Number

theorem twoTo_pos (n : Nat) : 0 < twoTo n := Nat.two_pow_pos n

theorem twoTo_add (m n : Nat) : twoTo (m + n) = twoTo m * twoTo n := Nat.pow_add 2 m n

theorem log2_bounds {n : Nat} (h : n ≠ 0) : twoTo n.log2 ≤ n ∧ n < twoTo (n.log2 + 1) :=
  ⟨Nat.log2_self_le h, Nat.lt_log2_self⟩

theorem log2_lt_53 {n : Nat} (h : n < twoTo 53) : n.log2 < 53 := by
  by_cases hzero : n = 0
  · subst hzero
    decide
  · exact (Nat.log2_lt hzero).2 h

theorem log2_mul_twoTo {n : Nat} (h : n ≠ 0) (j : Nat) : (n * twoTo j).log2 = n.log2 + j := by
  obtain ⟨hlow, hhigh⟩ := log2_bounds h
  have hne : n * twoTo j ≠ 0 := Nat.mul_ne_zero h (Nat.ne_of_gt (twoTo_pos j))
  refine (Nat.log2_eq_iff hne).2 ⟨?_, ?_⟩
  · change twoTo (n.log2 + j) ≤ _
    rw [twoTo_add]
    exact Nat.mul_le_mul_right _ hlow
  · change _ < twoTo (n.log2 + j + 1)
    rw [Nat.add_right_comm, twoTo_add]
    exact Nat.mul_lt_mul_of_pos_right hhigh (twoTo_pos j)

namespace Double

theorem natAbs_signed (s : Bool) (n : Nat) : (signed s n).natAbs = n := by
  cases s <;> simp [signed]

theorem signed_natAbs (v : Int) : signed (decide (v < 0)) v.natAbs = v := by
  by_cases h : v < 0
  · simp only [h, signed, decide_true, if_true]
    omega
  · simp only [h, signed, decide_false, Bool.false_eq_true, if_false]
    omega

def whole (s : Bool) (n : Nat) : Double :=
  if n = 0 then .finite s 0 (-1074)
  else .finite s (n * twoTo (52 - n.log2)) ((n.log2 : Int) - 52)

def ofInt (v : Int) : Double := whole (decide (v < 0)) v.natAbs

def negative : Double → Bool
  | .finite s _ _ | .infinite s => s

variable {s : Bool} {n : Nat}

theorem negative_whole (s : Bool) (n : Nat) : (whole s n).negative = s := by
  unfold whole
  split <;> rfl

theorem exists_whole (s : Bool) (h : n < twoTo 53) :
    ∃ e : Nat, whole s n = .finite s (n * twoTo e) (-(e : Int)) := by
  unfold whole
  split
  · next hzero => exact ⟨1074, by rw [hzero, Nat.zero_mul]; rfl⟩
  · have hlog := log2_lt_53 h
    refine ⟨52 - n.log2, ?_⟩
    congr
    omega

theorem scaleRatio_neg (a b e : Nat) : scaleRatio a b (-(e : Int)) = (a * twoTo e, b) := by
  cases e with
  | zero => simp [scaleRatio, twoTo]
  | succ e => rfl

theorem roundRatio_mul {d : Nat} (n : Nat) (h : 0 < d) : roundRatio (n * d) d = n := by
  simp [roundRatio, Nat.mul_div_cancel n h, h]

theorem exponentOf_mul (hpos : n ≠ 0) (h : n < twoTo 53) (j : Nat) :
    exponentOf (n * twoTo j) (twoTo j) = -((52 - n.log2 : Nat) : Int) := by
  have hlog := log2_lt_53 h
  obtain ⟨hlow, -⟩ := log2_bounds hpos
  have hguess : ((n * twoTo j).log2 : Int) - (twoTo j).log2 - 52 = -((52 - n.log2 : Nat) : Int) := by
    have hpower : (twoTo j).log2 = j := Nat.log2_two_pow
    rw [log2_mul_twoTo hpos, hpower]
    omega
  have hquotient : n * twoTo j * twoTo (52 - n.log2) / twoTo j = n * twoTo (52 - n.log2) := by
    rw [Nat.mul_right_comm, Nat.mul_div_cancel _ (twoTo_pos j)]
  have hwide : twoTo 52 ≤ n * twoTo (52 - n.log2) := by
    calc twoTo 52 = twoTo (n.log2 + (52 - n.log2)) := by congr 1; omega
      _ = twoTo n.log2 * twoTo (52 - n.log2) := twoTo_add _ _
      _ ≤ n * twoTo (52 - n.log2) := Nat.mul_le_mul_right _ hlow
  simp only [exponentOf, hguess, scaleRatio_neg, hquotient, if_neg (Nat.not_lt.2 hwide)]
  omega

theorem ofRatio_mul (s : Bool) (h : n < twoTo 53) (j : Nat) :
    ofRatio s (n * twoTo j) (twoTo j) = whole s n := by
  by_cases hzero : n = 0
  · simp [hzero, ofRatio, whole]
  have hne : n * twoTo j ≠ 0 := Nat.mul_ne_zero hzero (Nat.ne_of_gt (twoTo_pos j))
  have hlog := log2_lt_53 h
  have hnarrow : n * twoTo (52 - n.log2) ≠ twoTo 53 := by
    obtain ⟨-, hhigh⟩ := log2_bounds hzero
    refine Nat.ne_of_lt ?_
    calc n * twoTo (52 - n.log2) < twoTo (n.log2 + 1) * twoTo (52 - n.log2) :=
          Nat.mul_lt_mul_of_pos_right hhigh (twoTo_pos _)
      _ = twoTo 53 := by rw [← twoTo_add]; congr 1; omega
  have hscaled : n * twoTo j * twoTo (52 - n.log2) = n * twoTo (52 - n.log2) * twoTo j :=
    Nat.mul_right_comm _ _ _
  simp only [ofRatio, if_neg hne, exponentOf_mul hzero h, scaleRatio_neg, hscaled,
    roundRatio_mul _ (twoTo_pos j), pack, if_neg hnarrow, whole, if_neg hzero]
  rw [if_neg (by omega)]
  congr 1
  omega

theorem ofNat_eq (h : n < twoTo 53) : ofNat n = whole false n := by
  simpa [ofNat, twoTo] using ofRatio_mul false h 0

theorem toInt?_whole (s : Bool) (h : n < twoTo 53) : (whole s n).toInt? = some (signed s n) := by
  obtain ⟨e, he⟩ := exists_whole s h
  rw [he]
  cases e with
  | zero => simp [toInt?, twoTo]
  | succ e =>
      change (if n * twoTo (e + 1) % twoTo (e + 1) = 0 then _ else none) = _
      rw [if_pos (Nat.mul_mod_left _ _), Nat.mul_div_cancel _ (twoTo_pos _)]

theorem ofSignedRatio_mul {v : Int} (h : v.natAbs < twoTo 53) (j : Nat) :
    ofSignedRatio (v * twoTo j) (twoTo j) = ofInt v := by
  have hpos : (0 : Int) < twoTo j := Int.natCast_pos.2 (twoTo_pos j)
  have hsign : v * twoTo j < 0 ↔ v < 0 := by
    simpa only [Int.not_le] using not_congr (Int.mul_nonneg_iff_of_pos_right hpos )
  rw [ofSignedRatio, Int.natAbs_mul, Int.natAbs_natCast, ofRatio_mul _ h, ofInt]
  congr 1
  exact decide_eq_decide.2 hsign

theorem signed_mul (s : Bool) (m n : Nat) : signed s (m * n) = signed s m * n := by
  cases s with
  | false => exact Int.natCast_mul m n
  | true => rw [signed, signed, if_pos rfl, if_pos rfl, Int.natCast_mul, Int.neg_mul]

theorem addOne_whole (s : Bool) (h : n + 1 < twoTo 53) :
    (whole s n).addOne = ofInt (signed s n + 1) := by
  obtain ⟨e, he⟩ := exists_whole s (Nat.lt_of_succ_lt h)
  have hsum : (signed s n + 1).natAbs < twoTo 53 := by
    have := natAbs_signed s n
    omega
  rw [he, ← ofSignedRatio_mul hsum e]
  cases e with
  | zero => simp [addOne, twoTo]
  | succ e =>
      change ofSignedRatio (signed s (n * twoTo (e + 1)) + (twoTo (e + 1) : Nat)) _ = _
      rw [signed_mul, Int.add_mul, Int.one_mul]

theorem neg_whole (s : Bool) (n : Nat) : (whole s n).neg = whole (!s) n := by
  unfold whole
  split <;> rfl

theorem tenTo_15_lt : tenTo 15 < twoTo 53 := by decide

theorem toText_whole (s : Bool) (h : n < tenTo 15) :
    (whole s n).toText = withSign (decide (signed s n < 0)) (digitsOf n) := by
  have hinside := Nat.lt_trans h tenTo_15_lt
  obtain ⟨e, he⟩ := exists_whole s hinside
  have hvalue := toInt?_whole s hinside
  rw [he] at hvalue ⊢
  simp only [toText, hvalue, natAbs_signed, if_pos h]

end Double

end ElementBridge.Number
