import ElementBridge.Proofs.WholeNumbers
import Mathlib.Data.List.TakeWhile

namespace ElementBridge.Number

def IsDigit (base : Nat) (c : Char) (d : Nat) : Prop :=
  d < base ∧ (c = d.digitChar ∨ c = d.digitChar.toUpper)

instance (base : Nat) (c : Char) (d : Nat) : Decidable (IsDigit base c d) :=
  inferInstanceAs (Decidable (_ ∧ _))

/-- Digits with single separators between them, and the number that they write. -/
inductive Digits (base : Nat) : List Char → Nat → Prop
  | one {c : Char} {d : Nat} : IsDigit base c d → Digits base [c] d
  | snoc {cs : List Char} {n : Nat} {c : Char} {d : Nat} : Digits base cs n → IsDigit base c d →
      Digits base (cs ++ [c]) (n * base + d)
  | separated {cs : List Char} {n : Nat} {c : Char} {d : Nat} : Digits base cs n →
      IsDigit base c d → Digits base (cs ++ ['_', c]) (n * base + d)

/-- The integer literals of TypeScript, where a decimal one has no zero in front. -/
inductive IntegerLiteral : List Char → Nat → Prop
  | zero : IntegerLiteral ['0'] 0
  | decimal {c : Char} {cs : List Char} {n : Nat} : c ≠ '0' → Digits 10 (c :: cs) n →
      IntegerLiteral (c :: cs) n
  | hex {x : Char} {cs : List Char} {n : Nat} : x = 'x' ∨ x = 'X' → Digits 16 cs n →
      IntegerLiteral ('0' :: x :: cs) n
  | octal {x : Char} {cs : List Char} {n : Nat} : x = 'o' ∨ x = 'O' → Digits 8 cs n →
      IntegerLiteral ('0' :: x :: cs) n
  | binary {x : Char} {cs : List Char} {n : Nat} : x = 'b' ∨ x = 'B' → Digits 2 cs n →
      IntegerLiteral ('0' :: x :: cs) n

/-- An integer literal with at most a minus in front, as its sign and its magnitude. -/
inductive Numeral : String → Bool → Nat → Prop
  | plain {cs : List Char} {n : Nat} : IntegerLiteral cs n → Numeral (String.ofList cs) false n
  | negated {cs : List Char} {n : Nat} : IntegerLiteral cs n →
      Numeral ("-" ++ String.ofList cs) true n

variable {base n d : Nat} {c : Char} {cs : List Char}

theorem digitValue_digitChar : ∀ d < 16, digitValue d.digitChar = d ∧
    digitValue d.digitChar.toUpper = d ∧ d.digitChar ≠ '_' ∧ d.digitChar.toUpper ≠ '_' := by
  decide

theorem IsDigit.value (h : IsDigit base c d) (hbase : base ≤ 16) :
    digitValue c = d ∧ c ≠ '_' := by
  obtain ⟨hd, rfl | rfl⟩ := h
  · obtain ⟨hvalue, -, hplain, -⟩ := digitValue_digitChar d (by omega)
    exact ⟨hvalue, hplain⟩
  · obtain ⟨-, hvalue, -, hplain⟩ := digitValue_digitChar d (by omega)
    exact ⟨hvalue, hplain⟩

theorem IsDigit.plain (h : IsDigit 10 c d) : c ≠ '.' ∧ isExponentMark c = false := by
  have hall : ∀ d < 10, (d.digitChar ≠ '.' ∧ isExponentMark d.digitChar = false) ∧
      d.digitChar.toUpper ≠ '.' ∧ isExponentMark d.digitChar.toUpper = false := by
    decide
  obtain ⟨hd, rfl | rfl⟩ := h
  · exact (hall d hd).1
  · exact (hall d hd).2

namespace Digits

theorem exists_cons (h : Digits base cs n) : ∃ c d rest, cs = c :: rest ∧ IsDigit base c d := by
  induction h with
  | one hd => exact ⟨_, _, [], rfl, hd⟩
  | snoc _ _ ih =>
      obtain ⟨c, d, rest, rfl, hd⟩ := ih
      exact ⟨c, d, _, List.cons_append, hd⟩
  | separated _ _ ih =>
      obtain ⟨c, d, rest, rfl, hd⟩ := ih
      exact ⟨c, d, _, List.cons_append, hd⟩

theorem forall_mem (h : Digits base cs n) : ∀ c ∈ cs, c = '_' ∨ ∃ d, IsDigit base c d := by
  induction h with
  | one hd => exact List.forall_mem_singleton.2 (.inr ⟨_, hd⟩)
  | snoc _ hd ih =>
      intro c hc
      rcases List.mem_append.1 hc with hc | hc
      · exact ih c hc
      · exact .inr ⟨_, List.mem_singleton.1 hc ▸ hd⟩
  | separated _ hd ih =>
      intro c hc
      rcases List.mem_append.1 hc with hc | hc
      · exact ih c hc
      · rcases List.mem_cons.1 hc with rfl | hc
        · exact .inl rfl
        · exact .inr ⟨_, List.mem_singleton.1 hc ▸ hd⟩

theorem foldl_eq (keep : Nat → Nat) (h : Digits base cs n) (hbase : base ≤ 16)
    (hpos : 0 < base) (hkeep : ∀ m ≤ n, keep m = m) :
    (cs.filter (· != '_')).foldl (fun m c => keep (m * base + digitValue c)) 0 = n := by
  have step {m d : Nat} : m ≤ m * base + d :=
    Nat.le_trans (Nat.le_mul_of_pos_right m hpos) (Nat.le_add_right _ _)
  induction h with
  | @one c d hd =>
      obtain ⟨hvalue, hplain⟩ := hd.value hbase
      simp [hplain, hvalue, hkeep]
  | @snoc cs m c d _ hd ih =>
      obtain ⟨hvalue, hplain⟩ := hd.value hbase
      have hfront := ih fun k hk => hkeep k (Nat.le_trans hk step)
      simp [hfront, hplain, hvalue, hkeep]
  | @separated cs m c d _ hd ih =>
      obtain ⟨hvalue, hplain⟩ := hd.value hbase
      have hfront := ih fun k hk => hkeep k (Nat.le_trans hk step)
      simp [hfront, hplain, hvalue, hkeep]

end Digits

theorem roundBits_of_lt (h : n < twoTo 53) : roundBits n = n := by
  have hlog := log2_lt_53 h
  have hexcess : n.log2 - 52 = 0 := by omega
  have hround := Double.roundRatio_mul n Nat.one_pos
  rw [Nat.mul_one] at hround
  simp [roundBits, hexcess, twoTo, hround]

theorem radixValue_of_digits (h : Digits base cs n) (hbase : base ≤ 16) (hpos : 0 < base)
    (hn : n < twoTo 53) (bits : Nat) :
    radixValue base bits (cs.filter (· != '_')) = .whole false n := by
  have hplain := h.foldl_eq id hbase hpos fun _ _ => rfl
  have hrounded := h.foldl_eq roundBits hbase hpos fun m hm =>
    roundBits_of_lt (Nat.lt_of_le_of_lt hm hn)
  unfold radixValue
  split
  · exact (congrArg Double.ofNat hplain).trans (Double.ofNat_eq hn)
  · exact (congrArg Double.ofNat hrounded).trans (Double.ofNat_eq hn)

theorem decimalValue_zero (hn : n < twoTo 53) : decimalValue n 0 = .whole false n := by
  have hlog := log2_lt_53 hn
  by_cases hzero : n = 0
  · subst hzero
    rfl
  · have hratio := Double.ofRatio_mul false hn 0
    simp only [twoTo, Nat.pow_eq, Nat.pow_zero, Nat.mul_one] at hratio
    unfold decimalValue
    rw [if_neg (by simp [hzero]; omega), if_neg (by omega)]
    simpa [tenTo] using hratio

theorem decimalLiteral_of_digits (h : Digits 10 cs n) (hn : n < twoTo 53) :
    decimalLiteral (cs.filter (· != '_')) = .whole false n := by
  have hletters : ∀ c ∈ cs.filter (· != '_'), (!isExponentMark c) = true ∧ (c != '.') = true := by
    intro c hc
    obtain ⟨hmem, hplain⟩ := List.mem_filter.1 hc
    rcases h.forall_mem c hmem with rfl | ⟨d, hd⟩
    · cases hplain
    · obtain ⟨hpoint, hmark⟩ := hd.plain
      simp [hpoint, hmark]
  have hdigits : ofDigits 10 (cs.filter (· != '_')) = n :=
    h.foldl_eq id (by decide) (by decide) fun _ _ => rfl
  have hmantissa := List.takeWhile_eq_self_iff.2 fun c hc => (hletters c hc).1
  have hwhole := List.takeWhile_eq_self_iff.2 fun c hc => (hletters c hc).2
  have hnoExponent := List.dropWhile_eq_nil_iff.2 fun c hc => (hletters c hc).1
  have hnoFraction := List.dropWhile_eq_nil_iff.2 fun c hc => (hletters c hc).2
  simp only [decimalLiteral, hmantissa, hwhole, hnoExponent, hnoFraction, List.drop_nil,
    List.append_nil, hdigits]
  exact decimalValue_zero hn

theorem literalValue_decimal (hc : c ≠ '0') (h : Digits 10 (c :: cs) n) (hn : n < twoTo 53) :
    literalValue (String.ofList (c :: cs)) = .whole false n := by
  have hvalue := decimalLiteral_of_digits h hn
  have hplain : c ≠ '_' := by
    obtain ⟨_, d, _, heq, hd⟩ := h.exists_cons
    obtain ⟨rfl, -⟩ := List.cons.inj heq
    exact (hd.value (by decide)).2
  rw [literalValue, String.toList_ofList]
  split
  case h_8 => exact hvalue
  all_goals
    next heq =>
      rw [List.filter_cons_of_pos (by simpa using hplain)] at heq
      exact absurd (List.cons.inj heq).1 hc

theorem literalValue_of_integerLiteral (h : IntegerLiteral cs n) (hn : n < twoTo 53) :
    literalValue (String.ofList cs) = .whole false n := by
  cases h with
  | zero => decide
  | decimal hc h => exact literalValue_decimal hc h hn
  | hex hx h =>
      rw [← radixValue_of_digits h (by decide) (by decide) hn 4, literalValue,
        String.toList_ofList]
      rcases hx with rfl | rfl <;> rfl
  | octal hx h =>
      rw [← radixValue_of_digits h (by decide) (by decide) hn 3, literalValue,
        String.toList_ofList]
      rcases hx with rfl | rfl <;> rfl
  | binary hx h =>
      rw [← radixValue_of_digits h (by decide) (by decide) hn 1, literalValue,
        String.toList_ofList]
      rcases hx with rfl | rfl <;> rfl

theorem isDigit_digitChar (h : d < base) : IsDigit base d.digitChar d := ⟨h, .inl rfl⟩

theorem digits_digitsOf (n : Nat) : Digits 10 (digitsOf n) n := by
  induction n using Nat.strongRecOn with
  | ind n ih =>
      unfold digitsOf at ih ⊢
      by_cases hsmall : n < 10
      · rw [Nat.toDigits_of_lt_base hsmall]
        exact .one (isDigit_digitChar hsmall)
      · rw [Nat.toDigits_of_base_le (by decide) (Nat.le_of_not_lt hsmall)]
        have hlast := isDigit_digitChar (Nat.mod_lt n (show 0 < 10 by decide))
        have hfront := (ih (n / 10) (by omega)).snoc hlast
        rwa [Nat.mul_comm, Nat.div_add_mod] at hfront

theorem exists_digitsOf (hpos : 0 < n) : ∃ c cs, digitsOf n = c :: cs ∧ c ≠ '0' := by
  induction n using Nat.strongRecOn with
  | ind n ih =>
      unfold digitsOf at ih ⊢
      by_cases hsmall : n < 10
      · have hchar : ∀ n < 10, 0 < n → n.digitChar ≠ '0' := by decide
        exact ⟨_, [], Nat.toDigits_of_lt_base hsmall, hchar n hsmall hpos⟩
      · rw [Nat.toDigits_of_base_le (by decide) (Nat.le_of_not_lt hsmall)]
        obtain ⟨c, cs, hfront, hc⟩ := ih (n / 10) (by omega) (by omega)
        exact ⟨c, cs ++ [(n % 10).digitChar], by rw [hfront]; rfl, hc⟩

theorem integerLiteral_digitsOf (n : Nat) : IntegerLiteral (digitsOf n) n := by
  by_cases hpos : 0 < n
  · have hdigits := digits_digitsOf n
    obtain ⟨c, cs, htext, hc⟩ := exists_digitsOf hpos
    rw [htext] at hdigits ⊢
    exact .decimal hc hdigits
  · obtain rfl : n = 0 := by omega
    exact .zero

theorem numeral_toText {v : Int} (h : v.natAbs < tenTo 15) :
    Numeral (Double.ofInt v).toText (decide (v < 0)) v.natAbs := by
  rw [Double.ofInt, Double.toText_whole _ h, Double.signed_natAbs, withSign]
  by_cases hneg : v < 0
  · have := Numeral.negated (integerLiteral_digitsOf v.natAbs)
    simpa [hneg] using this
  · simpa [hneg] using Numeral.plain (integerLiteral_digitsOf v.natAbs)

end ElementBridge.Number
