import LoadBench.Proofs.JsonReading

/-!
Numbers in a report are numbers of JSON. For a whole number that is so since its numeral begins with
no zero unless it is zero. For a floating-point number the text is made of the shortest decimal,
and the one thing that could go wrong is a zero with a positive exponent, which would be written as
several zeros. No digits are looked for that far to the left: the first digit of a number of one or
more is known from its whole part, and nothing in the interval around a positive number is zero.
-/

namespace LoadBench

namespace Decimal

/-- No exponent lifts digits that are zero. -/
def Scientific.Proper (s : Scientific) : Prop := s.digits ≠ 0 ∨ s.exponent ≤ 0

theorem Scientific.Proper.normalize {s : Scientific} (h : s.Proper) : s.normalize.Proper := by
  fun_induction Scientific.normalize s with
  | case1 s hzero ih =>
      apply ih
      exact .inl (by dsimp only; omega)
  | case2 => exact h

/-- An interval that lies above zero. -/
structure Interval.Positive (i : Interval) : Prop where
  low : 0 < i.low
  denominator : 0 < i.denominator

theorem positive_interval {m : Nat} (hm : m ≠ 0) (q : Int) (powerOfTwo : Bool) :
    (interval m q powerOfTwo).Positive := by
  constructor
  · apply Nat.mul_pos
    · split <;> omega
    · exact Nat.pow_pos Nat.two_pos
  · exact Nat.pow_pos Nat.two_pos

namespace Interval

variable {i : Interval}

theorem Positive.inUnits (h : i.Positive) (e : Int) : (i.inUnits e).Positive where
  low := Nat.mul_pos h.low (Nat.pow_pos (by decide))
  denominator := Nat.mul_pos h.denominator (Nat.pow_pos (by decide))

theorem contains_of_nearest {d : Nat} (hd : i.nearest? = some d) : i.contains d = true := by
  have hfirst (first second : Nat)
      (h : (if i.contains first then some first
        else if i.contains second then some second else none) = some d) :
      i.contains d = true := by
    split at h
    · next hc =>
        cases h
        exact hc
    · split at h
      · next hc =>
          cases h
          exact hc
      · cases h
  exact hfirst _ _ hd

theorem Positive.nearest (h : i.Positive) {d : Nat} (hd : i.nearest? = some d) : d ≠ 0 := by
  have hcontains := contains_of_nearest hd
  have hlow := h.low
  rintro rfl
  simp only [contains, Nat.zero_mul] at hcontains
  split at hcontains <;> rw [decide_eq_true_eq] at hcontains <;> omega

/-- Left of its first digit a number has none, and its first digit is not looked for there. -/
theorem first_digit {e : Int} (he : 0 < e) (hle : e ≤ i.order) :
    (i.inUnits e).value / (i.inUnits e).denominator ≠ 0 := by
  obtain ⟨k, rfl⟩ : ∃ k : Nat, e = k := ⟨e.toNat, by omega⟩
  have hwhole : 10 ^ k ≤ i.value / i.denominator := by
    simp only [order, Int.ofNat_eq_natCast] at hle
    split at hle
    · have hlength : ¬ (Nat.toDigits 10 (i.value / i.denominator)).length ≤ k := by
        rw [digitCount] at hle
        omega
      rw [Nat.length_toDigits_le_iff (by decide) (by omega)] at hlength
      exact Nat.le_of_not_lt hlength
    · omega
  have hvalue : (i.inUnits k).value = i.value := by
    change i.value * Nat.pow 10 (-(k : Int)).toNat = i.value
    rw [show (-(k : Int)).toNat = 0 by omega]
    exact Nat.mul_one i.value
  have hdenominator : (i.inUnits k).denominator = i.denominator * 10 ^ k := rfl
  rw [hvalue, hdenominator, ← Nat.div_div_eq_div_mul]
  exact Nat.pos_iff_ne_zero.mp (Nat.div_pos hwhole (Nat.pow_pos (by decide)))

theorem Positive.shortestFrom (h : i.Positive) (fuel : Nat) {count : Nat} (hcount : 0 < count) :
    (i.shortestFrom i.order fuel count).Proper := by
  induction fuel generalizing count with
  | zero =>
      by_cases he : 0 < i.order - Int.ofNat count + 1
      · exact .inl (first_digit he (by simp only [Int.ofNat_eq_natCast]; omega))
      · exact .inr (Int.not_lt.mp he)
  | succ fuel ih =>
      simp only [Interval.shortestFrom]
      split
      · next hd => exact .inl ((h.inUnits _).nearest hd)
      · exact ih (Nat.succ_pos count)

end Interval

theorem proper_ofFloat (x : Float) : (ofFloat x).Proper := by
  simp only [ofFloat]
  split
  · exact .inr (Int.le_refl 0)
  · next hm => exact ((positive_interval hm _ _).shortestFrom 17 Nat.one_pos).normalize

end Decimal

namespace Json

/-! ## Numerals -/

theorem isDigits_toDigits (n : Nat) : isDigits (Nat.toDigits 10 n) = true :=
  isDigits_iff.mpr ⟨Nat.toDigits_ne_nil, fun _ hc =>
    Nat.isDigit_of_mem_toDigits (by decide) (by decide) hc⟩

/-- A numeral begins with a zero only if it is zero. -/
theorem head_toDigits {n : Nat} (hn : n ≠ 0) : (Nat.toDigits 10 n).head? ≠ some '0' := by
  induction n using Nat.strongRecOn with
  | ind n ih =>
      by_cases hlt : n < 10
      · have hdigit : Nat.digitChar n ≠ '0' := by
          have hall : ∀ d : Fin 10, d.val ≠ 0 → Nat.digitChar d ≠ '0' := by decide
          exact hall ⟨n, hlt⟩ hn
        rw [Nat.toDigits_of_lt_base hlt, List.head?_cons]
        exact fun h => hdigit (Option.some.inj h)
      · rw [Nat.toDigits_of_base_le (by decide) (by omega),
          List.head?_append_of_ne_nil _ Nat.toDigits_ne_nil]
        exact ih (n / 10) (by omega) (by omega)

theorem isWhole_of_head {cs : List Char} (hd : isDigits cs = true) (hh : cs.head? ≠ some '0') :
    isWhole cs = true := by
  simp [isWhole, hd, hh]

theorem isWhole_toDigits (n : Nat) : isWhole (Nat.toDigits 10 n) = true := by
  by_cases hn : n = 0
  · subst hn
    decide
  · exact isWhole_of_head (isDigits_toDigits n) (head_toDigits hn)

theorem isDigits_append {cs ds : List Char} (hc : isDigits cs = true)
    (hd : ∀ d ∈ ds, d.isDigit = true) : isDigits (cs ++ ds) = true := by
  rw [isDigits_iff] at hc ⊢
  refine ⟨fun h => hc.1 (List.append_eq_nil_iff.mp h).1, fun c h => ?_⟩
  rcases List.mem_append.mp h with h | h
  · exact hc.2 c h
  · exact hd c h

theorem isDigits_toString (n : Nat) : isDigits (toString n).toList = true := by
  rw [Nat.toString_eq_ofList_toDigits, String.toList_ofList]
  exact isDigits_toDigits n

theorem isDigit_of_mem_toString {n : Nat} {c : Char} (h : c ∈ (toString n).toList) :
    c.isDigit = true :=
  (isDigits_iff.mp (isDigits_toString n)).2 c h

theorem isWhole_toString (n : Nat) : isWhole (toString n).toList = true := by
  rw [Nat.toString_eq_ofList_toDigits, String.toList_ofList]
  exact isWhole_toDigits n

theorem ofDigitChars_toString (n : Nat) : Nat.ofDigitChars 10 (toString n).toList 0 = n := by
  rw [Nat.toString_eq_ofList_toDigits, String.toList_ofList, Nat.ofDigitChars_ten_toDigits]

/-- Digits end where something else begins. -/
theorem span_digits {digits rest : List Char} (hd : ∀ c ∈ digits, c.isDigit = true)
    (hr : ∀ c, rest.head? = some c → c.isDigit = false) :
    (digits ++ rest).takeWhile Char.isDigit = digits ∧
      (digits ++ rest).dropWhile Char.isDigit = rest := by
  rw [List.takeWhile_append_of_pos hd, List.dropWhile_append_of_pos hd]
  cases rest with
  | nil => exact ⟨List.append_nil digits, rfl⟩
  | cons c rest => simp [hr c rfl]

/-! ## Numbers put together -/

/-- Neither a fraction nor an exponent goes on the digits before it. -/
theorem isFraction_of_isExponent {cs : List Char} (h : isExponent cs = true) :
    isFraction cs = true := by
  cases cs with
  | nil => rfl
  | cons c rest =>
      have hc : c ≠ '.' := by
        rintro rfl
        cases h
      simp [isFraction, hc, h]

theorem head_of_isFraction {cs : List Char} (h : isFraction cs = true) :
    ∀ c, cs.head? = some c → c.isDigit = false := by
  intro c hhead
  obtain ⟨rest, rfl⟩ := List.head?_eq_some_iff.mp hhead
  by_cases hc : c = '.'
  · rw [hc]
    rfl
  · simp only [isFraction, hc, if_false, isExponent, Bool.and_eq_true, Bool.or_eq_true,
      beq_iff_eq] at h
    rcases h.1 with rfl | rfl <;> rfl

theorem isNumber_append {ds tail : List Char} (hd : isWhole ds = true)
    (ht : isFraction tail = true) : isNumber (ds ++ tail) = true := by
  have hdigits := isDigits_iff.mp (Bool.and_eq_true_iff.mp hd).1
  obtain ⟨htake, hdrop⟩ := span_digits hdigits.2 (head_of_isFraction ht)
  have hsign : behindSign ['-'] (ds ++ tail) = ds ++ tail := by
    cases ds with
    | nil => exact absurd rfl hdigits.1
    | cons d ds =>
        have hne : d ≠ '-' := by
          rintro rfl
          exact absurd (hdigits.2 _ List.mem_cons_self) (by decide)
        simp [behindSign, hne]
  simp only [isNumber, hsign, htake, hdrop, hd, ht, Bool.and_self]

theorem isFraction_point {ds tail : List Char} (hd : isDigits ds = true)
    (ht : isExponent tail = true) : isFraction ('.' :: (ds ++ tail)) = true := by
  have hend := head_of_isFraction (isFraction_of_isExponent ht)
  obtain ⟨htake, hdrop⟩ := span_digits (isDigits_iff.mp hd).2 hend
  simp only [isFraction, if_true, htake, hdrop, hd, ht, Bool.and_self]

theorem isExponent_sign {sign : Char} (hs : sign = '+' ∨ sign = '-') {ds : List Char}
    (hd : isDigits ds = true) : isExponent ('e' :: sign :: ds) = true := by
  rcases hs with rfl | rfl <;> exact hd

theorem isNumber_toString (n : Nat) : isNumber (toString n).toList = true := by
  rw [Nat.toString_eq_ofList_toDigits, String.toList_ofList, ← List.append_nil (Nat.toDigits 10 n)]
  exact isNumber_append (isWhole_toDigits n) rfl

theorem isDigits_zeros_append (n : Nat) {ds : List Char} (hd : isDigits ds = true) :
    isDigits (List.replicate n '0' ++ ds) = true := by
  rw [isDigits_iff] at hd ⊢
  refine ⟨fun h => hd.1 (List.append_eq_nil_iff.mp h).2, fun c h => ?_⟩
  rcases List.mem_append.mp h with h | h
  · rw [List.eq_of_mem_replicate h]
    rfl
  · exact hd.2 c h

/-- Digits with zeros behind them, which there are none of behind a zero. -/
theorem isWhole_zeros {s : Decimal.Scientific} (h : s.Proper) (he : 0 ≤ s.exponent) :
    isWhole (Nat.toDigits 10 s.digits ++ List.replicate s.exponent.toNat '0') = true := by
  by_cases hn : s.digits = 0
  · have hnone : s.exponent.toNat = 0 := by
      rcases h with h | h <;> omega
    rw [hnone, List.replicate_zero, List.append_nil]
    exact isWhole_toDigits s.digits
  · apply isWhole_of_head
    · apply isDigits_append (isDigits_toDigits s.digits)
      intro d hd
      rw [List.eq_of_mem_replicate hd]
      rfl
    · rw [List.head?_append_of_ne_nil _ Nat.toDigits_ne_nil]
      exact head_toDigits hn

/-- Digits that are cut by the point are not those of zero, and there are some on both sides. -/
theorem cut_digits (n whole : Nat) (hw : 0 < whole) (hlt : whole < (Nat.toDigits 10 n).length) :
    isWhole ((Nat.toDigits 10 n).take whole) = true ∧
      isDigits ((Nat.toDigits 10 n).drop whole) = true := by
  have hdigits := (isDigits_iff.mp (isDigits_toDigits n)).2
  have hn : n ≠ 0 := by
    rintro rfl
    rw [Nat.toDigits_zero, List.length_singleton] at hlt
    omega
  constructor
  · apply isWhole_of_head
    · rw [isDigits_iff]
      refine ⟨?_, fun c hc => hdigits c (List.mem_of_mem_take hc)⟩
      rw [Ne, List.take_eq_nil_iff]
      have hne : Nat.toDigits 10 n ≠ [] := Nat.toDigits_ne_nil
      rintro (h | h)
      · omega
      · exact hne h
    · rw [List.head?_take, if_neg (by omega)]
      exact head_toDigits hn
  · rw [isDigits_iff]
    refine ⟨?_, fun c hc => hdigits c (List.mem_of_mem_drop hc)⟩
    rw [Ne, List.drop_eq_nil_iff]
    omega

/-- The first digit, with the others behind a point if there are any, in front of an exponent. -/
theorem isNumber_mantissa (ds : List Char) {tail : List Char} (ht : isExponent tail = true) :
    isDigits ds = true → isNumber ((match ds with
      | [] => []
      | [d] => [d]
      | d :: rest => d :: '.' :: rest) ++ tail) = true := by
  intro hd
  rw [isDigits_iff] at hd
  have hone {d : Char} (hc : d.isDigit = true) : isWhole [d] = true := by
    by_cases hzero : d = '0'
    · rw [hzero]
      decide
    · exact isWhole_of_head (by simp [isDigits, hc]) (by simpa using hzero)
  rcases ds with _ | ⟨d, _ | ⟨d', rest⟩⟩
  · exact absurd rfl hd.1
  · exact isNumber_append (hone (hd.2 d List.mem_cons_self)) (isFraction_of_isExponent ht)
  · have hrest : isDigits (d' :: rest) = true :=
      isDigits_iff.mpr ⟨List.cons_ne_nil d' rest, fun c hc => hd.2 c (List.mem_cons_of_mem d hc)⟩
    have hnumber := isNumber_append (hone (hd.2 d List.mem_cons_self)) (isFraction_point hrest ht)
    exact hnumber

/-- A decimal without superfluous zeros is written as a number. -/
theorem isNumber_write (style : Report.NumberStyle) {s : Decimal.Scientific} (h : s.Proper) :
    isNumber (style.write s).toList = true := by
  have hdigits := isDigits_toDigits s.digits
  have hpos : 0 < (Nat.toDigits 10 s.digits).length :=
    List.length_pos_iff.mpr (isDigits_iff.mp hdigits).1
  simp only [Report.NumberStyle.write]
  split
  · split
    · next he =>
        rw [String.toList_append, String.toList_ofList]
        exact isNumber_append (isWhole_zeros h he) (by decide)
    · split
      · next he horder =>
          obtain ⟨hwhole, hrest⟩ := cut_digits s.digits
            ((s.exponent + (Nat.toDigits 10 s.digits).length - 1).toNat + 1)
            (Nat.succ_pos _) (by omega)
          rw [String.toList_ofList, ← List.append_nil (List.drop _ _)]
          exact isNumber_append hwhole (isFraction_point hrest rfl)
      · next he horder =>
          have hrest := isFraction_point (isDigits_zeros_append
            (-(s.exponent + (Nat.toDigits 10 s.digits).length - 1) - 1).toNat hdigits)
            (show isExponent [] = true from rfl)
          have hnumber := isNumber_append (isWhole_toDigits 0) hrest
          rw [List.append_nil] at hnumber
          rw [String.toList_append, String.toList_ofList, String.toList_ofList]
          exact hnumber
  · have hsign {sign : Char} (hs : sign = '+' ∨ sign = '-') :=
      isNumber_mantissa (Nat.toDigits 10 s.digits) (isExponent_sign hs (isDigits_toString
        (s.exponent + (Nat.toDigits 10 s.digits).length - 1).natAbs)) hdigits
    rw [String.toList_append, String.toList_append, String.toList_append, String.toList_ofList,
      List.append_assoc, List.append_assoc]
    by_cases horder : 0 ≤ s.exponent + (Nat.toDigits 10 s.digits).length - 1
    · rw [if_pos horder]
      exact hsign (.inl rfl)
    · rw [if_neg horder]
      exact hsign (.inr rfl)

theorem isNumber_number (x : Float) : isNumber (Report.number x).toList = true :=
  isNumber_write Report.numberStyle (Decimal.proper_ofFloat x)

/-- What would be written of a zero with a positive exponent is no number. -/
example : isNumber (Report.numberStyle.write ⟨0, 1⟩).toList = false := by decide +kernel

end Json

end LoadBench
