import Mathlib.Tactic.FieldSimp
import Mathlib.Tactic.Ring
import Mathlib.Data.Rat.Cast.Defs
import LoadBench.Proofs.NumberTexts
import LoadBench.Report.Transcript

/-!
The text of a span is exact. The decimals of a span are as many digits as its unit has places, and
the zeros that are left out at the end add nothing to their value. So the number in front of the
unit is the whole number of units and the rest of the span over the size of the unit, and the number
times the unit is the span.
-/

namespace LoadBench

namespace Span

/-! ## Digits of a fixed width -/

theorem length_fixedDigits (width n : Nat) : (fixedDigits width n).length = width := by
  induction width generalizing n with
  | zero => rfl
  | succ width ih => rw [fixedDigits, List.length_append, ih, List.length_singleton]

theorem isDigit_of_mem_fixedDigits (width n : Nat) :
    ∀ c ∈ fixedDigits width n, c.isDigit = true := by
  induction width generalizing n with
  | zero => exact fun c hc => absurd hc List.not_mem_nil
  | succ width ih =>
      intro c hc
      rw [fixedDigits, List.mem_append, List.mem_singleton] at hc
      rcases hc with hc | rfl
      · exact ih (n / 10) c hc
      · rw [Nat.isDigit_digitChar, decide_eq_true_eq]
        exact Nat.mod_lt n (by decide)

theorem numeral_fixedDigits (width n : Nat) :
    Report.numeral (fixedDigits width n) = n % 10 ^ width := by
  induction width generalizing n with
  | zero => rw [Nat.pow_zero, Nat.mod_one]; rfl
  | succ width ih =>
      have hdigit : (Nat.digitChar (n % 10)).toNat - '0'.toNat = n % 10 :=
        Nat.toNat_digitChar_sub_48_of_lt_ten (Nat.mod_lt n (by decide))
      have hwidth : Nat.ofDigitChars 10 (fixedDigits width (n / 10)) 0 = n / 10 % 10 ^ width :=
        ih (n / 10)
      rw [Report.numeral, fixedDigits, Nat.ofDigitChars_append, hwidth, Nat.ofDigitChars_cons,
        Nat.ofDigitChars_nil, hdigit, Nat.pow_succ, Nat.mul_comm (10 ^ width), Nat.mod_mul,
        Nat.add_comm]

/-! ## Decimals -/

/-- What is left out of the decimals is zeros at the end. -/
theorem decimals_cases (digits : List Char) : ∃ kept zeros,
    digits = kept ++ List.replicate zeros '0' ∧
      decimals digits = if kept = [] then [] else '.' :: kept := by
  have hsplit := List.takeWhile_append_dropWhile (p := (· = '0')) (l := digits.reverse)
  have hzeros : digits.reverse.takeWhile (· = '0') =
      List.replicate (digits.reverse.takeWhile (· = '0')).length '0' := by
    refine List.eq_replicate_of_mem fun c hc => ?_
    have hc := List.mem_takeWhile_imp (p := (· = '0')) hc
    exact of_decide_eq_true hc
  refine ⟨(digits.reverse.dropWhile (· = '0')).reverse,
    (digits.reverse.takeWhile (· = '0')).length, ?_, ?_⟩
  · have hreverse := congrArg List.reverse hsplit
    rw [List.reverse_append, List.reverse_reverse, hzeros, List.reverse_replicate] at hreverse
    exact hreverse.symm
  · unfold decimals
    cases (digits.reverse.dropWhile (· = '0')).reverse <;> rfl

end Span

namespace Report

theorem fraction_zeros (digits : List Char) (zeros : Nat) :
    fraction (digits ++ List.replicate zeros '0') = fraction digits := by
  have hnumeral : numeral (digits ++ List.replicate zeros '0') = 10 ^ zeros * numeral digits := by
    rw [numeral, Nat.ofDigitChars_append, Nat.ofDigitChars_replicate_zero]
    rfl
  rw [fraction, fraction, hnumeral, List.length_append, List.length_replicate]
  push_cast
  rw [pow_add]
  field_simp

/-- A unit is neither a digit nor a point, which would go on the number in front of it. -/
def EndsNumber (unit : List Char) : Prop :=
  ∀ c, unit.head? = some c → c.isDigit = false ∧ c ≠ '.'

theorem numeral_toString (n : Nat) : numeral (toString n).toList = n :=
  Json.ofDigitChars_toString n

/-- A whole number with decimals is read up to its unit. -/
theorem readDecimal_decimals (n : Nat) {digits unit : List Char}
    (hd : ∀ c ∈ digits, c.isDigit = true) (hu : EndsNumber unit) :
    readDecimal ((toString n).toList ++ (Span.decimals digits ++ unit)) =
      some (n + fraction digits, unit) := by
  have hn : ∀ c ∈ (toString n).toList, c.isDigit = true := fun _ => Json.isDigit_of_mem_toString
  have hwhole := Json.isWhole_toString n
  obtain ⟨kept, zeros, rfl, hdecimals⟩ := Span.decimals_cases digits
  rw [fraction_zeros, hdecimals]
  by_cases hkept : kept = []
  · subst hkept
    rw [if_pos rfl, List.nil_append]
    obtain ⟨htake, hdrop⟩ := Json.span_digits hn fun c hc => (hu c hc).1
    have hzero : fraction [] = 0 := by simp [fraction, numeral]
    simp only [readDecimal, htake, hdrop, hwhole, if_true, numeral_toString, hzero, add_zero]
    split
    · next rest h => exact absurd rfl (hu '.' (by rw [List.head?_cons])).2
    · rfl
  · rw [if_neg hkept]
    have hpoint : ∀ c, ('.' :: (kept ++ unit)).head? = some c → c.isDigit = false := by
      intro c hc
      cases hc
      rfl
    have hk : ∀ c ∈ kept, c.isDigit = true := fun c hc => hd c (List.mem_append_left _ hc)
    obtain ⟨htake, hdrop⟩ := Json.span_digits hn hpoint
    obtain ⟨htake', hdrop'⟩ := Json.span_digits hk fun c hc => (hu c hc).1
    rw [List.cons_append]
    simp only [readDecimal, htake, hdrop, hwhole, if_true, htake', hdrop',
      Json.isDigits_iff.mpr ⟨hkept, hk⟩, numeral_toString]

/-- A number of parts in a unit of a power of ten of them is read as what it is. -/
theorem seconds?_inUnit (n places : Nat) (unit : String) {x : Rat}
    (hx : unitSeconds? unit = some x) (hu : EndsNumber unit.toList) :
    seconds? (Span.inUnit n places unit) = some (n / 10 ^ places * x) := by
  have hread := readDecimal_decimals (n / 10 ^ places)
    (Span.isDigit_of_mem_fixedDigits places (n % 10 ^ places)) hu
  have htext : (Span.inUnit n places unit).toList = (toString (n / 10 ^ places)).toList ++
      (Span.decimals (Span.fixedDigits places (n % 10 ^ places)) ++ unit.toList) := by
    simp only [Span.inUnit, String.toList_append, String.toList_ofList, List.append_assoc]
    rfl
  have hvalue : ((n / 10 ^ places : Nat) : Rat) +
      fraction (Span.fixedDigits places (n % 10 ^ places)) = n / 10 ^ places := by
    have hdivision := congrArg (Nat.cast (R := Rat)) (Nat.div_add_mod n (10 ^ places))
    push_cast at hdivision
    rw [fraction, Span.numeral_fixedDigits, Span.length_fixedDigits, Nat.mod_mod]
    field_simp
    rw [mul_comm]
    exact hdivision
  simp only [seconds?, htext, hread, Option.bind_some, String.ofList_toList, hx, Option.map_some,
    hvalue]

/-- The text of a span is read as the span. -/
theorem seconds?_render (s : Span) : seconds? s.render = some s.seconds := by
  have hends {c : Char} {rest : List Char} (hd : c.isDigit = false) (hp : c ≠ '.') :
      EndsNumber (c :: rest) := by
    intro d hc
    cases hc
    exact ⟨hd, hp⟩
  unfold Span.render
  split
  · rw [seconds?_inUnit s.toNanos 9 "s" rfl (hends (by decide) (by decide)),
      Option.some.injEq, Span.seconds, Span.toNanos, nanosPerSecond]
    push_cast
    ring
  · next hsecs =>
    have hzero : s.seconds = (s.nanos : Rat) / 1000000000 := by
      rw [Span.seconds, Nat.eq_zero_of_not_pos hsecs, nanosPerSecond]
      push_cast
      ring
    rw [hzero]
    split
    · rw [seconds?_inUnit s.nanos 6 "ms" rfl (hends (by decide) (by decide)),
        Option.some.injEq]
      ring
    · split
      · rw [seconds?_inUnit s.nanos 3 "µs" rfl (hends (by decide) (by decide)),
          Option.some.injEq]
        ring
      · rw [seconds?_inUnit s.nanos 0 "ns" rfl (hends (by decide) (by decide)),
          Option.some.injEq]
        ring

end Report

/-- Spans with less than a second of nanoseconds are the same if they are as long. -/
theorem Span.seconds_inj {s t : Span} (hs : s.nanos < nanosPerSecond)
    (ht : t.nanos < nanosPerSecond) : s.seconds = t.seconds ↔ s = t := by
  constructor
  · intro h
    have hnanos (s : Span) : s.seconds * nanosPerSecond = (s.toNanos : Rat) := by
      rw [Span.seconds, Span.toNanos, nanosPerSecond]
      push_cast
      ring
    have htotal : s.toNanos = t.toNanos := by
      have hequal := hnanos s
      rw [h, hnanos t] at hequal
      exact_mod_cast hequal.symm
    simp only [Span.toNanos, nanosPerSecond] at htotal hs ht
    cases s
    cases t
    simp only [Span.mk.injEq]
    dsimp only at htotal hs ht
    omega
  · rintro rfl
    rfl

end LoadBench
