import GcodeJob.Number.Double
import GcodeJob.Proofs.Number.Rounding
import Mathlib.Data.List.Basic
import Mathlib.Tactic.Ring

/-!
# GcodeJob.Proofs.Number.Decimal

The decimal text of a number is the text of no other.  A decimal rounds to one
pattern only (`eq_of_roundsTo`), and the search for a short one always ends
with a decimal that rounds to the pattern it was made for (`onGrid?_shortest`):
the last grid it may try is finer than the gap between two numbers.  The text
gives the decimal back (`eq_of_positional`).

**Main result** (`Double.text_injective`): two finite numbers with one text are
the same number, signed zeros included.
-/

namespace GcodeJob.Double

open Rounding

/-! ## What rounds to a number -/

section
variable {p q point scale : Nat}

theorem roundsTo_iff :
    roundsTo p point scale = true ↔
      (units precision (p - 1) + units precision p) * scale ≤ point ∧
        point ≤ (units precision p + units precision (p + 1)) * scale ∧
        (p % 2 = 1 → (units precision (p - 1) + units precision p) * scale < point ∧
          point < (units precision p + units precision (p + 1)) * scale) := by
  unfold roundsTo
  dsimp only
  split <;> simp only [decide_eq_true_eq] <;> omega

/-- Of two patterns the intervals that round to them have at most an end in common, and
that belongs to the even one. -/
theorem not_roundsTo_of_lt (pos : 0 < scale) (less : p < q) (hp : roundsTo p point scale = true) :
    ¬roundsTo q point scale = true := by
  intro hq
  rw [roundsTo_iff] at hp hq
  have mono := units_strictMono precision
  have here : units precision p ≤ units precision (q - 1) := mono.monotone (by omega)
  have next : units precision (p + 1) ≤ units precision q := mono.monotone less
  have ends : (units precision p + units precision (p + 1)) * scale ≤
      (units precision (q - 1) + units precision q) * scale :=
    Nat.mul_le_mul_right _ (Nat.add_le_add here next)
  -- The point is the common end, so the patterns are neighbours, and one of them is odd.
  have same : (units precision p + units precision (p + 1)) * scale =
      (units precision (q - 1) + units precision q) * scale := by omega
  have sums := Nat.eq_of_mul_eq_mul_right pos same
  have neighbours : p = q - 1 := mono.injective (by omega)
  omega

theorem eq_of_roundsTo (pos : 0 < scale) (hp : roundsTo p point scale = true)
    (hq : roundsTo q point scale = true) : p = q := by
  rcases Nat.lt_trichotomy p q with less | same | more
  · exact absurd hq (not_roundsTo_of_lt pos less hp)
  · exact same
  · exact absurd hp (not_roundsTo_of_lt pos more hq)

/-- Zero rounds to no other number. -/
theorem not_roundsTo_zero (pos : 0 < p) (scale_pos : 0 < scale) :
    ¬roundsTo p 0 scale = true := by
  rw [roundsTo_iff]
  have here : 0 < units precision p := units_pos pos
  have := Nat.mul_pos (Nat.add_pos_right (units precision (p - 1)) here) scale_pos
  omega

end

/-! ## The search -/

/-- What a grid `10 ^ k` is scaled with to whole numbers. -/
def gridScale (k : Int) : Nat := Nat.pow 10 (-k).toNat

/-- The step of a grid in half units on that scale. -/
def gridStep (k : Int) : Nat := 2 * unitsInOne * Nat.pow 10 k.toNat

theorem gridScale_pos (k : Int) : 0 < gridScale k := Nat.pow_pos (by decide)

theorem gridStep_pos (k : Int) : 0 < gridStep k := by
  have units_pos : 0 < unitsInOne := Nat.two_pow_pos 1074
  exact Nat.mul_pos (Nat.mul_pos (by decide) units_pos) (Nat.pow_pos (by decide))

theorem onGrid?_eq (pattern : Nat) (k : Int) :
    let below := 2 * units precision pattern * gridScale k / gridStep k
    onGrid? pattern k =
      match roundsTo pattern (below * gridStep k) (gridScale k),
        roundsTo pattern ((below + 1) * gridStep k) (gridScale k) with
      | true, true => some (if 2 * units precision pattern * gridScale k - below * gridStep k <
          (below + 1) * gridStep k - 2 * units precision pattern * gridScale k then below
          else below + 1)
      | true, false => some below
      | false, true => some (below + 1)
      | false, false => none := by
  unfold onGrid? gridStep gridScale
  rfl

theorem roundsTo_of_onGrid? {pattern digits : Nat} {k : Int}
    (h : onGrid? pattern k = some digits) :
    roundsTo pattern (digits * gridStep k) (gridScale k) = true := by
  rw [onGrid?_eq] at h
  split at h
  next below above =>
    rw [← Option.some.inj h]
    split
    · exact below
    · exact above
  next below above =>
    rw [← Option.some.inj h]
    exact below
  next below above =>
    rw [← Option.some.inj h]
    exact above
  next => cases h

/-- A grid that is finer than the numbers around a number has a point that rounds to it. -/
theorem onGrid?_ne_none {pattern : Nat} {k : Int} (pos : 0 < pattern)
    (fine : gridStep k + units precision (pattern - 1) * gridScale k <
      units precision (pattern + 1) * gridScale k) : onGrid? pattern k ≠ none := by
  intro none
  have mono := units_strictMono precision
  have before := Nat.mul_lt_mul_of_pos_right (mono (by omega : pattern - 1 < pattern))
    (gridScale_pos k)
  have behind := Nat.mul_lt_mul_of_pos_right (mono (by omega : pattern < pattern + 1))
    (gridScale_pos k)
  have below_le := Nat.div_mul_le_self (2 * units precision pattern * gridScale k) (gridStep k)
  have lt_above := Nat.lt_mul_of_div_lt
    (Nat.lt_add_one (2 * units precision pattern * gridScale k / gridStep k)) (gridStep_pos k)
  rw [onGrid?_eq] at none
  generalize 2 * units precision pattern * gridScale k / gridStep k = below
    at none below_le lt_above
  rw [Nat.mul_assoc] at below_le lt_above
  rw [Nat.add_one_mul below] at lt_above
  -- The points on both sides are missed, so the gap around the number is no wider than a step.
  split at none <;> try cases none
  next below_out above_out =>
    rw [Bool.eq_false_iff, Ne, roundsTo_iff] at below_out above_out
    simp only [Nat.add_mul, Nat.one_mul] at below_out above_out
    omega

/-- The search stops at the first grid that has a point that rounds to the number. -/
theorem onGrid?_search {pattern n i : Nat} {k : Int} (within : i < n)
    (found : onGrid? pattern (k - i) ≠ none) :
    onGrid? pattern (search pattern n k).2 = some (search pattern n k).1 := by
  induction n generalizing i k with
  | zero => omega
  | succ n ih =>
    rw [search]
    cases here : onGrid? pattern k with
    | some digits => exact here
    | none =>
      cases i with
      | zero => exact absurd here (by simpa using found)
      | succ i =>
        refine ih (i := i) (by omega) ?_
        rwa [show k - 1 - (i : Int) = k - (i + 1 : Nat) by omega]

/-- The last grid that is tried, by the bit length of the number in units: its
exponent is a whole number less 342. -/
def lastGrid (log : Nat) : Nat := (log * 30103 + 99481) / 100000

theorem lastGrid_eq (pattern : Nat) :
    topGrid pattern - (19 : Nat) = (lastGrid (units precision pattern).log2 : Int) - 342 := by
  unfold topGrid lastGrid
  omega

theorem gridStep_sub (n : Nat) : gridStep (n - 342) = 2 * unitsInOne * Nat.pow 10 (n - 342) := by
  rw [gridStep, show ((n : Int) - 342).toNat = n - 342 by omega]

theorem gridScale_sub (n : Nat) : gridScale (n - 342) = Nat.pow 10 (342 - n) := by
  rw [gridScale, show (-((n : Int) - 342)).toNat = 342 - n by omega]

/-- The last grid is finer than the weight of the last bit, for every finite number. -/
theorem lastGrid_fine {log : Nat} (h : log < 2098) :
    gridStep (lastGrid log - 342) ≤ 2 ^ (log - 52) * gridScale (lastGrid log - 342) := by
  have all : (List.range 2098).all (fun log => Nat.ble
      (2 * unitsInOne * Nat.pow 10 (lastGrid log - 342))
      (Nat.pow 2 (log - 52) * Nat.pow 10 (342 - lastGrid log))) = true := by decide +kernel
  rw [gridStep_sub, gridScale_sub]
  exact Nat.le_of_ble_eq_true (List.all_eq_true.mp all log (List.mem_range.mpr h))

/-- The search for a short decimal always finds one. -/
theorem onGrid?_shortest {pattern : Nat} (pos : 0 < pattern) (finite : pattern < infinityPattern) :
    onGrid? pattern (shortest pattern).2 = some (shortest pattern).1 := by
  refine onGrid?_search (by decide : 19 < 20) (onGrid?_ne_none pos ?_)
  obtain ⟨significand, places, places_eq, units_eq, -, fits, -⟩ :=
    exists_significand (by decide : 0 < precision) pattern
  have places_le : places ≤ 2045 := by
    unfold infinityPattern at finite
    simp only [precision] at places_eq
    omega
  have lt : units precision pattern < 2 ^ (53 + places) := by
    rw [units_eq, Nat.pow_add]
    exact Nat.mul_lt_mul_of_pos_right fits (Nat.two_pow_pos _)
  have log_lt : (units precision pattern).log2 < 53 + places :=
    (Nat.log2_lt (Nat.ne_of_gt (units_pos pos))).mpr lt
  have fine := lastGrid_fine (by omega : (units precision pattern).log2 < 2098)
  have weight : 2 ^ ((units precision pattern).log2 - 52) ≤ 2 ^ places :=
    Nat.pow_le_pow_right (by decide) (by omega)
  have before : units precision (pattern - 1) < units precision pattern :=
    units_strictMono precision (by omega)
  rw [units_succ, ← places_eq, lastGrid_eq]
  generalize (lastGrid (units precision pattern).log2 : Int) - 342 = k at fine
  calc gridStep k + units precision (pattern - 1) * gridScale k
      < 2 ^ places * gridScale k + units precision pattern * gridScale k :=
      Nat.add_lt_add_of_le_of_lt (Nat.le_trans fine (Nat.mul_le_mul_right _ weight))
        (Nat.mul_lt_mul_of_pos_right before (gridScale_pos k))
    _ = (units precision pattern + 2 ^ places) * gridScale k := by ring

/-! ## Digits and a point -/

theorem toList_pushn (c : Char) (n : Nat) : ("".pushn c n).toList = .replicate n c := by
  rw [String.pushn_eq_repeat_push]
  induction n with
  | zero => rfl
  | succ n ih => rw [Nat.repeat, String.toList_push, ih, List.replicate_succ']

theorem ofDigitChars_zeros (n init : Nat) :
    Nat.ofDigitChars 10 (.replicate n '0') init = init * 10 ^ n := by
  induction n generalizing init with
  | zero => simp
  | succ n ih =>
    rw [List.replicate_succ, Nat.ofDigitChars_cons, ih, Nat.pow_succ']
    simp only [Nat.sub_self, Nat.add_zero]
    ring

/-- Zeros in front of a number are nothing. -/
theorem ofDigitChars_padded (zeros digits : Nat) :
    Nat.ofDigitChars 10 (.replicate zeros '0' ++ Nat.toDigits 10 digits) 0 = digits := by
  rw [Nat.ofDigitChars_append, ofDigitChars_zeros, Nat.zero_mul,
    Nat.ofDigitChars_toDigits (by decide) (by decide)]

theorem isDigit_of_mem_toDigits {c : Char} {digits : Nat} (mem : c ∈ Nat.toDigits 10 digits) :
    c.isDigit = true := Nat.isDigit_of_mem_toDigits (by decide) (by decide) mem

theorem isDigit_of_mem_padded {c : Char} {zeros digits : Nat}
    (mem : c ∈ List.replicate zeros '0' ++ Nat.toDigits 10 digits) : c.isDigit = true := by
  rcases List.mem_append.mp mem with zero | digit
  · rw [List.eq_of_mem_replicate zero]
    rfl
  · exact isDigit_of_mem_toDigits digit

section
variable {digits : Nat} {exponent : Int}

theorem positional_of_nonneg (h : 0 ≤ exponent) :
    (positional digits exponent).toList =
      Nat.toDigits 10 digits ++ .replicate exponent.toNat '0' := by
  unfold positional
  simp only [if_pos h, String.toList_append, Nat.toList_repr, toList_pushn]

theorem positional_of_neg (h : exponent < 0) :
    ∃ zeros whole fraction, (positional digits exponent).toList = whole ++ '.' :: fraction ∧
      whole ++ fraction = .replicate zeros '0' ++ Nat.toDigits 10 digits ∧
      fraction.length = (-exponent).toNat := by
  unfold positional
  simp only [if_neg (by omega : ¬0 ≤ exponent), String.toList_ofList]
  have padded_eq : ("".pushn '0' ((-exponent).toNat + 1 - (Nat.repr digits).length) ++
      Nat.repr digits).toList = .replicate ((-exponent).toNat + 1 - (Nat.repr digits).length) '0' ++
        Nat.toDigits 10 digits := by
    rw [String.toList_append, toList_pushn, Nat.toList_repr]
  refine ⟨_, _, _, rfl, by rw [List.take_append_drop, padded_eq], ?_⟩
  have length : (-exponent).toNat + 1 ≤ ("".pushn '0' ((-exponent).toNat + 1 -
      (Nat.repr digits).length) ++ Nat.repr digits).toList.length := by
    rw [String.toList_append, List.length_append, toList_pushn, List.length_replicate,
      String.length_toList]
    omega
  rw [List.length_drop]
  omega

/-- A decimal is written in digits and a point. -/
theorem of_mem_positional {c : Char} (mem : c ∈ (positional digits exponent).toList) :
    c.isDigit = true ∨ c = '.' := by
  rcases (by omega : 0 ≤ exponent ∨ exponent < 0) with nonneg | neg
  · rw [positional_of_nonneg nonneg, List.mem_append] at mem
    rcases mem with digit | zero
    · exact .inl (isDigit_of_mem_toDigits digit)
    · rw [List.eq_of_mem_replicate zero]
      exact .inl rfl
  · obtain ⟨zeros, whole, fraction, text, padded, -⟩ := @positional_of_neg digits exponent neg
    rw [text, List.mem_append, List.mem_cons] at mem
    rcases mem with before | point | behind
    · exact .inl (isDigit_of_mem_padded (padded ▸ List.mem_append_left _ before))
    · exact .inr point
    · exact .inl (isDigit_of_mem_padded (padded ▸ List.mem_append_right _ behind))

/-- Only a fraction has a point. -/
theorem mem_positional_iff : '.' ∈ (positional digits exponent).toList ↔ exponent < 0 := by
  constructor
  · intro point
    by_contra whole
    rw [positional_of_nonneg (by omega), List.mem_append] at point
    rcases point with digit | zero
    · exact absurd (isDigit_of_mem_toDigits digit) (by decide)
    · exact absurd (List.eq_of_mem_replicate zero) (by decide)
  · intro neg
    obtain ⟨zeros, whole, fraction, text, -⟩ := @positional_of_neg digits exponent neg
    rw [text]
    exact List.mem_append_right _ List.mem_cons_self

/-- The text gives the decimal back, but for the zeros at the end of a whole number. -/
theorem eq_of_positional {digits' : Nat} {exponent' : Int}
    (same : positional digits exponent = positional digits' exponent') :
    (0 ≤ exponent ∧ 0 ≤ exponent' ∧
        digits * 10 ^ exponent.toNat = digits' * 10 ^ exponent'.toNat) ∨
      (exponent = exponent' ∧ digits = digits') := by
  have signs : exponent < 0 ↔ exponent' < 0 := by
    rw [← @mem_positional_iff digits, same, mem_positional_iff]
  rcases (by omega : 0 ≤ exponent ∨ exponent < 0) with nonneg | neg
  · have nonneg' : 0 ≤ exponent' := by omega
    have texts := congrArg (Nat.ofDigitChars 10 ·.toList 0) same
    simp only [positional_of_nonneg nonneg, positional_of_nonneg nonneg', Nat.ofDigitChars_append,
      Nat.ofDigitChars_toDigits (b := 10) (by decide) (by decide), ofDigitChars_zeros] at texts
    exact .inl ⟨nonneg, nonneg', texts⟩
  · obtain ⟨zeros, whole, fraction, text, padded, length⟩ := @positional_of_neg digits exponent neg
    obtain ⟨zeros', whole', fraction', text', padded', length'⟩ :=
      @positional_of_neg digits' exponent' (signs.mp neg)
    have no_point : ∀ {zeros digits : Nat},
        '.' ∉ List.replicate zeros '0' ++ Nat.toDigits 10 digits :=
      fun mem => absurd (isDigit_of_mem_padded mem) (by decide)
    have split : whole ++ '.' :: fraction = whole' ++ '.' :: fraction' := by
      rw [← text, ← text', same]
    obtain ⟨rfl, -, rfl⟩ := (List.append_cons_inj_of_notMem
      (fun mem => no_point (padded ▸ List.mem_append_left _ mem))
      (fun mem => no_point (padded ▸ List.mem_append_right _ mem))).mp split
    refine .inr ⟨by omega, ?_⟩
    calc digits = Nat.ofDigitChars 10 (whole ++ fraction) 0 := by rw [padded, ofDigitChars_padded]
      _ = digits' := by rw [padded', ofDigitChars_padded]

end

/-! ## Texts of numbers -/

/-- A short decimal tells which pattern it was made for. -/
theorem eq_of_positional_shortest {p q : Nat} (p_pos : 0 < p) (q_pos : 0 < q)
    (p_finite : p < infinityPattern) (q_finite : q < infinityPattern)
    (same : positional (shortest p).1 (shortest p).2 = positional (shortest q).1 (shortest q).2) :
    p = q := by
  have hp := roundsTo_of_onGrid? (onGrid?_shortest p_pos p_finite)
  have hq := roundsTo_of_onGrid? (onGrid?_shortest q_pos q_finite)
  rcases eq_of_positional same with ⟨nonneg, nonneg', value⟩ | ⟨exponents, digits⟩
  · have scale {k : Int} (h : 0 ≤ k) : gridScale k = 1 := by
      simp [gridScale, show (-k).toNat = 0 by omega]
    have point (d : Nat) (k : Int) : d * gridStep k = 2 * unitsInOne * (d * 10 ^ k.toNat) := by
      rw [gridStep, Nat.mul_left_comm]
      rfl
    rw [scale nonneg, point, value] at hp
    rw [scale nonneg', point] at hq
    exact eq_of_roundsTo Nat.one_pos hp hq
  · rw [exponents, digits] at hp
    exact eq_of_roundsTo (gridScale_pos _) hp hq

section
variable {x y : Double}

/-- The digits of a magnitude. -/
def magnitudeText (magnitude : Nat) : String :=
  if magnitude = 0 then "0" else positional (shortest magnitude).1 (shortest magnitude).2

theorem text_eq (x : Double) :
    x.text = (if x.negative then "-" else "") ++ magnitudeText x.magnitude := rfl

/-- The text of zero is the decimal that has no digits but zero. -/
theorem magnitudeText_zero : magnitudeText 0 = positional 0 0 := by decide

/-- Numbers are written in digits and a point. -/
theorem of_mem_magnitudeText {magnitude : Nat} {c : Char}
    (mem : c ∈ (magnitudeText magnitude).toList) : c.isDigit = true ∨ c = '.' := by
  by_cases zero : magnitude = 0
  · rw [zero, magnitudeText_zero] at mem
    exact of_mem_positional mem
  · rw [magnitudeText, if_neg zero] at mem
    exact of_mem_positional mem

/-- With a sign in front of them. -/
theorem of_mem_text {c : Char} (mem : c ∈ x.text.toList) :
    c.isDigit = true ∨ c = '.' ∨ c = '-' := by
  rw [text_eq, String.toList_append, List.mem_append] at mem
  rcases mem with sign | digit
  · split at sign
    · exact .inr (.inr (by simpa using sign))
    · simp at sign
  · exact (of_mem_magnitudeText digit).imp_right .inl

/-- Only zero is written as zero. -/
theorem magnitudeText_ne {p : Nat} (pos : 0 < p) (finite : p < infinityPattern) :
    magnitudeText p ≠ magnitudeText 0 := by
  intro same
  rw [magnitudeText_zero, magnitudeText, if_neg (Nat.ne_of_gt pos)] at same
  have zero : (shortest p).1 = 0 := by
    rcases eq_of_positional same with ⟨-, -, value⟩ | ⟨-, digits⟩
    · simpa using value
    · exact digits
  have found := roundsTo_of_onGrid? (onGrid?_shortest pos finite)
  rw [zero, Nat.zero_mul] at found
  exact not_roundsTo_zero pos (gridScale_pos _) found

theorem magnitudeText_injective {p q : Nat} (p_finite : p < infinityPattern)
    (q_finite : q < infinityPattern) (same : magnitudeText p = magnitudeText q) : p = q := by
  rcases Nat.eq_zero_or_pos p with rfl | p_pos <;> rcases Nat.eq_zero_or_pos q with rfl | q_pos
  · rfl
  · exact absurd same.symm (magnitudeText_ne q_pos q_finite)
  · exact absurd same (magnitudeText_ne p_pos p_finite)
  · rw [magnitudeText, magnitudeText, if_neg (Nat.ne_of_gt p_pos), if_neg (Nat.ne_of_gt q_pos)]
      at same
    exact eq_of_positional_shortest p_pos q_pos p_finite q_finite same

/-- The sign is told from the digits. -/
theorem negative_iff_mem_text : x.negative = true ↔ '-' ∈ x.text.toList := by
  rw [text_eq, String.toList_append, List.mem_append]
  constructor
  · intro negative
    simp [negative]
  · rintro (sign | digit)
    · by_contra positive
      simp [positive] at sign
    · exact absurd (of_mem_magnitudeText digit) (by decide)

/-- **No two finite numbers have one text.** -/
theorem text_injective (hx : x.isFinite = true) (hy : y.isFinite = true) (same : x.text = y.text) :
    x = y := by
  have signs : x.negative = y.negative := by
    rw [Bool.eq_iff_iff, negative_iff_mem_text, negative_iff_mem_text, same]
  have magnitudes : x.magnitude = y.magnitude := by
    refine magnitudeText_injective (of_decide_eq_true hx) (of_decide_eq_true hy) ?_
    rw [text_eq, text_eq, signs] at same
    exact (String.append_right_inj _).mp same
  -- Sign and magnitude are all the bits there are.
  obtain ⟨x⟩ := x
  obtain ⟨y⟩ := y
  unfold negative signBit at signs
  unfold magnitude signBit at magnitudes
  have x_lt := x.toNat_lt
  have y_lt := y.toNat_lt
  dsimp only at signs magnitudes
  rw [decide_eq_decide] at signs
  exact congrArg Double.mk (UInt64.toNat_inj.mp (by omega))

end

end GcodeJob.Double
