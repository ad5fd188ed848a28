import GcodeJob.Job.Execution
import GcodeJob.Job.Status
import GcodeJob.Proofs.Number.Rounding

/-!
# GcodeJob.Proofs.Number.Single

Single precision numbers without a sign are ordered as their bits, and sums and
products of them are rounded in this order (`Unsigned`).  The ones from zero to
one are shown as they are (`Fraction`), and every other number is moved to one of
them in the order of all numbers (`exists_clamp`).

One is told from all other single precision numbers by its order: a number
that is neither below nor above one is one.  So a command is finished with a
progress of exactly one.
-/

namespace GcodeJob

namespace Single

variable {x : Single}

theorem rank?_one : one.rank? = some (unitsInOne : Int) := by decide

theorem isNaN_iff : x.isNaN = true ↔ x.view = .nan := by simp [isNaN]

/-- Whatever is a number has a rank. -/
theorem rank?_ne_none (number : ¬x.isNaN = true) : x.rank? ≠ none := by
  unfold rank?
  cases view : x.view with
  | nan => exact absurd (isNaN_iff.mpr view) number
  | infinite | finite => nofun

theorem rank?_eq_none (h : x.isNaN = true) : x.rank? = none := by
  simp [rank?, isNaN_iff.mp h]

theorem mul_nan (view : x.view = .nan) (y : Single) : x.mul y = nan := by
  unfold mul
  rw [view]

theorem clamp_one : one.clamp zero one = one := by decide

/-! ## Numbers without a sign -/

/-- A number that is finite and has no sign. -/
def Unsigned (x : Single) : Prop := x.bits.toNat < infinityPattern

/-- How many units it is worth. -/
def units (x : Single) : Nat := Rounding.units precision x.bits.toNat

variable {y : Single}

theorem eq_of_bits (h : x.bits.toNat = y.bits.toNat) : x = y :=
  congrArg Single.mk (UInt32.toNat_inj.mp h)

theorem units_le_iff : x.units ≤ y.units ↔ x.bits.toNat ≤ y.bits.toNat :=
  (Rounding.units_strictMono precision).le_iff_le

theorem units_le_units (h : x.bits.toNat ≤ y.bits.toNat) : x.units ≤ y.units :=
  units_le_iff.mpr h

namespace Unsigned

theorem view_eq (h : x.Unsigned) : x.view = .finite false x.units := by
  have small : x.bits.toNat < signBit := Nat.lt_trans h (by decide)
  have magnitude_eq : x.magnitude = x.bits.toNat := Nat.mod_eq_of_lt small
  have positive : x.negative = false := decide_eq_false (Nat.not_le_of_lt small)
  rw [view, magnitude_eq, positive, if_neg (Nat.not_lt_of_lt h), if_neg (Nat.ne_of_lt h), units]

theorem isNaN_eq (h : x.Unsigned) : x.isNaN = false := by
  simp [isNaN, h.view_eq]

theorem lt_iff (hx : x.Unsigned) (hy : y.Unsigned) :
    x.lt y = true ↔ x.bits.toNat < y.bits.toNat := by
  simp only [lt, rank?, hx.view_eq, hy.view_eq, Bool.false_eq_true, if_false, decide_eq_true_eq,
    Int.ofNat_lt]
  exact (Rounding.units_strictMono precision).lt_iff_lt

theorem add_eq (hx : x.Unsigned) (hy : y.Unsigned) :
    x.add y = ofUnits false (x.units + y.units) 1 := by
  simp [add, hx.view_eq, hy.view_eq, addUnits]

theorem mul_eq (hx : x.Unsigned) (hy : y.Unsigned) :
    x.mul y = ofUnits false (x.units * y.units) unitsInOne := by
  simp [mul, hx.view_eq, hy.view_eq]

theorem bits_min (hx : x.Unsigned) (hy : y.Unsigned) :
    (x.min y).bits.toNat = Min.min x.bits.toNat y.bits.toNat := by
  rw [Single.min, hx.isNaN_eq, if_neg Bool.false_ne_true]
  split
  next above => exact (Nat.min_eq_right (Nat.le_of_lt ((hy.lt_iff hx).mp above))).symm
  next within =>
    exact (Nat.min_eq_left (Nat.le_of_not_lt fun lt => within ((hy.lt_iff hx).mpr lt))).symm

end Unsigned

theorem bits_ofUnits (num den : Nat) :
    (ofUnits false num den).bits.toNat =
      Min.min (Rounding.pattern precision num den) infinityPattern := by
  have le : Min.min (Rounding.pattern precision num den) infinityPattern ≤ infinityPattern :=
    Nat.min_le_right ..
  have fits : infinityPattern < 2 ^ 32 := by decide
  simp only [ofUnits, ofPattern, Bool.false_eq_true, if_false, Nat.zero_add]
  exact UInt32.toNat_ofNat_of_lt' (Nat.lt_of_le_of_lt le fits)

/-- More units are rounded to no smaller number. -/
theorem ofUnits_le_ofUnits {num num' : Nat} (den : Nat) (h : num ≤ num') :
    (ofUnits false num den).bits.toNat ≤ (ofUnits false num' den).bits.toNat := by
  rw [bits_ofUnits, bits_ofUnits]
  exact min_le_min_right _ (Rounding.pattern_le_pattern (by decide) h)

/-- A greater factor gives no smaller product. -/
theorem Unsigned.mul_le_mul {z : Single} (hx : x.Unsigned) (hy : y.Unsigned) (hz : z.Unsigned)
    (h : x.bits.toNat ≤ y.bits.toNat) : (x.mul z).bits.toNat ≤ (y.mul z).bits.toNat := by
  rw [hx.mul_eq hz, hy.mul_eq hz]
  exact ofUnits_le_ofUnits _ (Nat.mul_le_mul_right _ (units_le_units h))

theorem Unsigned.truncate_le_truncate (hx : x.Unsigned) (hy : y.Unsigned)
    (h : x.bits.toNat ≤ y.bits.toNat) : 0 ≤ x.truncate ∧ x.truncate ≤ y.truncate := by
  have whole : ((x.units / unitsInOne : Nat) : Int) ≤ (y.units / unitsInOne : Nat) :=
    Int.ofNat_le.mpr (Nat.div_le_div_right (units_le_units h))
  have highest : (0 : Int) ≤ Word.highest := by decide
  simp only [truncate, hx.view_eq, hy.view_eq]
  exact ⟨le_min (Int.natCast_nonneg _) highest, min_le_min_right _ whole⟩

/-! ### What is finite -/

theorem magnitude_of_finite {negative : Bool} {n : Nat} (finite : x.view = .finite negative n) :
    x.magnitude < infinityPattern ∧ x.negative = negative ∧
      Rounding.units precision x.magnitude = n := by
  unfold view at finite
  split at finite
  next => cases finite
  next low =>
    split at finite
    next => cases finite
    next ne =>
      obtain ⟨sign, same⟩ := View.finite.inj finite
      exact ⟨by omega, sign, same⟩

/-- A finite number with no sign is its magnitude. -/
theorem unsigned_of_finite {n : Nat} (finite : x.view = .finite false n) :
    x.Unsigned ∧ x.units = n := by
  obtain ⟨low, sign, same⟩ := magnitude_of_finite finite
  have whole : x.magnitude = x.bits.toNat := Nat.mod_eq_of_lt (by simpa [negative] using sign)
  rw [whole] at low same
  exact ⟨low, same⟩

/-- Of the numbers with a sign only one has no units. -/
theorem eq_neg_zero (finite : x.view = .finite true 0) : x = zero.neg := by
  obtain ⟨-, sign, same⟩ := magnitude_of_finite finite
  have none : x.magnitude = 0 :=
    (Rounding.units_strictMono precision).injective (same.trans (Rounding.units_zero _).symm)
  have high : signBit ≤ x.bits.toNat := of_decide_eq_true sign
  have word : x.bits.toNat < 2 * signBit := x.bits.toNat_lt
  have bits : zero.neg.bits.toNat = signBit := by decide
  rw [magnitude, Nat.mod_eq_sub_mod high, Nat.mod_eq_of_lt (by omega)] at none
  exact eq_of_bits (by omega)

/-- A number that ranks from zero to one has no sign, or it is the negative zero. -/
theorem of_rank? {a : Int} (rank : x.rank? = some a) (low : 0 ≤ a) (high : a ≤ unitsInOne) :
    x.Unsigned ∧ (x.units : Int) = a ∨ a = 0 ∧ x = zero.neg := by
  have beyond : (unitsInOne : Int) < (Nat.pow 2 278 : Nat) := by decide
  unfold rank? at rank
  generalize Nat.pow 2 278 = infinite at beyond rank
  split at rank
  next => cases rank
  next negative _ => cases negative <;> simp at rank <;> omega
  next negative n finite =>
    cases negative with
    | false =>
      obtain ⟨unsigned, rfl⟩ := unsigned_of_finite finite
      exact .inl ⟨unsigned, by simpa using rank⟩
    | true =>
      obtain rfl : -(n : Int) = a := by simpa using rank
      obtain rfl : n = 0 := by omega
      exact .inr ⟨rfl, eq_neg_zero finite⟩

/-! ## From zero to one -/

/-- A number from zero to one. -/
def Fraction (x : Single) : Prop := x.bits.toNat ≤ one.bits.toNat

theorem fraction_zero : zero.Fraction := Nat.zero_le _

theorem fraction_one : one.Fraction := Nat.le_refl _

theorem Fraction.unsigned (h : x.Fraction) : x.Unsigned := Nat.lt_of_le_of_lt h (by decide)

/-- It is within the bounds that a number is kept between where it is shown. -/
theorem Fraction.clamp_eq (h : x.Fraction) : x.clamp zero one = x := by
  have low : ¬x.lt zero = true := by
    rw [h.unsigned.lt_iff fraction_zero.unsigned]
    exact Nat.not_lt_zero _
  have high : ¬one.lt x = true := by
    rw [fraction_one.unsigned.lt_iff h.unsigned]
    exact Nat.not_lt_of_le h
  rw [clamp, if_neg low, if_neg high]

theorem Fraction.setProgress_eq (h : x.Fraction) (s : Status) :
    (s.setProgress x).progress = x := h.clamp_eq

theorem units_zero : zero.units = 0 := Rounding.units_zero _

theorem units_one : one.units = unitsInOne := by decide

/-- Where a number is kept between zero and one.  The negative zero stays as it is. -/
theorem exists_clamp {a : Int} (rank : x.rank? = some a) :
    ∃ y : Single, y.Fraction ∧ (y.units : Int) = max 0 (Min.min a unitsInOne) ∧
      (x.clamp zero one = y ∨ y = zero ∧ x.clamp zero one = zero.neg) := by
  have rank_zero : zero.rank? = some 0 := by decide
  have positive : (0 : Int) < unitsInOne := by decide
  unfold clamp
  simp only [lt, rank, rank_zero, rank?_one, decide_eq_true_eq]
  by_cases below : a < 0
  · rw [if_pos below]
    exact ⟨zero, fraction_zero, by rw [units_zero]; omega, .inl rfl⟩
  by_cases above : (unitsInOne : Int) < a
  · rw [if_neg below, if_pos above]
    exact ⟨one, fraction_one, by rw [units_one]; omega, .inl rfl⟩
  rw [if_neg below, if_neg above]
  rcases of_rank? rank (by omega) (by omega) with ⟨-, units⟩ | ⟨none, rfl⟩
  · have le : x.units ≤ one.units := by rw [units_one]; omega
    exact ⟨x, units_le_iff.mp le, by omega, .inl rfl⟩
  · exact ⟨zero, fraction_zero, by rw [units_zero]; omega, .inr ⟨rfl, rfl⟩⟩

/-! ## One -/

/-- Only one ranks as one. -/
theorem eq_one_of_rank? (h : x.rank? = some (unitsInOne : Int)) : x = one := by
  have positive : (0 : Int) < unitsInOne := by decide
  rcases of_rank? h (by omega) (by omega) with ⟨-, units⟩ | ⟨none, -⟩
  · rw [Int.ofNat_inj, ← units_one] at units
    exact eq_of_bits ((Rounding.units_strictMono precision).injective units)
  · omega

/-- A number that is not below one is one, if it was restricted to what is not above. -/
theorem min_one_eq_one (h : (x.min one).lt one = false) : x.min one = one := by
  unfold Single.min at h ⊢
  split
  next => rfl
  next number =>
    simp only [number, Bool.false_eq_true, if_false] at h
    split
    next => rfl
    next above =>
      rw [if_neg above] at h
      cases rank : x.rank? with
      | none => exact absurd rank (rank?_ne_none number)
      | some a =>
        simp only [lt, rank, rank?_one, decide_eq_true_eq, decide_eq_false_iff_not] at h above
        exact eq_one_of_rank? (rank.trans (congrArg some (by omega)))

end Single

namespace Execution

/-- A command is finished when its progress is one. -/
theorem advance_eq_one {letter? : Option Letter} {progress : Single} {word : UInt32}
    (finished : isFinished (advance letter? progress word) = true) :
    advance letter? progress word = .one := by
  refine Single.min_one_eq_one ?_
  simpa [isFinished, advance] using finished

end Execution

end GcodeJob
