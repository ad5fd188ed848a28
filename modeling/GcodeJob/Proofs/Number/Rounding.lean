import GcodeJob.Number.Rounding
import Mathlib.Order.Monotone.Basic
import Mathlib.Tactic.Ring

/-!
# GcodeJob.Proofs.Number.Rounding

Rounding keeps the order of magnitudes.  The units of a pattern grow from one
pattern to the next by the weight of the last bit (`units_succ`), so patterns
are ordered as what they stand for; rounding gives the pattern back that a
number of units has (`pattern_units`) and a greater number no smaller pattern
(`pattern_le_pattern`).
-/

namespace GcodeJob.Rounding

/-! ## Units -/

/-- Exponent field and fraction of a pattern put together. -/
theorem units_of_fields {precision field fraction : Nat} (h : fraction < 2 ^ (precision - 1)) :
    units precision (field * 2 ^ (precision - 1) + fraction) =
      if field = 0 then fraction else (2 ^ (precision - 1) + fraction) * 2 ^ (field - 1) := by
  have pow (n : Nat) : Nat.pow 2 n = 2 ^ n := rfl
  have whole : (field * 2 ^ (precision - 1) + fraction) / 2 ^ (precision - 1) = field := by
    rw [Nat.mul_comm, Nat.mul_add_div (Nat.two_pow_pos _), Nat.div_eq_of_lt h, Nat.add_zero]
  have part : (field * 2 ^ (precision - 1) + fraction) % 2 ^ (precision - 1) = fraction := by
    rw [Nat.mul_comm, Nat.mul_add_mod, Nat.mod_eq_of_lt h]
  simp only [units, pow, whole, part]

/-- From one pattern to the next it is the weight of the last bit. -/
theorem units_succ (precision bits : Nat) :
    units precision (bits + 1) = units precision bits + 2 ^ (bits / 2 ^ (precision - 1) - 1) := by
  have pos : 0 < 2 ^ (precision - 1) := Nat.two_pow_pos _
  have small : bits % 2 ^ (precision - 1) < 2 ^ (precision - 1) := Nat.mod_lt _ pos
  have fields :
      bits / 2 ^ (precision - 1) * 2 ^ (precision - 1) + bits % 2 ^ (precision - 1) = bits :=
    Nat.div_add_mod' ..
  generalize bits / 2 ^ (precision - 1) = field, bits % 2 ^ (precision - 1) = fraction
    at fields small ⊢
  subst fields
  rcases (by omega : fraction + 1 < 2 ^ (precision - 1) ∨ fraction + 1 = 2 ^ (precision - 1)) with
    inside | carry
  · rw [Nat.add_assoc, units_of_fields inside, units_of_fields small]
    split
    · simp [*]
    · ring
  · -- The fraction is full, and one more is carried into the exponent field.
    have next :
        field * 2 ^ (precision - 1) + fraction + 1 = (field + 1) * 2 ^ (precision - 1) + 0 := by
      rw [Nat.add_one_mul, ← carry]
      omega
    rw [next, units_of_fields pos, units_of_fields small, if_neg (Nat.succ_ne_zero field)]
    cases field with
    | zero => simpa using carry.symm
    | succ field =>
      rw [if_neg (Nat.succ_ne_zero field), ← carry]
      simp only [Nat.add_sub_cancel, Nat.add_zero, Nat.pow_succ]
      ring

/-- Patterns are ordered as the magnitudes they stand for. -/
theorem units_strictMono (precision : Nat) : StrictMono (units precision) :=
  strictMono_nat_of_lt_succ fun bits => by
    rw [units_succ]
    exact Nat.lt_add_of_pos_right (Nat.two_pow_pos _)

@[simp] theorem units_zero (precision : Nat) : units precision 0 = 0 :=
  units_of_lt precision 0 (Nat.two_pow_pos _)

theorem units_pos {precision bits : Nat} (h : 0 < bits) : 0 < units precision bits := by
  simpa using units_strictMono precision h

/-! ## Nearest whole numbers -/

theorem div_le_nearest (num den : Nat) : num / den ≤ nearest num den := by
  unfold nearest
  grind

theorem nearest_le (num den : Nat) : nearest num den ≤ num / den + 1 := by
  unfold nearest
  grind

theorem nearest_le_nearest {num num' : Nat} (den : Nat) (h : num ≤ num') :
    nearest num den ≤ nearest num' den := by
  rcases Nat.lt_or_eq_of_le (Nat.div_le_div_right (c := den) h) with less | same
  · exact Nat.le_trans (nearest_le num den) (Nat.le_trans less (div_le_nearest num' den))
  · -- With the same whole part the greater number has the greater rest.
    have rests : num % den ≤ num' % den := by
      have := Nat.div_add_mod num den
      have := Nat.div_add_mod num' den
      rw [same] at *
      omega
    unfold nearest
    dsimp only
    rw [same]
    split <;> split <;> grind

/-! ## Patterns -/

section
variable {precision num den : Nat}

theorem two_pow_eq_add (pos : 0 < precision) :
    2 ^ precision = 2 ^ (precision - 1) + 2 ^ (precision - 1) := by
  rw [← Nat.two_mul, ← Nat.pow_succ', Nat.succ_eq_add_one, Nat.sub_add_cancel pos]

theorem pattern_eq (precision num den : Nat) :
    pattern precision num den = shift precision num den * 2 ^ (precision - 1) +
      nearest num (den * 2 ^ shift precision num den) := rfl

/-- What is left of a magnitude behind its shift fits the significand. -/
theorem div_shift_lt (precision num den : Nat) :
    num / (den * 2 ^ shift precision num den) < 2 ^ precision := by
  rw [← Nat.div_div_eq_div_mul, Nat.div_lt_iff_lt_mul (Nat.two_pow_pos _), ← Nat.pow_add]
  refine Nat.lt_of_lt_of_le Nat.lt_log2_self (Nat.pow_le_pow_right (by decide) ?_)
  unfold shift
  omega

/-- A magnitude is shifted only as far as it fills the significand. -/
theorem le_div_shift (pos : 0 < precision) (shifted : 0 < shift precision num den) :
    2 ^ (precision - 1) ≤ num / (den * 2 ^ shift precision num den) := by
  have log : (num / den).log2 = precision - 1 + shift precision num den := by
    unfold shift at shifted ⊢
    omega
  have ne_zero : num / den ≠ 0 := by
    intro zero
    simp [shift, zero] at shifted
    omega
  rw [← Nat.div_div_eq_div_mul, Nat.le_div_iff_mul_le (Nat.two_pow_pos _), ← Nat.pow_add, ← log]
  exact Nat.log2_self_le ne_zero

theorem shift_le_shift {num' : Nat} (h : num ≤ num') :
    shift precision num den ≤ shift precision num' den := by
  have div : num / den ≤ num' / den := Nat.div_le_div_right h
  have log : (num / den).log2 ≤ (num' / den).log2 := by
    by_cases zero : num / den = 0
    · simp [zero]
    · have ne_zero := Nat.ne_of_gt (Nat.lt_of_lt_of_le (Nat.pos_of_ne_zero zero) div)
      exact (Nat.le_log2 ne_zero).mpr (Nat.le_trans (Nat.log2_self_le zero) div)
  unfold shift
  omega

/-- A greater magnitude has no smaller pattern. -/
theorem pattern_le_pattern {num' : Nat} (pos : 0 < precision) (h : num ≤ num') :
    pattern precision num den ≤ pattern precision num' den := by
  rw [pattern_eq, pattern_eq]
  rcases Nat.lt_or_eq_of_le (shift_le_shift h : shift precision num den ≤ _) with less | same
  · -- The one significand may be carried up to the least of the next shift, but not beyond it.
    have upper := Nat.le_trans (nearest_le num (den * 2 ^ shift precision num den))
      (Nat.succ_le_of_lt (div_shift_lt precision num den))
    have lower := Nat.le_trans (le_div_shift pos (Nat.zero_lt_of_lt less))
      (div_le_nearest num' (den * 2 ^ shift precision num' den))
    have double := two_pow_eq_add pos
    have shifts := Nat.mul_le_mul_right (2 ^ (precision - 1)) (Nat.succ_le_of_lt less)
    rw [Nat.succ_mul] at shifts
    omega
  · rw [same]
    exact Nat.add_le_add_left (nearest_le_nearest _ h) _

/-- A pattern is a significand and how far it is shifted; what is shifted fills
the significand. -/
theorem exists_significand (pos : 0 < precision) (bits : Nat) :
    ∃ significand places, places = bits / 2 ^ (precision - 1) - 1 ∧
      units precision bits = significand * 2 ^ places ∧
      bits = places * 2 ^ (precision - 1) + significand ∧ significand < 2 ^ precision ∧
      (0 < places → 2 ^ (precision - 1) ≤ significand) := by
  have fields :
      bits / 2 ^ (precision - 1) * 2 ^ (precision - 1) + bits % 2 ^ (precision - 1) = bits :=
    Nat.div_add_mod' ..
  have small : bits % 2 ^ (precision - 1) < 2 ^ (precision - 1) := Nat.mod_lt _ (Nat.two_pow_pos _)
  have double := two_pow_eq_add pos
  generalize bits / 2 ^ (precision - 1) = field, bits % 2 ^ (precision - 1) = fraction
    at fields small ⊢
  subst fields
  rw [units_of_fields small]
  cases field with
  | zero => exact ⟨fraction, 0, by simp, by simp, by simp, by omega, by simp⟩
  | succ field =>
    exact ⟨2 ^ (precision - 1) + fraction, field, by simp, by simp, by ring, by omega, by simp⟩

/-- Rounding gives a pattern back. -/
theorem pattern_units (pos : 0 < precision) (bits : Nat) (den_pos : 0 < den) :
    pattern precision (units precision bits * den) den = bits := by
  obtain ⟨significand, places, -, units_eq, bits_eq, fits, full⟩ := exists_significand pos bits
  have shift_eq : shift precision (units precision bits * den) den = places := by
    rw [shift, Nat.mul_div_cancel _ den_pos, units_eq]
    cases places with
    | zero =>
      have log : significand.log2 < precision := by
        by_cases zero : significand = 0
        · simpa [zero] using pos
        · exact (Nat.log2_lt zero).mpr fits
      rw [Nat.pow_zero, Nat.mul_one]
      omega
    | succ places =>
      have filled := full (Nat.succ_pos places)
      have log : (significand * 2 ^ (places + 1)).log2 = precision - 1 + (places + 1) := by
        have ne_zero : significand * 2 ^ (places + 1) ≠ 0 := by
          have := Nat.two_pow_pos (precision - 1)
          exact Nat.mul_ne_zero (by omega) (Nat.ne_of_gt (Nat.two_pow_pos _))
        rw [Nat.log2_eq_iff ne_zero, Nat.add_right_comm, Nat.sub_add_cancel pos, Nat.pow_add,
          Nat.pow_add 2 precision]
        exact ⟨Nat.mul_le_mul_right _ filled,
          Nat.mul_lt_mul_of_pos_right fits (Nat.two_pow_pos _)⟩
      omega
  rw [pattern_eq, shift_eq, units_eq, Nat.mul_right_comm, Nat.mul_assoc, nearest_mul_right]
  · exact bits_eq.symm
  · exact Nat.mul_pos den_pos (Nat.two_pow_pos _)

/-- What has at least the units of a pattern is rounded to no smaller one. -/
theorem le_pattern (pos : 0 < precision) {bits : Nat} (den_pos : 0 < den)
    (h : units precision bits * den ≤ num) : bits ≤ pattern precision num den :=
  calc bits
      = pattern precision (units precision bits * den) den := (pattern_units pos bits den_pos).symm
    _ ≤ pattern precision num den := pattern_le_pattern pos h

end

end GcodeJob.Rounding
