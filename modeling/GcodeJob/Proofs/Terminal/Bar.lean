import GcodeJob.Proofs.Number.Decimal
import GcodeJob.Proofs.Number.Single
import GcodeJob.Terminal.Bar

/-!
# GcodeJob.Proofs.Terminal.Bar

The bar as a text of ten cells that can be read back.  Both products of the
scaled number are rounded, yet they never round past a hundred percent: rounding
keeps the order, and one is scaled exactly (`scaled_bounds`).  So the full cells are
the tenths, the cell after them is what is left, and there is always room for it.

**Main result** (`Bar.ten_cells`): every progress, not-a-number and the infinities
included, is drawn in ten cells that tell its scaled number.
-/

namespace GcodeJob.Bar

open Single

variable {d : Nat} {x y : Single}

/-! ## The scaled number -/

/-- A progress from zero to one in the `10 ^ -d`-th parts of a percent, not yet whole. -/
def percent (y : Single) (d : Nat) : Single := (y.mul (.ofNat 100)).mul (.ofNat (Nat.pow 10 d))

theorem scaled_eq (x : Single) (d : Nat) :
    scaled x d = (percent (x.clamp .zero .one) d).truncate.toNat := rfl

theorem unsigned_hundred : (Single.ofNat 100).Unsigned := by
  unfold Unsigned
  decide

theorem unsigned_scale (few : d ≤ maxDigits) : (Single.ofNat (Nat.pow 10 d)).Unsigned := by
  have all : ∀ d < 7, (Single.ofNat (Nat.pow 10 d)).bits.toNat < infinityPattern := by
    decide +kernel
  exact all d (Nat.lt_succ_of_le few)

/-- One is scaled exactly. -/
theorem percent_one (few : d ≤ maxDigits) :
    (percent .one d).Unsigned ∧ (percent .one d).truncate = (100 * Nat.pow 10 d : Nat) := by
  have all : ∀ d < 7, (percent .one d).bits.toNat < infinityPattern ∧
      (percent .one d).truncate = (100 * Nat.pow 10 d : Nat) := by
    decide +kernel
  exact all d (Nat.lt_succ_of_le few)

theorem percent_neg_zero (few : d ≤ maxDigits) :
    (percent zero.neg d).truncate = (percent zero d).truncate := by
  have all : ∀ d < 7, (percent zero.neg d).truncate = (percent zero d).truncate := by
    decide +kernel
  exact all d (Nat.lt_succ_of_le few)

/-- Rounding twice keeps the order, so nothing from zero to one leaves the format. -/
theorem percent_le_percent (few : d ≤ maxDigits) (hx : x.Fraction) (hy : y.Fraction)
    (h : x.bits.toNat ≤ y.bits.toNat) :
    0 ≤ (percent x d).truncate ∧ (percent x d).truncate ≤ (percent y d).truncate := by
  have hundred {z : Single} (hz : z.Fraction) : (z.mul (.ofNat 100)).Unsigned := by
    have low := hz.unsigned.mul_le_mul fraction_one.unsigned unsigned_hundred hz
    exact Nat.lt_of_le_of_lt low (by decide)
  have order {z w : Single} (hz : z.Fraction) (hw : w.Fraction)
      (le : z.bits.toNat ≤ w.bits.toNat) :
      (percent z d).bits.toNat ≤ (percent w d).bits.toNat :=
    (hundred hz).mul_le_mul (hundred hw) (unsigned_scale few)
      (hz.unsigned.mul_le_mul hw.unsigned unsigned_hundred le)
  have within {z : Single} (hz : z.Fraction) : (percent z d).Unsigned :=
    Nat.lt_of_le_of_lt (order hz fraction_one hz) (percent_one few).1
  exact (within hx).truncate_le_truncate (within hy) (order hx hy h)

/-- A progress is scaled as the number from zero to one that it is moved to. -/
theorem exists_fraction {a : Int} (few : d ≤ maxDigits) (rank : x.rank? = some a) :
    ∃ y : Single, y.Fraction ∧ (y.units : Int) = max 0 (Min.min a unitsInOne) ∧
      (percent (x.clamp zero one) d).truncate = (percent y d).truncate := by
  obtain ⟨y, fraction, units, same | ⟨rfl, negative⟩⟩ := exists_clamp rank
  · exact ⟨y, fraction, units, by rw [same]⟩
  · exact ⟨zero, fraction, units, by rw [negative, percent_neg_zero few]⟩

theorem percent_nan (h : x.isNaN = true) : (percent (x.clamp zero one) d).truncate = 0 := by
  have stays : x.clamp zero one = x := by
    simp only [clamp, lt, rank?_eq_none h, rank?_one, Bool.false_eq_true, if_false]
  have nan_view : nan.view = .nan := by decide
  rw [stays, percent, mul_nan (isNaN_iff.mp h), mul_nan nan_view]
  decide

theorem scaled_nan (h : x.isNaN = true) : scaled x d = 0 := by
  rw [scaled_eq, percent_nan h]
  rfl

/-- The scaled number is what is left when the decimals are cut off; it is not negative, and
at most a hundred percent. -/
theorem scaled_bounds (few : d ≤ maxDigits) (x : Single) :
    (scaled x d : Int) = (percent (x.clamp zero one) d).truncate ∧
      scaled x d ≤ 100 * Nat.pow 10 d := by
  rw [scaled_eq]
  cases rank : x.rank? with
  | none =>
    have isNaN : x.isNaN = true := Decidable.byContradiction fun number => rank?_ne_none number rank
    rw [percent_nan isNaN]
    exact ⟨rfl, Nat.zero_le _⟩
  | some a =>
    obtain ⟨y, fraction, -, same⟩ := exists_fraction few rank
    have := percent_le_percent few fraction fraction_one fraction
    rw [(percent_one few).2] at this
    rw [same]
    omega

/-- Greater progress is not scaled to less. -/
theorem scaled_le_scaled (few : d ≤ maxDigits) (hx : x.isNaN = false) (hy : y.isNaN = false)
    (h : y.lt x = false) : scaled x d ≤ scaled y d := by
  obtain ⟨a, rank_x⟩ := Option.ne_none_iff_exists'.mp (rank?_ne_none (ne_true_of_eq_false hx))
  obtain ⟨b, rank_y⟩ := Option.ne_none_iff_exists'.mp (rank?_ne_none (ne_true_of_eq_false hy))
  obtain ⟨x', fraction_x, units_x, same_x⟩ := exists_fraction few rank_x
  obtain ⟨y', fraction_y, units_y, same_y⟩ := exists_fraction few rank_y
  have le : a ≤ b := by
    simpa only [lt, rank_x, rank_y, decide_eq_false_iff_not, Int.not_lt] using h
  have order : x'.bits.toNat ≤ y'.bits.toNat := units_le_iff.mp (by omega)
  rw [scaled_eq, scaled_eq, same_x, same_y]
  exact Int.toNat_le_toNat (percent_le_percent few fraction_x fraction_y order).2

theorem scaled_one (few : d ≤ maxDigits) : scaled one d = 100 * Nat.pow 10 d := by
  rw [scaled_eq, clamp_one, (percent_one few).2, Int.toNat_natCast]

theorem scaled_of_one_le (few : d ≤ maxDigits) (number : x.isNaN = false)
    (h : x.lt one = false) : scaled x d = 100 * Nat.pow 10 d := by
  have le := scaled_le_scaled few (by decide) number h
  rw [scaled_one few] at le
  exact Nat.le_antisymm (scaled_bounds few x).2 le

/-! ## Ten cells -/

/-- The cell of a part: its digits, if there is anything to write. -/
def cell (part : Nat) : List Char := if 0 < part then Nat.toDigits 10 part else []

theorem ofDigitChars_cell (part : Nat) : Nat.ofDigitChars 10 (cell part) 0 = part := by
  unfold cell
  split
  next => exact Nat.ofDigitChars_toDigits (by decide) (by decide)
  next none => exact (Nat.eq_zero_of_not_pos none).symm

theorem isDigit_of_mem_cell {c : Char} {part : Nat} (mem : c ∈ cell part) : c.isDigit = true := by
  unfold cell at mem
  split at mem
  next => exact Double.isDigit_of_mem_toDigits mem
  next => cases mem

/-- Less than ten is one digit. -/
theorem length_cell {part : Nat} (h : part < 10) :
    (cell part).length = if 0 < part then 1 else 0 := by
  unfold cell
  split
  next => rw [Nat.toDigits_of_lt_base h, List.length_singleton]
  next => rfl

/-- Up to a hundred percent the tenths and the part of the next one fill ten cells. -/
theorem toList_draw {value : Nat} (h : value ≤ 100 * Nat.pow 10 d) (complete incomplete : Char) :
    ∃ full part empty, (draw value d complete incomplete).toList =
        .replicate full complete ++ cell part ++ .replicate empty incomplete ∧
      full + (if 0 < part then 1 else 0) + empty = cells ∧
      part < 10 * Nat.pow 10 d ∧ full * (10 * Nat.pow 10 d) + part = value := by
  have tenth_pos : 0 < 10 * Nat.pow 10 d := Nat.mul_pos (by decide) (Nat.pow_pos (by decide))
  generalize tenth_eq : 10 * Nat.pow 10 d = tenth at tenth_pos
  have within : value / tenth ≤ cells :=
    Nat.div_le_of_le_mul (by unfold cells; omega)
  have split := Nat.div_add_mod' value tenth
  have less := Nat.mod_lt value tenth_pos
  have part_eq : value - value / tenth * tenth = value % tenth := by omega
  refine ⟨value / tenth, value % tenth,
    cells - value / tenth - (if value % tenth = 0 then 0 else 1), ?_, ?_, less, split⟩
  · simp only [draw, tenth_eq, Nat.min_eq_left within, part_eq, String.toList_append,
      Double.toList_pushn, cell, Nat.pos_iff_ne_zero, ite_not]
    split <;> simp [Nat.toList_repr]
  · -- With ten full cells nothing is left to write.
    have last : value / tenth = cells → value % tenth = 0 := by
      intro all
      rw [all] at split
      unfold cells at split
      omega
    simp only [Nat.pos_iff_ne_zero, ite_not]
    split <;> omega

/-- What a bar tells: its full cells count as tenths, its digits as what is left. -/
def read (complete : Char) (d : Nat) (bar : String) : Nat :=
  bar.toList.count complete * (10 * Nat.pow 10 d) +
    Nat.ofDigitChars 10 (bar.toList.filter Char.isDigit) 0

theorem read_draw {value : Nat} (h : value ≤ 100 * Nat.pow 10 d) {complete incomplete : Char}
    (distinct : complete ≠ incomplete) (complete_mark : complete.isDigit = false)
    (incomplete_mark : incomplete.isDigit = false) :
    read complete d (draw value d complete incomplete) = value := by
  obtain ⟨full, part, empty, text, -, -, value_eq⟩ := toList_draw h complete incomplete
  have no_mark : complete ∉ cell part := fun mem => by
    rw [isDigit_of_mem_cell mem] at complete_mark
    cases complete_mark
  have tenths : (draw value d complete incomplete).toList.count complete = full := by
    rw [text, List.count_append, List.count_append, List.count_replicate_self,
      List.count_eq_zero_of_not_mem no_mark, List.count_replicate]
    simp [distinct.symm]
  have digits : (draw value d complete incomplete).toList.filter Char.isDigit = cell part := by
    rw [text, List.filter_append, List.filter_append, List.filter_replicate_of_neg,
      List.filter_replicate_of_neg, List.filter_eq_self.mpr fun _ => isDigit_of_mem_cell]
    · simp
    · simp [incomplete_mark]
    · simp [complete_mark]
  rw [read, tenths, digits, ofDigitChars_cell, value_eq]

/-- A bar has ten cells, of which the full ones and the digits are one number: the scaled
progress.  It is nothing for not-a-number and a hundred percent from one on, it grows with the
progress, and marks that are told apart let it be read back.  Without decimals every cell is
one character. -/
theorem ten_cells (progress : Single) (digits : Nat) (complete incomplete : Char) :
    let d := min digits maxDigits
    let bar := render progress digits complete incomplete
    let value := scaled progress d
    (∃ full part empty,
      bar.toList = .replicate full complete ++ (if 0 < part then Nat.toDigits 10 part else []) ++
        .replicate empty incomplete ∧
      full + (if 0 < part then 1 else 0) + empty = 10 ∧ part < 10 ^ (d + 1) ∧
      full * 10 ^ (d + 1) + part = value) ∧
    (value : Int) =
      (((progress.clamp .zero .one).mul (.ofNat 100)).mul (.ofNat (10 ^ d))).truncate ∧
    (progress.isNaN = true → value = 0) ∧
    (progress.isNaN = false → progress.lt .one = false → value = 100 * 10 ^ d) ∧
    (∀ other : Single, progress.isNaN = false → other.isNaN = false →
      other.lt progress = false → value ≤ scaled other d) ∧
    (complete ≠ incomplete → complete.isDigit = false → incomplete.isDigit = false →
      ∀ other, render other digits complete incomplete = bar → scaled other d = value) ∧
    (digits = 0 → bar.length = 10) := by
  intro d bar value
  have few : d ≤ maxDigits := Nat.min_le_right ..
  have tenth : 10 ^ (d + 1) = 10 * Nat.pow 10 d := Nat.pow_succ'
  obtain ⟨value_eq, value_le⟩ := scaled_bounds few progress
  obtain ⟨full, part, empty, text, cells, less, parts⟩ :=
    toList_draw value_le complete incomplete
  refine ⟨⟨full, part, empty, text, cells, tenth ▸ less, tenth ▸ parts⟩, value_eq, scaled_nan,
    scaled_of_one_le few, fun other => scaled_le_scaled few, fun distinct hc hi other same => ?_,
    fun none => ?_⟩
  · have back (x : Single) : read complete d (render x digits complete incomplete) = scaled x d :=
      read_draw (scaled_bounds few x).2 distinct hc hi
    rw [← back other, same, back progress]
  · have short : part < 10 := by simpa [none, d] using less
    change bar.toList = _ at text
    rw [← String.length_toList, text]
    simp only [List.length_append, List.length_replicate, length_cell short]
    exact cells

example : render ⟨0x3f0b0fd0⟩ 1 '#' '-' = "#####43----" := by decide +kernel

end GcodeJob.Bar
