import GcodeJob.Proofs.Number.Single
import Mathlib.Data.Nat.Find

/-!
# GcodeJob.Proofs.Job.Execution

Running one command.  A greater progress and a greater word lead to no smaller
progress (`advance_le_advance`), so no run is slower than the one with the least
words; and as the step is never below the gap between two numbers up to one, the
progress is greater after each tick (`lt_advance`).

`Performs` says what a run does without a limit on its ticks: it sleeps on its
token, publishes the next progress, and goes on until it is finished or a sleep
is cut short.

**Main results**: every run ends, after few ticks and at exactly one
(`run_finishes`), and a cancel cuts off the rest of it and nothing else
(`run_cancelled`).
-/

namespace GcodeJob.Execution

open Single (Fraction)

variable {letter? : Option Letter} {words words' : Nat → UInt32} {p q : Single} {w w' : UInt32}

/-! ## One tick -/

/-- A line is of one of three kinds. -/
theorem forall_kind_iff {P : Option Letter → Prop} :
    (∀ letter?, P letter?) ↔ P none ∧ P (some .g) ∧ P (some .m) := by
  constructor
  · intro all
    exact ⟨all none, all (some .g), all (some .m)⟩
  · rintro ⟨none, g, m⟩ (_ | _ | _)
    · exact none
    · exact g
    · exact m

theorem factor_le_factor (h : w.toNat ≤ w'.toNat) :
    (factor w).bits.toNat ≤ (factor w').bits.toNat := by
  refine Single.ofUnits_le_ofUnits _ (Nat.mul_le_mul_right _ ?_)
  exact Nat.add_le_add_left (Nat.div_le_div_right h) _

theorem le_greatest (w : UInt32) : w.toNat ≤ (0xffffffff : UInt32).toNat :=
  Nat.le_of_lt_succ w.toNat_lt

theorem unsigned_factor (w : UInt32) : (factor w).Unsigned :=
  Nat.lt_of_le_of_lt (factor_le_factor (le_greatest w)) (by decide)

theorem unsigned_baseStep (letter : Letter) : (baseStep letter).Unsigned := by
  unfold Single.Unsigned
  cases letter <;> decide

/-- A greater word makes no smaller step. -/
theorem step_le_step (letter? : Option Letter) (h : w.toNat ≤ w'.toNat) :
    (step letter? w).bits.toNat ≤ (step letter? w').bits.toNat := by
  cases letter? with
  | none => exact Nat.le_refl _
  | some letter =>
    have base := unsigned_baseStep letter
    simp only [step, base.mul_eq (unsigned_factor _)]
    exact Single.ofUnits_le_ofUnits _
      (Nat.mul_le_mul_left _ (Single.units_le_units (factor_le_factor h)))

theorem fraction_step (letter? : Option Letter) (w : UInt32) : (step letter? w).Fraction := by
  have greatest : ∀ letter?, (step letter? 0xffffffff).bits.toNat ≤ Single.one.bits.toNat :=
    forall_kind_iff.mpr (by decide)
  exact Nat.le_trans (step_le_step letter? (le_greatest w)) (greatest letter?)

/-- No step is smaller than the weight of the last bit of a number below two. -/
theorem le_units_step (letter? : Option Letter) (w : UInt32) :
    2 ^ 126 ≤ (step letter? w).units := by
  have least : ∀ letter?, 2 ^ 126 ≤ (step letter? 0).units := forall_kind_iff.mpr (by decide)
  exact Nat.le_trans (least letter?) (Single.units_le_units (step_le_step letter? (Nat.zero_le _)))

theorem bits_advance (h : p.Fraction) :
    (advance letter? p w).bits.toNat =
      min (Rounding.pattern Single.precision (p.units + (step letter? w).units) 1)
        Single.one.bits.toNat := by
  have step_fraction := fraction_step letter? w
  have sum_eq := h.unsigned.add_eq step_fraction.unsigned
  have sum_le : p.units + (step letter? w).units ≤ Single.one.units + Single.one.units :=
    Nat.add_le_add (Single.units_le_units h) (Single.units_le_units step_fraction)
  have two : Rounding.pattern Single.precision (Single.one.units + Single.one.units) 1 <
      Single.infinityPattern := by decide
  have finite := Nat.lt_of_le_of_lt (Rounding.pattern_le_pattern (by decide) sum_le) two
  have bits := Single.bits_ofUnits (p.units + (step letter? w).units) 1
  rw [Nat.min_eq_left (Nat.le_of_lt finite), ← sum_eq] at bits
  have unsigned : (p.add (step letter? w)).Unsigned := by rwa [Single.Unsigned, bits]
  rw [advance, unsigned.bits_min Single.fraction_one.unsigned, bits]

theorem fraction_advance (h : p.Fraction) : (advance letter? p w).Fraction := by
  rw [Fraction, bits_advance h]
  exact Nat.min_le_right ..

/-- A greater progress and a greater word lead to no smaller progress. -/
theorem advance_le_advance (hq : q.Fraction) (le : p.bits.toNat ≤ q.bits.toNat)
    (words_le : w.toNat ≤ w'.toNat) :
    (advance letter? p w).bits.toNat ≤ (advance letter? q w').bits.toNat := by
  have hp : p.Fraction := Nat.le_trans le hq
  rw [bits_advance hp, bits_advance hq]
  have sum_le := Nat.add_le_add (Single.units_le_units le)
    (Single.units_le_units (step_le_step letter? words_le))
  exact min_le_min_right _ (Rounding.pattern_le_pattern (by decide) sum_le)

/-- Progress below one is greater after a tick. -/
theorem lt_advance (h : p.Fraction) (below : p ≠ .one) :
    p.bits.toNat < (advance letter? p w).bits.toNat := by
  have lt_one : p.bits.toNat < Single.one.bits.toNat :=
    Nat.lt_of_le_of_ne h fun same => below (Single.eq_of_bits same)
  -- The next pattern is the gap away, and the step is no smaller than that.
  have gap : 2 ^ (p.bits.toNat / 2 ^ (Single.precision - 1) - 1) ≤ 2 ^ 126 := by
    refine Nat.pow_le_pow_right (by decide) ?_
    have one_bits : Single.one.bits.toNat = 127 * 2 ^ 23 := by decide
    have precision_eq : Single.precision - 1 = 23 := rfl
    rw [precision_eq]
    omega
  have next : p.bits.toNat + 1 ≤
      Rounding.pattern Single.precision (p.units + (step letter? w).units) 1 := by
    refine Rounding.le_pattern (by decide) Nat.one_pos ?_
    rw [Rounding.units_succ, Nat.mul_one]
    exact Nat.add_le_add_left (Nat.le_trans gap (le_units_step letter? w)) _
  rw [bits_advance h]
  exact Nat.lt_min.mpr ⟨next, lt_one⟩

/-- A command is finished at one and not before. -/
theorem isFinished_iff (h : p.Fraction) : isFinished p = true ↔ p = .one := by
  have lt_iff := h.unsigned.lt_iff Single.fraction_one.unsigned
  rw [isFinished, Bool.not_eq_true', ← Bool.not_eq_true, lt_iff, Nat.not_lt]
  constructor
  · intro ge
    exact Single.eq_of_bits (Nat.le_antisymm h ge)
  · rintro rfl
    exact Nat.le_refl _

/-! ## All ticks -/

/-- The progress after a number of ticks that nothing stops. -/
def progress (letter? : Option Letter) (words : Nat → UInt32) : Nat → Single
  | 0 => .zero
  | n + 1 => advance letter? (progress letter? words n) (words n)

theorem fraction_progress (n : Nat) : (progress letter? words n).Fraction := by
  induction n with
  | zero => exact Single.fraction_zero
  | succ n ih => exact fraction_advance ih

/-- Greater words lead to no smaller progress. -/
theorem progress_le_progress (h : ∀ n, (words n).toNat ≤ (words' n).toNat) (n : Nat) :
    (progress letter? words n).bits.toNat ≤ (progress letter? words' n).bits.toNat := by
  induction n with
  | zero => exact Nat.le_refl _
  | succ n ih => exact advance_le_advance (fraction_progress n) ih (h n)

/-- The ticks that a command takes at most, by its letter. -/
def mostTicks : Option Letter → Nat
  | some .g => 67
  | some .m => 101
  | none => 1

/-- The slowest run of each kind is finished after so many. -/
theorem progress_mostTicks (letter? : Option Letter) (words : Nat → UInt32) :
    progress letter? words (mostTicks letter?) = .one := by
  have slowest : ∀ letter?, progress letter? (fun _ => 0) (mostTicks letter?) = .one :=
    forall_kind_iff.mpr (by decide +kernel)
  refine Single.eq_of_bits (Nat.le_antisymm (fraction_progress _) ?_)
  have faster := @progress_le_progress letter? (fun _ => 0) words (fun _ => Nat.zero_le _)
    (mostTicks letter?)
  rwa [slowest letter?] at faster

theorem exists_progress_eq_one (letter? : Option Letter) (words : Nat → UInt32) :
    ∃ n, progress letter? words n = .one :=
  ⟨mostTicks letter?, progress_mostTicks letter? words⟩

/-- After how many ticks a command is finished. -/
def ticks (letter? : Option Letter) (words : Nat → UInt32) : Nat :=
  Nat.find (exists_progress_eq_one letter? words)

theorem progress_ticks (letter? : Option Letter) (words : Nat → UInt32) :
    progress letter? words (ticks letter? words) = .one :=
  Nat.find_spec (exists_progress_eq_one letter? words)

theorem progress_ne_one {n : Nat} (h : n < ticks letter? words) :
    progress letter? words n ≠ .one :=
  Nat.find_min (exists_progress_eq_one letter? words) h

theorem ticks_le (letter? : Option Letter) (words : Nat → UInt32) :
    ticks letter? words ≤ mostTicks letter? :=
  Nat.find_min' _ (progress_mostTicks letter? words)

theorem ticks_pos (letter? : Option Letter) (words : Nat → UInt32) : 0 < ticks letter? words := by
  refine Nat.pos_of_ne_zero fun none => ?_
  have one := progress_ticks letter? words
  rw [none] at one
  exact absurd one (show Single.zero ≠ .one by decide)

theorem isFinished_progress {n : Nat} (h : n ≤ ticks letter? words) :
    isFinished (progress letter? words n) = decide (n = ticks letter? words) := by
  rw [Bool.eq_iff_iff, isFinished_iff (fraction_progress n), decide_eq_true_eq]
  constructor
  · intro one
    refine Nat.le_antisymm h (Nat.le_of_not_lt fun lt => progress_ne_one lt one)
  · rintro rfl
    exact progress_ticks letter? words

/-- Until it is finished a command gets on. -/
theorem progress_lt_progress {i j : Nat} (lt : i < j) (le : j ≤ ticks letter? words) :
    (progress letter? words i).bits.toNat < (progress letter? words j).bits.toNat := by
  induction lt with
  | refl => exact lt_advance (fraction_progress i) (progress_ne_one le)
  | step lt ih =>
    exact Nat.lt_trans (ih (Nat.le_of_succ_le le))
      (lt_advance (fraction_progress _) (progress_ne_one le))

/-! ## A whole run -/

/-- Whether a token is cancelled that is cancelled right after update number
`cancelAfter`, or before the start for zero. -/
def isCancelled (cancelAfter : Option Nat) (updates : Nat) : Bool := cancelAfter.any (· ≤ updates)

/-- What a run does from a progress and a number of updates on: what it shows, and
how long it takes.  While it is not finished it sleeps for a tick on its token;
a sleep that is cut short ends it, and after any other it shows the next
progress. -/
inductive Performs (letter? : Option Letter) (words : Nat → UInt32) (tick : Nat)
    (cancelAfter : Option Nat) : Nat → Single → Trace → Nat → Prop
  | finished {n : Nat} {p : Single} (done : isFinished p = true) :
    Performs letter? words tick cancelAfter n p ⟨[], true⟩ 0
  | cut {n : Nat} {p : Single} (going : isFinished p = false) {time : Nat}
    (slept : Sleep.of (isCancelled cancelAfter n) tick none = ⟨false, time⟩) :
    Performs letter? words tick cancelAfter n p ⟨[], false⟩ time
  | tick {n : Nat} {p : Single} (going : isFinished p = false) {time later : Nat}
    (slept : Sleep.of (isCancelled cancelAfter n) tick none = ⟨true, time⟩) {rest : Trace}
    (others : Performs letter? words tick cancelAfter (n + 1) (advance letter? p (words n)) rest
      later) (status : Status) :
    Performs letter? words tick cancelAfter n p
      ⟨(status.setProgress (advance letter? p (words n))).progress :: rest.published,
        rest.completed⟩ (time + later)

variable {tick n : Nat} {cancelAfter : Option Nat}

/-- A run can do only one thing. -/
theorem Performs.unique {trace trace' : Trace} {time time' : Nat}
    (h : Performs letter? words tick cancelAfter n p trace time)
    (h' : Performs letter? words tick cancelAfter n p trace' time') :
    trace = trace' ∧ time = time' := by
  induction h generalizing trace' time' with
  | finished done =>
    cases h' with
    | finished => exact ⟨rfl, rfl⟩
    | cut going | tick going => cases done.symm.trans going
  | cut going slept =>
    cases h' with
    | finished done => cases done.symm.trans going
    | cut _ slept' =>
      cases slept.symm.trans slept'
      exact ⟨rfl, rfl⟩
    | tick _ slept' => cases slept.symm.trans slept'
  | tick going slept others status ih =>
    cases h' with
    | finished done => cases done.symm.trans going
    | cut _ slept' => cases slept.symm.trans slept'
    | tick _ slept' others' status' =>
      cases slept.symm.trans slept'
      obtain ⟨rfl, rfl⟩ := ih others'
      exact ⟨rfl, rfl⟩

/-- The last tick of a run. -/
def lastTick (letter? : Option Letter) (words : Nat → UInt32) (cancelAfter : Option Nat) : Nat :=
  cancelAfter.elim (ticks letter? words) (min · (ticks letter? words))

theorem lastTick_le : lastTick letter? words cancelAfter ≤ ticks letter? words := by
  cases cancelAfter with
  | none => exact Nat.le_refl _
  | some m => exact Nat.min_le_right ..

/-- Before its last tick a run goes on. -/
theorem going_of_lt (lt : n < lastTick letter? words cancelAfter) :
    n < ticks letter? words ∧ isCancelled cancelAfter n = false := by
  cases cancelAfter with
  | none => exact ⟨lt, rfl⟩
  | some m =>
    obtain ⟨before, unfinished⟩ := Nat.lt_min.mp lt
    exact ⟨unfinished, decide_eq_false (Nat.not_le_of_lt before)⟩

/-- At its last tick the command is finished or the token cancelled. -/
theorem finished_or_cut :
    lastTick letter? words cancelAfter = ticks letter? words ∨
      lastTick letter? words cancelAfter < ticks letter? words ∧
        cancelAfter = some (lastTick letter? words cancelAfter) := by
  cases cancelAfter with
  | none => exact .inl rfl
  | some m =>
    rcases Nat.lt_or_ge m (ticks letter? words) with lt | ge
    · have last : lastTick letter? words (some m) = m := Nat.min_eq_left (Nat.le_of_lt lt)
      exact .inr ⟨by rwa [last], congrArg some last.symm⟩
    · exact .inl (Nat.min_eq_right ge)

theorem isCancelled_some (n : Nat) : isCancelled (some n) n = true :=
  decide_eq_true (Nat.le_refl n)

/-- What a run has still to show after `n` ticks. -/
def shownFrom (letter? : Option Letter) (words : Nat → UInt32) (cancelAfter : Option Nat)
    (n : Nat) : Trace :=
  ⟨(List.range' (n + 1) (lastTick letter? words cancelAfter - n)).map (progress letter? words),
    decide (lastTick letter? words cancelAfter = ticks letter? words)⟩

theorem shownFrom_lastTick :
    shownFrom letter? words cancelAfter (lastTick letter? words cancelAfter) =
      ⟨[], decide (lastTick letter? words cancelAfter = ticks letter? words)⟩ := by
  rw [shownFrom, Nat.sub_self]
  rfl

theorem shownFrom_of_lt (lt : n < lastTick letter? words cancelAfter) :
    shownFrom letter? words cancelAfter n =
      ⟨progress letter? words (n + 1) :: (shownFrom letter? words cancelAfter (n + 1)).published,
        (shownFrom letter? words cancelAfter (n + 1)).completed⟩ := by
  obtain ⟨rest, eq⟩ := Nat.exists_eq_add_of_lt lt
  have here : lastTick letter? words cancelAfter - n = rest + 1 := by omega
  have next : lastTick letter? words cancelAfter - (n + 1) = rest := by omega
  rw [shownFrom, shownFrom, here, next, List.range'_succ, List.map_cons]

/-- A run shows this, a tick at a time. -/
theorem performs_shownFrom (le : n ≤ lastTick letter? words cancelAfter) :
    Performs letter? words tick cancelAfter n (progress letter? words n)
      (shownFrom letter? words cancelAfter n)
      ((lastTick letter? words cancelAfter - n) * Sleep.length tick) := by
  induction left : lastTick letter? words cancelAfter - n generalizing n with
  | zero =>
    obtain rfl : n = lastTick letter? words cancelAfter := by omega
    rw [shownFrom_lastTick, Nat.zero_mul]
    rcases @finished_or_cut letter? words cancelAfter with last | ⟨before, cut⟩
    · rw [last, decide_eq_true rfl]
      exact .finished (by rw [isFinished_progress (Nat.le_refl _), decide_eq_true rfl])
    · have unfinished := isFinished_progress (Nat.le_of_lt before)
      rw [decide_eq_false (Nat.ne_of_lt before)] at unfinished ⊢
      refine .cut unfinished ?_
      generalize lastTick letter? words cancelAfter = last at cut
      rw [cut, isCancelled_some]
      rfl
  | succ rest ih =>
    have lt : n < lastTick letter? words cancelAfter := by omega
    obtain ⟨before, uncancelled⟩ := going_of_lt lt
    have unfinished := isFinished_progress (Nat.le_of_lt before)
    rw [decide_eq_false (Nat.ne_of_lt before)] at unfinished
    have slept : Sleep.of (isCancelled cancelAfter n) tick none = ⟨true, Sleep.length tick⟩ := by
      rw [uncancelled]
      rfl
    have others := Performs.tick unfinished slept (ih lt (by omega)) {}
    rw [(fraction_advance (fraction_progress n)).setProgress_eq] at others
    rwa [shownFrom_of_lt lt, Nat.add_one_mul, Nat.add_comm (rest * _)]

/-- And so it does with a limit that is high enough. -/
theorem runFrom_eq {limit : Nat} (le : n ≤ lastTick letter? words cancelAfter)
    (enough : lastTick letter? words cancelAfter ≤ n + limit) :
    runFrom letter? words cancelAfter limit n (progress letter? words n) =
      shownFrom letter? words cancelAfter n := by
  induction limit generalizing n with
  | zero =>
    obtain rfl : n = lastTick letter? words cancelAfter := Nat.le_antisymm le enough
    rw [shownFrom_lastTick, runFrom, isFinished_progress lastTick_le]
  | succ limit ih =>
    rw [runFrom, isFinished_progress (Nat.le_trans le lastTick_le)]
    rcases Nat.lt_or_eq_of_le le with lt | rfl
    · obtain ⟨before, uncancelled⟩ := going_of_lt lt
      have uncut : cancelAfter ≠ some n := by
        rintro rfl
        rw [isCancelled_some] at uncancelled
        cases uncancelled
      have unfinished : ¬decide (n = ticks letter? words) = true := by
        simpa using Nat.ne_of_lt before
      have rest := ih lt (by omega)
      rw [progress] at rest
      rw [if_neg unfinished, if_neg uncut, shownFrom_of_lt lt]
      dsimp only
      rw [rest]
      rfl
    · rw [shownFrom_lastTick]
      rcases @finished_or_cut letter? words cancelAfter with last | ⟨before, cut⟩
      · rw [decide_eq_true last, if_pos rfl]
      · have unfinished : ¬decide (lastTick letter? words cancelAfter = ticks letter? words) =
            true := by simpa using Nat.ne_of_lt before
        rw [if_neg unfinished, if_pos cut, Bool.eq_false_of_not_eq_true unfinished]

theorem runFrom_start {limit : Nat} (enough : lastTick letter? words cancelAfter ≤ limit) :
    runFrom letter? words cancelAfter limit 0 .zero = shownFrom letter? words cancelAfter 0 :=
  runFrom_eq (Nat.zero_le _) (by omega)

theorem run_eq (letter? : Option Letter) (words : Nat → UInt32) (cancelAfter : Option Nat) :
    run letter? words cancelAfter = shownFrom letter? words cancelAfter 0 := by
  have enough : ∀ letter?, mostTicks letter? ≤ tickLimit := forall_kind_iff.mpr (by decide)
  refine runFrom_start ?_
  calc lastTick letter? words cancelAfter
      ≤ ticks letter? words := lastTick_le
    _ ≤ mostTicks letter? := ticks_le letter? words
    _ ≤ tickLimit := enough letter?

theorem length_shownFrom : (shownFrom letter? words cancelAfter n).published.length =
    lastTick letter? words cancelAfter - n := by
  rw [shownFrom, List.length_map, List.length_range']

/-- What a run does, from its start to its end, is what `run` says. -/
theorem performs_iff {trace : Trace} {time : Nat} :
    Performs letter? words tick cancelAfter 0 .zero trace time ↔
      trace = run letter? words cancelAfter ∧ time = (run letter? words cancelAfter).time tick := by
  have performs : Performs letter? words tick cancelAfter 0 .zero (run letter? words cancelAfter)
      ((run letter? words cancelAfter).time tick) := by
    rw [run_eq, Trace.time, length_shownFrom]
    exact performs_shownFrom (Nat.zero_le _)
  constructor
  · intro other
    exact other.unique performs
  · rintro ⟨rfl, rfl⟩
    exact performs

/-- What a run publishes that nothing cancels. -/
theorem published_run (letter? : Option Letter) (words : Nat → UInt32) :
    (run letter? words none).published =
      (List.range' 1 (ticks letter? words)).map (progress letter? words) := by
  rw [run_eq]
  rfl

theorem length_published_run (letter? : Option Letter) (words : Nat → UInt32) :
    (run letter? words none).published.length = ticks letter? words := by
  rw [published_run, List.length_map, List.length_range']

/-- The published progress is greater from tick to tick. -/
theorem pairwise_published_run (letter? : Option Letter) (words : Nat → UInt32) :
    (run letter? words none).published.Pairwise (fun p q => p.lt q = true) := by
  rw [published_run, List.pairwise_map]
  refine (List.pairwise_lt_range' 1).imp_of_mem fun {i j} _ mem lt => ?_
  have le : j ≤ ticks letter? words := by
    rw [List.mem_range'_1] at mem
    omega
  rw [(fraction_progress i).unsigned.lt_iff (fraction_progress j).unsigned]
  exact progress_lt_progress lt le

/-- It is above zero and not above one. -/
theorem bounds_of_mem_published_run (letter? : Option Letter) (words : Nat → UInt32) :
    ∀ p ∈ (run letter? words none).published,
      Single.zero.lt p = true ∧ Single.one.lt p = false := by
  rw [published_run, List.forall_mem_map]
  intro n mem
  rw [List.mem_range'_1] at mem
  have fraction : (progress letter? words n).Fraction := fraction_progress n
  constructor
  · rw [Single.fraction_zero.unsigned.lt_iff fraction.unsigned]
    exact @progress_lt_progress letter? words 0 n mem.1 (by omega)
  · rw [← Bool.not_eq_true, Single.fraction_one.unsigned.lt_iff fraction.unsigned, Nat.not_lt]
    exact fraction

/-- It is one at the end and not before. -/
theorem exists_published_run_eq (letter? : Option Letter) (words : Nat → UInt32) :
    ∃ earlier, (run letter? words none).published = earlier ++ [.one] ∧ .one ∉ earlier := by
  obtain ⟨before, last⟩ : ∃ before, ticks letter? words = 1 + before :=
    Nat.exists_eq_add_of_le (ticks_pos letter? words)
  refine ⟨(List.range' 1 before).map (progress letter? words), ?_, ?_⟩
  · rw [published_run, last, Nat.add_comm, List.range'_1_concat, List.map_append, ← last,
      List.map_singleton, progress_ticks]
  · intro mem
    obtain ⟨n, n_mem, one⟩ := List.mem_map.mp mem
    rw [List.mem_range'_1] at n_mem
    exact progress_ne_one (by omega) one

/-- **Every command finishes, after few ticks and at exactly one.**  For all
words, a run that nothing cancels does one thing only and is completed, after at
most 67 ticks for a motion code, 101 for a machine code and one for a line
without a code.  The published progress is greater from tick to tick, always
above zero and not above one, and it is one at the end and not before. -/
theorem run_finishes (letter? : Option Letter) (words : Nat → UInt32) :
    let whole := run letter? words none
    (∀ tick trace time, Performs letter? words tick none 0 .zero trace time ↔
      trace = whole ∧ time = whole.published.length * Sleep.length tick) ∧
    (∀ limit, whole.published.length ≤ limit →
      runFrom letter? words none limit 0 .zero = whole) ∧
    whole.completed = true ∧
    whole.published.length ≤ (match letter? with
      | some .g => 67
      | some .m => 101
      | none => 1) ∧
    (letter? = none → whole.published = [.one]) ∧
    whole.published.Pairwise (fun p q => p.lt q = true) ∧
    (∀ p ∈ whole.published, Single.zero.lt p = true ∧ Single.one.lt p = false) ∧
    ∃ earlier, whole.published = earlier ++ [.one] ∧ .one ∉ earlier := by
  intro whole
  have length : whole.published.length = ticks letter? words := length_published_run letter? words
  have most : whole.published.length ≤ mostTicks letter? := by
    rw [length]
    exact ticks_le letter? words
  refine ⟨fun tick trace time => performs_iff, fun limit enough => ?_, ?_, ?_, ?_,
    pairwise_published_run letter? words, bounds_of_mem_published_run letter? words,
    exists_published_run_eq letter? words⟩
  · rw [length] at enough
    exact (runFrom_start enough).trans (run_eq letter? words none).symm
  · exact congrArg Trace.completed (run_eq letter? words none) |>.trans (decide_eq_true rfl)
  · cases letter? with
    | none => exact most
    | some letter => cases letter <;> exact most
  · rintro rfl
    obtain ⟨earlier, published, -⟩ := exists_published_run_eq none words
    rw [show whole.published = _ from published] at most ⊢
    rw [List.length_append] at most
    have no_more : earlier.length ≤ 0 := Nat.le_of_add_le_add_right most
    rw [List.eq_nil_of_length_eq_zero (Nat.le_zero.mp no_more), List.nil_append]

/-- **A cancel cuts a run short and does nothing else.**  Up to the update after
which the token is cancelled the run publishes what it publishes without the
cancel, it takes that many ticks, none of them longer than thirty years, and it
is completed just if the cancel comes at the last update or later. -/
theorem run_cancelled (letter? : Option Letter) (words : Nat → UInt32) (tick n : Nat) :
    let whole := run letter? words none
    let cut := run letter? words (some n)
    (∀ trace time, Performs letter? words tick none 0 .zero trace time ↔
      trace = whole ∧ time = whole.published.length * min tick Sleep.longest) ∧
    (∀ trace time, Performs letter? words tick (some n) 0 .zero trace time ↔
      trace = cut ∧ time = min n whole.published.length * min tick Sleep.longest) ∧
    cut.published = whole.published.take n ∧
    (cut.completed = true ↔ whole.published.length ≤ n ∧ 0 < n) := by
  intro whole cut
  have length : whole.published.length = ticks letter? words := length_published_run letter? words
  have cut_eq : cut = shownFrom letter? words (some n) 0 := run_eq letter? words (some n)
  have last : lastTick letter? words (some n) = min n (ticks letter? words) := rfl
  refine ⟨fun trace time => performs_iff, fun trace time => ?_, ?_, ?_⟩
  · rw [performs_iff, Trace.time, show run letter? words (some n) = cut from rfl, cut_eq,
      length_shownFrom, Nat.sub_zero, last, length]
    rfl
  · rw [cut_eq, shownFrom, last, Nat.sub_zero, published_run, ← List.map_take]
    rcases Nat.le_total n (ticks letter? words) with le | ge
    · rw [Nat.min_eq_left le, List.take_range'_of_length_ge le]
    · rw [Nat.min_eq_right ge, List.take_range'_of_length_le ge]
  · have pos := ticks_pos letter? words
    rw [cut_eq, shownFrom, last, length, decide_eq_true_eq]
    omega

/-- A tick that is asked to take a millisecond more than thirty years takes thirty
years. -/
theorem performs_of_longer_tick :
    Performs none (fun _ => 0) 946080000001 (some 1) 0 .zero ⟨[.one], true⟩ 946080000000 ∧
      946080000000 ≠ min 1 (run none (fun _ => 0) none).published.length * 946080000001 := by
  constructor
  · rw [performs_iff]
    decide
  · decide

end GcodeJob.Execution
