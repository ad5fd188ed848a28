/-!
# GcodeJob.Text.Slice

Places in a text, counted in the bytes of its UTF-8 form.  Of the places in
front of a character, inside it and behind it a text can be cut at the first
and the last; a cut inside a character gives nothing.
-/

namespace GcodeJob.Text

/-- The number of bytes that a text takes. -/
def byteSize (text : List Char) : Nat := text.foldl (fun n c => n + c.utf8Size) 0

/-- The place of the first character of some kind, or else of the end. -/
def placeOf (kind : Char → Bool) (text : List Char) : Nat := byteSize (text.takeWhile (!kind ·))

/-- Cuts a text so many bytes on, behind the characters in `passed`, which are
latest first. -/
def cutFrom (passed : List Char) : Nat → List Char → Option (List Char × List Char)
  | 0, text => some (passed.reverse, text)
  | _ + 1, [] => none
  | n + 1, c :: rest =>
    if c.utf8Size ≤ n + 1 then cutFrom (c :: passed) (n + 1 - c.utf8Size) rest else none

/-- The texts in front of a place and from it on. -/
def cut? (place : Nat) (text : List Char) : Option (List Char × List Char) := cutFrom [] place text

@[simp] theorem byteSize_nil : byteSize [] = 0 := rfl

theorem byteSize_cons (c : Char) (text : List Char) :
    byteSize (c :: text) = c.utf8Size + byteSize text := by
  have shift (n : Nat) : text.foldl (fun n c => n + c.utf8Size) n = n + byteSize text := by
    unfold byteSize
    induction text generalizing n with
    | nil => rfl
    | cons d text ih => rw [List.foldl_cons, List.foldl_cons, ih, ih (0 + d.utf8Size)]; omega
  rw [byteSize, List.foldl_cons, Nat.zero_add, shift]

@[simp] theorem byteSize_eq_zero {text : List Char} : byteSize text = 0 ↔ text = [] := by
  cases text with
  | nil => simp
  | cons c rest =>
    have pos := c.utf8Size_pos
    rw [byteSize_cons]
    simp only [reduceCtorEq, iff_false]
    omega

theorem cutFrom_eq_some_iff {passed text before after : List Char} {place : Nat} :
    cutFrom passed place text = some (before, after) ↔
      ∃ more, before = passed.reverse ++ more ∧ text = more ++ after ∧ byteSize more = place := by
  fun_induction cutFrom passed place text with
  | case1 passed text =>
    constructor
    · rintro ⟨⟩
      exact ⟨[], by simp⟩
    · rintro ⟨more, rfl, rfl, size⟩
      simp [byteSize_eq_zero.mp size]
  | case2 passed n =>
    constructor
    · rintro ⟨⟩
    · rintro ⟨more, -, none, size⟩
      simp [(List.append_eq_nil_iff.mp none.symm).1] at size
  | case3 passed n c rest fits ih =>
    rw [ih]
    clear ih
    constructor
    · rintro ⟨more, rfl, rfl, size⟩
      exact ⟨c :: more, by simp, rfl, by rw [byteSize_cons]; omega⟩
    · rintro ⟨more, rfl, eq, size⟩
      cases more with
      | nil => simp at size
      | cons d more =>
        obtain ⟨rfl, rfl⟩ := List.cons_eq_cons.mp eq
        rw [byteSize_cons] at size
        exact ⟨more, by simp, rfl, by omega⟩
  | case4 passed n c rest parted =>
    -- The place is inside the next character, so no text of characters ends there.
    constructor
    · rintro ⟨⟩
    · rintro ⟨more, -, eq, size⟩
      cases more with
      | nil => simp at size
      | cons d more =>
        obtain ⟨rfl, -⟩ := List.cons_eq_cons.mp eq
        rw [byteSize_cons] at size
        omega

/-- A text can be cut between two characters and nowhere else. -/
theorem cut?_eq_some_iff {text before after : List Char} {place : Nat} :
    cut? place text = some (before, after) ↔ text = before ++ after ∧ byteSize before = place := by
  simp [cut?, cutFrom_eq_some_iff]

/-- In front of the first character of some kind a text can be cut. -/
theorem cut?_placeOf (kind : Char → Bool) (text : List Char) :
    cut? (placeOf kind text) text = some (text.takeWhile (!kind ·), text.dropWhile (!kind ·)) := by
  rw [cut?_eq_some_iff, List.takeWhile_append_dropWhile]
  exact ⟨rfl, rfl⟩

end GcodeJob.Text
