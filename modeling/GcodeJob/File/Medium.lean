import GcodeJob.Error
import GcodeJob.Number.Word

/-!
# GcodeJob.File.Medium

What a path leads to, as far as reading goes.  A regular file has bytes that
may be replaced while it is open, and gives them in portions of its own
choice; the disk may fail behind some of them; a directory opens and cannot
be read; an endless device never runs out of zero bytes and reports no size.
-/

namespace GcodeJob

/-- How many bytes a read gives of those it asks for.  A read may come short,
but it gives at least one byte as long as there are any. -/
structure Portions where
  give : (offset asked : Nat) → Nat
  give_pos : ∀ (offset : Nat) {asked : Nat}, 0 < asked → 0 < give offset asked
  give_le : ∀ offset asked, give offset asked ≤ asked

/-- Every read gives all it asks for. -/
def Portions.whole : Portions := ⟨fun _ asked => asked, fun _ _ h => h, fun _ _ => Nat.le_refl _⟩

/-- A regular file: its bytes, fewer than the last offset there is, and the
portions in which they are read. -/
structure RegularFile where
  bytes : ByteArray
  fits : (bytes.size : Int) < Word.highest
  portions : Portions := .whole

namespace RegularFile

/-- A file without bytes. -/
def empty : RegularFile where
  bytes := .empty
  fits := by decide

/-- The bytes of a file as a list. -/
def content (f : RegularFile) : List UInt8 := f.bytes.data.toList

/-- The first `kept` bytes of a file. -/
def cut (f : RegularFile) (kept : Nat) : RegularFile where
  bytes := f.bytes.extract 0 kept
  fits := by
    have fits := f.fits
    simp only [ByteArray.size_extract]
    omega
  portions := f.portions

theorem size_cut (f : RegularFile) (kept : Nat) :
    (f.cut kept).bytes.size = min kept f.bytes.size := by
  simp [cut]

/-- One read of up to `asked` bytes at an offset; none at all means the end. -/
def read (f : RegularFile) (offset asked : Nat) : ByteArray :=
  f.bytes.extract offset (offset + f.portions.give offset asked)

theorem size_read (f : RegularFile) (offset asked : Nat) :
    (f.read offset asked).size =
      min (offset + f.portions.give offset asked) f.bytes.size - offset := by
  simp [read]

theorem toList_read (f : RegularFile) (offset asked : Nat) :
    (f.read offset asked).data.toList =
      (f.content.drop offset).take (f.portions.give offset asked) := by
  simp [read, content]

/-- Reads again and again, until `count` bytes are there or the file ends. -/
def fill (f : RegularFile) (offset count : Nat) : List UInt8 :=
  if 0 < (f.read offset count).size then
    let part := f.read offset count
    part.data.toList ++ f.fill (offset + part.size) (count - part.size)
  else []
termination_by count
decreasing_by
  have size_eq := f.size_read offset count
  have give_le := f.portions.give_le offset count
  omega

/-- However short the reads come, together they give what was asked for. -/
theorem fill_eq (f : RegularFile) (offset count : Nat) :
    f.fill offset count = (f.content.drop offset).take count := by
  have length_eq : f.content.length = f.bytes.size := Array.length_toList
  fun_induction fill f offset count with
  | case1 offset count some part ih =>
    have size_eq : part.size = _ := f.size_read offset count
    have give_le := f.portions.give_le offset count
    have part_eq : part.data.toList = (f.content.drop offset).take part.size := by
      rw [toList_read, size_eq, List.take_eq_take_iff, List.length_drop, length_eq]
      omega
    rw [ih, part_eq, ← List.drop_drop, ← List.take_add]
    congr 1
    omega
  | case2 offset count none =>
    have size_eq := f.size_read offset count
    have give_pos := @Portions.give_pos f.portions offset count
    symm
    rw [List.take_eq_nil_iff, List.drop_eq_nil_iff, length_eq]
    omega

end RegularFile

inductive Medium
  | file (f : RegularFile)
  /-- A regular file on a disk that fails: of its `size` bytes only those of `f` can be read. -/
  | damaged (f : RegularFile) (size : Nat) (lost : f.bytes.size < size)
  | directory
  | endless
  | absent

namespace Medium

/-- A regular file of some bytes.  There is none that goes to the last offset. -/
def regular (bytes : ByteArray) : Medium :=
  if fits : (bytes.size : Int) < Word.highest then .file { bytes, fits } else .absent

/-- A regular file after its disk has failed behind the first `kept` bytes. -/
def damage (kept : Nat) : Medium → Medium
  | .file f =>
    if lost : kept < f.bytes.size then
      .damaged (f.cut kept) f.bytes.size (by rw [f.size_cut]; omega)
    else .file f
  | .damaged f size lost => .damaged (f.cut kept) size (by rw [f.size_cut]; omega)
  | m => m

/-- Opens the path and gives the size it reports. -/
def openSize : Medium → Except ReadFault Nat
  | .file f => .ok f.bytes.size
  | .damaged _ size _ => .ok size
  | .directory | .endless => .ok 0
  | .absent => .error .notFound

/-- Reads `count` bytes at an offset, or those up to the end; none at all
means the end. -/
def read (m : Medium) (offset count : Nat) : Except ReadFault (List UInt8) :=
  match m with
  | .file f => .ok (f.fill offset count)
  | .damaged f _ _ =>
    if offset + count ≤ f.bytes.size then .ok (f.fill offset count) else .error .deviceFailed
  | .endless => .ok (List.replicate count 0)
  | .directory => .error .isDirectory
  | .absent => .error .notFound

/-- The file that lines are read from.  Only a regular file is ever indexed,
so nothing else has lines. -/
def source : Medium → RegularFile
  | .file f | .damaged f _ _ => f
  | _ => .empty

/-- Why nothing can be read behind the bytes of the source; `none` if the file ends there. -/
def fault? : Medium → Option ReadFault
  | .damaged .. => some .deviceFailed
  | _ => none

/-- The size of a regular file. -/
def regularSize? : Medium → Option Nat
  | .file f => some f.bytes.size
  | .damaged _ size _ => some size
  | _ => none

end Medium

end GcodeJob
