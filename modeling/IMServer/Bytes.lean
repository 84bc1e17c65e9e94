import Mathlib.Algebra.Group.Int.Defs
import Mathlib.Algebra.GroupWithZero.Nat
import Mathlib.Data.List.Basic

/-! # Blocks of memory and machine integers

    A block is the list of its cells.  `overwrite` is the effect of `memcpy`
    into a block and `slice` the cells a pointer and a length select.  The one
    fact every buffer proof rests on is `slice_overwrite_append`: writing right
    behind a slice extends the slice by what was written.

    A `size_t` is a `Nat` below `2 ^ 64` and an `int` an `Int` in
    `[-2 ^ 31, 2 ^ 31)`.  The two conversions at the end are the C ones; every
    place where the code mixes the two types goes through them. -/

namespace IMBytes

variable {α : Type}

/-- The block after `bytes` have been copied to offset `off`.  A copy that runs
    over the end of the block shows as a longer list. -/
def overwrite (block : List α) (off : Nat) (bytes : List α) : List α :=
  block.take off ++ bytes ++ block.drop (off + bytes.length)

/-- The `len` cells from offset `off` on. -/
def slice (block : List α) (off len : Nat) : List α :=
  (block.drop off).take len

/-- A copy that fits keeps the size of the block. -/
theorem length_overwrite {block bytes : List α} {off : Nat}
    (h : off + bytes.length ≤ block.length) :
    (overwrite block off bytes).length = block.length := by
  simp only [overwrite, List.length_append, List.length_take, List.length_drop]
  omega

@[simp] theorem slice_zero (block : List α) (off : Nat) :
    slice block off 0 = [] := by
  simp [slice]

theorem length_slice {block : List α} {off len : Nat}
    (h : off + len ≤ block.length) : (slice block off len).length = len := by
  simp only [slice, List.length_take, List.length_drop]
  omega

/-- A slice splits at any point. -/
theorem slice_add (block : List α) (off m n : Nat) :
    slice block off (m + n) = slice block off m ++ slice block (off + m) n := by
  simp only [slice]
  rw [List.take_add, List.drop_drop]

theorem take_slice (block : List α) (off : Nat) {m n : Nat} (h : m ≤ n) :
    (slice block off n).take m = slice block off m := by
  simp only [slice, List.take_take]
  rw [Nat.min_eq_left h]

theorem drop_slice (block : List α) (off m n : Nat) :
    (slice block off n).drop m = slice block (off + m) (n - m) := by
  simp only [slice]
  rw [List.drop_take, List.drop_drop]

/-- Reading back a copy that fits. -/
theorem slice_overwrite_self {block bytes : List α} {off : Nat}
    (h : off ≤ block.length) :
    slice (overwrite block off bytes) off bytes.length = bytes := by
  have hlen : (block.take off).length = off := by
    rw [List.length_take, Nat.min_eq_left h]
  simp only [slice, overwrite]
  rw [List.append_assoc, List.drop_append_of_le_length (by omega),
    List.drop_of_length_le (by omega), List.nil_append,
    List.take_append_of_le_length (Nat.le_refl _), List.take_length]

/-- A slice that ends before the copy does not see it. -/
theorem slice_overwrite_before {block bytes : List α} {off r n : Nat}
    (hr : r + n ≤ off) (h : off ≤ block.length) :
    slice (overwrite block off bytes) r n = slice block r n := by
  have hlen : (block.take off).length = off := by
    rw [List.length_take, Nat.min_eq_left h]
  simp only [slice, overwrite]
  rw [List.append_assoc, List.drop_append_of_le_length (by omega),
    List.take_append_of_le_length (by rw [List.length_drop]; omega),
    List.drop_take, List.take_take, Nat.min_eq_left (by omega)]

/-- **APPENDING**: copying `bytes` right behind the slice `[r, off)` extends
    that slice by `bytes`. -/
theorem slice_overwrite_append {block bytes : List α} {off r : Nat}
    (hr : r ≤ off) (h : off ≤ block.length) :
    slice (overwrite block off bytes) r (off - r + bytes.length)
      = slice block r (off - r) ++ bytes := by
  rw [slice_add, slice_overwrite_before (by omega) h,
    show r + (off - r) = off from by omega, slice_overwrite_self h]

/-- Filling the front of a block that is otherwise blank. -/
theorem overwrite_append_replicate {xs ys : List α} {b : α} {n : Nat}
    (h : ys.length ≤ n) :
    overwrite (xs ++ List.replicate n b) xs.length ys
      = (xs ++ ys) ++ List.replicate (n - ys.length) b := by
  simp only [overwrite]
  rw [List.take_append_of_le_length (Nat.le_refl _), List.take_length,
    List.drop_append, List.drop_replicate,
    List.drop_of_length_le (show xs.length ≤ xs.length + ys.length from
      Nat.le_add_right _ _), List.nil_append,
    show n - (xs.length + ys.length - xs.length) = n - ys.length from by omega]

end IMBytes

/-! ## `size_t` and `int` -/

namespace IMMachineInt

/-- Conversion to `size_t`: the value modulo `2 ^ 64`. -/
def sizeT (n : Int) : Nat := (n % 2 ^ 64).toNat

/-- Conversion to `int`: the value modulo `2 ^ 32`, in two's complement. -/
def cInt (n : Int) : Int :=
  if 2 ^ 31 ≤ n % 2 ^ 32 then n % 2 ^ 32 - 2 ^ 32 else n % 2 ^ 32

theorem cInt_eq (n : Int) : cInt n = (n + 2 ^ 31) % 2 ^ 32 - 2 ^ 31 := by
  rw [cInt]
  split <;> omega

theorem sizeT_of_nonneg {n : Int} (h0 : 0 ≤ n) (h : n < 2 ^ 64) :
    sizeT n = n.toNat := by
  rw [sizeT]
  omega

@[simp] theorem sizeT_natCast {n : Nat} (h : n < 2 ^ 64) : sizeT (n : Int) = n := by
  rw [sizeT]
  omega

/-- The "not found" value: `-1` as a `size_t`. -/
theorem sizeT_neg_one : sizeT (-1) = 2 ^ 64 - 1 := by
  rw [sizeT]
  omega

theorem sizeT_lt (n : Int) : sizeT n < 2 ^ 64 := by
  rw [sizeT]
  omega

theorem cInt_mem (n : Int) : -2 ^ 31 ≤ cInt n ∧ cInt n < 2 ^ 31 := by
  rw [cInt_eq]
  omega

theorem cInt_of_mem {n : Int} (h0 : -2 ^ 31 ≤ n) (h : n < 2 ^ 31) :
    cInt n = n := by
  rw [cInt_eq]
  omega

@[simp] theorem cInt_natCast {n : Nat} (h : n < 2 ^ 31) : cInt (n : Int) = n :=
  cInt_of_mem (by omega) (by omega)

end IMMachineInt
