import Mathlib.Logic.Function.Basic

namespace Fastpass

/-!
# Kernel bitmap primitives

The outstanding window keeps its occupancy in a bitmap of twice the window
length and scans it with the kernel's `find_next_bit` and `find_last_bit`.
Those live in the kernel's bitmap library, not in this repository; they are
modelled here from their documented contract: the first (last) set bit in the
requested range, or `size` when there is none.

A bitmap is a function from bit numbers to `Bool`.  Each scan is a structural
recursion over the bits it still has to look at, and is pinned down by two
lemmas: it returns a set bit with no set bit before it (after it, for the
backward scan), or it returns `size` over an all-clear range.
-/

/-- A bitmap: bit `i` is `addr i`. -/
abbrev Bitmap := Nat → Bool

/-- `__set_bit(nr, addr)`. -/
def setBit (addr : Bitmap) (nr : Nat) : Bitmap :=
  Function.update addr nr true

/-- `__clear_bit(nr, addr)`. -/
def clearBit (addr : Bitmap) (nr : Nat) : Bitmap :=
  Function.update addr nr false

@[simp] theorem setBit_apply (addr : Bitmap) (nr i : Nat) :
    setBit addr nr i = if i = nr then true else addr i := by
  by_cases same : i = nr
  · subst same
    simp [setBit]
  · simp [setBit, same]

@[simp] theorem clearBit_apply (addr : Bitmap) (nr i : Nat) :
    clearBit addr nr i = if i = nr then false else addr i := by
  by_cases same : i = nr
  · subst same
    simp [clearBit]
  · simp [clearBit, same]

/-- `find_next_bit(addr, size, offset)`: the first set bit in `[offset, size)`, or `size`. -/
def findNextBit (addr : Bitmap) (size offset : Nat) : Nat :=
  scan (size - offset) offset
where
  /-- Look at the next `remaining` bits from `bit` upwards. -/
  scan : Nat → Nat → Nat
    | 0, _ => size
    | remaining + 1, bit => if addr bit then bit else scan remaining (bit + 1)

/-- `find_last_bit(addr, size)`: the last set bit in `[0, size)`, or `size`. -/
def findLastBit (addr : Bitmap) (size : Nat) : Nat :=
  scan size
where
  /-- Look at the bits below `bit`, from the highest down. -/
  scan : Nat → Nat
    | 0 => size
    | bit + 1 => if addr bit then bit else scan bit

/-- The forward scan stops at the first set bit after a clear stretch. -/
theorem findNextBit_scan_of_set
    {addr : Bitmap}
    {size : Nat} :
    ∀ (remaining bit found : Nat),
      bit ≤ found → found < bit + remaining → addr found = true →
      (∀ i, bit ≤ i → i < found → addr i = false) →
      findNextBit.scan addr size remaining bit = found
  | 0, bit, found, lower, upper, _, _ => by omega
  | remaining + 1, bit, found, lower, upper, isSet, clearBefore => by
      unfold findNextBit.scan
      by_cases here : found = bit
      · subst here
        simp [isSet]
      · have bitClear : addr bit = false := clearBefore bit (Nat.le_refl bit) (by omega)
        simp only [bitClear, Bool.false_eq_true, ↓reduceIte]
        exact findNextBit_scan_of_set remaining (bit + 1) found (by omega) (by omega) isSet
          (fun i lowerI upperI => clearBefore i (by omega) upperI)

/-- The forward scan over an all-clear stretch reports `size`. -/
theorem findNextBit_scan_of_clear
    {addr : Bitmap}
    {size : Nat} :
    ∀ (remaining bit : Nat),
      (∀ i, bit ≤ i → i < bit + remaining → addr i = false) →
      findNextBit.scan addr size remaining bit = size
  | 0, _, _ => rfl
  | remaining + 1, bit, allClear => by
      unfold findNextBit.scan
      have bitClear : addr bit = false := allClear bit (Nat.le_refl bit) (by omega)
      simp only [bitClear, Bool.false_eq_true, ↓reduceIte]
      exact findNextBit_scan_of_clear remaining (bit + 1)
        (fun i lowerI upperI => allClear i (by omega) (by omega))

/-- `find_next_bit` returns the first set bit of `[offset, size)` when there is one. -/
theorem findNextBit_eq_of_set
    {addr : Bitmap}
    {size offset found : Nat}
    (lower : offset ≤ found)
    (upper : found < size)
    (isSet : addr found = true)
    (clearBefore : ∀ i, offset ≤ i → i < found → addr i = false) :
    findNextBit addr size offset = found :=
  findNextBit_scan_of_set _ _ _ lower (by omega) isSet clearBefore

/-- `find_next_bit` returns `size` when `[offset, size)` is all clear. -/
theorem findNextBit_eq_size
    {addr : Bitmap}
    {size offset : Nat}
    (allClear : ∀ i, offset ≤ i → i < size → addr i = false) :
    findNextBit addr size offset = size :=
  findNextBit_scan_of_clear _ _ (fun i lowerI upperI => allClear i lowerI (by omega))

/-- The backward scan stops at the last set bit below its start. -/
theorem findLastBit_scan_of_set
    {addr : Bitmap}
    {size : Nat} :
    ∀ (bit found : Nat),
      found < bit → addr found = true →
      (∀ i, found < i → i < bit → addr i = false) →
      findLastBit.scan addr size bit = found
  | 0, found, upper, _, _ => by omega
  | bit + 1, found, upper, isSet, clearAfter => by
      unfold findLastBit.scan
      by_cases here : found = bit
      · subst here
        simp [isSet]
      · have bitClear : addr bit = false := clearAfter bit (by omega) (by omega)
        simp only [bitClear, Bool.false_eq_true, ↓reduceIte]
        exact findLastBit_scan_of_set bit found (by omega) isSet
          (fun i lowerI upperI => clearAfter i lowerI (by omega))

/-- The backward scan over an all-clear prefix reports `size`. -/
theorem findLastBit_scan_of_clear
    {addr : Bitmap}
    {size : Nat} :
    ∀ bit, (∀ i, i < bit → addr i = false) → findLastBit.scan addr size bit = size
  | 0, _ => rfl
  | bit + 1, allClear => by
      unfold findLastBit.scan
      have bitClear : addr bit = false := allClear bit (by omega)
      simp only [bitClear, Bool.false_eq_true, ↓reduceIte]
      exact findLastBit_scan_of_clear bit (fun i upperI => allClear i (by omega))

/-- `find_last_bit` returns the last set bit below `size` when there is one. -/
theorem findLastBit_eq_of_set
    {addr : Bitmap}
    {size found : Nat}
    (upper : found < size)
    (isSet : addr found = true)
    (clearAfter : ∀ i, found < i → i < size → addr i = false) :
    findLastBit addr size = found :=
  findLastBit_scan_of_set _ _ upper isSet clearAfter

end Fastpass
