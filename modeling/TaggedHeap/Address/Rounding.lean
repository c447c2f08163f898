import TaggedHeap.Address.Basic

/-!
# Rounding up to a multiple

Units are powers of two, so a number is rounded up by adding one less than the unit and
clearing the low bits (`ceilTo`).  For such a unit this is the least multiple that is not below
the number (`ceilTo_two_pow`).  `roundUp` and `roundUp?` are the same rule within the address
space; they differ in what happens when the rounded number does not fit.
-/

namespace TaggedHeap

/-- `x` with the bits of `mask` cleared. -/
def clearBits (x mask : Nat) : Nat := x - (x &&& mask)

/-- `value` rounded up to a multiple of `unit`, by bits. -/
def ceilTo (value unit : Nat) : Nat := clearBits (value + unit - 1) (unit - 1)

/-- Rounds up; a sum that leaves the address space on the way is a fault. -/
def roundUp (value unit : Nat) : Except Fault Nat := do
  let sum ← Address.add value unit
  let reach ← Address.sub sum 1
  let mask ← Address.sub unit 1
  return clearBits reach mask

/-- Rounds up, or answers nothing when the number rounded up to does not fit. -/
def roundUp? (value unit : Nat) : Option Nat :=
  if value + (unit - 1) < Address.space then some (clearBits (value + (unit - 1)) (unit - 1))
  else none

theorem clearBits_two_pow (x k : Nat) :
    clearBits x (1 <<< k - 1) = x / (1 <<< k) * (1 <<< k) := by
  rw [clearBits, Nat.one_shiftLeft, Nat.and_two_pow_sub_one_eq_mod,
    Nat.div_mul_self_eq_mod_sub_self]

/-- The bit rule is the arithmetic one when the unit is a power of two. -/
theorem ceilTo_two_pow (value k : Nat) :
    ceilTo value (1 <<< k) = (value + 1 <<< k - 1) / (1 <<< k) * (1 <<< k) :=
  clearBits_two_pow _ _

end TaggedHeap
