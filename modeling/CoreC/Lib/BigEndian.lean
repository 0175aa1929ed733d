import Mathlib.Data.UInt

/-! # Big-endian bytes

The bytes of a number, the highest first, and the number of a list of bytes. -/

namespace CoreC.Lib.BigEndian

/-- The low `n` bytes of a number. -/
def toBytes : ℕ → ℕ → List UInt8
  | 0, _ => []
  | n + 1, v => toBytes n (v / 256) ++ [UInt8.ofNat v]

def ofBytes (bytes : List UInt8) : ℕ := bytes.foldl (fun v b => v * 256 + b.toNat) 0

@[simp] theorem length_toBytes : ∀ n v, (toBytes n v).length = n
  | 0, _ => rfl
  | n + 1, v => by rw [toBytes, List.length_append, length_toBytes n, List.length_singleton]

theorem ofBytes_concat (bytes : List UInt8) (b : UInt8) : ofBytes (bytes ++ [b]) = ofBytes bytes * 256 + b.toNat := by
  simp [ofBytes]

theorem ofBytes_toBytes : ∀ n v, ofBytes (toBytes n v) = v % 256 ^ n
  | 0, v => by
    rw [pow_zero, Nat.mod_one]
    rfl
  | n + 1, v => by
    rw [toBytes, ofBytes_concat, ofBytes_toBytes n, pow_succ', Nat.mod_mul, UInt8.toNat_ofNat']
    omega

def put (buf bytes : List UInt8) : List UInt8 := bytes ++ buf.drop bytes.length

theorem take_put (buf : List UInt8) (n v : ℕ) : (put buf (toBytes n v)).take n = toBytes n v :=
  List.take_left' (length_toBytes n v)

theorem length_put {buf bytes : List UInt8} (h : bytes.length ≤ buf.length) : (put buf bytes).length = buf.length := by
  rw [put, List.length_append, List.length_drop]
  omega

end CoreC.Lib.BigEndian
