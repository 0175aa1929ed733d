import Mathlib.Data.List.Basic

/-! # Base64

`base64.StdEncoding`: padded, line breaks skipped, the unused bits of the last character ignored. -/

namespace CoreC.Lib.Base64

def alphabet : List Char :=
  "ABCDEFGHIJKLMNOPQRSTUVWXYZabcdefghijklmnopqrstuvwxyz0123456789+/".toList

def sextet (c : Char) : Option ℕ := if c ∈ alphabet then some (alphabet.idxOf c) else none

def digit (n : ℕ) : Char := alphabet.getD n '='

def quantum (a b c d : Char) : Option (List UInt8) := do
  let w ← sextet a
  let x ← sextet b
  let y ← sextet c
  let z ← sextet d
  return [.ofNat (w * 4 + x / 16), .ofNat (x % 16 * 16 + y / 4), .ofNat (y % 4 * 64 + z)]

/-- The last four characters, where padding may stand. -/
def lastQuantum (a b c d : Char) : Option (List UInt8) :=
  if d = '=' then
    if c = '=' then (quantum a b 'A' 'A').map (List.take 1) else (quantum a b c 'A').map (List.take 2)
  else quantum a b c d

def decodeQuanta : List Char → Option (List UInt8)
  | [] => some []
  | [a, b, c, d] => lastQuantum a b c d
  | a :: b :: c :: d :: cs => do return (← quantum a b c d) ++ (← decodeQuanta cs)
  | _ => none

def decode (cs : List Char) : Option (List UInt8) :=
  decodeQuanta (cs.filter fun c => c ≠ '\r' ∧ c ≠ '\n')

def encode : List UInt8 → List Char
  | [] => []
  | [a] => [digit (a.toNat / 4), digit (a.toNat % 4 * 16), '=', '=']
  | [a, b] =>
    [digit (a.toNat / 4), digit (a.toNat % 4 * 16 + b.toNat / 16), digit (b.toNat % 16 * 4), '=']
  | a :: b :: c :: bs =>
    digit (a.toNat / 4) :: digit (a.toNat % 4 * 16 + b.toNat / 16) ::
      digit (b.toNat % 16 * 4 + c.toNat / 64) :: digit (c.toNat % 64) :: encode bs

example : decode (encode [0x14, 0xfb, 0x9c, 0x03]) = some [0x14, 0xfb, 0x9c, 0x03] := by decide

end CoreC.Lib.Base64
