import Mathlib.Data.List.TakeWhile
import CoreC.Lib.Float64
import CoreC.Lib.GoInt
import CoreC.Lib.Json.Lex

/-! # JSON numbers

Number tokens read as integers (`parseInt`, `parseUint`) and as floating-point numbers (`parseFloat`),
the way `strconv` does, and integers in decimal (`formatInt`).

* `parseInt_formatInt`, `parseUint_formatInt`: an integer in decimal is read back if it is in range. -/

namespace CoreC.Lib.Json.Number

open Lib.Json.Lex Lib.Float64 Lib.GoInt List

def chars (bs : Bytes) : List Char := bs.map fun b => Char.ofNat b.toNat

def readNat (ds : Bytes) : ℕ := Nat.ofDigitChars 10 (chars ds) 0

def minus : UInt8 := 0x2d

/-- `strconv.ParseUint(tok, 10, 64)`. -/
def parseUint (tok : Bytes) : Option ℤ :=
  if tok ≠ [] ∧ tok.all isDigit ∧ IntType.uint64.InRange (readNat tok) then some (readNat tok) else none

/-- `strconv.ParseInt(tok, 10, 64)`; a JSON number has no plus sign. -/
def parseInt (tok : Bytes) : Option ℤ :=
  let ds := if tok.head? = some minus then tok.tail else tok
  let v : ℤ := if tok.head? = some minus then -readNat ds else readNat ds
  if ds ≠ [] ∧ ds.all isDigit ∧ IntType.int64.InRange v then some v else none

/-- The parts of a number token: sign, digits before and after the point, exponent. -/
structure Parts where
  neg : Bool
  int : Bytes
  frac : Bytes
  exp : ℤ

/-- The digits of an exponent; `strconv` reads no further once the exponent has reached 10000. -/
def readExp (ds : Bytes) : ℤ :=
  ds.foldl (fun e d => if e < 10000 then e * 10 + (d.toNat - 0x30) else e) 0

def expOf : Bytes → ℤ
  | _ :: s :: ds =>
    if s = minus then -readExp ds else if s = 0x2b then readExp ds else readExp (s :: ds)
  | _ => 0

def parts (tok : Bytes) : Parts :=
  let ds := if tok.head? = some minus then tok.tail else tok
  let rest := ds.dropWhile isDigit
  let frac := if rest.head? = some 0x2e then rest.tail.takeWhile isDigit else []
  let tail := if rest.head? = some 0x2e then rest.tail.dropWhile isDigit else rest
  { neg := tok.head? = some minus, int := ds.takeWhile isDigit, frac := frac, exp := expOf tail }

/-- `strconv.ParseFloat` on a number token; `none` if the number is too large for the format. -/
def parseFloat (f : Format) (tok : Bytes) : Option ℚ :=
  let p := parts tok
  let m := readNat (p.int ++ p.frac)
  let e := p.exp - p.frac.length
  let q := if 0 ≤ e then f.round (m * 10 ^ e.toNat) 1 else f.round m (10 ^ (-e).toNat)
  if p.neg then q.map (- ·) else q

variable (n : ℕ)

def formatNat : Bytes := (Nat.toDigits 10 n).map fun c => .ofNat c.toNat

variable (v : ℤ)

/-- `strconv.AppendInt(nil, v, 10)`. -/
def formatInt : Bytes := if v < 0 then minus :: formatNat v.natAbs else formatNat v.natAbs

/-! ### Decimal digits -/

theorem isDigit_char {n : ℕ} {c : Char} (h : c ∈ Nat.toDigits 10 n) : 0x30 ≤ c.toNat ∧ c.toNat ≤ 0x39 := by
  have hc := Nat.isDigit_of_mem_toDigits (by norm_num) (by norm_num) h
  simp only [Char.isDigit, Bool.and_eq_true, decide_eq_true_eq] at hc
  exact hc

theorem toNat_digit {n : ℕ} {c : Char} (h : c ∈ Nat.toDigits 10 n) : (UInt8.ofNat c.toNat).toNat = c.toNat := by
  have := isDigit_char h
  simp only [UInt8.toNat_ofNat']
  omega

theorem isDigit_formatNat : ∀ b ∈ formatNat n, isDigit b = true := by
  intro b hb
  obtain ⟨c, hc, rfl⟩ := mem_map.mp hb
  have := isDigit_char hc
  simp only [isDigit, Bool.and_eq_true, decide_eq_true_eq, UInt8.le_iff_toNat_le, toNat_digit hc]
  exact this

theorem chars_formatNat : chars (formatNat n) = Nat.toDigits 10 n := by
  unfold chars formatNat
  rw [map_map]
  refine (map_congr_left fun c hc => ?_).trans (map_id _)
  simp [toNat_digit hc]

@[simp] theorem readNat_formatNat : readNat (formatNat n) = n := by
  rw [readNat, chars_formatNat, Nat.ofDigitChars_toDigits (by norm_num) (by norm_num)]

theorem digitChar_ne_zero : ∀ d < 10, 0 < d → UInt8.ofNat d.digitChar.toNat ≠ 0x30 := by decide

theorem formatNat_pos {n : ℕ} (hn : 0 < n) : ∃ d ds, formatNat n = d :: ds ∧ d ≠ 0x30 := by
  induction n using Nat.strongRecOn with
  | _ n ih =>
    unfold formatNat
    rw [Nat.toDigits_eq_if (by norm_num)]
    split_ifs with h
    · exact ⟨_, [], rfl, digitChar_ne_zero n h hn⟩
    · obtain ⟨d, ds, heq, hd⟩ := ih (n / 10) (by omega) (by omega)
      unfold formatNat at heq
      exact ⟨d, ds ++ [_], by rw [map_append, heq]; rfl, hd⟩

theorem formatNat_ne_nil : formatNat n ≠ [] := by
  rcases Nat.eq_zero_or_pos n with rfl | hn
  · decide
  · obtain ⟨d, ds, heq, -⟩ := formatNat_pos hn
    simp [heq]

theorem head_formatNat : (formatNat n).head? ≠ some minus := by
  intro h
  exact absurd (isDigit_formatNat n minus (mem_of_mem_head? h)) (by decide)

/-! ### An integer in decimal is read back -/

theorem formatInt_neg {v : ℤ} (h : v < 0) : formatInt v = minus :: formatNat v.natAbs := if_pos h

theorem formatInt_nonneg {v : ℤ} (h : ¬v < 0) : formatInt v = formatNat v.natAbs := if_neg h

theorem all_formatNat : (formatNat n).all isDigit = true :=
  all_eq_true.mpr (isDigit_formatNat n)

theorem parseUint_formatInt : parseUint (formatInt v) = if IntType.uint64.InRange v then some v else none := by
  by_cases hv : v < 0
  · have hr : ¬IntType.uint64.InRange v := fun h => by
      have : (0 : ℤ) ≤ v := h.1
      omega
    rw [formatInt_neg hv, if_neg hr]
    exact if_neg fun h => absurd h.2.1 (by simp [isDigit, minus])
  · have hval : (v.natAbs : ℤ) = v := by omega
    rw [formatInt_nonneg hv, parseUint]
    simp [hval, all_formatNat, formatNat_ne_nil]

theorem parseInt_formatInt : parseInt (formatInt v) = if IntType.int64.InRange v then some v else none := by
  by_cases hv : v < 0
  · have hval : -(v.natAbs : ℤ) = v := by omega
    rw [formatInt_neg hv, parseInt]
    simp only [List.head?_cons, if_true, tail_cons, readNat_formatNat, hval, all_formatNat, ne_eq,
      formatNat_ne_nil, not_false_eq_true, true_and]
  · have hval : (v.natAbs : ℤ) = v := by omega
    rw [formatInt_nonneg hv, parseInt]
    simp only [head_formatNat, if_false, readNat_formatNat, hval, all_formatNat, ne_eq,
      formatNat_ne_nil, not_false_eq_true, true_and]

theorem takeWhile_formatNat : (formatNat n).takeWhile isDigit = formatNat n :=
  takeWhile_eq_self_iff.mpr (isDigit_formatNat n)

theorem dropWhile_formatNat : (formatNat n).dropWhile isDigit = [] :=
  dropWhile_eq_nil_iff.mpr (isDigit_formatNat n)

theorem parts_formatInt : parts (formatInt v) = { neg := v < 0, int := formatNat v.natAbs, frac := [], exp := 0 } := by
  by_cases hv : v < 0
  · rw [formatInt_neg hv]
    simp [parts, takeWhile_formatNat, dropWhile_formatNat, expOf, hv]
  · rw [formatInt_nonneg hv]
    simp [parts, head_formatNat, takeWhile_formatNat, dropWhile_formatNat, expOf, hv]

theorem parseFloat_formatInt_eq (f : Format) (v : ℤ) : parseFloat f (formatInt v) =
    if v < 0 then (f.round v.natAbs 1).map (- ·) else f.round v.natAbs 1 := by
  unfold parseFloat
  rw [parts_formatInt]
  simp [readNat_formatNat]

/-- **Read as a float64, an integer in decimal is rounded.** -/
theorem parseFloat_formatInt {v : ℤ} (h : v.natAbs < 2 ^ 200) :
    parseFloat float64 (formatInt v) = some (roundInt v : ℚ) := by
  rw [parseFloat_formatInt_eq, round_nat h]
  split_ifs with hv
  · rw [roundInt_of_neg hv]
    push_cast
    rfl
  · rw [roundInt_of_nonneg hv]
    rfl

/-! ### It is a number token -/

theorem feed_digits : ∀ {ds acc : Bytes}, (∀ d ∈ ds, isDigit d = true) →
    feed ds (.num acc .int) = some (.num (acc ++ ds) .int, [])
  | [], acc, _ => by simp [feed]
  | d :: ds, acc, h => by
    have hstep : lexStep (.num acc .int) d = some (.num (acc ++ [d]) .int, []) := by
      simp [lexStep, NumState.step, h d (by simp)]
    rw [feed, hstep]
    simp [feed_digits fun x hx => h x (mem_cons_of_mem d hx)]

theorem feed_formatNat (s : LexState) (acc : Bytes) (n : ℕ)
    (hzero : lexStep s 0x30 = some (.num (acc ++ [0x30]) .zero, []))
    (hdigit : ∀ d, isDigit d = true → d ≠ 0x30 → lexStep s d = some (.num (acc ++ [d]) .int, [])) :
    ∃ m : NumState, m.accepting = true ∧ feed (formatNat n) s = some (.num (acc ++ formatNat n) m, []) := by
  rcases Nat.eq_zero_or_pos n with rfl | hn
  · refine ⟨.zero, rfl, ?_⟩
    have h0 : formatNat 0 = [0x30] := by decide
    rw [h0, feed, hzero]
    rfl
  · obtain ⟨d, ds, heq, hd⟩ := formatNat_pos hn
    have hdig := isDigit_formatNat n
    rw [heq] at hdig ⊢
    refine ⟨.int, rfl, ?_⟩
    rw [feed, hdigit d (hdig d (by simp)) hd]
    simp [feed_digits fun x hx => hdig x (mem_cons_of_mem d hx)]

theorem idleStep_digit (d : UInt8) (hd : isDigit d = true) (hne : d ≠ 0x30) :
    idleStep d = some (.num [d] .int, []) := by
  have key : ∀ k < 10, UInt8.ofNat (0x30 + k) ≠ 0x30 → idleStep (.ofNat (0x30 + k)) =
      some (.num [.ofNat (0x30 + k)] .int, []) := by decide
  simp only [isDigit, Bool.and_eq_true, decide_eq_true_eq] at hd
  have hsplit : d = .ofNat (0x30 + (d.toNat - 0x30)) := by
    have : 0x30 + (d.toNat - 0x30) = d.toNat := Nat.add_sub_of_le hd.1
    rw [this, UInt8.ofNat_toNat]
  have hlt : d.toNat - 0x30 < 10 := by
    have : d.toNat ≤ 0x39 := hd.2
    omega
  rw [hsplit] at hne ⊢
  exact key _ hlt hne

theorem validScalar_formatInt : ValidScalar (formatInt v) := by
  right
  by_cases hv : v < 0
  · rw [formatInt_neg hv]
    obtain ⟨m, hm, hfeed⟩ := feed_formatNat (.num [minus] .neg) [minus] v.natAbs rfl
      fun d hd hne => by simp [lexStep, NumState.step, hd, hne]
    refine ⟨m, hm, ?_⟩
    have hstep : lexStep .idle minus = some (.num [minus] .neg, []) := rfl
    rw [feed, hstep]
    simp [hfeed]
  · rw [formatInt_nonneg hv]
    exact feed_formatNat .idle [] v.natAbs rfl idleStep_digit

end CoreC.Lib.Json.Number
