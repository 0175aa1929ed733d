import Mathlib.Data.List.Infix

/-! # Text helpers of the Go standard library

The functions of `strings` and `unicode` the program calls, on lists of characters. Case mapping and
case folding are only compared with ASCII constants, so of the other runes only those matter that
fold or map to an ASCII letter: U+017F (to `s` and `S`), U+0131 (to `I`), U+0130 (to `i`) and the
Kelvin sign U+212A (to `k`). -/

namespace CoreC.Lib.GoText

open List

variable (c : Char)

def isSpace : Bool :=
  c.toNat ∈ [0x09, 0x0a, 0x0b, 0x0c, 0x0d, 0x20, 0x85, 0xa0, 0x1680, 0x2028, 0x2029, 0x202f, 0x205f,
    0x3000] || (0x2000 ≤ c.toNat && c.toNat ≤ 0x200a)

/-- `\s` of a regular expression: the ASCII blanks. -/
def isBlank : Bool := c ∈ ['\t', '\n', '\x0c', '\r', ' ']

def trimSpace (s : List Char) : List Char :=
  ((s.dropWhile isSpace).reverse.dropWhile isSpace).reverse

/-- The rune `unicode.ToUpper` gives, where that is an ASCII one. -/
def upperRune : Char :=
  if c.toNat = 0x17f then 'S' else if c.toNat = 0x131 then 'I' else c.toUpper

/-- The rune `unicode.ToLower` gives, where that is an ASCII one. -/
def lowerRune : Char :=
  if c.toNat = 0x130 then 'i' else if c.toNat = 0x212a then 'k' else c.toLower

def foldRune : Char :=
  if c.toNat = 0x17f then 's' else if c.toNat = 0x212a then 'k' else c.toLower

/-- `strings.EqualFold`, against an ASCII text. -/
def equalFold (s t : List Char) : Bool := s.map foldRune = t.map foldRune

/-- `s[n:]`, for an `n` at a rune boundary: the runes after the first `n` bytes. -/
def dropBytes : ℕ → List Char → List Char
  | _, [] => []
  | n, c :: s => if n = 0 then c :: s else dropBytes (n - c.utf8Size) s

/-- `strings.HasPrefix(strings.ToUpper(s), p)`. -/
def hasUpperPrefix (p s : List Char) : Bool := p.isPrefixOf (s.map upperRune)

/-! ### Containment -/

theorem tails_any_isPrefixOf {p s : List Char} : s.tails.any p.isPrefixOf = true ↔ p <:+: s := by
  simp only [any_eq_true, mem_tails, isPrefixOf_iff_prefix, infix_iff_prefix_suffix]
  exact exists_congr fun t => and_comm

theorem prefix_append_cons {c : Char} {p s t : List Char} (hc : c ∉ p) (h : p <+: s ++ c :: t) : p <+: s := by
  rcases prefix_or_prefix_of_prefix h (prefix_append s (c :: t)) with h' | ⟨r, rfl⟩
  · exact h'
  · have hr : r <+: c :: t := (prefix_append_right_inj s).mp h
    cases r with
    | nil => simp
    | cons d r =>
      obtain rfl := (cons_prefix_cons.mp hr).1
      simp at hc

/-- **A text without a character lies on one side of it.** -/
theorem infix_append_cons {c : Char} {p : List Char} (hc : c ∉ p) (s t : List Char) :
    p <:+: s ++ c :: t ↔ p <:+: s ∨ p <:+: t := by
  constructor
  · intro h
    induction s with
    | nil =>
      rcases infix_cons_iff.mp h with h | h
      · exact .inl (prefix_append_cons (s := []) hc h).isInfix
      · exact .inr h
    | cons d s ih =>
      rcases infix_cons_iff.mp h with h | h
      · exact .inl (prefix_append_cons (s := d :: s) hc h).isInfix
      · rcases ih h with h | h
        · exact .inl (infix_cons h)
        · exact .inr h
  · rintro (h | h)
    · exact h.trans (prefix_append _ _).isInfix
    · exact h.trans ((suffix_cons c t).trans (suffix_append _ _)).isInfix

/-- No end of `a` overlaps with the beginning of `p`, and `p` is not in `a`. -/
def apart (p : List Char) : List Char → Bool
  | [] => true
  | c :: a => !p.isPrefixOf (c :: a) && !(c :: a).isPrefixOf p && apart p a

theorem infix_append_of_apart {p a : List Char} (h : apart p a = true) (t : List Char) : p <:+: a ++ t ↔ p <:+: t := by
  induction a with
  | nil => rfl
  | cons c a ih =>
    simp only [apart, Bool.and_eq_true, Bool.not_eq_true', ← Bool.not_eq_true, isPrefixOf_iff_prefix] at h
    obtain ⟨⟨hp, ha⟩, hrest⟩ := h
    rw [cons_append, infix_cons_iff, ih hrest]
    refine or_iff_right fun hprefix => ?_
    rcases prefix_or_prefix_of_prefix hprefix (prefix_append (c :: a) t) with h | h
    · exact hp h
    · exact ha h

theorem apart_of_notMem {p a : List Char} (hp : p ≠ []) (h : ∀ c ∈ a, c ∉ p) : apart p a = true := by
  induction a with
  | nil => rfl
  | cons c a ih =>
    have hc : c ∉ p := h c mem_cons_self
    have hbefore : ¬ p <+: c :: a := fun hprefix => by
      cases p with
      | nil => exact hp rfl
      | cons d p => exact hc ((cons_prefix_cons.mp hprefix).1 ▸ mem_cons_self)
    have hbehind : ¬ c :: a <+: p := fun hhead => hc (hhead.subset mem_cons_self)
    simp only [apart, Bool.and_eq_true, Bool.not_eq_true', ← Bool.not_eq_true, isPrefixOf_iff_prefix]
    exact ⟨⟨hbefore, hbehind⟩, ih fun d hd => h d (mem_cons_of_mem _ hd)⟩

end CoreC.Lib.GoText
