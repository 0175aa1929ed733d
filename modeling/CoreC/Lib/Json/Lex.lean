import Mathlib.Data.List.Basic

/-! # JSON tokens

A JSON text is cut into tokens by an automaton that reads one byte at a time, the way the scanner of
`encoding/json` does: blanks between tokens are skipped, and a literal, a number or a string is one
scalar token that keeps its bytes. A number ends where the next byte does not continue it, so it is
emitted together with what the next byte starts.

* `validScalar_of_mem_lex`: every scalar token of a text is valid, i.e. is itself read as one token. -/

namespace CoreC.Lib.Json.Lex

open List Option

abbrev Bytes := List UInt8

inductive Punct where
  | lbrace | rbrace | lbracket | rbracket | colon | comma
  deriving DecidableEq, Repr

def Punct.byte : Punct → UInt8
  | lbrace => 0x7b
  | rbrace => 0x7d
  | lbracket => 0x5b
  | rbracket => 0x5d
  | colon => 0x3a
  | comma => 0x2c

/-- A token; a scalar keeps its bytes, quotes included. -/
inductive Tok where
  | punct (p : Punct)
  | scalar (s : Bytes)
  deriving DecidableEq, Repr

variable (b : UInt8)

def punctOf : Option Punct :=
  [Punct.lbrace, .rbrace, .lbracket, .rbracket, .colon, .comma].find? fun p => p.byte = b

def isSpace : Bool := b = 0x20 || b = 0x09 || b = 0x0a || b = 0x0d

def isDigit : Bool := 0x30 ≤ b && b ≤ 0x39

def isHex : Bool := isDigit b || (0x41 ≤ b && b ≤ 0x46) || (0x61 ≤ b && b ≤ 0x66)

def quoteByte : UInt8 := 0x22

def backslash : UInt8 := 0x5c

inductive NumState where
  | neg | zero | int | dot | frac | exp | expSign | expInt
  deriving DecidableEq, Repr

def NumState.accepting : NumState → Bool
  | zero | int | frac | expInt => true
  | _ => false

def NumState.step (n : NumState) (b : UInt8) : Option NumState :=
  match n with
  | neg => if b = 0x30 then some zero else if isDigit b then some int else none
  | zero => if b = 0x2e then some dot else if b = 0x65 ∨ b = 0x45 then some exp else none
  | int =>
    if isDigit b then some int else if b = 0x2e then some dot
    else if b = 0x65 ∨ b = 0x45 then some exp else none
  | dot => if isDigit b then some frac else none
  | frac => if isDigit b then some frac else if b = 0x65 ∨ b = 0x45 then some exp else none
  | exp => if b = 0x2b ∨ b = 0x2d then some expSign else if isDigit b then some expInt else none
  | expSign => if isDigit b then some expInt else none
  | expInt => if isDigit b then some expInt else none

/-- Where a string stands: outside an escape, after a backslash, or with `n` hexadecimal digits to
come. -/
inductive StrState where
  | plain | escape
  | hex (n : ℕ)
  deriving DecidableEq, Repr

/-- The state inside a string after a byte other than its end. -/
def StrState.step (e : StrState) (b : UInt8) : Option StrState :=
  match e with
  | plain => if b = backslash then some escape else if b < 0x20 then none else some plain
  | escape =>
    if b ∈ [0x62, 0x66, 0x6e, 0x72, 0x74, 0x5c, 0x2f, 0x22] then some plain
    else if b = 0x75 then some (hex 4) else none
  | hex n => if isHex b then some (if n ≤ 1 then plain else hex (n - 1)) else none

/-- The state of the automaton; `acc` are the bytes of the current scalar. -/
inductive LexState where
  | idle
  | str (acc : Bytes) (e : StrState)
  | num (acc : Bytes) (n : NumState)
  | lit (acc rest : Bytes)
  deriving DecidableEq, Repr

def idleStep : Option (LexState × List Tok) :=
  match punctOf b with
  | some p => some (.idle, [.punct p])
  | none =>
    if isSpace b then some (.idle, [])
    else if b = quoteByte then some (.str [b] .plain, [])
    else if b = 0x74 then some (.lit [b] [0x72, 0x75, 0x65], [])
    else if b = 0x66 then some (.lit [b] [0x61, 0x6c, 0x73, 0x65], [])
    else if b = 0x6e then some (.lit [b] [0x75, 0x6c, 0x6c], [])
    else if b = 0x2d then some (.num [b] .neg, [])
    else if b = 0x30 then some (.num [b] .zero, [])
    else if isDigit b then some (.num [b] .int, [])
    else none

def lexStep (s : LexState) (b : UInt8) : Option (LexState × List Tok) :=
  match s with
  | .idle => idleStep b
  | .str acc e =>
    if e = .plain ∧ b = quoteByte then some (.idle, [.scalar (acc ++ [b])])
    else (e.step b).map fun e' => (.str (acc ++ [b]) e', [])
  | .lit acc (r :: rest) =>
    if b = r then
      if rest = [] then some (.idle, [.scalar (acc ++ [b])]) else some (.lit (acc ++ [b]) rest, [])
    else none
  | .lit _ [] => none
  | .num acc n =>
    match n.step b with
    | some n' => some (.num (acc ++ [b]) n', [])
    | none =>
      if n.accepting then (idleStep b).map fun x => (x.1, .scalar acc :: x.2) else none

def feed : Bytes → LexState → Option (LexState × List Tok)
  | [], s => some (s, [])
  | b :: bs, s => (lexStep s b).bind fun x => (feed bs x.1).map fun y => (y.1, x.2 ++ y.2)

def finish : LexState → Option (List Tok)
  | .idle => some []
  | .num acc n => if n.accepting then some [.scalar acc] else none
  | _ => none

def lexFrom (s : LexState) (bs : Bytes) : Option (List Tok) :=
  (feed bs s).bind fun x => (finish x.1).map (x.2 ++ ·)

def lex (bs : Bytes) : Option (List Tok) := lexFrom .idle bs

/-! ### Feeding pieces -/

theorem feed_append : ∀ a b s,
    feed (a ++ b) s = (feed a s).bind fun x => (feed b x.1).map fun y => (y.1, x.2 ++ y.2)
  | [], b, s => by simp [feed]
  | c :: a, b, s => by
    rw [cons_append, feed, feed]
    cases lexStep s c with
    | none => rfl
    | some x =>
      simp only [bind_some, feed_append a b x.1]
      cases feed a x.1 with
      | none => rfl
      | some y =>
        simp only [Option.bind_some, Option.map_some, Option.map_map]
        cases feed b y.1 with
        | none => rfl
        | some z => simp

variable {s s' : LexState} {ts : List Tok} {b : UInt8}

theorem lexFrom_append {a : Bytes} (h : feed a s = some (s', ts))
    (b : Bytes) : lexFrom s (a ++ b) = (lexFrom s' b).map (ts ++ ·) := by
  unfold lexFrom
  rw [feed_append, h]
  simp only [bind_some]
  cases feed b s' with
  | none => rfl
  | some y =>
    simp only [map_some, bind_some]
    cases finish y.1 <;> simp

theorem lexFrom_cons {bs : Bytes}
    (h : lexStep s b = some (s', ts)) : lexFrom s (b :: bs) = (lexFrom s' bs).map (ts ++ ·) :=
  lexFrom_append (a := [b]) (by simp [feed, h]) bs

/-! ### Scalars -/

/-- The text is read as one scalar token, possibly pending at its end. -/
def ValidScalar (s : Bytes) : Prop :=
  feed s .idle = some (.idle, [.scalar s]) ∨ ∃ n : NumState, n.accepting = true ∧ feed s .idle = some (.num s n, [])

def Delimited (rest : Bytes) : Prop := rest = [] ∨ ∃ p : Punct, ∃ r, rest = p.byte :: r

@[simp] theorem idleStep_punct (p : Punct) : idleStep p.byte = some (.idle, [.punct p]) := by
  cases p <;> decide

theorem numStep_punct (n : NumState) (p : Punct) : n.step p.byte = none := by
  cases n <;> cases p <;> decide

theorem lex_punct (p : Punct) (rest : Bytes) : lex (p.byte :: rest) = (lex rest).map (.punct p :: ·) := by
  have hidle : lexStep .idle p.byte = some (.idle, [.punct p]) := idleStep_punct p
  unfold lex
  rw [lexFrom_cons hidle]
  rfl

/-- **A valid scalar in front of a delimiter is one token.** -/
theorem lex_scalar {s rest : Bytes} (hs : ValidScalar s) (hrest : Delimited rest) :
    lex (s ++ rest) = (lex rest).map (.scalar s :: ·) := by
  unfold lex
  rcases hs with hs | ⟨n, hn, hs⟩
  · rw [lexFrom_append hs]
    rfl
  · rw [lexFrom_append hs]
    rcases hrest with rfl | ⟨p, r, rfl⟩
    · simp [lexFrom, feed, finish, hn]
    · have hnum : lexStep (.num s n) p.byte = some (.idle, [.scalar s, .punct p]) := by
        simp [lexStep, numStep_punct, hn]
      have hidle : lexStep .idle p.byte = some (.idle, [.punct p]) := idleStep_punct p
      rw [lexFrom_cons hnum, lexFrom_cons hidle]
      cases lexFrom .idle r <;> simp

/-! ### The scalars of a text are valid -/

def LexState.content : LexState → Bytes
  | idle => []
  | str acc _ => acc
  | num acc _ => acc
  | lit acc _ => acc

def LexInv (s : LexState) : Prop := s = .idle ∨ feed s.content .idle = some (s, [])

theorem idleStep_cases (h : idleStep b = some (s, ts)) :
    (s = .idle ∧ ∀ t, Tok.scalar t ∉ ts) ∨ s.content = [b] ∧ ts = [] := by
  unfold idleStep at h
  split at h
  · cases h
    exact .inl ⟨rfl, by simp⟩
  · split_ifs at h <;> cases h
    · exact .inl ⟨rfl, by simp⟩
    all_goals exact .inr ⟨rfl, rfl⟩

theorem idleStep_inv (h : idleStep b = some (s, ts)) : LexInv s ∧ ∀ t, Tok.scalar t ∉ ts := by
  rcases idleStep_cases h with ⟨rfl, hts⟩ | ⟨hc, rfl⟩
  · exact ⟨.inl rfl, hts⟩
  · refine ⟨.inr ?_, by simp⟩
    rw [hc]
    simp [feed, lexStep, h]

theorem lexStep_cases (hs : s ≠ .idle) (h : lexStep s b = some (s', ts)) : (s'.content = s.content ++ [b] ∧ ts = []) ∨
      (s' = .idle ∧ ts = [.scalar (s.content ++ [b])]) ∨
      ∃ n ts', s = .num s.content n ∧ n.accepting = true ∧ idleStep b = some (s', ts') ∧
        ts = .scalar s.content :: ts' := by
  cases s with
  | idle => exact absurd rfl hs
  | str acc e =>
    simp only [lexStep] at h
    split_ifs at h
    · cases h
      exact .inr (.inl ⟨rfl, rfl⟩)
    · obtain ⟨e', -, heq⟩ := map_eq_some_iff.mp h
      cases heq
      exact .inl ⟨rfl, rfl⟩
  | lit acc rest =>
    cases rest with
    | nil => cases h
    | cons r rest =>
      simp only [lexStep] at h
      split_ifs at h
      · cases h
        exact .inr (.inl ⟨rfl, rfl⟩)
      · cases h
        exact .inl ⟨rfl, rfl⟩
  | num acc n =>
    simp only [lexStep] at h
    split at h
    · cases h
      exact .inl ⟨rfl, rfl⟩
    · split_ifs at h with hn
      obtain ⟨⟨s0, ts0⟩, hidle, heq⟩ := map_eq_some_iff.mp h
      cases heq
      exact .inr (.inr ⟨n, ts0, rfl, hn, hidle, rfl⟩)

theorem lexStep_inv (hI : LexInv s)
    (h : lexStep s b = some (s', ts)) : LexInv s' ∧ ∀ t, Tok.scalar t ∈ ts → ValidScalar t := by
  by_cases hs : s = .idle
  · subst hs
    obtain ⟨h1, h2⟩ := idleStep_inv h
    exact ⟨h1, fun t ht => absurd ht (h2 t)⟩
  · have hfeed := hI.resolve_left hs
    have hnext : feed (s.content ++ [b]) .idle = some (s', ts) := by
      rw [feed_append, hfeed]
      simp [feed, h]
    rcases lexStep_cases hs h with ⟨hc, rfl⟩ | ⟨rfl, rfl⟩ | ⟨n, ts', hnum, hn, hidle, rfl⟩
    · exact ⟨.inr (by rw [hc, hnext]), by simp⟩
    · refine ⟨.inl rfl, fun t ht => ?_⟩
      cases mem_singleton.mp ht
      exact .inl hnext
    · obtain ⟨h1, h2⟩ := idleStep_inv hidle
      refine ⟨h1, fun t ht => ?_⟩
      rcases mem_cons.mp ht with heq | ht
      · cases heq
        exact .inr ⟨n, hn, by rw [hfeed, ← hnum]⟩
      · exact absurd ht (h2 t)

theorem feed_inv : ∀ {bs : Bytes} {s s' : LexState} {ts : List Tok}, LexInv s →
    feed bs s = some (s', ts) → LexInv s' ∧ ∀ t, Tok.scalar t ∈ ts → ValidScalar t
  | [], s, s', ts, hI, h => by
    cases h
    exact ⟨hI, by simp⟩
  | b :: bs, s, s', ts, hI, h => by
    rw [feed] at h
    obtain ⟨⟨s1, ts1⟩, h1, h2⟩ := bind_eq_some_iff.mp h
    obtain ⟨⟨s2, ts2⟩, h3, heq⟩ := map_eq_some_iff.mp h2
    cases heq
    obtain ⟨hI1, hv1⟩ := lexStep_inv hI h1
    obtain ⟨hI2, hv2⟩ := feed_inv hI1 h3
    refine ⟨hI2, fun t ht => ?_⟩
    rcases mem_append.mp ht with ht | ht
    · exact hv1 t ht
    · exact hv2 t ht

theorem validScalar_of_mem_lex {bs : Bytes} (h : lex bs = some ts) {t : Bytes}
    (ht : Tok.scalar t ∈ ts) : ValidScalar t := by
  obtain ⟨⟨s, ts1⟩, h1, h2⟩ := bind_eq_some_iff.mp h
  obtain ⟨ts2, h3, rfl⟩ := map_eq_some_iff.mp h2
  obtain ⟨hI, hv⟩ := feed_inv (.inl rfl) h1
  rcases mem_append.mp ht with hfed | hpending
  · exact hv t hfed
  · cases s with
    | idle =>
      cases h3
      cases hpending
    | num acc n =>
      simp only [finish] at h3
      split_ifs at h3 with hn
      cases h3
      cases mem_singleton.mp hpending
      exact .inr ⟨n, hn, hI.resolve_left (by simp)⟩
    | str | lit => cases h3

end CoreC.Lib.Json.Lex
