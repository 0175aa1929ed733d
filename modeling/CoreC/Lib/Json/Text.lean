import CoreC.Lib.Json.Lex

/-! # JSON strings

The text a string token denotes (`unquote`), and the token `encoding/json` writes for a Go string
(`quote`), with the characters escaped that are special in HTML. The decoder is an automaton, like the
scanner: it reads UTF-8 and the escapes one byte at a time and puts U+FFFD for each byte that is not
UTF-8 and for each half of a surrogate pair without the other.

* `unquote_quote`: a written string is read back. -/

namespace CoreC.Lib.Json.Text

open Lib.Json.Lex List

def replacementChar : Char := Char.ofNat 0xfffd

def encodeRune (c : Char) : Bytes :=
  let v := c.toNat
  if v < 0x80 then [.ofNat v]
  else if v < 0x800 then [.ofNat (0xc0 + v / 64), .ofNat (0x80 + v % 64)]
  else if v < 0x10000 then
    [.ofNat (0xe0 + v / 4096), .ofNat (0x80 + v / 64 % 64), .ofNat (0x80 + v % 64)]
  else
    [.ofNat (0xf0 + v / 262144), .ofNat (0x80 + v / 4096 % 64), .ofNat (0x80 + v / 64 % 64), .ofNat (0x80 + v % 64)]

variable (s : String)

def utf8 : Bytes := s.toList.flatMap encodeRune

/-! ### Reading -/

/-- Where the decoder stands: between characters, inside a character of UTF-8 (its first byte, the number of its bytes
read and their bits), after an escaped high surrogate, after a backslash, or with `more` hexadecimal digits to come.
-/
inductive DecState where
  | plain
  | utf8 (lead seen acc : ℕ)
  | high (u : ℕ)
  | escape (pend : Option ℕ)
  | hex (pend : Option ℕ) (more acc : ℕ)

def runeLen (lead : ℕ) : ℕ := if lead < 0xe0 then 2 else if lead < 0xf0 then 3 else 4

def tailOk (lead seen b : ℕ) : Bool :=
  0x80 ≤ b && b ≤ 0xbf && (seen != 1 || ((lead != 0xe0 || 0xa0 ≤ b) && (lead != 0xed || b ≤ 0x9f) &&
      (lead != 0xf0 || 0x90 ≤ b) && (lead != 0xf4 || b ≤ 0x8f)))

def plainStep (b : UInt8) : DecState × List Char :=
  if b = backslash then (.escape none, [])
  else if b.toNat < 0x80 then (.plain, [Char.ofNat b.toNat])
  else if b.toNat < 0xc2 ∨ 0xf4 < b.toNat then (.plain, [replacementChar])
  else if b.toNat < 0xe0 then (.utf8 b.toNat 1 (b.toNat - 0xc0), [])
  else if b.toNat < 0xf0 then (.utf8 b.toNat 1 (b.toNat - 0xe0), [])
  else (.utf8 b.toNat 1 (b.toNat - 0xf0), [])

/-- The character of an escape other than `u`. -/
def escapedChar (b : UInt8) : Char :=
  if b = 0x62 then '\x08'
  else if b = 0x66 then '\x0c'
  else if b = 0x6e then '\n'
  else if b = 0x72 then '\r'
  else if b = 0x74 then '\t'
  else Char.ofNat b.toNat

def hexVal (b : UInt8) : ℕ :=
  if b.toNat ≤ 0x39 then b.toNat - 0x30
  else if b.toNat ≤ 0x46 then b.toNat - 0x37
  else b.toNat - 0x57

def unitStep (v : ℕ) : DecState × List Char :=
  if 0xd800 ≤ v ∧ v < 0xdc00 then (.high v, [])
  else if 0xdc00 ≤ v ∧ v < 0xe000 then (.plain, [replacementChar])
  else (.plain, [Char.ofNat v])

variable (pend : Option ℕ)

def pairStep (v : ℕ) : DecState × List Char :=
  match pend with
  | none => unitStep v
  | some u =>
    if 0xdc00 ≤ v ∧ v < 0xe000 then
      (.plain, [Char.ofNat (0x10000 + (u - 0xd800) * 1024 + (v - 0xdc00))])
    else ((unitStep v).1, replacementChar :: (unitStep v).2)

def lone : List Char := if pend.isSome then [replacementChar] else []

def DecState.pending : DecState → List Char
  | plain => []
  | utf8 _ seen _ => replicate seen replacementChar
  | high _ => [replacementChar]
  | escape pend => lone pend
  | hex pend _ _ => lone pend

def decStep (s : DecState) (b : UInt8) : DecState × List Char :=
  match s with
  | .plain => plainStep b
  | .utf8 lead seen acc =>
    if tailOk lead seen b.toNat then
      if seen + 1 = runeLen lead then (.plain, [Char.ofNat (acc * 64 + b.toNat % 64)])
      else (.utf8 lead (seen + 1) (acc * 64 + b.toNat % 64), [])
    else ((plainStep b).1, s.pending ++ (plainStep b).2)
  | .high u =>
    if b = backslash then (.escape (some u), [])
    else ((plainStep b).1, s.pending ++ (plainStep b).2)
  | .escape pend =>
    if b = 0x75 then (.hex pend 4 0, []) else (.plain, lone pend ++ [escapedChar b])
  | .hex pend more acc =>
    if more ≤ 1 then pairStep pend (acc * 16 + hexVal b)
    else (.hex pend (more - 1) (acc * 16 + hexVal b), [])

def decode : DecState → Bytes → List Char
  | s, [] => s.pending
  | s, b :: bs => (decStep s b).2 ++ decode (decStep s b).1 bs

def body (tok : Bytes) : Bytes := (tok.drop 1).dropLast

def unquote (tok : Bytes) : String := String.ofList (decode .plain (body tok))

/-! ### Writing -/

def hexDigit (d : ℕ) : UInt8 := .ofNat (if d < 10 then 0x30 + d else 0x57 + d)

def unitEscape (v : ℕ) : Bytes :=
  [backslash, 0x75, hexDigit (v / 4096), hexDigit (v / 256 % 16), hexDigit (v / 16 % 16), hexDigit (v % 16)]

/-- The characters `encoding/json` escapes though JSON would not need it. -/
def isHtml (v : ℕ) : Bool := v = 0x3c || v = 0x3e || v = 0x26 || v = 0x2028 || v = 0x2029

def quoteRune (c : Char) : Bytes :=
  if c = '"' ∨ c = '\\' then [backslash, .ofNat c.toNat]
  else if c = '\x08' then [backslash, 0x62]
  else if c = '\x0c' then [backslash, 0x66]
  else if c = '\n' then [backslash, 0x6e]
  else if c = '\r' then [backslash, 0x72]
  else if c = '\t' then [backslash, 0x74]
  else if c.toNat < 0x20 ∨ isHtml c.toNat then unitEscape c.toNat
  else encodeRune c

def quote : Bytes := quoteByte :: (s.toList.flatMap quoteRune ++ [quoteByte])

/-! ### A written string is read back -/

theorem hexVal_hexDigit : ∀ d < 16, hexVal (hexDigit d) = d := by decide

variable {b : UInt8} {l v : ℕ}

theorem decode_cons {s s' : DecState} {cs : List Char} (h : decStep s b = (s', cs))
    (bs : Bytes) : decode s (b :: bs) = cs ++ decode s' bs := by
  rw [decode, h]

theorem decode_escape (hb : b ≠ 0x75) (bs : Bytes) :
    decode .plain (backslash :: b :: bs) = escapedChar b :: decode .plain bs := by
  simp [decode, decStep, plainStep, hb, lone]

theorem pairStep_of_lt (hv : v < 0xd800) : pairStep pend v = (.plain, lone pend ++ [Char.ofNat v]) := by
  have hunit : unitStep v = (.plain, [Char.ofNat v]) := by
    unfold unitStep
    rw [if_neg (by omega), if_neg (by omega)]
  cases pend with
  | none => exact hunit
  | some u =>
    unfold pairStep
    dsimp only
    rw [if_neg (by omega), hunit]
    rfl

theorem decode_unit (hv : v < 0xd800) (bs : Bytes) : decode (.escape pend) ((unitEscape v).tail ++ bs) =
      lone pend ++ Char.ofNat v :: decode .plain bs := by
  have h1 := hexVal_hexDigit (v / 4096) (by omega)
  have h2 := hexVal_hexDigit (v / 256 % 16) (by omega)
  have h3 := hexVal_hexDigit (v / 16 % 16) (by omega)
  have h4 := hexVal_hexDigit (v % 16) (by omega)
  have hsum : ((v / 4096 * 16 + v / 256 % 16) * 16 + v / 16 % 16) * 16 + v % 16 = v := by omega
  simp [unitEscape, decode, decStep, h1, h2, h3, h4, hsum, pairStep_of_lt pend hv]

theorem decode_unitEscape (hv : v < 0xd800) (bs : Bytes) :
    decode .plain (unitEscape v ++ bs) = Char.ofNat v :: decode .plain bs :=
  decode_unit none hv bs

theorem toNat_ofNat (h : v < 256) : (UInt8.ofNat v).toNat = v := by
  simp [Nat.mod_eq_of_lt h]

theorem ofNat_ne (h : v < 256) (hv : v ≠ b.toNat) : UInt8.ofNat v ≠ b := by
  intro heq
  have := congrArg UInt8.toNat heq
  rw [toNat_ofNat h] at this
  exact hv this

theorem decStep_lead (h1 : 0xc2 ≤ l) (h2 : l ≤ 0xf4) : decStep .plain (.ofNat l) =
    (.utf8 l 1 (l - (if l < 0xe0 then 0xc0 else if l < 0xf0 then 0xe0 else 0xf0)), []) := by
  unfold decStep plainStep
  rw [if_neg (ofNat_ne (by omega) (show l ≠ 0x5c by omega)), toNat_ofNat (by omega), if_neg (by omega),
    if_neg (by omega)]
  split_ifs <;> rfl

theorem decode_tail_last {n acc t : ℕ} (ht : tailOk l n (0x80 + t) = true) (hlt : t < 64) (hn : n + 1 = runeLen l)
    (bs : Bytes) :
    decode (.utf8 l n acc) (.ofNat (0x80 + t) :: bs) = Char.ofNat (acc * 64 + t) :: decode .plain bs := by
  have hmod : (0x80 + t) % 64 = t := by omega
  simp only [decode, decStep, toNat_ofNat (show 0x80 + t < 256 by omega), ht, hn, hmod, if_true, singleton_append]

theorem decode_tail_more {n acc t : ℕ} (ht : tailOk l n (0x80 + t) = true) (hlt : t < 64) (hn : n + 1 ≠ runeLen l)
    (bs : Bytes) :
    decode (.utf8 l n acc) (.ofNat (0x80 + t) :: bs) = decode (.utf8 l (n + 1) (acc * 64 + t)) bs := by
  have hmod : (0x80 + t) % 64 = t := by omega
  simp only [decode, decStep, toNat_ofNat (show 0x80 + t < 256 by omega), ht, hn, hmod, if_true, if_false,
    nil_append]

theorem decode_encodeRune {c : Char} (hc : c ≠ '\\') (bs : Bytes) :
    decode .plain (encodeRune c ++ bs) = c :: decode .plain bs := by
  have hself : Char.ofNat c.toNat = c := Char.ofNat_toNat c
  have hvalid : c.toNat < 0xd800 ∨ 0xdfff < c.toNat ∧ c.toNat < 0x110000 := c.valid
  have hne : c.toNat ≠ 0x5c := fun h => hc (by rw [← hself, h])
  unfold encodeRune
  dsimp only
  generalize c.toNat = v at *
  rw [← hself]
  split_ifs with h1 h2 h3
  · have hp : decStep .plain (.ofNat v) = (.plain, [Char.ofNat v]) := by
      unfold decStep plainStep
      rw [if_neg (ofNat_ne (by omega) hne), toNat_ofNat (by omega), if_pos h1]
    exact decode_cons hp bs
  · have hlead := decStep_lead (l := 0xc0 + v / 64) (by omega) (by omega)
    rw [if_pos (by omega), Nat.add_sub_cancel_left] at hlead
    have hlen : runeLen (0xc0 + v / 64) = 2 := if_pos (by omega)
    have htail : tailOk (0xc0 + v / 64) 1 (0x80 + v % 64) = true := by
      simp [tailOk]
      omega
    simp only [cons_append, nil_append]
    rw [decode_cons hlead, nil_append, decode_tail_last htail (Nat.mod_lt _ (by omega)) (by rw [hlen]),
      Nat.div_add_mod']
  · have hlead := decStep_lead (l := 0xe0 + v / 4096) (by omega) (by omega)
    rw [if_neg (by omega), if_pos (by omega), Nat.add_sub_cancel_left] at hlead
    have hlen : runeLen (0xe0 + v / 4096) = 3 := by
      unfold runeLen
      rw [if_neg (by omega), if_pos (by omega)]
    have htail1 : tailOk (0xe0 + v / 4096) 1 (0x80 + v / 64 % 64) = true := by
      simp [tailOk]
      omega
    have htail2 : tailOk (0xe0 + v / 4096) 2 (0x80 + v % 64) = true := by
      simp [tailOk]
      omega
    have hsum : (v / 4096 * 64 + v / 64 % 64) * 64 + v % 64 = v := by omega
    simp only [cons_append, nil_append]
    rw [decode_cons hlead, nil_append, decode_tail_more htail1 (Nat.mod_lt _ (by omega)) (by rw [hlen]; decide),
      decode_tail_last htail2 (Nat.mod_lt _ (by omega)) (by rw [hlen]), hsum]
  · have hlead := decStep_lead (l := 0xf0 + v / 262144) (by omega) (by omega)
    rw [if_neg (by omega), if_neg (by omega), Nat.add_sub_cancel_left] at hlead
    have hlen : runeLen (0xf0 + v / 262144) = 4 := by
      unfold runeLen
      rw [if_neg (by omega), if_neg (by omega)]
    have htail1 : tailOk (0xf0 + v / 262144) 1 (0x80 + v / 4096 % 64) = true := by
      simp [tailOk]
      omega
    have htail2 : tailOk (0xf0 + v / 262144) 2 (0x80 + v / 64 % 64) = true := by
      simp [tailOk]
      omega
    have htail3 : tailOk (0xf0 + v / 262144) 3 (0x80 + v % 64) = true := by
      simp [tailOk]
      omega
    have hsum : ((v / 262144 * 64 + v / 4096 % 64) * 64 + v / 64 % 64) * 64 + v % 64 = v := by omega
    simp only [cons_append, nil_append]
    rw [decode_cons hlead, nil_append, decode_tail_more htail1 (Nat.mod_lt _ (by omega)) (by rw [hlen]; decide),
      decode_tail_more htail2 (Nat.mod_lt _ (by omega)) (by rw [hlen]; decide),
      decode_tail_last htail3 (Nat.mod_lt _ (by omega)) (by rw [hlen]), hsum]

theorem decode_quoteRune (c : Char) (bs : Bytes) : decode .plain (quoteRune c ++ bs) = c :: decode .plain bs := by
  unfold quoteRune
  split_ifs with h1 h2 h3 h4 h5 h6 h7
  · rcases h1 with rfl | rfl <;> exact decode_escape (by decide) bs
  · subst h2
    exact decode_escape (by decide) bs
  · subst h3
    exact decode_escape (by decide) bs
  · subst h4
    exact decode_escape (by decide) bs
  · subst h5
    exact decode_escape (by decide) bs
  · subst h6
    exact decode_escape (by decide) bs
  · have hv : c.toNat < 0xd800 := by
      simp only [isHtml, Bool.or_eq_true, decide_eq_true_eq] at h7
      omega
    rw [decode_unitEscape hv, Char.ofNat_toNat]
  · exact decode_encodeRune (fun h => h1 (.inr h)) bs

theorem decode_quoteRunes : ∀ s bs,
    decode .plain (s.flatMap quoteRune ++ bs) = s ++ decode .plain bs
  | [], bs => rfl
  | c :: s, bs => by
    rw [flatMap_cons, append_assoc, decode_quoteRune, decode_quoteRunes s bs]
    rfl

@[simp] theorem body_quoted (b : Bytes) : body (quoteByte :: (b ++ [quoteByte])) = b := by
  simp [body]

@[simp] theorem unquote_quote : unquote (quote s) = s := by
  have h := decode_quoteRunes s.toList []
  rw [append_nil] at h
  simp [unquote, quote, h, decode, DecState.pending]

/-! ### Valid strings -/

/-- The scanner inside a string, up to the closing quote. -/
def strRun : Bytes → StrState → Option StrState
  | [], e => some e
  | b :: bs, e => if e = .plain ∧ b = quoteByte then none else (e.step b).bind (strRun bs)

theorem strRun_append : ∀ a b e, strRun (a ++ b) e = (strRun a e).bind (strRun b)
  | [], b, e => rfl
  | x :: a, b, e => by
    rw [cons_append, strRun, strRun]
    split_ifs
    · rfl
    · cases e.step x with
      | none => rfl
      | some e' => exact strRun_append a b e'

theorem feed_str : ∀ {bs acc : Bytes} {e e' : StrState}, strRun bs e = some e' →
    feed bs (.str acc e) = some (.str (acc ++ bs) e', [])
  | [], acc, e, e', h => by
    cases h
    simp [feed]
  | b :: bs, acc, e, e', h => by
    rw [strRun] at h
    split_ifs at h with hq
    obtain ⟨e1, h1, h2⟩ := Option.bind_eq_some_iff.mp h
    have hstep : lexStep (.str acc e) b = some (.str (acc ++ [b]) e1, []) := by
      simp [lexStep, hq, h1]
    rw [feed, hstep]
    simp [feed_str h2]

theorem validScalar_quoted {bs : Bytes} (h : strRun bs .plain = some .plain) :
    ValidScalar (quoteByte :: (bs ++ [quoteByte])) := by
  left
  have hopen : lexStep .idle quoteByte = some (.str [quoteByte] .plain, []) := rfl
  rw [feed, hopen]
  simp [feed_append, feed_str h, feed, lexStep]

theorem feed_str_cases : ∀ {bs acc : Bytes} {e : StrState} {s : LexState} {ts : List Tok},
    feed bs (.str acc e) = some (s, ts) → (∃ acc' e', s = .str acc' e') ∨
      ∃ b ts', strRun b e = some .plain ∧ ts = .scalar (acc ++ b ++ [quoteByte]) :: ts'
  | [], acc, e, s, ts, h => by
    cases h
    exact .inl ⟨acc, e, rfl⟩
  | b :: bs, acc, e, s, ts, h => by
    rw [feed] at h
    obtain ⟨⟨s1, ts1⟩, h1, h2⟩ := Option.bind_eq_some_iff.mp h
    obtain ⟨⟨s2, ts2⟩, h3, heq⟩ := Option.map_eq_some_iff.mp h2
    cases heq
    simp only [lexStep] at h1
    split_ifs at h1 with hq
    · cases h1
      obtain ⟨rfl, rfl⟩ := hq
      exact .inr ⟨[], ts2, rfl, by simp⟩
    · obtain ⟨e1, he, heq⟩ := Option.map_eq_some_iff.mp h1
      cases heq
      rcases feed_str_cases h3 with hin | ⟨b', ts', hrun, rfl⟩
      · exact .inl hin
      · refine .inr ⟨b :: b', ts', ?_, by simp⟩
        rw [strRun, if_neg hq, he]
        exact hrun

/-- **A valid string token is a valid string between quotes.** -/
theorem eq_quoted_of_valid {tok : Bytes} (h : ValidScalar tok) (hq : tok.head? = some quoteByte) :
    tok = quoteByte :: (body tok ++ [quoteByte]) ∧ strRun (body tok) .plain = some .plain := by
  cases tok with
  | nil => cases hq
  | cons q bs =>
    cases hq
    have hopen : lexStep .idle quoteByte = some (.str [quoteByte] .plain, []) := rfl
    have hfeed : feed (quoteByte :: bs) .idle = feed bs (.str [quoteByte] .plain) := by
      rw [feed, hopen]
      simp
    unfold ValidScalar at h
    rw [hfeed] at h
    rcases h with h | ⟨n, -, h⟩
    · rcases feed_str_cases h with ⟨acc', e', hs⟩ | ⟨b, ts', hrun, hts⟩
      · cases hs
      · have heq : quoteByte :: bs = quoteByte :: (b ++ [quoteByte]) := by
          have := (cons.inj hts).1
          simpa using this
        rw [heq, body_quoted]
        exact ⟨rfl, hrun⟩
    · rcases feed_str_cases h with ⟨acc', e', hs⟩ | ⟨b, ts', hrun, hts⟩
      · cases hs
      · cases hts

theorem strRun_plain : ∀ {bs : Bytes}, (∀ b ∈ bs, b ≠ quoteByte ∧ b ≠ backslash ∧ ¬b < 0x20) →
    strRun bs .plain = some .plain
  | [], _ => rfl
  | b :: bs, h => by
    obtain ⟨h1, h2, h3⟩ := h b (by simp)
    have hstep : StrState.plain.step b = some .plain := by simp [StrState.step, h2, h3]
    rw [strRun, if_neg (by simp [h1]), hstep]
    exact strRun_plain fun b' hb' => h b' (mem_cons_of_mem b hb')

theorem isHex_hexDigit : ∀ d < 16, isHex (hexDigit d) = true := by decide

theorem strRun_unitEscape (hv : v < 0x10000) : strRun (unitEscape v) .plain = some .plain := by
  have h1 := isHex_hexDigit (v / 4096) (by omega)
  have h2 := isHex_hexDigit (v / 256 % 16) (by omega)
  have h3 := isHex_hexDigit (v / 16 % 16) (by omega)
  have h4 := isHex_hexDigit (v % 16) (by omega)
  have hq : backslash ≠ quoteByte := by decide
  simp [unitEscape, strRun, hq, StrState.step, h1, h2, h3, h4]

theorem ofNat_plain (h : v < 256) (h1 : v ≠ 0x22) (h2 : v ≠ 0x5c) (h3 : ¬v < 0x20) :
    UInt8.ofNat v ≠ quoteByte ∧ UInt8.ofNat v ≠ backslash ∧ ¬UInt8.ofNat v < 0x20 := by
  refine ⟨ofNat_ne h h1, ofNat_ne h h2, ?_⟩
  rw [UInt8.lt_iff_toNat_lt, toNat_ofNat h]
  exact h3

theorem strRun_encodeRune {c : Char} (h1 : c ≠ '"') (h2 : c ≠ '\\') (h3 : ¬c.toNat < 0x20) :
    strRun (encodeRune c) .plain = some .plain := by
  have hself : Char.ofNat c.toNat = c := Char.ofNat_toNat c
  have hvalid : c.toNat < 0xd800 ∨ 0xdfff < c.toNat ∧ c.toNat < 0x110000 := c.valid
  have hne1 : c.toNat ≠ 0x22 := fun h => h1 (by rw [← hself, h])
  have hne2 : c.toNat ≠ 0x5c := fun h => h2 (by rw [← hself, h])
  apply strRun_plain
  unfold encodeRune
  dsimp only
  generalize c.toNat = v at *
  split_ifs <;> simp only [forall_mem_cons, not_mem_nil, false_imp_iff, implies_true, and_true]
  · exact ofNat_plain (by omega) (by omega) (by omega) (by omega)
  · exact ⟨ofNat_plain (by omega) (by omega) (by omega) (by omega),
      ofNat_plain (by omega) (by omega) (by omega) (by omega)⟩
  · exact ⟨ofNat_plain (by omega) (by omega) (by omega) (by omega),
      ofNat_plain (by omega) (by omega) (by omega) (by omega),
      ofNat_plain (by omega) (by omega) (by omega) (by omega)⟩
  · exact ⟨ofNat_plain (by omega) (by omega) (by omega) (by omega),
      ofNat_plain (by omega) (by omega) (by omega) (by omega),
      ofNat_plain (by omega) (by omega) (by omega) (by omega),
      ofNat_plain (by omega) (by omega) (by omega) (by omega)⟩

theorem strRun_quoteRune (c : Char) : strRun (quoteRune c) .plain = some .plain := by
  unfold quoteRune
  split_ifs with h1 h2 h3 h4 h5 h6 h7
  · rcases h1 with rfl | rfl <;> decide
  all_goals try decide
  · refine strRun_unitEscape ?_
    simp only [isHtml, Bool.or_eq_true, decide_eq_true_eq] at h7
    omega
  · exact strRun_encodeRune (fun h => h1 (.inl h)) (fun h => h1 (.inr h)) fun h => h7 (.inl h)

theorem strRun_quoteRunes : ∀ s : List Char, strRun (s.flatMap quoteRune) .plain = some .plain
  | [] => rfl
  | c :: s => by
    rw [flatMap_cons, strRun_append, strRun_quoteRune]
    exact strRun_quoteRunes s

theorem validScalar_quote : ValidScalar (quote s) :=
  validScalar_quoted (strRun_quoteRunes s.toList)

end CoreC.Lib.Json.Text
