import CoreC.Lib.Json.Text

/-! # Copied JSON tokens

A raw JSON text that is embedded in a document is copied token by token, with the characters escaped in
its strings that are special in HTML (`escapeTok`).

* `validScalar_escapeTok`: escaping keeps a token valid;
* `escapeTok_escapeTok`, `escapeTok_quote`: what was escaped or written once stays as it is. -/

namespace CoreC.Lib.Json.Escape

open Lib.Json.Lex Lib.Json.Text List

def isSeparator (b c d : UInt8) : Bool := b = 0xe2 && c = 0x80 && (d = 0xa8 || d = 0xa9)

def escapeByte (b : UInt8) : Bytes := if isHtml b.toNat then unitEscape b.toNat else [b]

def htmlEscape : Bytes → Bytes
  | b :: c :: d :: bs =>
    if isSeparator b c d then unitEscape (0x2028 + (d.toNat - 0xa8)) ++ htmlEscape bs
    else escapeByte b ++ htmlEscape (c :: d :: bs)
  | [b, c] => escapeByte b ++ escapeByte c
  | [b] => escapeByte b
  | [] => []

/-- A scalar token that is copied. Of the scalars, only strings hold characters to escape. -/
def escapeTok (tok : Bytes) : Bytes :=
  if tok.head? = some quoteByte then quoteByte :: (htmlEscape (body tok) ++ [quoteByte]) else tok

/-! ### The escaped text -/

variable {bs r : Bytes} {s : DecState} {e e' : StrState} {b d : UInt8} {v : ℕ}

theorem htmlEscape_cons : ∀ {bs : Bytes}, (∀ c d r, bs = c :: d :: r → isSeparator b c d = false) →
      htmlEscape (b :: bs) = escapeByte b ++ htmlEscape bs
  | [], _ => by simp [htmlEscape]
  | [c], _ => by simp [htmlEscape]
  | c :: d :: bs, h => by simp [htmlEscape, h c d bs rfl]

def Inert (b : UInt8) : Prop := isHtml b.toNat = false ∧ b ≠ 0xe2

theorem htmlEscape_inert (hb : Inert b) (bs : Bytes) : htmlEscape (b :: bs) = b :: htmlEscape bs := by
  have hsep : ∀ c d r, bs = c :: d :: r → isSeparator b c d = false := by
    simp [isSeparator, hb.2]
  rw [htmlEscape_cons hsep, escapeByte, hb.1]
  rfl

theorem htmlEscape_inerts : ∀ {a : Bytes}, (∀ b ∈ a, Inert b) → ∀ bs, htmlEscape (a ++ bs) = a ++ htmlEscape bs
  | [], _, bs => rfl
  | b :: a, h, bs => by
    rw [cons_append, htmlEscape_inert (h b (by simp)), htmlEscape_inerts (fun x hx => h x (mem_cons_of_mem b hx)) bs]
    rfl

theorem inert_hexDigit : ∀ d < 16, isHtml (hexDigit d).toNat = false ∧ hexDigit d ≠ 0xe2 := by decide

theorem inert_unitEscape (hv : v < 0x10000) : ∀ b ∈ unitEscape v, Inert b := by
  have h1 : Inert backslash := ⟨by decide, by decide⟩
  have h2 : Inert 0x75 := ⟨by decide, by decide⟩
  simp only [unitEscape, forall_mem_cons]
  exact ⟨h1, h2, inert_hexDigit _ (by omega), inert_hexDigit _ (by omega), inert_hexDigit _ (by omega),
    inert_hexDigit _ (by omega), by simp⟩

theorem htmlEscape_cases (b : UInt8) (bs : Bytes) : (∃ d r, b = 0xe2 ∧ bs = 0x80 :: d :: r ∧ (d = 0xa8 ∨ d = 0xa9) ∧
      htmlEscape (b :: bs) = unitEscape (0x2028 + (d.toNat - 0xa8)) ++ htmlEscape r) ∨
    (isHtml b.toNat = true ∧ htmlEscape (b :: bs) = unitEscape b.toNat ++ htmlEscape bs) ∨
      (isHtml b.toNat = false ∧ (∀ c d r, bs = c :: d :: r → isSeparator b c d = false) ∧
        htmlEscape (b :: bs) = b :: htmlEscape bs) := by
  by_cases h : ∃ c d r, bs = c :: d :: r ∧ isSeparator b c d = true
  · obtain ⟨c, d, r, rfl, hsep⟩ := h
    have heq : htmlEscape (b :: c :: d :: r) = unitEscape (0x2028 + (d.toNat - 0xa8)) ++ htmlEscape r := by
      simp [htmlEscape, hsep]
    simp only [isSeparator, Bool.and_eq_true, Bool.or_eq_true, decide_eq_true_eq] at hsep
    obtain ⟨⟨rfl, rfl⟩, hd⟩ := hsep
    exact .inl ⟨d, r, rfl, rfl, hd, heq⟩
  · have hsep : ∀ c d r, bs = c :: d :: r → isSeparator b c d = false := fun c d r hbs =>
      Bool.not_eq_true _ ▸ fun ht => h ⟨c, d, r, hbs, ht⟩
    have heq := htmlEscape_cons hsep
    unfold escapeByte at heq
    split_ifs at heq with hb
    · exact .inr (.inl ⟨hb, heq⟩)
    · exact .inr (.inr ⟨by simpa using hb, hsep, heq⟩)

theorem htmlEscape_head {c x : UInt8} (h : htmlEscape (c :: bs) = x :: r) :
    x = backslash ∨ x = c ∧ r = htmlEscape bs := by
  rcases htmlEscape_cases c bs with ⟨d, r', -, -, -, heq⟩ | ⟨-, heq⟩ | ⟨-, -, heq⟩
  · left
    rw [heq] at h
    exact (List.cons.inj h).1.symm
  · left
    rw [heq] at h
    exact (List.cons.inj h).1.symm
  · right
    rw [heq] at h
    exact ⟨(List.cons.inj h).1.symm, (List.cons.inj h).2.symm⟩

theorem isSeparator_htmlEscape (h : ∀ c d r, bs = c :: d :: r → isSeparator b c d = false) {c : UInt8}
    (heq : htmlEscape bs = c :: d :: r) : isSeparator b c d = false := by
  rw [← Bool.not_eq_true]
  intro hsep
  simp only [isSeparator, Bool.and_eq_true, Bool.or_eq_true, decide_eq_true_eq] at hsep
  obtain ⟨⟨rfl, rfl⟩, hd⟩ := hsep
  have hback : ∀ x, x = 0x80 ∨ x = 0xa8 ∨ x = 0xa9 → x ≠ backslash := by
    rintro x (rfl | rfl | rfl) <;> decide
  cases bs with
  | nil => cases heq
  | cons c' bs =>
    rcases htmlEscape_head heq with hc | ⟨rfl, hr⟩
    · exact hback _ (.inl rfl) hc
    · cases bs with
      | nil => cases hr
      | cons d' bs =>
        rcases htmlEscape_head hr.symm with hd' | ⟨rfl, -⟩
        · exact hback _ (.inr hd) hd'
        · have := h _ _ _ rfl
          rcases hd with rfl | rfl <;> exact absurd this (by decide)

theorem htmlEscape_induction {motive : Bytes → Prop} (nil : motive [])
    (separator : ∀ d r, d = 0xa8 ∨ d = 0xa9 →
      htmlEscape (0xe2 :: 0x80 :: d :: r) = unitEscape (0x2028 + (d.toNat - 0xa8)) ++ htmlEscape r →
        motive r → motive (0xe2 :: 0x80 :: d :: r))
    (html : ∀ b bs, isHtml b.toNat = true →
      htmlEscape (b :: bs) = unitEscape b.toNat ++ htmlEscape bs → motive bs → motive (b :: bs))
    (copy : ∀ b bs, isHtml b.toNat = false →
      (∀ c d r, bs = c :: d :: r → isSeparator b c d = false) →
        htmlEscape (b :: bs) = b :: htmlEscape bs → motive bs → motive (b :: bs)) (bs : Bytes) :
    motive bs := by
  generalize hn : bs.length = n
  induction n using Nat.strongRecOn generalizing bs with
  | _ n ih =>
    cases bs with
    | nil => exact nil
    | cons b bs =>
      rw [length_cons] at hn
      rcases htmlEscape_cases b bs with ⟨d, r, rfl, rfl, hd, heq⟩ | ⟨hb, heq⟩ | ⟨hb, hsep, heq⟩
      · rw [length_cons, length_cons] at hn
        exact separator d r hd heq (ih r.length (by omega) r rfl)
      · exact html b bs hb heq (ih bs.length (by omega) bs rfl)
      · exact copy b bs hb hsep heq (ih bs.length (by omega) bs rfl)

theorem separator_lt (hd : d = 0xa8 ∨ d = 0xa9) : 0x2028 + (d.toNat - 0xa8) < 0xd800 := by
  rcases hd with rfl | rfl <;> decide

theorem htmlEscape_htmlEscape (bs : Bytes) : htmlEscape (htmlEscape bs) = htmlEscape bs := by
  induction bs using htmlEscape_induction with
  | nil => rfl
  | separator d r hd heq ih =>
    have := separator_lt hd
    rw [heq, htmlEscape_inerts (inert_unitEscape (by omega)), ih]
  | html b bs _ heq ih =>
    have := b.toNat_lt
    rw [heq, htmlEscape_inerts (inert_unitEscape (by omega)), ih]
  | copy b bs hb hsep heq ih =>
    rw [heq, htmlEscape_cons fun c d r => isSeparator_htmlEscape hsep, ih, escapeByte, hb]
    rfl

theorem step_of_special (hb : isHtml b.toNat = true ∨ b = 0xe2)
    (h : e.step b = some e') : e = .plain ∧ e' = .plain := by
  have hmem : b = 0x3c ∨ b = 0x3e ∨ b = 0x26 ∨ b = 0xe2 := by
    have hlt := b.toNat_lt
    simp only [isHtml, Bool.or_eq_true, decide_eq_true_eq, ← UInt8.toNat_inj] at hb ⊢
    simp only [UInt8.toNat_ofNat] at hb ⊢
    omega
  cases e with
  | plain => rcases hmem with rfl | rfl | rfl | rfl <;> cases h <;> exact ⟨rfl, rfl⟩
  | escape | hex => rcases hmem with rfl | rfl | rfl | rfl <;> cases h

theorem strRun_cons (h : strRun (b :: bs) e = some e') : ∃ e1, e.step b = some e1 ∧ strRun bs e1 = some e' := by
  rw [strRun] at h
  split_ifs at h
  exact Option.bind_eq_some_iff.mp h

theorem strRun_separator (hd : d = 0xa8 ∨ d = 0xa9)
    (h : strRun (0xe2 :: 0x80 :: d :: r) e = some e') : e = .plain ∧ strRun r .plain = some e' := by
  obtain ⟨e1, h1, h⟩ := strRun_cons h
  obtain ⟨rfl, rfl⟩ := step_of_special (.inr rfl) h1
  refine ⟨rfl, ?_⟩
  obtain ⟨e2, h2, h⟩ := strRun_cons h
  cases h2
  obtain ⟨e3, h3, h⟩ := strRun_cons h
  rcases hd with rfl | rfl <;> cases h3 <;> exact h

theorem strRun_html (hb : isHtml b.toNat = true)
    (h : strRun (b :: bs) e = some e') : e = .plain ∧ strRun bs .plain = some e' := by
  obtain ⟨e1, h1, h⟩ := strRun_cons h
  obtain ⟨rfl, rfl⟩ := step_of_special (.inl hb) h1
  exact ⟨rfl, h⟩

theorem strRun_htmlEscape (bs : Bytes) : ∀ {e e' : StrState}, strRun bs e = some e' →
    strRun (htmlEscape bs) e = some e' := by
  induction bs using htmlEscape_induction with
  | nil => exact fun h => h
  | separator d r hd heq ih =>
    intro e e' h
    have := separator_lt hd
    obtain ⟨rfl, hr⟩ := strRun_separator hd h
    rw [heq, strRun_append, strRun_unitEscape (by omega)]
    exact ih hr
  | html b bs hb heq ih =>
    intro e e' h
    have := b.toNat_lt
    obtain ⟨rfl, hbs⟩ := strRun_html hb h
    rw [heq, strRun_append, strRun_unitEscape (by omega)]
    exact ih hbs
  | copy b bs hb hsep heq ih =>
    intro e e' h
    rw [strRun] at h
    split_ifs at h with hq
    obtain ⟨e1, h1, h2⟩ := Option.bind_eq_some_iff.mp h
    rw [heq, strRun, if_neg hq, h1]
    exact ih h2

/-! ### What the decoder reads -/

/-- Where the scanner stands when the decoder stands here. -/
def scanPos : DecState → StrState
  | .plain => .plain
  | .utf8 _ _ _ => .plain
  | .high _ => .plain
  | .escape _ => .escape
  | .hex _ more _ => .hex more

theorem plainStep_pos (h : StrState.plain.step b = some e) : scanPos (plainStep b).1 = e := by
  unfold StrState.step at h
  unfold plainStep
  split_ifs at h ⊢ <;> cases h <;> rfl

theorem unitStep_pos (v : ℕ) : scanPos (unitStep v).1 = .plain := by
  unfold unitStep
  split_ifs <;> rfl

theorem pairStep_pos (pend : Option ℕ) (v : ℕ) : scanPos (pairStep pend v).1 = .plain := by
  unfold pairStep
  split
  · exact unitStep_pos v
  · split_ifs
    · rfl
    · exact unitStep_pos v

theorem tailOk_bounds {l n b : ℕ} (h : tailOk l n b = true) : 0x80 ≤ b ∧ b ≤ 0xbf := by
  simp only [tailOk, Bool.and_eq_true, decide_eq_true_eq] at h
  exact h.1

theorem step_of_tailOk {l n : ℕ} (ht : tailOk l n b.toNat = true)
    (h : StrState.plain.step b = some e) : e = .plain := by
  have hb : b ≠ backslash := by
    rintro rfl
    exact absurd (tailOk_bounds ht).1 (by decide)
  simp only [StrState.step, if_neg hb] at h
  split_ifs at h
  exact (Option.some.inj h).symm

theorem decStep_pos (h : (scanPos s).step b = some e) : scanPos (decStep s b).1 = e := by
  cases s with
  | plain => exact plainStep_pos h
  | utf8 l n acc =>
    simp only [decStep]
    split_ifs with ht hn
    · exact (step_of_tailOk ht h).symm
    · exact (step_of_tailOk ht h).symm
    · exact plainStep_pos h
  | high u =>
    simp only [decStep]
    split_ifs with hb
    · subst hb
      cases h
      rfl
    · exact plainStep_pos h
  | escape pend =>
    simp only [decStep]
    simp only [scanPos, StrState.step] at h
    split_ifs at h ⊢ with h1 h2 h3
    all_goals cases h
    · subst h1
      exact absurd h2 (by decide)
    · rfl
    · rfl
  | hex pend more acc =>
    simp only [decStep]
    simp only [scanPos, StrState.step] at h
    split_ifs at h ⊢ with h1 h2
    all_goals cases h
    · exact pairStep_pos _ _
    · rfl

theorem decode_flush (hs : scanPos s = .plain) (hb : b.toNat < 0x80 ∨ 0xbf < b.toNat) (hne : b ≠ backslash)
    (bs : Bytes) :
    decode s (b :: bs) = s.pending ++ decode .plain (b :: bs) := by
  cases s with
  | plain => rfl
  | utf8 l n acc =>
    have ht : ¬tailOk l n b.toNat = true := fun ht => by
      have := tailOk_bounds ht
      omega
    simp [decode, decStep, ht]
  | high u => simp [decode, decStep, hne]
  | escape | hex => cases hs

theorem decode_flush_unitEscape (hs : scanPos s = .plain) (hv : v < 0xd800)
    (bs : Bytes) : decode s (unitEscape v ++ bs) = s.pending ++ Char.ofNat v :: decode .plain bs := by
  cases s with
  | plain => exact decode_unitEscape hv bs
  | utf8 l n acc =>
    have hstep : decStep (.utf8 l n acc) backslash = (.escape none, (DecState.utf8 l n acc).pending) := by
      exact congrArg _ (append_nil _)
    exact (decode_cons hstep _).trans (congrArg _ (decode_unit none hv bs))
  | high u => exact decode_unit (some u) hv bs
  | escape | hex => cases hs

theorem html_bounds (hb : isHtml b.toNat = true) : b.toNat < 0x80 ∧ b ≠ backslash := by
  have hlt := b.toNat_lt
  simp only [isHtml, Bool.or_eq_true, decide_eq_true_eq] at hb
  refine ⟨by omega, ?_⟩
  rintro rfl
  exact absurd hb (by decide)

theorem decode_htmlEscape (bs : Bytes) : ∀ {s : DecState} {e : StrState}, strRun bs (scanPos s) = some e →
    decode s (htmlEscape bs) = decode s bs := by
  induction bs using htmlEscape_induction with
  | nil => exact fun _ => rfl
  | separator d r hd heq ih =>
    intro s e h
    obtain ⟨hs, hr⟩ := strRun_separator hd h
    have hplain : decode .plain (0xe2 :: 0x80 :: d :: r) =
        Char.ofNat (0x2028 + (d.toNat - 0xa8)) :: decode .plain r := by
      rcases hd with rfl | rfl <;> rfl
    rw [heq, decode_flush_unitEscape hs (separator_lt hd), decode_flush hs (by decide) (by decide),
      hplain, ih (s := .plain) hr]
  | html b bs hb heq ih =>
    intro s e h
    obtain ⟨hs, hbs⟩ := strRun_html hb h
    obtain ⟨hlt, hne⟩ := html_bounds hb
    have hplain : decStep .plain b = (.plain, [Char.ofNat b.toNat]) := by
      simp [decStep, plainStep, hlt, hne]
    rw [heq, decode_flush_unitEscape hs (by omega), decode_flush hs (.inl hlt) hne,
      decode_cons hplain, ih (s := .plain) hbs]
    rfl
  | copy b bs hb hsep heq ih =>
    intro s e h
    obtain ⟨e1, h1, h2⟩ := strRun_cons h
    rw [heq, decode, decode, ih (e := e)]
    rwa [decStep_pos h1]

/-! ### Tokens -/

theorem escapeTok_quoted (b : Bytes) : escapeTok (quoteByte :: (b ++ [quoteByte])) =
    quoteByte :: (htmlEscape b ++ [quoteByte]) := by
  simp [escapeTok]

theorem head_escapeTok (tok : Bytes) : (escapeTok tok).head? = tok.head? := by
  unfold escapeTok
  split_ifs with h
  · exact h.symm
  · rfl

theorem validScalar_escapeTok {tok : Bytes} (h : ValidScalar tok) : ValidScalar (escapeTok tok) := by
  unfold escapeTok
  split_ifs with hq
  · exact validScalar_quoted (strRun_htmlEscape _ (eq_quoted_of_valid h hq).2)
  · exact h

theorem escapeTok_escapeTok (tok : Bytes) : escapeTok (escapeTok tok) = escapeTok tok := by
  by_cases hq : tok.head? = some quoteByte
  · have h1 : escapeTok tok = quoteByte :: (htmlEscape (body tok) ++ [quoteByte]) := if_pos hq
    rw [h1, escapeTok_quoted, htmlEscape_htmlEscape]
  · have h1 : escapeTok tok = tok := if_neg hq
    rw [h1, h1]

/-- **Escaping a token does not change the text it denotes.** -/
theorem unquote_escapeTok {tok : Bytes} (h : ValidScalar tok) (hq : tok.head? = some quoteByte) :
    unquote (escapeTok tok) = unquote tok := by
  obtain ⟨-, hrun⟩ := eq_quoted_of_valid h hq
  have h1 : escapeTok tok = quoteByte :: (htmlEscape (body tok) ++ [quoteByte]) := if_pos hq
  have h2 := decode_htmlEscape (body tok) (s := .plain) hrun
  rw [h1, unquote, body_quoted, h2]
  rfl

theorem inert_ofNat (h : v < 256) (hv : isHtml v = false) (h2 : v ≠ 0xe2) : Inert (.ofNat v) :=
  ⟨by rwa [toNat_ofNat h], ofNat_ne h h2⟩

theorem isHtml_of_range (h1 : 0x80 ≤ v) (h2 : v < 256) : isHtml v = false := by
  simp only [isHtml, Bool.or_eq_false_iff, decide_eq_false_iff_not]
  omega

theorem htmlEscape_encodeRune {c : Char} (hc : isHtml c.toNat = false) (bs : Bytes) :
    htmlEscape (encodeRune c ++ bs) = encodeRune c ++ htmlEscape bs := by
  have hvalid : c.toNat < 0xd800 ∨ 0xdfff < c.toNat ∧ c.toNat < 0x110000 := c.valid
  have htail : ∀ t < 64, Inert (.ofNat (0x80 + t)) := fun t ht =>
    inert_ofNat (by omega) (isHtml_of_range (by omega) (by omega)) (by omega)
  unfold encodeRune
  dsimp only
  generalize c.toNat = v at *
  split_ifs with h1 h2 h3
  · refine htmlEscape_inerts ?_ bs
    simpa using inert_ofNat (by omega) hc (by omega)
  · refine htmlEscape_inerts ?_ bs
    simp only [forall_mem_cons, not_mem_nil, false_imp_iff, implies_true, and_true]
    exact ⟨inert_ofNat (by omega) (isHtml_of_range (by omega) (by omega)) (by omega), htail _ (by omega)⟩
  · -- the one length with characters that start like a separator
    have hsep : ∀ c d r, [UInt8.ofNat (0x80 + v / 64 % 64), .ofNat (0x80 + v % 64)] ++ bs = c :: d :: r →
        isSeparator (.ofNat (0xe0 + v / 4096)) c d = false := by
      rintro _ _ _ ⟨⟩
      rw [← Bool.not_eq_true]
      intro hsep
      simp only [isSeparator, Bool.and_eq_true, Bool.or_eq_true, decide_eq_true_eq,
        ← UInt8.toNat_inj, toNat_ofNat (show 0xe0 + v / 4096 < 256 by omega),
        toNat_ofNat (show 0x80 + v / 64 % 64 < 256 by omega),
        toNat_ofNat (show 0x80 + v % 64 < 256 by omega), UInt8.toNat_ofNat] at hsep
      simp only [isHtml, Bool.or_eq_false_iff, decide_eq_false_iff_not] at hc
      omega
    have htails : ∀ b ∈ [UInt8.ofNat (0x80 + v / 64 % 64), .ofNat (0x80 + v % 64)], Inert b := by
      simp only [forall_mem_cons, not_mem_nil, false_imp_iff, implies_true, and_true]
      exact ⟨htail _ (by omega), htail _ (by omega)⟩
    rw [cons_append, htmlEscape_cons hsep, htmlEscape_inerts htails, escapeByte,
      toNat_ofNat (by omega), isHtml_of_range (by omega) (by omega)]
    rfl
  · refine htmlEscape_inerts ?_ bs
    simp only [forall_mem_cons, not_mem_nil, false_imp_iff, implies_true, and_true]
    exact ⟨inert_ofNat (by omega) (isHtml_of_range (by omega) (by omega)) (by omega),
      htail _ (by omega), htail _ (by omega), htail _ (by omega)⟩

theorem htmlEscape_quoteRune (c : Char) (bs : Bytes) :
    htmlEscape (quoteRune c ++ bs) = quoteRune c ++ htmlEscape bs := by
  have hesc : ∀ x, Inert x → htmlEscape ([backslash, x] ++ bs) = [backslash, x] ++ htmlEscape bs := by
    intro x hx
    refine htmlEscape_inerts ?_ bs
    simp only [forall_mem_cons, not_mem_nil, false_imp_iff, implies_true, and_true]
    exact ⟨⟨by decide, by decide⟩, hx⟩
  unfold quoteRune
  split_ifs with h1 h2 h3 h4 h5 h6 h7
  · rcases h1 with rfl | rfl <;> exact hesc _ ⟨by decide, by decide⟩
  iterate 5 · exact hesc _ ⟨by decide, by decide⟩
  · refine htmlEscape_inerts (inert_unitEscape ?_) bs
    simp only [isHtml, Bool.or_eq_true, decide_eq_true_eq] at h7
    omega
  · exact htmlEscape_encodeRune (by simpa using fun h => h7 (.inr h)) bs

theorem htmlEscape_quoteRunes : ∀ s : List Char, htmlEscape (s.flatMap quoteRune) = s.flatMap quoteRune
  | [] => rfl
  | c :: s => by rw [flatMap_cons, htmlEscape_quoteRune, htmlEscape_quoteRunes s]

@[simp] theorem escapeTok_quote (s : String) : escapeTok (quote s) = quote s := by
  rw [quote, escapeTok_quoted, htmlEscape_quoteRunes]

end CoreC.Lib.Json.Escape
