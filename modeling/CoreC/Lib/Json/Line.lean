import CoreC.Lib.Json.Number
import CoreC.Lib.Json.Parse
import CoreC.Lib.Json.Text

/-! # JSON on one line

The text of a document whose scalars have no control character has none either (`printable_render`), so it can be
stored as one line. Strings and integers have none. -/

namespace CoreC.Lib.Json.Line

open Lib.Json.Lex Lib.Json.Text Lib.Json.Parse Lib.Json.Number List

/-! ### Scalars -/

def Printable (bs : Bytes) : Prop := ∀ b ∈ bs, ¬b < 0x20

instance (bs : Bytes) : Decidable (Printable bs) := List.decidableBAll (fun b => ¬b < 0x20) bs

theorem printable_step {e e' : StrState} {b : UInt8} (h : e.step b = some e') : ¬b < 0x20 := by
  cases e with
  | plain =>
    simp only [StrState.step] at h
    split_ifs at h with h1 h2
    · rw [h1]
      decide
    · exact h2
  | escape =>
    simp only [StrState.step] at h
    split_ifs at h with h1 h2
    · revert h1
      simp only [mem_cons, not_mem_nil, or_false]
      rintro (rfl | rfl | rfl | rfl | rfl | rfl | rfl | rfl) <;> decide
    · rw [h2]
      decide
  | hex n =>
    simp only [StrState.step, Option.ite_none_right_eq_some] at h
    intro hlt
    have hhex := h.1
    simp only [isHex, isDigit, Bool.or_eq_true, Bool.and_eq_true, decide_eq_true_eq, UInt8.le_iff_toNat_le] at hhex
    rw [UInt8.lt_iff_toNat_lt] at hlt
    simp only [UInt8.toNat_ofNat] at hhex hlt
    omega

theorem printable_of_strRun : ∀ {bs : Bytes} {e e' : StrState}, strRun bs e = some e' → Printable bs
  | [], _, _, _ => fun _ h => absurd h not_mem_nil
  | b :: bs, e, e', h => by
    rw [strRun] at h
    split_ifs at h
    obtain ⟨e₁, hstep, hrun⟩ := Option.bind_eq_some_iff.mp h
    exact forall_mem_cons.mpr ⟨printable_step hstep, printable_of_strRun hrun⟩

theorem printable_quoted {bs : Bytes} (h : Printable bs) : Printable (quoteByte :: (bs ++ [quoteByte])) := by
  have hquote : ¬quoteByte < 0x20 := by decide
  refine forall_mem_cons.mpr ⟨hquote, forall_mem_append.mpr ⟨h, fun b hb => ?_⟩⟩
  rwa [mem_singleton.mp hb]

theorem printable_quote (s : String) : Printable (quote s) :=
  printable_quoted (printable_of_strRun (strRun_quoteRunes s.toList))

theorem printable_digit {b : UInt8} (h : isDigit b = true) : ¬b < 0x20 := by
  intro hlt
  simp only [isDigit, Bool.and_eq_true, decide_eq_true_eq, UInt8.le_iff_toNat_le] at h
  rw [UInt8.lt_iff_toNat_lt] at hlt
  simp only [UInt8.toNat_ofNat] at h hlt
  omega

theorem printable_formatInt (v : ℤ) : Printable (formatInt v) := by
  have hdigits : Printable (formatNat v.natAbs) := fun b hb => printable_digit (isDigit_formatNat _ b hb)
  by_cases hv : v < 0
  · rw [formatInt_neg hv]
    exact forall_mem_cons.mpr ⟨by decide, hdigits⟩
  · rw [formatInt_nonneg hv]
    exact hdigits

/-! ### Documents -/

def PrintableDoc (t : Doc) : Prop := ∀ x ∈ toks t, Printable (tokBytes x)

theorem printable_punct (p : Punct) : Printable (tokBytes (.punct p)) := by
  intro b hb
  rw [tokBytes, mem_singleton] at hb
  subst hb
  cases p <;> decide

theorem printable_scalar {tok : Bytes} (h : Printable tok) : PrintableDoc (.scalar tok) := fun x hx => by
  rw [toks, mem_singleton] at hx
  exact hx ▸ h

theorem printable_toksElems {xs : List Doc} (h : ∀ x ∈ xs, PrintableDoc x) :
    ∀ x ∈ toksElems xs, Printable (tokBytes x) := by
  induction xs with
  | nil =>
    intro x hx
    rw [toksElems, mem_singleton] at hx
    exact hx ▸ printable_punct _
  | cons y ys ih =>
    obtain ⟨hy, hys⟩ := forall_mem_cons.mp h
    exact forall_mem_cons.mpr ⟨printable_punct _, forall_mem_append.mpr ⟨hy, ih hys⟩⟩

theorem printable_arr {xs : List Doc} (h : ∀ x ∈ xs, PrintableDoc x) : PrintableDoc (.arr xs) := by
  have hrest := printable_toksElems h
  cases xs with
  | nil =>
    exact forall_mem_cons.mpr ⟨printable_punct _, hrest⟩
  | cons y ys =>
    exact forall_mem_cons.mpr ⟨printable_punct _, (forall_mem_cons.mp hrest).2⟩

theorem printable_toksMembers {kvs : List (Bytes × Doc)} (h : ∀ kv ∈ kvs, Printable kv.1 ∧ PrintableDoc kv.2) :
    ∀ x ∈ toksMembers kvs, Printable (tokBytes x) := by
  induction kvs with
  | nil =>
    intro x hx
    rw [toksMembers, mem_singleton] at hx
    exact hx ▸ printable_punct _
  | cons kv kvs ih =>
    obtain ⟨⟨hkey, hvalue⟩, hkvs⟩ := forall_mem_cons.mp h
    exact forall_mem_cons.mpr ⟨printable_punct _, forall_mem_cons.mpr ⟨hkey,
      forall_mem_cons.mpr ⟨printable_punct _, forall_mem_append.mpr ⟨hvalue, ih hkvs⟩⟩⟩⟩

theorem printable_obj {kvs : List (Bytes × Doc)} (h : ∀ kv ∈ kvs, Printable kv.1 ∧ PrintableDoc kv.2) :
    PrintableDoc (.obj kvs) := by
  have hrest := printable_toksMembers h
  cases kvs with
  | nil =>
    exact forall_mem_cons.mpr ⟨printable_punct _, hrest⟩
  | cons kv kvs =>
    exact forall_mem_cons.mpr ⟨printable_punct _, (forall_mem_cons.mp hrest).2⟩

theorem printable_render {t : Doc} (h : PrintableDoc t) : Printable (render t) := by
  intro b hb
  obtain ⟨x, hx, hbx⟩ := mem_flatMap.mp hb
  exact h x hx b hbx

end CoreC.Lib.Json.Line
