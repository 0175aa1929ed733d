import CoreC.Lib.Json.Lex

/-! # JSON documents

A document is a tree whose scalars and keys keep the bytes of their tokens. The parser is a stack
machine on the tokens with the nesting limit of `encoding/json`; `render` writes a document without
blanks.

* `fits_of_parse`: what the parser returns fits. -/

namespace CoreC.Lib.Json.Parse

open Lib.Json.Lex

/-- A JSON document. Scalars and keys are tokens, quotes included. -/
inductive Doc where
  | scalar (s : Bytes)
  | arr (xs : List Doc)
  | obj (kvs : List (Bytes × Doc))
  deriving Repr

@[elab_as_elim]
theorem Doc.induction {motive : Doc → Prop} (scalar : ∀ s, motive (.scalar s))
    (arr : ∀ xs, (∀ x ∈ xs, motive x) → motive (.arr xs))
    (obj : ∀ kvs : List (Bytes × Doc), (∀ kv ∈ kvs, motive kv.2) → motive (.obj kvs)) (t : Doc) :
    motive t :=
  @Doc.rec motive (fun xs => ∀ x ∈ xs, motive x) (fun kvs => ∀ kv ∈ kvs, motive kv.2)
    (fun kv => motive kv.2) scalar arr obj (by simp) (fun _ _ hx hxs => List.forall_mem_cons.mpr ⟨hx, hxs⟩)
    (by simp) (fun _ _ hx hxs => List.forall_mem_cons.mpr ⟨hx, hxs⟩) (fun _ _ h => h) t

def isString (s : Bytes) : Bool := s.head? = some quoteByte

/-- `maxNestingDepth`. -/
def maxDepth : ℕ := 10000

/-- An open array with its elements so far, or an open object with its members so far and the key of
the next one. -/
inductive Frame where
  | arr (xs : List Doc)
  | obj (kvs : List (Bytes × Doc)) (key : Bytes)

/-- What the parser expects: a value, a value or the end of the array just opened, a key (or the end
of the object just opened), a colon, or what follows a complete value. -/
inductive Mode where
  | value
  | first
  | key (kvs : List (Bytes × Doc)) (opened : Bool)
  | colon (kvs : List (Bytes × Doc)) (key : Bytes)
  | done (v : Doc)

def parseStep (m : Mode) (st : List Frame) : Tok → Option (Mode × List Frame)
  | .scalar s =>
    match m with
    | .value => some (.done (.scalar s), st)
    | .first => some (.done (.scalar s), st)
    | .key kvs _ => if isString s then some (.colon kvs s, st) else none
    | _ => none
  | .punct .lbracket =>
    match m with
    | .value => if st.length < maxDepth then some (.first, .arr [] :: st) else none
    | .first => if st.length < maxDepth then some (.first, .arr [] :: st) else none
    | _ => none
  | .punct .lbrace =>
    match m with
    | .value => if st.length < maxDepth then some (.key [] true, st) else none
    | .first => if st.length < maxDepth then some (.key [] true, st) else none
    | _ => none
  | .punct .rbracket =>
    match m, st with
    | .first, .arr xs :: st => some (.done (.arr xs), st)
    | .done v, .arr xs :: st => some (.done (.arr (xs ++ [v])), st)
    | _, _ => none
  | .punct .rbrace =>
    match m, st with
    | .key kvs true, st => some (.done (.obj kvs), st)
    | .done v, .obj kvs k :: st => some (.done (.obj (kvs ++ [(k, v)])), st)
    | _, _ => none
  | .punct .colon =>
    match m with
    | .colon kvs k => some (.value, .obj kvs k :: st)
    | _ => none
  | .punct .comma =>
    match m, st with
    | .done v, .arr xs :: st => some (.value, .arr (xs ++ [v]) :: st)
    | .done v, .obj kvs k :: st => some (.key (kvs ++ [(k, v)]) false, st)
    | _, _ => none

def run : List Tok → Mode × List Frame → Option (Mode × List Frame)
  | [], x => some x
  | t :: ts, x => (parseStep x.1 x.2 t).bind (run ts)

def parseToks (ts : List Tok) : Option Doc :=
  match run ts (.value, []) with
  | some (.done v, []) => some v
  | _ => none

def parse (bs : Bytes) : Option Doc := (lex bs).bind parseToks

def tokBytes : Tok → Bytes
  | .punct p => [p.byte]
  | .scalar s => s

mutual

def toks : Doc → List Tok
  | .scalar s => [.scalar s]
  | .arr [] => [.punct .lbracket, .punct .rbracket]
  | .arr (x :: xs) => .punct .lbracket :: (toks x ++ toksElems xs)
  | .obj [] => [.punct .lbrace, .punct .rbrace]
  | .obj ((k, v) :: kvs) =>
    .punct .lbrace :: .scalar k :: .punct .colon :: (toks v ++ toksMembers kvs)

def toksElems : List Doc → List Tok
  | [] => [.punct .rbracket]
  | x :: xs => .punct .comma :: (toks x ++ toksElems xs)

def toksMembers : List (Bytes × Doc) → List Tok
  | [] => [.punct .rbrace]
  | (k, v) :: kvs => .punct .comma :: .scalar k :: .punct .colon :: (toks v ++ toksMembers kvs)

end

def render (t : Doc) : Bytes := (toks t).flatMap tokBytes

def ValidKey (k : Bytes) : Prop := ValidScalar k ∧ isString k = true

mutual

/-- The tokens are valid, and at most `d` containers are nested. -/
def Fits (d : ℕ) : Doc → Prop
  | .scalar s => ValidScalar s
  | .arr xs => 1 ≤ d ∧ FitsElems (d - 1) xs
  | .obj kvs => 1 ≤ d ∧ FitsMembers (d - 1) kvs

def FitsElems (d : ℕ) : List Doc → Prop
  | [] => True
  | x :: xs => Fits d x ∧ FitsElems d xs

def FitsMembers (d : ℕ) : List (Bytes × Doc) → Prop
  | [] => True
  | (k, v) :: kvs => ValidKey k ∧ Fits d v ∧ FitsMembers d kvs

end

variable {rest : Bytes} {t : Doc} {kvs : List (Bytes × Doc)} {st : List Frame} {us : List Tok} {m : Mode} {d : ℕ}

theorem fitsElems_iff : ∀ xs, FitsElems d xs ↔ ∀ x ∈ xs, Fits d x
  | [] => by simp [FitsElems]
  | x :: xs => by simp [FitsElems, fitsElems_iff xs]

theorem fitsMembers_iff : ∀ kvs : List (Bytes × Doc), FitsMembers d kvs ↔ ∀ x ∈ kvs, ValidKey x.1 ∧ Fits d x.2
  | [] => by simp [FitsMembers]
  | (k, v) :: kvs => by simp [FitsMembers, fitsMembers_iff kvs, and_assoc]

/-! ### Running on the tokens of a document -/

theorem run_cons_some {t : Tok} {ts : List Tok} {m' : Mode} {st' : List Frame}
    (h : parseStep m st t = some (m', st')) : run (t :: ts) (m, st) = run ts (m', st') := by
  simp [run, h]

theorem parseStep_lbracket (hm : m = .value ∨ m = .first) (hd : st.length < maxDepth) :
    parseStep m st (.punct .lbracket) = some (.first, .arr [] :: st) := by
  rcases hm with rfl | rfl <;> simp [parseStep, hd]

theorem parseStep_lbrace (hm : m = .value ∨ m = .first)
    (hd : st.length < maxDepth) : parseStep m st (.punct .lbrace) = some (.key [] true, st) := by
  rcases hm with rfl | rfl <;> simp [parseStep, hd]

theorem parseStep_key {opened : Bool} {k : Bytes}
    (hk : ValidKey k) : parseStep (.key kvs opened) st (.scalar k) = some (.colon kvs k, st) := by
  simp [parseStep, hk.2]

mutual

theorem run_toks : ∀ t {m : Mode} st rest,
    (m = .value ∨ m = .first) → Fits (maxDepth - st.length) t → run (toks t ++ rest) (m, st) = run rest (.done t, st)
  | .scalar s, m, st, rest, hm, _ => by
    have h : parseStep m st (.scalar s) = some (.done (.scalar s), st) := by
      rcases hm with rfl | rfl <;> rfl
    rw [toks, List.singleton_append, run_cons_some h]
  | .arr [], m, st, rest, hm, hfit => by
    have hd : st.length < maxDepth := by have := hfit.1; omega
    rw [toks, List.cons_append, run_cons_some (parseStep_lbracket hm hd)]
    rfl
  | .arr (x :: xs), m, st, rest, hm, hfit => by
    have hd : st.length < maxDepth := by have := hfit.1; omega
    have hx : FitsElems (maxDepth - (st.length + 1)) (x :: xs) := by
      exact hfit.2
    rw [toks, List.cons_append, run_cons_some (parseStep_lbracket hm hd), List.append_assoc,
      run_toks x (.arr [] :: st) _ (.inr rfl) hx.1, run_toksElems xs [] x st rest hx.2]
    rfl
  | .obj [], m, st, rest, hm, hfit => by
    have hd : st.length < maxDepth := by have := hfit.1; omega
    rw [toks, List.cons_append, run_cons_some (parseStep_lbrace hm hd)]
    rfl
  | .obj ((k, v) :: kvs), m, st, rest, hm, hfit => by
    have hd : st.length < maxDepth := by have := hfit.1; omega
    have hx : FitsMembers (maxDepth - (st.length + 1)) ((k, v) :: kvs) := by
      exact hfit.2
    have hcolon : parseStep (.colon [] k) st (.punct .colon) = some (.value, .obj [] k :: st) := rfl
    rw [toks, List.cons_append, run_cons_some (parseStep_lbrace hm hd), List.cons_append,
      run_cons_some (parseStep_key hx.1), List.cons_append, run_cons_some hcolon, List.append_assoc,
      run_toks v (.obj [] k :: st) _ (.inl rfl) hx.2.1, run_toksMembers kvs [] k v st rest hx.2.2]
    rfl

theorem run_toksElems : ∀ xs ys v st rest,
    FitsElems (maxDepth - (st.length + 1)) xs → run (toksElems xs ++ rest) (.done v, .arr ys :: st) =
        run rest (.done (.arr (ys ++ v :: xs)), st)
  | [], ys, v, st, rest, _ => rfl
  | x :: xs, ys, v, st, rest, hfit => by
    have hcomma : parseStep (.done v) (.arr ys :: st) (.punct .comma) = some (.value, .arr (ys ++ [v]) :: st) := rfl
    rw [toksElems, List.cons_append, run_cons_some hcomma, List.append_assoc,
      run_toks x (.arr (ys ++ [v]) :: st) _ (.inl rfl) hfit.1,
      run_toksElems xs (ys ++ [v]) x st rest hfit.2, List.append_assoc]
    rfl

theorem run_toksMembers : ∀ kvs ys k v st
    rest, FitsMembers (maxDepth - (st.length + 1)) kvs →
      run (toksMembers kvs ++ rest) (.done v, .obj ys k :: st) = run rest (.done (.obj (ys ++ (k, v) :: kvs)), st)
  | [], ys, k, v, st, rest, _ => rfl
  | (k', v') :: kvs, ys, k, v, st, rest, hfit => by
    have hcomma : parseStep (.done v) (.obj ys k :: st) (.punct .comma) = some (.key (ys ++ [(k, v)]) false, st) := rfl
    have hcolon : parseStep (.colon (ys ++ [(k, v)]) k') st (.punct .colon) =
        some (.value, .obj (ys ++ [(k, v)]) k' :: st) := rfl
    rw [toksMembers, List.cons_append, run_cons_some hcomma, List.cons_append,
      run_cons_some (parseStep_key hfit.1), List.cons_append, run_cons_some hcolon,
      List.append_assoc, run_toks v' (.obj (ys ++ [(k, v)]) k' :: st) _ (.inl rfl) hfit.2.1,
      run_toksMembers kvs (ys ++ [(k, v)]) k' v' st rest hfit.2.2, List.append_assoc]
    rfl

end

/-! ### Cutting a compact text -/

/-- The text of the tokens is cut into the tokens, in front of `rest`. -/
def CutsTo (ts : List Tok) (rest : Bytes) : Prop :=
  lex (ts.flatMap tokBytes ++ rest) = (lex rest).map (ts ++ ·)

theorem cutsTo_nil (rest : Bytes) : CutsTo [] rest := by
  simp [CutsTo]

theorem cutsTo_append {t : List Tok} (h1 : CutsTo t (us.flatMap tokBytes ++ rest))
    (h2 : CutsTo us rest) : CutsTo (t ++ us) rest := by
  unfold CutsTo at *
  rw [List.flatMap_append, List.append_assoc, h1, h2, Option.map_map]
  congr 1
  funext l
  simp

theorem cutsTo_punct (p : Punct) (h : CutsTo us rest) : CutsTo (.punct p :: us) rest :=
  cutsTo_append (t := [.punct p]) (lex_punct p _) h

theorem cutsTo_scalar {s : Bytes} (hs : ValidScalar s) (hd : Delimited (us.flatMap tokBytes ++ rest))
    (h : CutsTo us rest) :
    CutsTo (.scalar s :: us) rest := by
  have h1 : CutsTo [.scalar s] (us.flatMap tokBytes ++ rest) := by
    unfold CutsTo
    simpa [tokBytes] using lex_scalar hs hd
  exact cutsTo_append h1 h

theorem delimited_punct (p : Punct) (r : Bytes) : Delimited (p.byte :: r) := .inr ⟨p, r, rfl⟩

theorem delimited_elems (xs : List Doc) (rest : Bytes) : Delimited ((toksElems xs).flatMap tokBytes ++ rest) := by
  cases xs <;> exact delimited_punct _ _

theorem delimited_members (kvs : List (Bytes × Doc)) (rest : Bytes) :
    Delimited ((toksMembers kvs).flatMap tokBytes ++ rest) := by
  rcases kvs with _ | ⟨⟨k, v⟩, kvs⟩ <;> exact delimited_punct _ _

mutual

theorem cutsTo_toks : ∀ t {d : ℕ} {rest : Bytes}, Fits d t → Delimited rest → CutsTo (toks t) rest
  | .scalar _, _, rest, hfit, hrest => cutsTo_scalar hfit hrest (cutsTo_nil rest)
  | .arr [], _, rest, _, _ => cutsTo_punct _ (cutsTo_punct _ (cutsTo_nil rest))
  | .arr (x :: xs), _, rest, hfit, hrest =>
    cutsTo_punct _ (cutsTo_append (cutsTo_toks x hfit.2.1 (delimited_elems xs rest))
      (cutsTo_toksElems xs hfit.2.2 hrest))
  | .obj [], _, rest, _, _ => cutsTo_punct _ (cutsTo_punct _ (cutsTo_nil rest))
  | .obj ((_, v) :: kvs), _, rest, hfit, hrest =>
    cutsTo_punct _ (cutsTo_scalar hfit.2.1.1 (delimited_punct _ _) (cutsTo_punct _
      (cutsTo_append (cutsTo_toks v hfit.2.2.1 (delimited_members kvs rest))
        (cutsTo_toksMembers kvs hfit.2.2.2 hrest))))

theorem cutsTo_toksElems : ∀ xs {d : ℕ} {rest : Bytes}, FitsElems d xs →
    Delimited rest → CutsTo (toksElems xs) rest
  | [], _, rest, _, _ => cutsTo_punct _ (cutsTo_nil rest)
  | x :: xs, _, rest, hfit, hrest =>
    cutsTo_punct _ (cutsTo_append (cutsTo_toks x hfit.1 (delimited_elems xs rest)) (cutsTo_toksElems xs hfit.2 hrest))

theorem cutsTo_toksMembers : ∀ kvs {d : ℕ} {rest : Bytes},
    FitsMembers d kvs → Delimited rest → CutsTo (toksMembers kvs) rest
  | [], _, rest, _, _ => cutsTo_punct _ (cutsTo_nil rest)
  | (_, v) :: kvs, _, rest, hfit, hrest =>
    cutsTo_punct _ (cutsTo_scalar hfit.1.1 (delimited_punct _ _) (cutsTo_punct _
      (cutsTo_append (cutsTo_toks v hfit.2.1 (delimited_members kvs rest)) (cutsTo_toksMembers kvs hfit.2.2 hrest))))

end

/-! ### Reading back -/

/-- **A document that fits is read back from its compact text.** -/
theorem parse_render (h : Fits maxDepth t) : parse (render t) = some t := by
  have hcut := cutsTo_toks t h (.inl rfl : Delimited [])
  have hlex : lex (render t) = some (toks t) := by
    simpa [CutsTo, render, lex, lexFrom, feed, finish] using hcut
  have hrun := run_toks t (m := .value) [] [] (.inl rfl) h
  rw [List.append_nil] at hrun
  simp [parse, hlex, parseToks, hrun, run]

theorem render_injective {u : Doc} (ht : Fits maxDepth t) (hu : Fits maxDepth u) (h : render t = render u) : t = u := by
  have hp := parse_render ht
  rw [h, parse_render hu] at hp
  exact (Option.some.inj hp).symm

/-! ### What the parser returns -/

def FrameFits (d : ℕ) : Frame → Prop
  | .arr xs => FitsElems d xs
  | .obj kvs k => FitsMembers d kvs ∧ ValidKey k

def StackFits : List Frame → Prop
  | [] => True
  | f :: st => st.length < maxDepth ∧ FrameFits (maxDepth - (st.length + 1)) f ∧ StackFits st

def ModeFits (st : List Frame) : Mode → Prop
  | .value => True
  | .first => True
  | .key kvs _ => st.length < maxDepth ∧ FitsMembers (maxDepth - (st.length + 1)) kvs
  | .colon kvs k => st.length < maxDepth ∧ FitsMembers (maxDepth - (st.length + 1)) kvs ∧ ValidKey k
  | .done v => Fits (maxDepth - st.length) v

theorem fitsElems_concat {xs : List Doc} {v : Doc} (h : FitsElems d xs) (hv : Fits d v) : FitsElems d (xs ++ [v]) := by
  rw [fitsElems_iff] at *
  grind

theorem fitsMembers_concat {k : Bytes} {v : Doc} (h : FitsMembers d kvs) (hk : ValidKey k)
    (hv : Fits d v) : FitsMembers d (kvs ++ [(k, v)]) := by
  rw [fitsMembers_iff] at *
  grind

theorem fits_arr {n : ℕ} {xs : List Doc} (hn : n < maxDepth)
    (h : FitsElems (maxDepth - (n + 1)) xs) : Fits (maxDepth - n) (.arr xs) := by
  refine ⟨by omega, ?_⟩
  rwa [Nat.sub_sub]

theorem fits_obj {n : ℕ} (hn : n < maxDepth)
    (h : FitsMembers (maxDepth - (n + 1)) kvs) : Fits (maxDepth - n) (.obj kvs) := by
  refine ⟨by omega, ?_⟩
  rwa [Nat.sub_sub]

theorem parseStep_fits {m' : Mode} {st' : List Frame} {t : Tok} (ht : ∀ s, t = .scalar s → ValidScalar s)
    (hst : StackFits st) (hm : ModeFits st m)
    (h : parseStep m st t = some (m', st')) : StackFits st' ∧ ModeFits st' m' := by
  rcases t with p | s
  · cases p with
    | lbracket =>
      simp only [parseStep] at h
      split at h <;> try split_ifs at h with hd
      all_goals cases h
      all_goals exact ⟨⟨hd, trivial, hst⟩, trivial⟩
    | lbrace =>
      simp only [parseStep] at h
      split at h <;> try split_ifs at h with hd
      all_goals cases h
      all_goals exact ⟨hst, hd, trivial⟩
    | rbracket =>
      simp only [parseStep] at h
      split at h <;> cases h
      · exact ⟨hst.2.2, fits_arr hst.1 hst.2.1⟩
      · exact ⟨hst.2.2, fits_arr hst.1 (fitsElems_concat hst.2.1 hm)⟩
    | rbrace =>
      simp only [parseStep] at h
      split at h <;> cases h
      · exact ⟨hst, fits_obj hm.1 hm.2⟩
      · exact ⟨hst.2.2, fits_obj hst.1 (fitsMembers_concat hst.2.1.1 hst.2.1.2 hm)⟩
    | colon =>
      simp only [parseStep] at h
      split at h <;> cases h
      exact ⟨⟨hm.1, hm.2, hst⟩, trivial⟩
    | comma =>
      simp only [parseStep] at h
      split at h <;> cases h
      · exact ⟨⟨hst.1, fitsElems_concat hst.2.1 hm, hst.2.2⟩, trivial⟩
      · exact ⟨hst.2.2, hst.1, fitsMembers_concat hst.2.1.1 hst.2.1.2 hm⟩
  · have hs := ht s rfl
    simp only [parseStep] at h
    split at h <;> try split_ifs at h with hk
    all_goals cases h
    · exact ⟨hst, hs⟩
    · exact ⟨hst, hs⟩
    · exact ⟨hst, hm.1, hm.2, hs, hk⟩

theorem run_fits : ∀ {ts : List Tok} {m m' : Mode} {st st' : List Frame},
    (∀ s, Tok.scalar s ∈ ts → ValidScalar s) → StackFits st → ModeFits st m →
      run ts (m, st) = some (m', st') → StackFits st' ∧ ModeFits st' m'
  | [], m, m', st, st', _, hst, hm, h => by
    cases h
    exact ⟨hst, hm⟩
  | t :: ts, m, m', st, st', hv, hst, hm, h => by
    obtain ⟨⟨m1, st1⟩, h1, h2⟩ := Option.bind_eq_some_iff.mp h
    obtain ⟨hst1, hm1⟩ := parseStep_fits (fun s hs => hv s (by simp [hs])) hst hm h1
    exact run_fits (fun s hs => hv s (List.mem_cons_of_mem t hs)) hst1 hm1 h2

theorem fits_of_parse {bs : Bytes} (h : parse bs = some t) : Fits maxDepth t := by
  obtain ⟨ts, hlex, hts⟩ := Option.bind_eq_some_iff.mp h
  unfold parseToks at hts
  split at hts
  · next v hrun =>
    cases hts
    have hst : StackFits [] := trivial
    have hm : ModeFits [] .value := trivial
    exact (run_fits (fun s hs => validScalar_of_mem_lex hlex hs) hst hm hrun).2
  · cases hts

end CoreC.Lib.Json.Parse
