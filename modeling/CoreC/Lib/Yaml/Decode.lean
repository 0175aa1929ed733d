import CoreC.Lib.GoInt
import CoreC.Lib.Yaml

/-! # Reading a tree into a record, and writing it back

A `Codec` is the pair of functions that a decoder driven by struct tags derives for a type, together with
the laws that every such pair has: which values are read back as they were written (`dec_enc`), and that a replacement
of strings in what was written is visible in what is read (`visible`). Records are put together from their fields
(`Obj.one`, `Obj.and`, `Obj.iso`), so the laws hold by construction.

`known` says that a tree has no key without a field; the strict decoder refuses the others. -/

namespace CoreC.Lib.Yaml.Decode

open GoInt List Option

/-- How a decoder reads a scalar into a field of a basic type, beside `null`, the zero value; `trunc` is the
conversion of a number to an integer. The text of a number or a boolean has no dollar sign. -/
structure Conv where
  text : Scalar → Option String
  int : Scalar → Option ℤ
  float : Scalar → Option GoFloat
  bool : Scalar → Option Bool
  trunc : GoFloat → ℤ
  text_str : ∀ s, text (.str s) = some s
  text_plain : ∀ x s, (∀ t, x ≠ .str t) → text x = some s → '$' ∉ s.toList
  int_int : ∀ n, int (.int n) = if IntType.int64.InRange n then some n else none
  float_float : ∀ x, float (.float x) = some x
  bool_bool : ∀ b, bool (.bool b) = some b

/-- The replacement changes strings only, and a text field shows each change. -/
structure Conv.Visible (c : Conv) (f : Scalar → Scalar) : Prop where
  empty : f (.str "") = .str ""
  text : ∀ s, c.text (f (.str s)) = some s → f (.str s) = .str s
  other : ∀ x, (∀ s, x ≠ .str s) → f x = x

/-- How values of a type are written and read; `fits` says which are read back. -/
structure Codec (c : Conv) (β : Type) where
  zero : β
  enc : β → Tree
  dec : Tree → Option β
  known : Tree → Bool
  fits : β → Bool
  dec_enc : ∀ b, dec (enc b) = some b ↔ fits b = true
  known_enc : ∀ b, known (enc b) = true
  known_mapLeaf : ∀ f y, known (mapLeaf f y) = known y
  visible : ∀ {f}, c.Visible f → ∀ b, dec (mapLeaf f (enc b)) = some b → mapLeaf f (enc b) = enc b

variable {c : Conv} {α β ρ : Type}

/-- The decoder; the strict one refuses keys without a field. -/
def Codec.unmarshal (C : Codec c β) (strict : Bool) (y : Tree) : Option β :=
  if strict && !C.known y then none else C.dec y

/-! ### Scalars -/

/-- A field of a basic type: `read` reads every scalar but `null`. -/
def scalarCodec (zero : β) (write : β → Scalar) (read : Scalar → Option β) (fits : β → Bool)
    (read_write : ∀ b, write b ≠ .null ∧ (read (write b) = some b ↔ fits b = true))
    (visible : ∀ {f}, c.Visible f → ∀ b, (f (write b) = .null → b = zero) →
      (f (write b) ≠ .null → read (f (write b)) = some b) → f (write b) = write b) : Codec c β where
  zero := zero
  enc b := .scalar (write b)
  dec
    | .scalar s => if s = .null then some zero else read s
    | _ => none
  known _ := true
  fits := fits
  dec_enc b := by simp [read_write b]
  known_enc _ := rfl
  known_mapLeaf _ _ := rfl
  visible hf b h := by
    simp only [mapLeaf_scalar] at h ⊢
    refine congrArg Tree.scalar (visible hf b (fun hnull => ?_) fun hnull => ?_)
    · rw [if_pos hnull] at h
      exact (some.inj h).symm
    · rw [if_neg hnull] at h
      exact h

/-- A field of type `string`. -/
def str : Codec c String :=
  scalarCodec "" .str c.text (fun _ => true) (fun s => ⟨by simp, by simp [c.text_str]⟩) fun hf s hnull htext => by
    refine hf.text s (htext fun h => ?_)
    rw [hnull h, hf.empty] at h
    cases h

/-- A field of type `int`. -/
def int : Codec c ℤ :=
  scalarCodec 0 .int c.int (fun n => IntType.int64.InRange n) (fun n => ⟨by simp, by simp [c.int_int]⟩)
    fun hf n _ _ => hf.other _ (by simp)

/-- A field of type `float64`. -/
def float : Codec c GoFloat :=
  scalarCodec 0 .float c.float (fun _ => true) (fun x => ⟨by simp, by simp [c.float_float]⟩)
    fun hf x _ _ => hf.other _ (by simp)

/-- A field of type `bool`. -/
def bool : Codec c Bool :=
  scalarCodec false .bool c.bool (fun _ => true) (fun b => ⟨by simp, by simp [c.bool_bool]⟩)
    fun hf b _ _ => hf.other _ (by simp)

/-! ### Lists and maps -/

theorem bind_bind_eq_some_iff {a : Option α} {b : Option β} {f : α → β → ρ} {x : α} {y : β}
    (hf : ∀ {x' y'}, f x' y' = f x y → x' = x ∧ y' = y) :
    (a.bind fun x => b.bind fun y => some (f x y)) = some (f x y) ↔ a = some x ∧ b = some y := by
  simp only [bind_eq_some_iff, some.injEq]
  constructor
  · rintro ⟨x', hx, y', hy, heq⟩
    obtain ⟨rfl, rfl⟩ := hf heq
    exact ⟨hx, hy⟩
  · rintro ⟨hx, hy⟩
    exact ⟨x, hx, y, hy, rfl⟩

def decList (C : Codec c β) : List Tree → Option (List β)
  | [] => some []
  | y :: ys => do
    let b ← C.dec y
    let bs ← decList C ys
    return b :: bs

theorem decList_enc (C : Codec c β) (bs : List β) : decList C (bs.map C.enc) = some bs ↔ bs.all C.fits = true := by
  induction bs with
  | nil => simp [decList]
  | cons b bs ih =>
    rw [all_cons, Bool.and_eq_true, ← C.dec_enc, ← ih]
    exact bind_bind_eq_some_iff (f := cons) fun h => cons.inj h

theorem forall₂_decList (C : Codec c β) : ∀ {ys : List Tree} {bs : List β},
    decList C ys = some bs → List.Forall₂ (fun y b => C.dec y = some b) ys bs
  | [], _, h => by
    cases h
    exact .nil
  | y :: ys, bs, h => by
    simp only [decList, Option.bind_eq_bind, Option.bind_eq_some_iff, Option.pure_def, Option.some.injEq] at h
    obtain ⟨b, hb, bs', h, rfl⟩ := h
    exact .cons hb (forall₂_decList C h)

theorem decList_visible (C : Codec c β) {f : Scalar → Scalar} (hf : c.Visible f) :
    ∀ bs, decList C ((bs.map C.enc).map (mapLeaf f)) = some bs → (bs.map C.enc).map (mapLeaf f) = bs.map C.enc
  | [], _ => rfl
  | b :: bs, h => by
    simp only [List.map_cons, decList, Option.bind_eq_bind, Option.bind_eq_some_iff, Option.pure_def,
      Option.some.injEq, List.cons.injEq] at h
    obtain ⟨b', hb, bs', hbs, rfl, rfl⟩ := h
    simp only [List.map_cons]
    rw [C.visible hf b' hb, decList_visible C hf bs' hbs]

def list (C : Codec c β) : Codec c (List β) where
  zero := []
  enc bs := .seq (bs.map C.enc)
  dec
    | .scalar s => if s = .null then some [] else none
    | .seq ys => decList C ys
    | .map _ => none
  known
    | .seq ys => ys.all C.known
    | _ => true
  fits bs := bs.all C.fits
  dec_enc bs := decList_enc C bs
  known_enc bs := by simp [C.known_enc]
  known_mapLeaf f y := by
    cases y with
    | seq ys => simp [C.known_mapLeaf, Function.comp_def]
    | _ => simp
  visible hf bs h := by
    rw [mapLeaf_seq] at h ⊢
    rw [decList_visible C hf bs h]

/-- A Go map with values of one type: its entries in key order. -/
def Dict (β : Type) : Type := { m : List (String × β) // sortKeys m = m }

instance [DecidableEq β] : DecidableEq (Dict β) :=
  inferInstanceAs (DecidableEq { m : List (String × β) // sortKeys m = m })

instance [Repr β] : Repr (Dict β) := ⟨fun m n => reprPrec m.1 n⟩

instance : EmptyCollection (Dict β) := ⟨[], rfl⟩

def decEntries (C : Codec c β) : List (String × Tree) → Option (List (String × β))
  | [] => some []
  | (k, y) :: kvs => do
    let b ← C.dec y
    let m ← decEntries C kvs
    return (k, b) :: m

def encEntries (C : Codec c β) (m : List (String × β)) : List (String × Tree) :=
  m.map fun x => (x.1, C.enc x.2)

theorem decEntries_enc (C : Codec c β) (m : List (String × β)) :
    decEntries C (encEntries C m) = some m ↔ (m.all fun x => C.fits x.2) = true := by
  induction m with
  | nil => simp [encEntries, decEntries]
  | cons x m ih =>
    obtain ⟨k, b⟩ := x
    rw [all_cons, Bool.and_eq_true, ← C.dec_enc, ← ih]
    exact bind_bind_eq_some_iff (f := fun b m => (k, b) :: m) fun h => by simpa using h

theorem map_fst_decEntries (C : Codec c β) : ∀ {kvs : List (String × Tree)} {m : List (String × β)},
    decEntries C kvs = some m → m.map Prod.fst = kvs.map Prod.fst
  | [], _, h => by
    cases h
    rfl
  | (k, y) :: kvs, m, h => by
    simp only [decEntries, Option.bind_eq_bind, Option.bind_eq_some_iff, Option.pure_def, Option.some.injEq] at h
    obtain ⟨b, -, m', h, rfl⟩ := h
    simp [map_fst_decEntries C h]

theorem decEntries_visible (C : Codec c β) {f : Scalar → Scalar} (hf : c.Visible f) :
    ∀ m : List (String × β), decEntries C (mapLeafEntries f (encEntries C m)) = some m →
      mapLeafEntries f (encEntries C m) = encEntries C m
  | [], _ => rfl
  | (k, b) :: m, h => by
    simp only [encEntries, mapLeafEntries, List.map_cons, decEntries, Option.bind_eq_bind,
      Option.bind_eq_some_iff, Option.pure_def, Option.some.injEq, List.cons.injEq, Prod.mk.injEq,
      true_and] at h
    obtain ⟨b', hb, m', hm, rfl, rfl⟩ := h
    have ih := decEntries_visible C hf m' hm
    simp only [encEntries, mapLeafEntries, List.map_cons] at ih ⊢
    rw [C.visible hf b' hb, ih]

theorem sortKeys_of_map_fst {m : List (String × α)} {m' : List (String × β)}
    (h : m.map Prod.fst = m'.map Prod.fst) (hm : sortKeys m' = m') : sortKeys m = m := by
  have hp : (m'.map Prod.fst).Pairwise (· ≤ ·) := by
    rw [pairwise_map, ← hm]
    exact pairwise_sortKeys m'
  rw [← h, pairwise_map] at hp
  exact sortKeys_of_pairwise hp

/-- Entries with the keys of a map are in order already. -/
theorem eq_of_sortKeys_eq (C : Codec c β) {kvs : List (String × Tree)} {l : List (String × β)} {m : Dict β}
    (hkvs : kvs.map Prod.fst = m.1.map Prod.fst) (hl : decEntries C kvs = some l) (hsort : sortKeys l = m.1) :
    l = m.1 := by
  rwa [sortKeys_of_map_fst ((map_fst_decEntries C hl).trans hkvs) m.2] at hsort

def dict (C : Codec c β) : Codec c (Dict β) where
  zero := ∅
  enc m := .map (encEntries C m.1)
  dec
    | .scalar s => if s = .null then some ∅ else none
    | .seq _ => none
    | .map kvs =>
      (decEntries C kvs).map fun m => ⟨sortKeys m, sortKeys_of_pairwise (pairwise_sortKeys m)⟩
  known
    | .map kvs => kvs.all fun x => C.known x.2
    | _ => true
  fits m := m.1.all fun x => C.fits x.2
  dec_enc m := by
    rw [← decEntries_enc]
    refine map_eq_some_iff.trans ⟨?_, ?_⟩
    · rintro ⟨l, hl, hm⟩
      rw [hl, eq_of_sortKeys_eq C (by simp [encEntries]) hl (congrArg Subtype.val hm)]
    · exact fun hm => ⟨m.1, hm, Subtype.ext m.2⟩
  known_enc m := by simp [encEntries, C.known_enc]
  known_mapLeaf f y := by
    cases y with
    | map kvs => simp [mapLeafEntries, C.known_mapLeaf, Function.comp_def]
    | _ => simp
  visible hf m h := by
    rw [mapLeaf_map] at h ⊢
    obtain ⟨l, hl, hm⟩ := map_eq_some_iff.mp h
    rw [eq_of_sortKeys_eq C (by simp [mapLeafEntries, encEntries]) hl (congrArg Subtype.val hm)] at hl
    exact congrArg Tree.map (decEntries_visible C hf m.1 hl)

/-- A field of type `map[string]any`. -/
def goMap : Codec c GoMap where
  zero := ∅
  enc m := .map m.1
  dec
    | .scalar s => if s = .null then some ∅ else none
    | .seq _ => none
    | .map kvs => some (GoMap.ofEntries kvs)
  known _ := true
  fits _ := true
  dec_enc m := by simp [m.ofEntries_self]
  known_enc _ := rfl
  known_mapLeaf _ _ := rfl
  visible {f} hf m h := by
    rw [mapLeaf_map] at h
    have hcanon : canon (mapLeaf f (.map m.1)) = .map m.1 := by
      rw [mapLeaf_map, canon_map]
      exact congrArg (fun x : GoMap => Tree.map x.1) (some.inj h)
    rw [canon_mapLeaf, m.2] at hcanon
    exact hcanon

/-! ### Records -/

theorem lookup_mapLeafEntries (f : Scalar → Scalar) (m : List (String × Tree)) (k : String) :
    (mapLeafEntries f m).lookup k = (m.lookup k).map (mapLeaf f) := by
  induction m with
  | nil => rfl
  | cons x m ih =>
    obtain ⟨l, y⟩ := x
    simp only [mapLeafEntries, map_cons, lookup_cons] at ih ⊢
    cases k == l <;> simp [ih]

theorem lookup_eq_none_of_keys {m : List (String × Tree)} {keys : List String} {k : String}
    (h : ∀ x ∈ m, x.1 ∈ keys) (hk : k ∉ keys) : m.lookup k = none := by
  rw [lookup_eq_none_iff]
  intro x hx
  simp only [bne_iff_ne]
  exact fun heq => hk (heq ▸ h x hx)

/-- Some fields of a record: how they stand in a mapping, and how they are read from one. The laws are
about any mapping that has the same values under the keys of these fields. -/
structure Obj (c : Conv) (ρ : Type) where
  keys : List String
  zero : ρ
  fields : ρ → List (String × Tree)
  get : List (String × Tree) → Option ρ
  known : List (String × Tree) → Bool
  fits : ρ → Bool
  mem_keys : ∀ r, ∀ x ∈ fields r, x.1 ∈ keys
  get_fields : ∀ r m, (∀ k ∈ keys, m.lookup k = (fields r).lookup k) → (get m = some r ↔ fits r = true)
  known_fields : ∀ r m, (∀ k ∈ keys, m.lookup k = (fields r).lookup k) → known m = true
  known_mapLeaf : ∀ f m, known (mapLeafEntries f m) = known m
  visible : ∀ {f}, c.Visible f → ∀ r m,
    (∀ k ∈ keys, m.lookup k = (mapLeafEntries f (fields r)).lookup k) → get m = some r →
      mapLeafEntries f (fields r) = fields r

namespace Obj

/-- One field; `empty` says which values are left out (`omitempty`), all of them the zero value. -/
def one (key : String) (C : Codec c β) (empty : β → Bool) (h : ∀ b, empty b = true → b = C.zero) :
    Obj c β where
  keys := [key]
  zero := C.zero
  fields b := if empty b then [] else [(key, C.enc b)]
  get m :=
    match m.lookup key with
    | none => some C.zero
    | some y => C.dec y
  known m :=
    match m.lookup key with
    | none => true
    | some y => C.known y
  fits b := empty b || C.fits b
  mem_keys b x hx := by
    split_ifs at hx
    · cases hx
    · simp_all
  get_fields b m hm := by
    rw [hm key (by simp)]
    split_ifs with ho
    · simp [ho, ← h b ho]
    · simp [ho, C.dec_enc]
  known_fields b m hm := by
    rw [hm key (by simp)]
    split_ifs
    · rfl
    · simp [C.known_enc]
  known_mapLeaf f m := by
    rw [lookup_mapLeafEntries]
    cases m.lookup key with
    | none => rfl
    | some y => exact C.known_mapLeaf f y
  visible {f} hf b m hm hget := by
    rw [hm key (by simp)] at hget
    split_ifs at hget ⊢
    · rfl
    · simp only [mapLeafEntries, map_cons, map_nil, lookup_cons, beq_self_eq_true] at hget ⊢
      rw [C.visible hf b hget]

def req (key : String) (C : Codec c β) : Obj c β := one key C (fun _ => false) (by simp)

/-- A field with `omitempty`. -/
def opt [DecidableEq β] (key : String) (C : Codec c β) : Obj c β :=
  one key C (fun b => b = C.zero) (by simp)

def apart (ks ls : List String) : Bool := ks.all fun k => k ∉ ls

theorem not_mem_of_apart {ks ls : List String} (h : apart ks ls = true) : ∀ k ∈ ks, k ∉ ls :=
  fun k hk => of_decide_eq_true (all_eq_true.mp h k hk)

variable (a : Obj c α) (b : Obj c β) (key : String) (C : Codec c β) (m : List (String × Tree))

theorem lookup_append_left (h : ∀ k ∈ a.keys, k ∉ b.keys) (x : α) (y : β) {k : String}
    (hk : k ∈ a.keys) : (a.fields x ++ b.fields y).lookup k = (a.fields x).lookup k := by
  rw [lookup_append, lookup_eq_none_of_keys (b.mem_keys y) (h k hk), or_none]

theorem lookup_append_right (h : ∀ k ∈ a.keys, k ∉ b.keys) (x : α) (y : β) {k : String}
    (hk : k ∈ b.keys) : (a.fields x ++ b.fields y).lookup k = (b.fields y).lookup k := by
  rw [lookup_append, lookup_eq_none_of_keys (a.mem_keys x) fun ha => h k ha hk, none_or]

def and (a : Obj c α) (b : Obj c β) (h : ∀ k ∈ a.keys, k ∉ b.keys := by exact not_mem_of_apart rfl) :
    Obj c (α × β) where
  keys := a.keys ++ b.keys
  zero := (a.zero, b.zero)
  fields r := a.fields r.1 ++ b.fields r.2
  get m := do
    let x ← a.get m
    let y ← b.get m
    return (x, y)
  known m := a.known m && b.known m
  fits r := a.fits r.1 && b.fits r.2
  mem_keys r x hx := by
    rcases mem_append.mp hx with hx | hx
    · exact mem_append_left _ (a.mem_keys r.1 x hx)
    · exact mem_append_right _ (b.mem_keys r.2 x hx)
  get_fields r m hm := by
    rw [Bool.and_eq_true, ← a.get_fields r.1 m fun k hk => ?_, ← b.get_fields r.2 m fun k hk => ?_]
    · exact bind_bind_eq_some_iff (f := Prod.mk) fun h => Prod.mk.inj h
    · rw [hm k (mem_append_right _ hk), lookup_append_right a b h _ _ hk]
    · rw [hm k (mem_append_left _ hk), lookup_append_left a b h _ _ hk]
  known_fields r m hm := by
    rw [a.known_fields r.1 m fun k hk => ?_, b.known_fields r.2 m fun k hk => ?_]
    · rfl
    · rw [hm k (mem_append_right _ hk), lookup_append_right a b h _ _ hk]
    · rw [hm k (mem_append_left _ hk), lookup_append_left a b h _ _ hk]
  known_mapLeaf f m := by rw [a.known_mapLeaf, b.known_mapLeaf]
  visible {f} hf r m hm hget := by
    simp only [Option.bind_eq_bind, Option.bind_eq_some_iff, Option.pure_def, Option.some.injEq] at hget
    obtain ⟨x, hx, y, hy, rfl⟩ := hget
    have ha := a.visible hf x m (fun k hk => ?_) hx
    have hb := b.visible hf y m (fun k hk => ?_) hy
    · simp only [mapLeafEntries, map_append] at ha hb ⊢
      rw [ha, hb]
    · rw [hm k (mem_append_right _ hk), lookup_mapLeafEntries, lookup_mapLeafEntries,
        lookup_append_right a b h _ _ hk]
    · rw [hm k (mem_append_left _ hk), lookup_mapLeafEntries, lookup_mapLeafEntries, lookup_append_left a b h _ _ hk]

def iso (o : Obj c α) (e : α ≃ ρ) : Obj c ρ where
  keys := o.keys
  zero := e o.zero
  fields r := o.fields (e.symm r)
  get m := (o.get m).map e
  known := o.known
  fits r := o.fits (e.symm r)
  mem_keys r := o.mem_keys (e.symm r)
  get_fields r m hm := by
    rw [← o.get_fields _ m hm, map_eq_some_iff]
    constructor
    · rintro ⟨x, hx, rfl⟩
      rw [hx, e.symm_apply_apply]
    · exact fun hx => ⟨_, hx, e.apply_symm_apply r⟩
  known_fields r := o.known_fields (e.symm r)
  known_mapLeaf := o.known_mapLeaf
  visible {f} hf r m hm hget := by
    obtain ⟨x, hx, rfl⟩ := map_eq_some_iff.mp hget
    refine o.visible hf _ m hm ?_
    rw [hx, e.symm_apply_apply]

def codec (o : Obj c ρ) : Codec c ρ where
  zero := o.zero
  enc r := .map (o.fields r)
  dec
    | .scalar s => if s = .null then some o.zero else none
    | .seq _ => none
    | .map m => o.get m
  known
    | .map m => (m.all fun x => x.1 ∈ o.keys) && o.known m
    | _ => true
  fits := o.fits
  dec_enc r := o.get_fields r _ fun _ _ => rfl
  known_enc r := by
    have hall : ((o.fields r).all fun x => x.1 ∈ o.keys) = true := by
      rw [List.all_eq_true]
      exact fun x hx => decide_eq_true (o.mem_keys r x hx)
    simp [hall, o.known_fields r _ fun _ _ => rfl]
  known_mapLeaf f y := by
    cases y with
    | map m =>
      simp only [mapLeaf_map, o.known_mapLeaf]
      simp [mapLeafEntries, Function.comp_def]
    | _ => simp
  visible {f} hf r h := by
    rw [mapLeaf_map] at h ⊢
    rw [o.visible hf r _ (fun _ _ => rfl) h]

theorem codec_unmarshal_map (o : Obj c ρ) (strict : Bool) (m : List (String × Tree)) :
    o.codec.unmarshal strict (.map m) =
      if strict && !((m.all fun x => x.1 ∈ o.keys) && o.known m) then none else o.get m := rfl

def ptr (o : Obj c ρ) : Codec c (Option ρ) where
  zero := none
  enc
    | none => .scalar .null
    | some r => .map (o.fields r)
  dec
    | .scalar s => if s = .null then some none else none
    | .seq _ => none
    | .map m => (o.get m).map some
  known := o.codec.known
  fits
    | none => true
    | some r => o.fits r
  dec_enc
    | none => by simp
    | some r => by
      rw [← o.get_fields r _ fun _ _ => rfl]
      exact (map_injective (some_injective ρ)).eq_iff' rfl
  known_enc
    | none => rfl
    | some r => o.codec.known_enc r
  known_mapLeaf := o.codec.known_mapLeaf
  visible {f} hf
    | none, _ => by rw [mapLeaf_scalar, hf.other .null (by simp)]
    | some r, h => by
      refine o.codec.visible hf r ?_
      rw [mapLeaf_map] at h
      obtain ⟨r', hr, heq⟩ := map_eq_some_iff.mp h
      rw [some.inj heq] at hr
      show o.codec.dec (mapLeaf f (.map (o.fields r))) = some r
      rw [mapLeaf_map]
      exact hr

/-! Reading field by field -/

def value (C : Codec c β) (m : List (String × Tree)) (key : String) : Option β :=
  match m.lookup key with
  | none => some C.zero
  | some y => C.dec y

theorem get_req : (req key C).get m = value C m key := rfl

theorem get_opt [DecidableEq β] : (opt key C).get m = value C m key := rfl

theorem get_and (h : ∀ k ∈ a.keys, k ∉ b.keys) (m : List (String × Tree)) :
    (a.and b h).get m = (a.get m).bind fun x => (b.get m).map (Prod.mk x) := by
  simp only [Obj.and]
  cases a.get m <;> cases b.get m <;> rfl

theorem get_iso (o : Obj c α) (e : α ≃ ρ) (m : List (String × Tree)) : (o.iso e).get m = (o.get m).map e := rfl

def knownAt (C : Codec c β) (m : List (String × Tree)) (key : String) : Bool :=
  match m.lookup key with
  | none => true
  | some y => C.known y

theorem known_req : (req key C).known m = knownAt C m key := rfl

theorem known_opt [DecidableEq β] : (opt key C).known m = knownAt C m key := rfl

theorem known_and (h : ∀ k ∈ a.keys, k ∉ b.keys)
    (m : List (String × Tree)) : (a.and b h).known m = (a.known m && b.known m) := rfl

theorem known_iso (o : Obj c α) (e : α ≃ ρ) (m : List (String × Tree)) : (o.iso e).known m = o.known m := rfl

/-! A field of a record -/

/-- The record has the field `proj`, always written, under the key. -/
structure Has (o : Obj c ρ) (key : String) (C : Codec c β) (proj : ρ → β) : Prop where
  written : ∀ r, (o.fields r).lookup key = some (C.enc (proj r))
  read : ∀ m r y, o.get m = some r → m.lookup key = some y → C.dec y = some (proj r)

theorem has_req : (req key C).Has key C id where
  written r := by simp [req, one]
  read m r y h hy := by
    simp only [req, one, hy] at h
    exact h

theorem Has.left {a : Obj c α} {key : String} {C : Codec c ρ} {proj : α → ρ} (h : a.Has key C proj)
    (b : Obj c β) {hab : ∀ k ∈ a.keys, k ∉ b.keys} : (a.and b hab).Has key C (proj ∘ Prod.fst) where
  written r := by simp [Obj.and, lookup_append, h.written]
  read m r y hr hy := by
    simp only [Obj.and, Option.bind_eq_bind, Option.bind_eq_some_iff, Option.pure_def, Option.some.injEq] at hr
    obtain ⟨x, hx, -, -, rfl⟩ := hr
    exact h.read m x y hx hy

theorem Has.right {b : Obj c β} {key : String} {C : Codec c ρ} {proj : β → ρ} (h : b.Has key C proj)
    (a : Obj c α) {hab : ∀ k ∈ a.keys, k ∉ b.keys} (hkey : apart a.keys [key] = true) :
    (a.and b hab).Has key C (proj ∘ Prod.snd) where
  written r := by
    have hnot : key ∉ a.keys := fun ha => not_mem_of_apart hkey key ha (by simp)
    simp [Obj.and, lookup_append, h.written, lookup_eq_none_of_keys (a.mem_keys r.1) hnot]
  read m r y hr hy := by
    simp only [Obj.and, Option.bind_eq_bind, Option.bind_eq_some_iff, Option.pure_def, Option.some.injEq] at hr
    obtain ⟨-, -, x, hx, rfl⟩ := hr
    exact h.read m x y hx hy

theorem Has.iso {o : Obj c α} {key : String} {C : Codec c β} {proj : α → β} (h : o.Has key C proj)
    (e : α ≃ ρ) : (o.iso e).Has key C (proj ∘ e.symm) where
  written r := h.written (e.symm r)
  read m r y hr hy := by
    obtain ⟨x, hx, rfl⟩ := map_eq_some_iff.mp hr
    simpa using h.read m x y hx hy

theorem Has.dec_mapLeaf {o : Obj c ρ} {key : String} {C : Codec c β} {proj : ρ → β}
    (h : o.Has key C proj) {f : Scalar → Scalar} {r r' : ρ}
    (hr : o.codec.dec (mapLeaf f (o.codec.enc r)) = some r') :
    C.dec (mapLeaf f (C.enc (proj r))) = some (proj r') := by
  have henc : o.codec.enc r = .map (o.fields r) := rfl
  rw [henc, mapLeaf_map] at hr
  refine h.read _ r' _ hr ?_
  rw [lookup_mapLeafEntries, h.written, map_some]

end Obj

end CoreC.Lib.Yaml.Decode
