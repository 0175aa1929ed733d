import CoreC.Config.Schema
import CoreC.Config.Sections

/-! # Parsing the configuration

`ParseNoValidate`: expand the placeholders of the text, decode it strictly, and put the tags of the external tag files
before the tags of the drivers that name them. The texts are of any type with a YAML parser and an encoder (`YamlText`),
of which only is known that parsing what was written gives back the tree.

* `parseNoValidate_marshal`: parsing a text that the encoder wrote. -/

namespace CoreC.Config.Parse

open Core.Types Lib.Yaml Lib.Yaml.Decode Lib.GoInt
  Config.Sections

/-! ### Placeholders -/

/-- `strings.Contains(s, "$\x7b")`. -/
def hasPlaceholder : List Char → Bool
  | c :: d :: s => (c = '$' && d = '\x7b') || hasPlaceholder (d :: s)
  | _ => false

/-- `[A-Za-z0-9_]`. -/
def isNameChar (c : Char) : Bool := c.isAlphanum || c = '_'

/-- The match of `envVarRe` in front of a text, behind its `$\x7b`: the name and the rest. -/
def envVar (s : List Char) : Option (List Char × List Char) :=
  let name := s.takeWhile isNameChar
  match name, s.drop name.length with
  | c :: _, '\x7d' :: rest => if c.isDigit then none else some (name, rest)
  | _, _ => none

section

variable (lookupEnv : String → Option String)

/-- `envVarRe.ReplaceAllStringFunc`: a variable that is not set stays as it is. The first argument bounds
the number of steps. -/
def replaceEnv : ℕ → List Char → List Char
  | n + 1, '$' :: '\x7b' :: s =>
    match envVar s with
    | some (name, rest) =>
      match lookupEnv (String.ofList name) with
      | some value => value.toList ++ replaceEnv n rest
      | none => '$' :: '\x7b' :: name ++ '\x7d' :: replaceEnv n rest
    | none => '$' :: replaceEnv n ('\x7b' :: s)
  | n + 1, c :: s => c :: replaceEnv n s
  | _, s => s

end

/-- `strconv.ParseInt(s, 10, 64)`. -/
def parseInt (s : String) : Option ℤ :=
  let (negative, digits) :=
    match s.toList with
    | '-' :: t => (true, t)
    | '+' :: t => (false, t)
    | t => (false, t)
  if digits = [] ∨ ¬ digits.all Char.isDigit then none
  else
    let n : ℤ := Nat.ofDigitChars 10 digits 0
    let v := if negative then -n else n
    if IntType.int64.InRange v then some v else none

/-- What parsing reads besides its text: the environment, the files and `strconv.ParseFloat`. -/
structure World (T : Type) where
  lookupEnv : String → Option String
  readFile : String → Option T
  parseFloat : String → Option GoFloat

variable {T : Type} (w : World T)

def inferYamlScalar (s : String) : Scalar :=
  match parseInt s with
  | some n => .int n
  | none =>
    match w.parseFloat s with
    | some x => .float x
    | none =>
      if s ∈ ["true", "True", "TRUE"] then .bool true
      else if s ∈ ["false", "False", "FALSE"] then .bool false
      else if s ∈ ["null", "Null", "NULL", "~"] then .null
      else .str s

/-- `expandEnvInTree` on a scalar. -/
def expandScalar : Scalar → Scalar
  | .str s =>
    if hasPlaceholder s.toList then
      inferYamlScalar w (String.ofList (replaceEnv w.lookupEnv s.toList.length s.toList))
    else .str s
  | x => x

def expandEnvInTree (y : Tree) : Tree := mapLeaf (expandScalar w) y

theorem hasPlaceholder_mem : ∀ {s : List Char}, hasPlaceholder s = true → '$' ∈ s
  | [], h => by cases h
  | [_], h => by cases h
  | c :: d :: s, h => by
    simp only [hasPlaceholder, Bool.or_eq_true, Bool.and_eq_true, decide_eq_true_eq] at h
    rcases h with ⟨rfl, -⟩ | h
    · exact List.mem_cons_self
    · exact List.mem_cons_of_mem _ (hasPlaceholder_mem h)

/-- **An expansion that changes a string is visible in a text field.** -/
theorem visible_expandScalar (c : Conv) : c.Visible (expandScalar w) where
  empty := rfl
  text s h := by
    simp only [expandScalar] at h ⊢
    split_ifs at h ⊢ with hp
    · cases hx : inferYamlScalar w (String.ofList (replaceEnv w.lookupEnv s.toList.length s.toList)) with
      | str t =>
        rw [hx, c.text_str] at h
        rw [Option.some.inj h]
      | _ =>
        rw [hx] at h
        exact absurd (hasPlaceholder_mem hp) (c.text_plain _ s (by simp) h)
    · rfl
  other x hx := by
    cases x with
    | str s => exact absurd rfl (hx s)
    | _ => rfl

/-! ### Texts -/

/-- The YAML library, on texts `T`. -/
structure YamlText (T : Type) where
  parse : T → Option Tree
  marshal : Tree → T
  /-- `strings.Contains(text, "$\x7b")` -/
  mentions : T → Bool
  parse_marshal : ∀ y, parse (marshal y) = some y
  mentions_marshal : ∀ y s, .str s ∈ leaves y → hasPlaceholder s.toList = true → mentions (marshal y) = true

/-- The errors of `ParseNoValidate`. -/
inductive ParseError where
  | expand
  | decode
  | readTagsFile (driver path : String)
  | expandTagsFile (driver path : String)
  | parseTagsFile (driver path : String)
  deriving DecidableEq, Repr

variable (c : Conv) (lib : YamlText T)

def expandEnvVars (text : T) : Option T :=
  if lib.mentions text then (lib.parse text).map fun y => lib.marshal (expandEnvInTree w y)
  else some text

/-- `yaml.Unmarshal`, `yaml.UnmarshalWithOptions`. -/
def unmarshal {β : Type} (C : Codec c β) (strict : Bool) (text : T) : Option β :=
  (lib.parse text).bind (C.unmarshal strict)

def fileTags (driver path : String) : Except ParseError (List TagConfig) :=
  match w.readFile path with
  | none => .error (.readTagsFile driver path)
  | some data =>
    match expandEnvVars w lib data with
    | none => .error (.expandTagsFile driver path)
    | some expanded =>
      match unmarshal c lib (Schema.tagsCodec c) false expanded with
      | none => .error (.parseTagsFile driver path)
      | some tags => .ok tags

/-- The body of the loop of `loadTagsFiles`. -/
def loadTagsFile (d : DriverConfig) : Except ParseError DriverConfig :=
  if d.tagsFile = "" then .ok d
  else do
    let tags ← fileTags w c lib d.name d.tagsFile
    return { d with tags := tags ++ d.tags }

def loadTagsFiles : List DriverConfig → Except ParseError (List DriverConfig)
  | [] => .ok []
  | d :: ds => do
    let d ← loadTagsFile w c lib d
    let ds ← loadTagsFiles ds
    return d :: ds

def parseNoValidate (text : T) : Except ParseError FullConfig :=
  match expandEnvVars w lib text with
  | none => .error .expand
  | some expanded =>
    match unmarshal c lib (Schema.configCodec c) true expanded with
    | none => .error .decode
    | some cfg => do
      let drivers ← loadTagsFiles w c lib cfg.drivers
      return { cfg with drivers }

variable (parseDuration : String → Option ℤ) (reg : Registry)

/-- `Parse`, and `Load` for the text of a file; `none` for every error. -/
def load (text : T) : Option FullConfig :=
  match parseNoValidate w c lib text with
  | .error _ => none
  | .ok cfg =>
    match validate parseDuration reg cfg with
    | .error _ => none
    | .ok () => some cfg

variable {w c lib parseDuration reg}

theorem load_eq_some {text : T} {cfg : FullConfig} : load w c lib parseDuration reg text = some cfg ↔
      parseNoValidate w c lib text = .ok cfg ∧ validate parseDuration reg cfg = .ok () := by
  unfold load
  constructor
  · intro h
    split at h
    · cases h
    · next hparse =>
      split at h
      · cases h
      · next hvalid =>
        cases h
        exact ⟨hparse, hvalid⟩
  · rintro ⟨hparse, hvalid⟩
    simp [hparse, hvalid]

/-- **Expanding a text that the encoder wrote** is expanding its tree, also where the expansion is left
out because the text has no placeholder. -/
theorem expandEnvVars_marshal (y : Tree) :
    ∃ t, expandEnvVars w lib (lib.marshal y) = some t ∧ lib.parse t = some (expandEnvInTree w y) := by
  unfold expandEnvVars
  split_ifs with hm
  · exact ⟨_, by rw [lib.parse_marshal, Option.map_some], lib.parse_marshal _⟩
  · refine ⟨_, rfl, ?_⟩
    rw [lib.parse_marshal, expandEnvInTree, (mapLeaf_eq_self_iff y).mpr]
    intro s hs
    cases s with
    | str t =>
      have hp : ¬ hasPlaceholder t.toList = true := fun hp => hm (lib.mentions_marshal y t hs hp)
      simp only [expandScalar, hp]
      rfl
    | _ => rfl

theorem parseNoValidate_marshal (y : Tree) : parseNoValidate w c lib (lib.marshal y) =
      match (Schema.configCodec c).unmarshal true (expandEnvInTree w y) with
      | none => .error .decode
      | some cfg => do
        let drivers ← loadTagsFiles w c lib cfg.drivers
        return { cfg with drivers } := by
  obtain ⟨t, ht, hparse⟩ := @expandEnvVars_marshal T w lib y
  unfold parseNoValidate unmarshal
  simp [ht, hparse]

/-! ### Texts that are trees -/

def Scalar.mentions : Scalar → Bool
  | .str s => hasPlaceholder s.toList
  | _ => false

def treeText : YamlText Tree where
  parse := some
  marshal y := y
  mentions y := (leaves y).any Scalar.mentions
  parse_marshal _ := rfl
  mentions_marshal _ s hs hp := List.any_eq_true.mpr ⟨.str s, hs, hp⟩

def exactConv : Conv where
  text
    | .str s => some s
    | _ => none
  int
    | .int n => if Lib.GoInt.IntType.int64.InRange n then some n else none
    | _ => none
  float
    | .float x => some x
    | _ => none
  bool
    | .bool b => some b
    | _ => none
  trunc _ := 0
  text_str _ := rfl
  text_plain x s hx h := by
    cases x with
    | str t => exact absurd rfl (hx t)
    | _ => cases h
  int_int _ := rfl
  float_float _ := rfl
  bool_bool _ := rfl

def plantRegistry : Registry := ⟨["modbus"], ["mqtt"], fun _ _ => true, fun _ _ => true⟩

def text (s : String) : Tree := .scalar (.str s)

def driverDoc (name type : String) (fields : List (String × Tree)) : Tree :=
  .map [("drivers", .seq [.map (("name", text name) :: ("type", text type) :: fields)])]

end CoreC.Config.Parse
