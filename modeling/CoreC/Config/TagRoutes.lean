import CoreC.Config.Parse
import CoreC.Engine.Write

/-! # Three ways for a list of tags to reach a driver

A list of tags stands in the configuration file under `tags`, or in a file that the driver names under
`tags-file`, or in that file when it has changed and the watcher reads it again (`tagFileWatcher.load`).
The first is decoded strictly, expanded and validated; the second leniently, expanded and validated; the
third leniently, and neither expanded nor validated. -/

namespace CoreC.Config.TagRoutes

open Core.Types Lib.Yaml Lib.Yaml.Decode Lib.Yaml.Decode.Obj List Option
  Config.Validate Config.Sections Config.Parse Engine.Write

/-- A driver of a configuration file, and how a content is put under its `tags`: the document has the
tree of the content there, and a placeholder only if the content has one. -/
structure Site {T : Type} (lib : YamlText T) (reg : Registry) where
  name : String
  type : String
  path : String
  inline : T → T
  name_ne : name ≠ ""
  type_ne : type ≠ ""
  path_ne : path ≠ ""
  registered : reg.drivers = [] ∨ type ∈ reg.drivers
  settings : reg.driverSettings type (GoMap.restamp 0 ∅) = true
  plain : ∀ s ∈ [name, type, path], hasPlaceholder s.toList = false
  parse_inline : ∀ t, lib.parse (inline t) = (lib.parse t).map fun y => driverDoc name type [("tags", y)]
  mentions_inline : ∀ t, lib.mentions (inline t) = lib.mentions t

section

variable {T : Type} (w : World T) (c : Conv) (lib : YamlText T) (parseDuration : String → Option ℤ)
  (reg : Registry) (site : Site lib reg)

def tagsOf (name : String) (cfg : FullConfig) : Option (List TagConfig) :=
  (cfg.drivers.find? fun d => d.name = name).map DriverConfig.tags

/-- The content stands under `tags`. -/
def inlineRoute (content : T) : Option (List TagConfig) :=
  (load w c lib parseDuration reg (site.inline content)).bind (tagsOf site.name)

/-- The tags that a load from the file gives. -/
def fileRoute (content : T) : Option (List TagConfig) :=
  (load { w with readFile := fun p => if p = site.path then some content else w.readFile p } c lib
    parseDuration reg (lib.marshal (driverDoc site.name site.type [("tags-file", text site.path)]))).bind
      (tagsOf site.name)

/-- The watcher reads the file: `tagFileWatcher.load`, whose list replaces the tags of the driver. -/
def hotReload (content : T) : Option (List TagConfig) := unmarshal c lib (Schema.tagsCodec c) false content

end

variable {T : Type} {w : World T} {c : Conv} {lib : YamlText T} {parseDuration : String → Option ℤ}
  {reg : Registry} {site : Site lib reg}

/-! ### Documents with one driver -/

theorem dec_text (s : String) : (str : Codec c String).dec (text s) = some s := by
  simp [str, scalarCodec, text, c.text_str]

theorem unmarshal_driverDoc (strict : Bool) (name type : String) (fields : List (String × Tree)) :
    (Schema.configCodec c).unmarshal strict (driverDoc name type fields) =
      ((Schema.driverConfig (c := c)).codec.unmarshal strict
        (.map (("name", text name) :: ("type", text type) :: fields))).map fun d => { drivers := [d] } := by
  set driver := Lib.Yaml.Tree.map (("name", text name) :: ("type", text type) :: fields) with hdriver
  have hkeys : ([("drivers", Lib.Yaml.Tree.seq [driver])].all
      fun x => x.1 ∈ (Schema.config (c := c)).keys) = true := rfl
  have hknown : (Schema.config (c := c)).known [("drivers", .seq [driver])] =
      (Schema.driverConfig (c := c)).codec.known driver := by
    simp [Schema.config, known_iso, known_and, known_req, known_opt, knownAt, lookup_cons, list]
  have hget : (Schema.config (c := c)).get [("drivers", .seq [driver])] =
      ((Schema.driverConfig (c := c)).codec.dec driver).map fun d => { drivers := [d] } := by
    have hlist : (list (Schema.driverConfig (c := c)).codec).dec (.seq [driver]) =
        decList (Schema.driverConfig (c := c)).codec [driver] := rfl
    simp only [Schema.config, get_iso, get_and, get_req, value]
    simp [hlist, decList]
    cases (Schema.driverConfig (c := c)).codec.dec driver <;> rfl
  unfold driverDoc Schema.configCodec
  rw [codec_unmarshal_map, hkeys, hknown, hget, Bool.true_and, Codec.unmarshal]
  split_ifs
  · rfl
  · rfl

/-- **Decoding a document whose driver has its tags inline.** -/
theorem unmarshal_inline (strict : Bool) (name type : String) (y : Tree) :
    (Schema.configCodec c).unmarshal strict (driverDoc name type [("tags", y)]) =
      ((Schema.tagsCodec c).unmarshal strict y).map fun tags => { drivers := [{ name, type, tags }] } := by
  have hkeys : ([("name", text name), ("type", text type), ("tags", y)].all
      fun x => x.1 ∈ (Schema.driverConfig (c := c)).keys) = true := rfl
  have hknown : (Schema.driverConfig (c := c)).known
      [("name", text name), ("type", text type), ("tags", y)] = (Schema.tagsCodec c).known y := by
    simp [Schema.driverConfig, known_iso, known_and, known_req, known_opt, knownAt, Schema.tagsCodec,
      lookup_cons, str, scalarCodec]
  have hget : (Schema.driverConfig (c := c)).get [("name", text name), ("type", text type), ("tags", y)] =
        ((Schema.tagsCodec c).dec y).map fun tags => { name, type, tags } := by
    simp only [Schema.driverConfig, get_iso, get_and, get_req, value, lookup_cons]
    simp [dec_text, Schema.tagsCodec]
    cases (list (Schema.tagConfig (c := c)).codec).dec y <;> rfl
  rw [unmarshal_driverDoc, codec_unmarshal_map, hkeys, hknown, hget, Bool.true_and, Codec.unmarshal]
  split_ifs
  · rfl
  · rw [Option.map_map]
    rfl

/-- **Decoding a document whose driver names a file.** -/
theorem unmarshal_file (strict : Bool) (name type path : String) :
    (Schema.configCodec c).unmarshal strict (driverDoc name type [("tags-file", text path)]) =
      some { drivers := [{ name, type, tagsFile := path }] } := by
  have hkeys : ([("name", text name), ("type", text type), ("tags-file", text path)].all
      fun x => x.1 ∈ (Schema.driverConfig (c := c)).keys) = true := rfl
  have hknown : (Schema.driverConfig (c := c)).known
      [("name", text name), ("type", text type), ("tags-file", text path)] = true := by
    simp [Schema.driverConfig, known_iso, known_and, known_req, known_opt, knownAt, lookup_cons, str, scalarCodec]
  have hget : (Schema.driverConfig (c := c)).get [("name", text name), ("type", text type), ("tags-file", text path)] =
        some { name, type, tagsFile := path } := by
    simp only [Schema.driverConfig, get_iso, get_and, get_req, get_opt, value, lookup_cons]
    simp [dec_text]
    exact ⟨rfl, rfl, rfl⟩
  rw [unmarshal_driverDoc, codec_unmarshal_map, hkeys, hknown, hget]
  simp

/-! ### Validating it -/

/-- The validation of a driver with the tags. -/
def Accepts (parseDuration : String → Option ℤ) (reg : Registry) (site : Site lib reg)
    (tags : List TagConfig) : Bool :=
  (validateDriver parseDuration [] reg.drivers { name := site.name, type := site.type, tags }).isOk

theorem isOk_iff {ε α : Type} {x : Except ε α} : x.isOk = true ↔ ∃ a, x = .ok a := by
  cases x <;> simp [Except.toBool]

theorem validateEngine_empty : validateEngine parseDuration {} = .ok () := by
  have hdurations : validateDurations parseDuration (engineDurations {}) = .ok () := by
    rfl
  rfl

theorem validate_driver (d : DriverConfig) : validate parseDuration reg { drivers := [d] } = .ok () ↔
      (validateDriver parseDuration [] reg.drivers d).isOk = true ∧
        reg.driverSettings d.type (d.settings.restamp 0) = true := by
  have hdrivers : (∃ r, validateDrivers parseDuration reg [d] = .ok r) ↔
      ∃ r, validateDriver parseDuration [] reg.drivers d = .ok r := by
    unfold validateDrivers
    simp only [validateEach, bind_ok, mapError_ok]
    exact ⟨fun ⟨_, a, ha, _⟩ => ⟨a, ha⟩, fun ⟨a, ha⟩ => ⟨a, a, ha, rfl⟩⟩
  have hsettings : validateDriverSettings reg [d] = .ok () ↔
      reg.driverSettings d.type (d.settings.restamp 0) = true := by
    unfold validateDriverSettings
    rw [check_bind_ok]
    exact and_iff_left rfl
  rw [validate_ok_iff, isOk_iff, ← hdrivers, ← hsettings]
  constructor
  · exact fun h => ⟨h.drivers, h.driverSettings⟩
  · exact fun h => ⟨rfl, validateEngine_empty, h.1, rfl, h.2, rfl, ⟨[], [], rfl, rfl⟩, ⟨[], rfl⟩⟩

theorem load_site {text : T} {tags : List TagConfig} {tagsFile : String} (h : parseNoValidate w c lib text =
      .ok { drivers := [{ name := site.name, type := site.type, tags, tagsFile }] }) :
    (load w c lib parseDuration reg text).bind (tagsOf site.name) =
      if Accepts parseDuration reg site tags then some tags else none := by
  have hiff := @validate_driver parseDuration reg { name := site.name, type := site.type, tags, tagsFile }
  unfold load
  rw [h]
  cases hv : validate parseDuration reg { drivers := [{ name := site.name, type := site.type, tags, tagsFile }] } with
  | error e =>
    have hno : ¬ Accepts parseDuration reg site tags = true := by
      intro hacc
      have := hiff.mpr ⟨hacc, site.settings⟩
      rw [hv] at this
      cases this
    simp only [hv, hno]
    rfl
  | ok u =>
    have hyes : Accepts parseDuration reg site tags = true := (hiff.mp hv).1
    simp [hv, hyes, tagsOf]

/-! ### The three ways -/

/-- The tree as the loader sees it. -/
def expanded (w : World T) (lib : YamlText T) (content : T) (y : Tree) : Tree :=
  if lib.mentions content then expandEnvInTree w y else y

theorem unmarshal_expandEnvVars {β : Type} (C : Codec c β) (strict : Bool) (content : T) :
    (expandEnvVars w lib content).bind (unmarshal c lib C strict) =
      (lib.parse content).bind fun y => C.unmarshal strict (expanded w lib content y) := by
  unfold expandEnvVars unmarshal expanded
  split_ifs with hm
  · cases hp : lib.parse content with
    | none => simp
    | some y => simp [lib.parse_marshal]
  · simp

theorem expandScalar_plain {s : String} (h : hasPlaceholder s.toList = false) : expandScalar w (.str s) = .str s := by
  simp [expandScalar, h]

theorem expand_driverDoc (fields : List (String × Tree)) : expandEnvInTree w (driverDoc site.name site.type fields) =
      driverDoc site.name site.type (mapLeafEntries (expandScalar w) fields) := by
  have hname := @expandScalar_plain T w _ (site.plain site.name (by simp))
  have htype := @expandScalar_plain T w _ (site.plain site.type (by simp))
  simp [expandEnvInTree, driverDoc, mapLeafEntries, text, hname, htype]

/-- **The content under `tags`**: decoded strictly, expanded and validated. -/
theorem inlineRoute_eq (content : T) : inlineRoute w c lib parseDuration reg site content =
      ((lib.parse content).bind fun y =>
        (Schema.tagsCodec c).unmarshal true (expanded w lib content y)).filter (Accepts parseDuration reg site) := by
  have hexp : (expandEnvVars w lib (site.inline content)).bind (unmarshal c lib (Schema.configCodec c) true) =
        ((lib.parse content).bind fun y =>
          (Schema.tagsCodec c).unmarshal true (expanded w lib content y)).map
            fun tags => { drivers := [{ name := site.name, type := site.type, tags }] } := by
    rw [unmarshal_expandEnvVars, site.parse_inline]
    cases lib.parse content with
    | none => rfl
    | some y =>
      simp only [map_some, bind_some, expanded, site.mentions_inline]
      split_ifs
      · rw [expand_driverDoc]
        exact unmarshal_inline true _ _ _
      · exact unmarshal_inline true _ _ _
  unfold inlineRoute
  cases htags : (lib.parse content).bind fun y =>
      (Schema.tagsCodec c).unmarshal true (expanded w lib content y) with
  | none =>
    rw [htags, map_none, bind_eq_none_iff] at hexp
    have hnone : load w c lib parseDuration reg (site.inline content) = none := by
      unfold load parseNoValidate
      cases hx : expandEnvVars w lib (site.inline content) with
      | none => rfl
      | some t => simp [hexp t hx]
    rw [hnone]
    rfl
  | some tags =>
    rw [htags, map_some, bind_eq_some_iff] at hexp
    obtain ⟨t, ht, hcfg⟩ := hexp
    have hparse : parseNoValidate w c lib (site.inline content) =
        .ok { drivers := [{ name := site.name, type := site.type, tags }] } := by
      unfold parseNoValidate
      simp only [ht, hcfg]
      rfl
    rw [load_site hparse]
    rfl

/-- **The content in the file of the driver**: decoded leniently, expanded and validated. -/
theorem fileRoute_eq (content : T) : fileRoute w c lib parseDuration reg site content =
      ((lib.parse content).bind fun y =>
        (Schema.tagsCodec c).unmarshal false (expanded w lib content y)).filter (Accepts parseDuration reg site) := by
  set w' : World T :=
    { w with readFile := fun p => if p = site.path then some content else w.readFile p } with hw
  have hpath : expandScalar w' (.str site.path) = .str site.path :=
    expandScalar_plain (site.plain site.path (by simp))
  have hdoc : expandEnvInTree w' (driverDoc site.name site.type [("tags-file", text site.path)]) =
      driverDoc site.name site.type [("tags-file", text site.path)] := by
    rw [expand_driverDoc]
    simp [mapLeafEntries, text, hpath]
  have hfile : (fileTags w' c lib site.name site.path).toOption = (lib.parse content).bind fun y =>
        (Schema.tagsCodec c).unmarshal false (expanded w lib content y) := by
    have hexp : (expandEnvVars w' lib content).bind (unmarshal c lib (Schema.tagsCodec c) false) =
        (lib.parse content).bind fun y =>
          (Schema.tagsCodec c).unmarshal false (expanded w lib content y) :=
      unmarshal_expandEnvVars (Schema.tagsCodec c) false content
    rw [← hexp]
    have hread : w'.readFile site.path = some content := by simp [hw]
    unfold fileTags
    rw [hread]
    cases hx : expandEnvVars w' lib content with
    | none =>
      simp only [hx]
      rfl
    | some t =>
      simp only [hx, bind_some]
      cases unmarshal c lib (Schema.tagsCodec c) false t <;> rfl
  unfold fileRoute
  have hparse : parseNoValidate w' c lib (lib.marshal (driverDoc site.name site.type [("tags-file", text site.path)])) =
        (fileTags w' c lib site.name site.path).map fun tags =>
          { drivers := [{ name := site.name, type := site.type, tags, tagsFile := site.path }] } := by
    rw [parseNoValidate_marshal, hdoc, unmarshal_file]
    simp only [loadTagsFiles, loadTagsFile, site.path_ne, if_false, append_nil]
    cases fileTags w' c lib site.name site.path <;> rfl
  cases htags : fileTags w' c lib site.name site.path with
  | error e =>
    rw [htags] at hparse hfile
    rw [← hfile]
    unfold load
    rw [hparse]
    rfl
  | ok tags =>
    rw [htags] at hparse hfile
    rw [← hfile, load_site hparse]
    rfl

theorem filter_agree_iff {β : Type} (known : Bool) (p : β → Bool) (x y : Option β) :
    ((if !known then none else x).filter p = x.filter p ∧ x.filter p = y) ↔
      (known = true ∧ ∃ b, y = some b ∧ x = some b ∧ p b = true) ∨ (y = none ∧ ∀ b, x = some b → p b = false) := by
  rw [@eq_comm _ (x.filter p)]
  cases x with
  | none => cases known <;> simp
  | some b =>
    by_cases hp : p b = true <;> cases known <;> simp [Option.filter, hp]

/-- **The three ways agree on a content if and only if** it is not YAML; or all its keys are known, the
expansion does not change the list, and the list is valid; or it is no list of tags as it stands, and
what it expands to is none that is accepted. -/
theorem routes_agree_iff {T : Type} (w : World T) (c : Conv) (lib : YamlText T)
    (parseDuration : String → Option ℤ) (reg : Registry) (site : Site lib reg) (content : T) :
    (inlineRoute w c lib parseDuration reg site content = fileRoute w c lib parseDuration reg site content ∧
      fileRoute w c lib parseDuration reg site content = hotReload c lib content) ↔
    ∀ y, lib.parse content = some y →
      ((Schema.tagsCodec c).known y = true ∧ ∃ tags, (Schema.tagsCodec c).dec y = some tags ∧
          (Schema.tagsCodec c).dec (expanded w lib content y) = some tags ∧
          Accepts parseDuration reg site tags = true) ∨
        ((Schema.tagsCodec c).dec y = none ∧ ∀ tags, (Schema.tagsCodec c).dec (expanded w lib content y) = some tags →
            Accepts parseDuration reg site tags = false) := by
  rw [inlineRoute_eq, fileRoute_eq, hotReload]
  unfold unmarshal
  cases lib.parse content with
  | none => simp
  | some y =>
    have hknown : (Schema.tagsCodec c).known (expanded w lib content y) = (Schema.tagsCodec c).known y := by
      unfold expanded
      split_ifs
      · exact Codec.known_mapLeaf _ _ _
      · rfl
    simp only [bind_some, Codec.unmarshal, Bool.false_and, Bool.true_and, hknown,
      Bool.false_eq_true, if_false, some.injEq, forall_eq']
    exact filter_agree_iff _ _ _ _

/-! ### A valve -/

def plcSite : Site treeText plantRegistry where
  name := "plc"
  type := "modbus"
  path := "tags.yaml"
  inline y := driverDoc "plc" "modbus" [("tags", y)]
  name_ne := by decide
  type_ne := by decide
  path_ne := by decide
  registered := .inr (by decide)
  settings := rfl
  plain := by decide
  parse_inline _ := rfl
  mentions_inline y := by
    simp [treeText, driverDoc, text, leaves, leavesEntries, leavesList, Scalar.mentions, hasPlaceholder]

def valveWorld : World Tree where
  lookupEnv
    | "REGISTER" => some "hr7"
    | _ => none
  readFile _ := none
  parseFloat _ := none

def valveFile (address : String) (fields : List (String × Tree)) : Tree :=
  .seq [.map (("name", text "valve") :: ("address", text address) :: ("type", text "int16") :: fields)]

def valveTag (address protect : String) : TagConfig := { name := "valve", address, type := "int16", protect }

/-- **A misspelt protection** is refused when the file is loaded and accepted when it is read again, and the tag can
then be written. A misspelt key is refused in the configuration and accepted in the file. A variable is expanded only
when the file is loaded. -/
theorem valve_routes_differ : (inlineRoute valveWorld exactConv treeText (fun _ => none) plantRegistry plcSite
        (valveFile "hr1" [("protect", text "readonly")]) = none ∧
      fileRoute valveWorld exactConv treeText (fun _ => none) plantRegistry plcSite
        (valveFile "hr1" [("protect", text "readonly")]) = none ∧
      hotReload exactConv treeText (valveFile "hr1" [("protect", text "readonly")]) = some [valveTag "hr1" "readonly"] ∧
      tagWriteProtectionReason id [valveTag "hr1" "readonly"] "valve" = none) ∧
    (inlineRoute valveWorld exactConv treeText (fun _ => none) plantRegistry plcSite
        (valveFile "hr1" [("protct", text "read-only")]) = none ∧
      fileRoute valveWorld exactConv treeText (fun _ => none) plantRegistry plcSite
        (valveFile "hr1" [("protct", text "read-only")]) = some [valveTag "hr1" ""]) ∧
    fileRoute valveWorld exactConv treeText (fun _ => none) plantRegistry plcSite
        (valveFile "$\x7bREGISTER\x7d" []) = some [valveTag "hr7" ""] ∧
      hotReload exactConv treeText (valveFile "$\x7bREGISTER\x7d" []) = some [valveTag "$\x7bREGISTER\x7d" ""] := by
  decide +kernel

end CoreC.Config.TagRoutes
