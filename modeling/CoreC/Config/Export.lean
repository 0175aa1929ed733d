import CoreC.Config.Parse

/-! # Feeding the exported configuration back

`RawConfigYAML` writes the active configuration as YAML. The tags that came from a tags file are part of
the driver's list by then, and the name of the file is still there, so parsing the text reads the file a
second time; and a string that still has a placeholder is expanded once more.

`raw_config_iff` says when neither happens. -/

namespace CoreC.Config.Export

open Core.Types Lib.Yaml Lib.Yaml.Decode Config.Validate Config.Sections List
  Config.Parse

variable {T : Type} {w : World T} {c : Conv} {lib : YamlText T}

def rawConfigYAML (c : Conv) (lib : YamlText T) (cfg : FullConfig) : T :=
  lib.marshal ((Schema.configCodec c).enc cfg)

/-! ### The tags files -/

theorem loadTagsFile_ok {d d' : DriverConfig} (h : loadTagsFile w c lib d = .ok d') :
    (d.tagsFile = "" ∧ d' = d) ∨ d.tagsFile ≠ "" ∧ ∃ tags,
      fileTags w c lib d.name d.tagsFile = .ok tags ∧ d' = { d with tags := tags ++ d.tags } := by
  unfold loadTagsFile at h
  split_ifs at h with hf
  · cases h
    exact .inl ⟨hf, rfl⟩
  · obtain ⟨tags, htags, heq⟩ := bind_ok.mp h
    cases heq
    exact .inr ⟨hf, tags, htags, rfl⟩

theorem loadTagsFile_self {d d' : DriverConfig} (h : loadTagsFile w c lib d = .ok d')
    (hlen : d.tags.length = d'.tags.length) :
    d' = d ∧ (d.tagsFile ≠ "" → fileTags w c lib d.name d.tagsFile = .ok []) := by
  rcases loadTagsFile_ok h with ⟨hf, rfl⟩ | ⟨-, tags, htags, rfl⟩
  · exact ⟨rfl, fun hne => absurd hf hne⟩
  · have hnil : tags = [] := by
      rw [length_append] at hlen
      exact eq_nil_of_length_eq_zero (by omega)
    subst hnil
    exact ⟨rfl, fun _ => htags⟩

theorem loadTagsFiles_self : ∀ {ds ds' : List DriverConfig}, loadTagsFiles w c lib ds = .ok ds' →
    List.Forall₂ (fun d' d => d.tags.length = d'.tags.length) ds' ds →
      ds' = ds ∧ ∀ d ∈ ds, d.tagsFile ≠ "" → fileTags w c lib d.name d.tagsFile = .ok []
  | [], _, h, _ => by
    cases h
    simp
  | d :: ds, ds', h, hlen => by
    unfold loadTagsFiles at h
    obtain ⟨e, he, h⟩ := bind_ok.mp h
    obtain ⟨es, hes, heq⟩ := bind_ok.mp h
    cases heq
    obtain ⟨hd, hds⟩ := forall₂_cons.mp hlen
    obtain ⟨rfl, hfile⟩ := loadTagsFile_self he hd
    obtain ⟨rfl, hfiles⟩ := loadTagsFiles_self hes hds
    refine ⟨rfl, fun x hx => ?_⟩
    rcases mem_cons.mp hx with rfl | hx
    · exact hfile
    · exact hfiles x hx

theorem loadTagsFiles_of_empty : ∀ {ds : List DriverConfig},
    (∀ d ∈ ds, d.tagsFile ≠ "" → fileTags w c lib d.name d.tagsFile = .ok []) → loadTagsFiles w c lib ds = .ok ds
  | [], _ => rfl
  | d :: ds, h => by
    have hd : loadTagsFile w c lib d = .ok d := by
      unfold loadTagsFile
      split_ifs with hf
      · rfl
      · rw [h d (by simp) hf]
        rfl
    unfold loadTagsFiles
    rw [hd, loadTagsFiles_of_empty fun x hx => h x (mem_cons_of_mem _ hx)]
    rfl

/-- Reading back what was written keeps the number of tags of every driver, whatever becomes of the
strings. -/
theorem forall₂_tags_length {f : Scalar → Scalar} {cfg cfg' : FullConfig}
    (h : (Schema.configCodec c).dec (mapLeaf f ((Schema.configCodec c).enc cfg)) = some cfg') :
    List.Forall₂ (fun d d' => d'.tags.length = d.tags.length) cfg.drivers cfg'.drivers := by
  have hdrivers := Schema.config_drivers.dec_mapLeaf h
  have hlist : (Schema.driversCodec c).enc cfg.drivers = .seq (cfg.drivers.map Schema.driverConfig.codec.enc) := rfl
  rw [hlist, mapLeaf_seq, map_map] at hdrivers
  have hpairs := forall₂_map_left_iff.mp (forall₂_decList _ hdrivers)
  refine hpairs.imp fun d d' hd => ?_
  have htags := Schema.driverConfig_tags.dec_mapLeaf hd
  have htag : (Schema.tagsCodec c).enc d.tags = .seq (d.tags.map Schema.tagConfig.codec.enc) := rfl
  rw [htag, mapLeaf_seq] at htags
  have hlen := (forall₂_decList _ htags).length_eq
  rw [length_map, length_map] at hlen
  exact hlen.symm

/-! ### The exported text -/

/-- No text of the configuration refers to the environment. -/
def Unexpanded (w : World T) (c : Conv) (cfg : FullConfig) : Prop :=
  ∀ s, .str s ∈ leaves ((Schema.configCodec c).enc cfg) → expandScalar w (.str s) = .str s

theorem unexpanded_iff {cfg : FullConfig} : Unexpanded w c cfg ↔ expandEnvInTree w ((Schema.configCodec c).enc cfg) =
      (Schema.configCodec c).enc cfg := by
  unfold expandEnvInTree
  rw [mapLeaf_eq_self_iff]
  constructor
  · intro h s hs
    cases s with
    | str t => exact h t hs
    | _ => rfl
  · exact fun h s hs => h _ hs

/-- **Parsing the exported text gives back the active configuration if and only if** no string of it is expanded once
more, no tags file that it names has tags, and what is written of it can be read: the integers are `int64` values and no
code of a data type is negative. -/
theorem raw_config_iff {T : Type} (w : World T) (c : Conv) (lib : YamlText T)
    (parseDuration : String → Option ℤ) (reg : Registry) (text : T) (cfg : FullConfig)
    (h : load w c lib parseDuration reg text = some cfg) :
    load w c lib parseDuration reg (rawConfigYAML c lib cfg) = some cfg ↔ Unexpanded w c cfg ∧
        (Schema.configCodec c).fits cfg = true ∧
          ∀ d ∈ cfg.drivers, d.tagsFile ≠ "" → fileTags w c lib d.name d.tagsFile = .ok [] := by
  have hvalid := (load_eq_some.mp h).2
  have hknown : (Schema.configCodec c).known (expandEnvInTree w ((Schema.configCodec c).enc cfg)) = true := by
    unfold expandEnvInTree
    rw [Codec.known_mapLeaf, Codec.known_enc]
  rw [load_eq_some, rawConfigYAML, parseNoValidate_marshal]
  simp only [Codec.unmarshal, hknown, Bool.not_true, Bool.and_false, hvalid, and_true]
  constructor
  · intro hparse
    cases hdec : (Schema.configCodec c).dec (expandEnvInTree w ((Schema.configCodec c).enc cfg)) with
    | none => simp [hdec] at hparse
    | some raw =>
      simp only [hdec] at hparse
      obtain ⟨drivers, hload, heq⟩ := bind_ok.mp hparse
      cases heq
      -- the list has the tags of the file in front, and as many tags as the text lists
      obtain ⟨rfl, hfiles⟩ := loadTagsFiles_self hload (forall₂_tags_length hdec)
      have hstr := (Schema.configCodec c).visible (visible_expandScalar w c) raw hdec
      rw [expandEnvInTree, hstr, Codec.dec_enc] at hdec
      exact ⟨unexpanded_iff.mpr hstr, hdec, hfiles⟩
  · rintro ⟨hstr, hfits, hfiles⟩
    rw [unexpanded_iff.mp hstr, (Codec.dec_enc _ cfg).mpr hfits]
    simp only [Bool.false_eq_true, if_false, loadTagsFiles_of_empty hfiles]
    rfl

/-! ### A driver with a tags file -/

def speedTag (group : String) : Tree :=
  .map [("name", text "speed"), ("address", text "40001"), ("type", text "int16"), ("group", text group)]

/-- Two files, one of them empty, and an environment whose variable `UNIT` has a placeholder. -/
def plantWorld : World Tree where
  lookupEnv
    | "UNIT" => some "$\x7bSITE\x7d"
    | "SITE" => some "north"
    | _ => none
  readFile
    | "tags.yaml" => some (.seq [speedTag ""])
    | "none.yaml" => some (.seq [])
    | _ => none
  parseFloat _ := none

def plcConfig (tagsFile group : String) : FullConfig where
  drivers := [{ name := "plc", type := "modbus", tagsFile,
                tags := [{ name := "speed", address := "40001", type := "int16", group }] }]

/-- **The exported text of an accepted configuration** is rejected if a driver has a tags file: its tags
are read twice. It is another configuration if a value of the environment has a placeholder. -/
theorem raw_config_differs : (load plantWorld exactConv treeText (fun _ => none) plantRegistry
        (driverDoc "plc" "modbus" [("tags-file", text "tags.yaml")]) = some (plcConfig "tags.yaml" "") ∧
      load plantWorld exactConv treeText (fun _ => none) plantRegistry
        (rawConfigYAML exactConv treeText (plcConfig "tags.yaml" "")) = none) ∧
    load plantWorld exactConv treeText (fun _ => none) plantRegistry
        (driverDoc "plc" "modbus" [("tags", .seq [speedTag "$\x7bUNIT\x7d"])]) = some (plcConfig "" "$\x7bSITE\x7d") ∧
      load plantWorld exactConv treeText (fun _ => none) plantRegistry
        (rawConfigYAML exactConv treeText (plcConfig "" "$\x7bSITE\x7d")) = some (plcConfig "" "north") := by
  decide +kernel

/-- A driver with inline tags and an empty tags file: the exported text gives the configuration back. -/
theorem raw_config_iff_plc : load plantWorld exactConv treeText (fun _ => none) plantRegistry
        (driverDoc "plc" "modbus" [("tags", .seq [speedTag ""]), ("tags-file", text "none.yaml")]) =
      some (plcConfig "none.yaml" "") ∧
    load plantWorld exactConv treeText (fun _ => none) plantRegistry
        (rawConfigYAML exactConv treeText (plcConfig "none.yaml" "")) =
      some (plcConfig "none.yaml" "") := by
  have h : load plantWorld exactConv treeText (fun _ => none) plantRegistry
      (driverDoc "plc" "modbus" [("tags", .seq [speedTag ""]), ("tags-file", text "none.yaml")]) =
        some (plcConfig "none.yaml" "") := by decide +kernel
  refine ⟨h, (raw_config_iff plantWorld exactConv treeText (fun _ => none) plantRegistry _ _ h).mpr
    ⟨unexpanded_iff.mpr (by decide +kernel), by decide +kernel, fun d hd _ => ?_⟩⟩
  obtain rfl := mem_singleton.mp hd
  rfl

end CoreC.Config.Export
