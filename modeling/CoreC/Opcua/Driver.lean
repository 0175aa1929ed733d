import CoreC.Lib.OptionList
import CoreC.Lib.Scatter
import CoreC.Modbus.RoundTrip

/-! # The OPC UA driver

`Read` and `Write` (`driver/opcua`) send one request for all tags that the driver knows, and take the response apart by
position; the results of a write go back to the commands by a list of their indices. The server decides how many results
there are and which of them have a value. `assembleReadResults` trusts it: a result too many is an index out of range,
and a good result without a value is a nil pointer. -/

namespace CoreC.Opcua.Driver

open Core.Types Lib.OptionList Lib.Scatter List Option
open Modbus.Driver (Platform applyTransform writeValueForTag)
open Modbus.RoundTrip (amd64)

abbrev NodeID := String

abbrev StatusCode := UInt32

def statusOK : StatusCode := 0

/-- `ua.DataValue`, as far as a read uses it; the pointer to the value may be nil. -/
structure DataValue where
  status : StatusCode
  value : Option GoValue

/-- `tags` and `nodeIDs` of `OPCUADriver`, which have the same keys. -/
structure OPCUADriver where
  tags : AList fun _ : String => TagConfig × NodeID

section

variable (p : Platform) (statusText : StatusCode → String) (d : OPCUADriver)

/-! ### Reading -/

def validTagNames (tags : List String) : List String := tags.filter fun name => (d.tags.lookup name).isSome

/-- `NodesToRead`. -/
def readValues (tags : List String) : List NodeID := tags.filterMap fun name => (d.tags.lookup name).map Prod.snd

/-- The body of the loop of `assembleReadResults`; `none` if a nil pointer is used. -/
def tagValue (tagName : String) (r : DataValue) : Option TagResult :=
  let tagCfg := ((d.tags.lookup tagName).map Prod.fst).getD ⟨"", "", "", "", "", 0, 0, 0, "", "", "", "", ""⟩
  let dt := (parseDataType tagCfg.type).getD .bool
  if r.status ≠ statusOK then some (.bad tagName ("opcua status: " ++ statusText r.status))
  else r.value.map fun val => .good tagName (applyTransform p val tagCfg.scale tagCfg.offset) dt

/-- `assembleReadResults`; `none` if it panics. -/
def assembleReadResults (results : List DataValue) (validTagNames : List String) : Option (List TagResult) :=
  results.zipIdx.mapM fun (r, i) => (validTagNames[i]?).bind fun tagName => tagValue p statusText d tagName r

/-- `Read` on a connected driver, with what the server responds. -/
def read (respond : List NodeID → Except String (List DataValue)) (tags : List String) :
    Option (Except String (List TagResult)) :=
  let valid := validTagNames d tags
  if valid = [] then some (.error "no valid tags found in request")
  else
    match respond (readValues d tags) with
    | .error e => some (.error ("opcua batch read failed: " ++ e))
    | .ok results => (assembleReadResults p statusText d results valid).map .ok

/-! ### Writing -/

variable {V : Type} (newVariant : GoValue → Except String V)

/-- What the loop of `Write` does with a command: a result for one that is skipped, or the write to submit. -/
def prepare (cmd : WriteCommand) : Except WriteResult (NodeID × V) :=
  match d.tags.lookup cmd.tag with
  | none => .error ⟨false, "tag not found: " ++ cmd.tag⟩
  | some (cfg, nodeID) =>
    match newVariant (writeValueForTag p cmd cfg) with
    | .error e => .error ⟨false, "failed to create variant: " ++ e⟩
    | .ok variant => .ok (nodeID, variant)

/-- The lists that the loop of `Write` fills. -/
structure Pending (V : Type) where
  results : List WriteResult
  writeValues : List (NodeID × V) := []
  validIndices : List ℕ := []

def Pending.add (st : Pending V) (cmd : WriteCommand × ℕ) : Pending V :=
  match prepare p d newVariant cmd.1 with
  | .error r => { st with results := st.results.set cmd.2 r }
  | .ok w => { st with writeValues := st.writeValues ++ [w], validIndices := st.validIndices ++ [cmd.2] }

/-- The request, and the results that are settled before it. -/
def pending (commands : List WriteCommand) : Pending V :=
  commands.zipIdx.foldl (Pending.add p d newVariant) { results := List.replicate commands.length ⟨false, ""⟩ }

def writeResult (code : StatusCode) : WriteResult :=
  if code = statusOK then ⟨true, ""⟩ else ⟨false, "opcua write status: " ++ statusText code⟩

/-- The loop over the status codes: the results with their indices; `none` if there is no index for a code. -/
def codeResults (validIndices : List ℕ) (codes : List StatusCode) : Option (List (ℕ × WriteResult)) :=
  codes.zipIdx.mapM fun (code, i) => (validIndices[i]?).map fun origIdx => (origIdx, writeResult statusText code)

/-- `Write` on a connected driver, with what the server responds; `none` if it panics. -/
def write (respond : List (NodeID × V) → Except String (List StatusCode)) (commands : List WriteCommand) :
    Option (Except String (List WriteResult)) :=
  let st := pending p d newVariant commands
  if st.writeValues.isEmpty then some (.ok st.results)
  else
    match respond st.writeValues with
    | .error e => some (.error ("opcua batch write failed: " ++ e))
    | .ok codes =>
      (codeResults statusText st.validIndices codes).map fun writes => .ok (scatter st.results writes)

end

/-! ### The results of a read -/

section

variable {p : Platform} {statusText : StatusCode → String} {d : OPCUADriver}

/-- Every value is made of the result at the position of its tag, and is good only if that result is. -/
structure FromOwnResults (p : Platform) (statusText : StatusCode → String) (d : OPCUADriver) (valid : List String)
    (results : List DataValue) (out : List TagResult) : Prop where
  length : out.length ≤ valid.length
  own : ∀ (i : ℕ) v, out[i]? = some v → ∃ name r, valid[i]? = some name ∧ results[i]? = some r ∧ v.tag = name ∧
    tagValue p statusText d name r = some v ∧ (v.quality = .good → r.status = statusOK ∧ r.value ≠ none)

def Usable (r : DataValue) : Prop := r.status = statusOK → r.value ≠ none

theorem tagValue_isSome_iff {name : String} {r : DataValue} :
    (tagValue p statusText d name r).isSome = true ↔ Usable r := by
  unfold tagValue Usable
  by_cases hstatus : r.status = statusOK
  · simp [hstatus, isSome_iff_ne_none]
  · simp [hstatus]

theorem tag_tagValue {name : String} {r : DataValue} {v : TagResult} (h : tagValue p statusText d name r = some v) :
    v.tag = name ∧ (v.quality = .good → r.status = statusOK ∧ r.value ≠ none) := by
  unfold tagValue at h
  by_cases hstatus : r.status = statusOK
  · simp only [hstatus, ne_eq, not_true_eq_false] at h
    obtain ⟨val, hval, rfl⟩ := map_eq_some_iff.mp h
    exact ⟨rfl, fun _ => ⟨hstatus, by rw [hval]; nofun⟩⟩
  · simp only [hstatus, ne_eq, not_false_eq_true, if_true, some.injEq] at h
    subst h
    exact ⟨rfl, nofun⟩

variable {results : List DataValue} {valid : List String}

/-- `assembleReadResults` gets through exactly if there is a tag for every result, and every result can be used. -/
theorem assemble_isSome_iff :
    (assembleReadResults p statusText d results valid).isSome = true ↔
      results.length ≤ valid.length ∧ ∀ r ∈ results, Usable r := by
  have hentry : ∀ r i, ((valid[i]?).bind fun name => tagValue p statusText d name r).isSome = true ↔
      i < valid.length ∧ Usable r := by
    intro r i
    by_cases hi : i < valid.length
    · rw [List.getElem?_eq_getElem hi, Option.bind_some, tagValue_isSome_iff, and_iff_right hi]
    · simp [hi]
  rw [assembleReadResults, mapM_isSome, List.all_eq_true]
  simp only [Prod.forall, mk_mem_zipIdx_iff_getElem?, hentry]
  constructor
  · intro h
    refine ⟨?_, fun r hr => ?_⟩
    · by_contra hlt
      have hlen : valid.length < results.length := Nat.lt_of_not_le hlt
      exact absurd (h _ _ (List.getElem?_eq_getElem hlen)).1 (Nat.lt_irrefl _)
    · obtain ⟨i, hi⟩ := mem_iff_getElem?.mp hr
      exact (h r i hi).2
  · rintro ⟨hlen, husable⟩ r i hi
    have hlt := (List.getElem?_eq_some_iff.mp hi).1
    exact ⟨by omega, husable r (mem_of_getElem? hi)⟩

theorem fromOwnResults_of_assemble {out : List TagResult}
    (h : assembleReadResults p statusText d results valid = some out) :
    FromOwnResults p statusText d valid results out := by
  have hall := mapM_eq_some h
  have hlen : results.length ≤ valid.length := (assemble_isSome_iff.mp (by rw [h]; rfl)).1
  have hout : results.length = out.length := by
    rw [← hall.length_eq, length_zipIdx]
  refine ⟨by omega, fun i v hv => ?_⟩
  have hi : i < results.length := hout ▸ (List.getElem?_eq_some_iff.mp hv).1
  obtain ⟨-, hget⟩ := forall₂_iff_get.mp hall
  have hvalue := hget i (by rwa [length_zipIdx]) (hout ▸ hi)
  obtain ⟨hi', rfl⟩ := List.getElem?_eq_some_iff.mp hv
  simp only [get_eq_getElem, getElem_zipIdx, Nat.zero_add] at hvalue
  obtain ⟨name, hname, hvalue⟩ := bind_eq_some_iff.mp hvalue
  obtain ⟨htag, hgood⟩ := tag_tagValue hvalue
  exact ⟨name, results[i], hname, List.getElem?_eq_getElem hi, htag, hvalue, hgood⟩

end

theorem getElem?_readValues (d : OPCUADriver) (tags : List String) (i : ℕ) :
    (readValues d tags)[i]? = ((validTagNames d tags)[i]?).bind fun name => (d.tags.lookup name).map Prod.snd := by
  have hmap : (readValues d tags).map some =
      (validTagNames d tags).map fun name => (d.tags.lookup name).map Prod.snd := by
    induction tags with
    | nil => rfl
    | cons name tags ih =>
      unfold readValues validTagNames at ih ⊢
      cases hlookup : d.tags.lookup name with
      | none | some => simpa [hlookup] using ih
  have hget := congrArg (·[i]?) hmap
  simp only [List.getElem?_map] at hget
  cases hname : (validTagNames d tags)[i]? with
  | none =>
    rw [hname] at hget
    exact map_eq_none_iff.mp hget
  | some name =>
    rw [hname] at hget
    obtain ⟨node, hnode, heq⟩ := map_eq_some_iff.mp hget
    rw [hnode, heq]
    rfl

/-- **What a server may respond**: the nodes are read in the order of the tags. `Read` does not panic, and takes its
values from the results of their tags, exactly if it asks for nothing, or there are not more results than tags and
every good one has a value. -/
theorem read_sound_iff (p : Platform) (statusText : StatusCode → String) (d : OPCUADriver) (tags : List String)
    (results : List DataValue) :
    (∀ i : ℕ, (readValues d tags)[i]? = ((validTagNames d tags)[i]?).bind fun name => (d.tags.lookup name).map Prod.snd) ∧
    ((∃ outcome, read p statusText d (fun _ => .ok results) tags = some outcome ∧
      ∀ out, outcome = .ok out → FromOwnResults p statusText d (validTagNames d tags) results out) ↔
      validTagNames d tags = [] ∨
        results.length ≤ (validTagNames d tags).length ∧ ∀ r ∈ results, r.status = statusOK → r.value ≠ none) := by
  refine ⟨getElem?_readValues d tags, ?_⟩
  unfold read
  by_cases hvalid : validTagNames d tags = []
  · simp only [hvalid, true_or, iff_true]
    exact ⟨_, rfl, nofun⟩
  · simp only [hvalid, false_or]
    have hsome : (assembleReadResults p statusText d results (validTagNames d tags)).isSome = true ↔
        results.length ≤ (validTagNames d tags).length ∧ ∀ r ∈ results, r.status = statusOK → r.value ≠ none :=
      assemble_isSome_iff
    rw [← hsome]
    constructor
    · rintro ⟨outcome, h, -⟩
      obtain ⟨out, hout, -⟩ := map_eq_some_iff.mp h
      rw [hout]
      rfl
    · intro h
      obtain ⟨out, hout⟩ := isSome_iff_exists.mp h
      refine ⟨.ok out, by rw [hout]; rfl, fun out' heq => ?_⟩
      cases heq
      exact fromOwnResults_of_assemble hout

def boiler : OPCUADriver :=
  ⟨AList.singleton "temp" (⟨"temp", "ns=2;i=7", "float64", "", "", 0, 0, 0, "", "", "", "", ""⟩, "ns=2;i=7")⟩

/-- Two results for one tag, or a good result without a value: `Read` panics. -/
theorem read_boiler_panics : validTagNames boiler ["temp"] = ["temp"] ∧
    (∀ p statusText r, read p statusText boiler (fun _ => .ok [⟨1, none⟩, r]) ["temp"] = none) ∧
    ∀ p statusText, read p statusText boiler (fun _ => .ok [⟨statusOK, none⟩]) ["temp"] = none := by
  refine ⟨by decide +kernel, fun p statusText r => ?_, fun p statusText => ?_⟩
  · rfl
  · rfl

/-! ### The results of a write -/

section

variable {p : Platform} {d : OPCUADriver} {V : Type} {newVariant : GoValue → Except String V}
  {commands : List WriteCommand} {i : ℕ}

/-- The command is part of the request. -/
def submitted (p : Platform) (d : OPCUADriver) (newVariant : GoValue → Except String V) (cmd : WriteCommand) : Bool :=
  (prepare p d newVariant cmd).toBool

theorem submitted_eq_isSome (cmd : WriteCommand) :
    submitted p d newVariant cmd = (prepare p d newVariant cmd).toOption.isSome := by
  unfold submitted
  cases prepare p d newVariant cmd with
  | error | ok => rfl

def Pending.Of (p : Platform) (d : OPCUADriver) (newVariant : GoValue → Except String V)
    (commands : List (WriteCommand × ℕ)) (size : ℕ) (st : Pending V) : Prop :=
  st.validIndices = (commands.filter fun c => submitted p d newVariant c.1).map Prod.snd ∧
    st.writeValues = commands.filterMap (fun c => (prepare p d newVariant c.1).toOption) ∧
    st.results = scatter (List.replicate size ⟨false, ""⟩) (commands.filterMap fun c =>
      match prepare p d newVariant c.1 with
      | .error r => some (c.2, r)
      | .ok _ => none)

theorem pending_add {commands : List (WriteCommand × ℕ)} {size : ℕ} {st : Pending V}
    (h : st.Of p d newVariant commands size) (c : WriteCommand × ℕ) :
    (st.add p d newVariant c).Of p d newVariant (commands ++ [c]) size := by
  obtain ⟨hindices, hvalues, hresults⟩ := h
  unfold Pending.add Pending.Of
  simp only [filter_append, filterMap_append, scatter_append]
  cases hprepare : prepare p d newVariant c.1 with
  | error r =>
    simp [submitted, hprepare, hindices, hvalues, hresults, Except.toBool, Except.toOption, scatter_cons]
  | ok w =>
    simp [submitted, hprepare, hindices, hvalues, hresults, Except.toBool, Except.toOption]

theorem pending_of (commands : List WriteCommand) :
    (pending p d newVariant commands).Of p d newVariant commands.zipIdx commands.length := by
  have hloop : ∀ (rest done : List (WriteCommand × ℕ)) (st : Pending V), st.Of p d newVariant done commands.length →
      (rest.foldl (Pending.add p d newVariant) st).Of p d newVariant (done ++ rest) commands.length := by
    intro rest
    induction rest with
    | nil =>
      intro done st h
      rwa [append_nil]
    | cons c rest ih =>
      intro done st h
      have hnext := ih (done ++ [c]) (st.add p d newVariant c) (pending_add h c)
      rwa [append_assoc] at hnext
  exact hloop commands.zipIdx [] _ ⟨rfl, rfl, rfl⟩

/-- The place of a command in the request. -/
def position (p : Platform) (d : OPCUADriver) (newVariant : GoValue → Except String V) (commands : List WriteCommand)
    (i : ℕ) : ℕ := ((commands.take i).filter (submitted p d newVariant)).length

theorem zipIdx_split {α : Type} {l : List α} {a : α} (h : l[i]? = some a) :
    l.zipIdx = (l.take i).zipIdx ++ (a, i) :: (l.drop (i + 1)).zipIdx (i + 1) := by
  obtain ⟨hi, rfl⟩ := List.getElem?_eq_some_iff.mp h
  have hlen : (l.take i).length = i := by rw [length_take, Nat.min_eq_left hi.le]
  have hsplit : l = l.take i ++ l[i] :: l.drop (i + 1) := by rw [getElem_cons_drop, take_append_drop]
  conv_lhs => rw [hsplit]
  rw [zipIdx_append, hlen, Nat.zero_add, zipIdx_cons]

theorem countP_zipIdx (f : WriteCommand → Bool) (commands : List WriteCommand) (n : ℕ) :
    (commands.zipIdx n).countP (fun c => f c.1) = (commands.filter f).length := by
  have hmap := countP_map (p := f) (f := Prod.fst) (l := commands.zipIdx n)
  rw [zipIdx_map_fst, countP_eq_length_filter] at hmap
  exact hmap.symm

theorem pending_position {cmd : WriteCommand} (hi : commands[i]? = some cmd)
    (hsub : submitted p d newVariant cmd = true) :
    (pending p d newVariant commands).validIndices[position p d newVariant commands i]? = some i ∧
      (pending p d newVariant commands).writeValues[position p d newVariant commands i]? =
        (prepare p d newVariant cmd).toOption := by
  have hof : (pending p d newVariant commands).Of p d newVariant commands.zipIdx commands.length := pending_of commands
  obtain ⟨hindices, hvalues, -⟩ := hof
  obtain ⟨w, hw⟩ := isSome_iff_exists.mp ((submitted_eq_isSome cmd).symm.trans hsub)
  rw [zipIdx_split hi] at hindices hvalues
  constructor
  · have hlen : position p d newVariant commands i =
        (((commands.take i).zipIdx.filter fun c => submitted p d newVariant c.1).map Prod.snd).length := by
      rw [length_map, ← countP_eq_length_filter, countP_zipIdx, position]
    rw [hindices, filter_append, filter_cons, if_pos hsub, map_append, hlen, map_cons,
      List.getElem?_append_right (Nat.le_refl _), Nat.sub_self]
    rfl
  · have hlen : position p d newVariant commands i =
        ((commands.take i).zipIdx.filterMap fun c => (prepare p d newVariant c.1).toOption).length := by
      simp only [length_filterMap_eq_countP, ← submitted_eq_isSome]
      rw [countP_zipIdx, position]
    rw [hvalues, filterMap_append, filterMap_cons, hlen, List.getElem?_append_right (Nat.le_refl _), Nat.sub_self]
    simp only [hw]
    rfl

theorem submitted_of_mem (hi : i ∈ (pending p d newVariant commands).validIndices) :
    ∃ cmd, commands[i]? = some cmd ∧ submitted p d newVariant cmd = true := by
  rw [(pending_of commands).1] at hi
  obtain ⟨⟨cmd, j⟩, hmem, rfl⟩ := mem_map.mp hi
  obtain ⟨hmem, hsub⟩ := mem_filter.mp hmem
  exact ⟨cmd, mk_mem_zipIdx_iff_getElem?.mp hmem, hsub⟩

theorem nodup_validIndices (commands : List WriteCommand) : (pending p d newVariant commands).validIndices.Nodup := by
  rw [(pending_of commands).1]
  have hall : (commands.zipIdx.map Prod.snd).Nodup := by
    rw [zipIdx_map_snd]
    exact nodup_range'
  exact hall.sublist (filter_sublist.map _)

theorem success_pending {r : WriteResult} (hr : r ∈ (pending p d newVariant commands).results) : r.success = false := by
  rw [(pending_of commands).2.2] at hr
  rcases mem_or_mem_of_mem_scatter hr with hinit | hskipped
  · rw [eq_of_mem_replicate hinit]
  · obtain ⟨⟨i, r'⟩, hmem, rfl⟩ := mem_map.mp hskipped
    obtain ⟨c, -, hc⟩ := mem_filterMap.mp hmem
    unfold prepare at hc
    grind

theorem length_results_pending (commands : List WriteCommand) :
    (pending p d newVariant commands).results.length = commands.length := by
  rw [(pending_of commands).2.2, length_scatter, length_replicate]

theorem length_validIndices (commands : List WriteCommand) :
    (pending p d newVariant commands).validIndices.length = (pending p d newVariant commands).writeValues.length := by
  obtain ⟨hindices, hvalues, -⟩ :=
    (pending_of commands : (pending p d newVariant commands).Of p d newVariant commands.zipIdx commands.length)
  rw [hindices, hvalues, length_map, length_filterMap_eq_countP, ← countP_eq_length_filter]
  simp [submitted_eq_isSome]

variable {codes : List StatusCode}

/-- With an index for every code, the code at a position gives the result for the index at that position. -/
theorem codeResults_eq_some (statusText : StatusCode → String) {indices : List ℕ}
    (hlen : codes.length = indices.length) :
    ∃ ws, codeResults statusText indices codes = some ws ∧ ∀ i r, (i, r) ∈ ws ↔
      ∃ (k : ℕ) (code : StatusCode), codes[k]? = some code ∧ indices[k]? = some i ∧ r = writeResult statusText code := by
  obtain ⟨ws, hws, hmap⟩ := mapM_of_forall (l := codes.zipIdx)
    (f := fun c => (indices[c.2]?).map fun origIdx => (origIdx, writeResult statusText c.1)) (by
      rintro ⟨code, k⟩ hmem
      have hk := (List.getElem?_eq_some_iff.mp (List.mk_mem_zipIdx_iff_getElem?.mp hmem)).1
      rw [List.getElem?_eq_getElem (by omega)]
      exact ⟨_, rfl⟩)
  refine ⟨ws, hws, fun i r => ?_⟩
  rw [← List.mem_map_of_injective (Option.some_injective _), hmap, List.mem_map]
  constructor
  · rintro ⟨⟨code, k⟩, hmem, hk⟩
    obtain ⟨j, hj, heq⟩ := map_eq_some_iff.mp hk
    obtain ⟨rfl, rfl⟩ := Prod.mk.inj heq
    exact ⟨k, code, mk_mem_zipIdx_iff_getElem?.mp hmem, hj, rfl⟩
  · rintro ⟨k, code, hcode, hk, rfl⟩
    refine ⟨(code, k), mk_mem_zipIdx_iff_getElem?.mpr hcode, ?_⟩
    rw [hk, map_some]

theorem write_eq_scatter (statusText : StatusCode → String)
    {respond : List (NodeID × V) → Except String (List StatusCode)}
    (hrespond : respond (pending p d newVariant commands).writeValues = .ok codes)
    (hlen : codes.length = (pending p d newVariant commands).writeValues.length) :
    ∃ ws, write p statusText d newVariant respond commands =
        some (.ok (scatter (pending p d newVariant commands).results ws)) ∧ ∀ i r, (i, r) ∈ ws ↔
      ∃ (k : ℕ) (code : StatusCode), codes[k]? = some code ∧ (pending p d newVariant commands).validIndices[k]? = some i ∧
        r = writeResult statusText code := by
  obtain ⟨ws, hws, hmem⟩ := codeResults_eq_some statusText (hlen.trans (length_validIndices commands).symm)
  refine ⟨ws, ?_, hmem⟩
  unfold write
  simp only [hrespond, hws]
  split
  · next hempty =>
    have hnil : codes = [] := by
      rw [isEmpty_iff.mp hempty] at hlen
      exact eq_nil_of_length_eq_zero hlen
    have hws' : ws = [] := by
      rw [hnil] at hws
      exact (some.inj hws).symm
    rw [hws', scatter_nil]
  · rfl

end

/-- **The results belong to their commands**: with one code for every write that is submitted, there is one result for
every command, a success exactly if it is submitted and the code for its write is good. -/
theorem write_belongs {V : Type} (p : Platform) (statusText : StatusCode → String) (d : OPCUADriver)
    (newVariant : GoValue → Except String V) (respond : List (NodeID × V) → Except String (List StatusCode))
    (commands : List WriteCommand) (codes : List StatusCode)
    (hrespond : respond (pending p d newVariant commands).writeValues = .ok codes)
    (hlen : codes.length = (pending p d newVariant commands).writeValues.length) :
    ∃ out, write p statusText d newVariant respond commands = some (.ok out) ∧ out.length = commands.length ∧
      ∀ (i : ℕ) cmd, commands[i]? = some cmd → (submitted p d newVariant cmd = true →
          (pending p d newVariant commands).writeValues[position p d newVariant commands i]? =
            (prepare p d newVariant cmd).toOption) ∧
        ∃ r, out[i]? = some r ∧ (r.success = true ↔
          submitted p d newVariant cmd = true ∧ codes[position p d newVariant commands i]? = some statusOK) := by
  obtain ⟨ws, hwrite, hmem⟩ := write_eq_scatter statusText hrespond hlen
  refine ⟨_, hwrite, by rw [length_scatter, length_results_pending], fun i cmd hi => ?_⟩
  have hlt : i < (pending p d newVariant commands).results.length := by
    rw [length_results_pending]
    exact (List.getElem?_eq_some_iff.mp hi).1
  by_cases hsub : submitted p d newVariant cmd = true
  · obtain ⟨hindex, hvalue⟩ := pending_position hi hsub
    refine ⟨fun _ => hvalue, ?_⟩
    have hk : position p d newVariant commands i < codes.length := by
      rw [hlen, ← length_validIndices]
      exact (List.getElem?_eq_some_iff.mp hindex).1
    have hcode := List.getElem?_eq_getElem hk
    refine ⟨_, scatter_of_mem hlt ((hmem _ _).mpr ⟨_, _, hcode, hindex, rfl⟩) fun r hr => ?_, ?_⟩
    · -- the index stands at one position only
      obtain ⟨k, code, hcode', hindex', rfl⟩ := (hmem _ _).mp hr
      obtain ⟨hpos, -⟩ := List.getElem?_eq_some_iff.mp hindex
      obtain rfl := (List.getElem?_inj hpos (nodup_validIndices commands)).mp (hindex.trans hindex'.symm)
      rw [some.inj (hcode'.symm.trans hcode)]
    · rw [hcode, writeResult]
      simp only [hsub, true_and, some.injEq]
      split
      · next hok => exact iff_of_true rfl hok
      · next hbad => exact iff_of_false (by simp) hbad
  · refine ⟨fun h => absurd h hsub, ?_⟩
    have hnot : i ∉ ws.map Prod.fst := by
      intro h
      obtain ⟨⟨j, r⟩, hr, rfl⟩ := mem_map.mp h
      obtain ⟨k, code, -, hindex, -⟩ := (hmem _ _).mp hr
      obtain ⟨cmd', hcmd', hsub'⟩ := submitted_of_mem (mem_of_getElem? hindex)
      rw [hi] at hcmd'
      exact hsub (some.inj hcmd' ▸ hsub')
    have hold := List.getElem?_eq_getElem hlt
    refine ⟨_, (scatter_of_notMem hnot).trans hold, ?_⟩
    rw [success_pending (mem_of_getElem? hold)]
    simp [hsub]

def variantOf : GoValue → Except String GoValue
  | .nil => .error "opcua: cannot set variant to nil"
  | v => .ok v

def setpoints : List WriteCommand :=
  [{ tag := "level", value := .bool true }, { tag := "temp", value := .bool true }, { tag := "temp" },
    { tag := "temp", value := .bool false }]

/-- The first write is refused and the second one succeeds: so do their commands. -/
theorem write_setpoints : (pending amd64 boiler variantOf setpoints).validIndices = [1, 3] ∧
    ∃ out, write amd64 (fun _ => "bad") boiler variantOf (fun _ => .ok [1, statusOK]) setpoints = some (.ok out) ∧
      out.length = 4 ∧ (∃ r, out[1]? = some r ∧ r.success = false) ∧ ∃ r, out[3]? = some r ∧ r.success = true := by
  refine ⟨by decide +kernel, ?_⟩
  obtain ⟨out, hwrite, hlen, hown⟩ := write_belongs amd64 (fun _ => "bad") boiler variantOf
    (fun _ => .ok [1, statusOK]) setpoints [1, statusOK] rfl (by decide +kernel)
  obtain ⟨-, r, hr, hsuccess⟩ := hown 1 _ rfl
  obtain ⟨-, r', hr', hsuccess'⟩ := hown 3 _ rfl
  refine ⟨out, hwrite, hlen, ⟨r, hr, ?_⟩, r', hr', hsuccess'.mpr (by decide +kernel)⟩
  rw [← Bool.not_eq_true, hsuccess]
  decide +kernel

end CoreC.Opcua.Driver
