import Mathlib.Data.List.AList
import Mathlib.Data.List.Induction
import CoreC.Core.Types
import CoreC.Lib.RangeLoop

/-! # Reconciling the running components with a new configuration

`diffDrivers` and `diffTransports` are one algorithm: remove what disappeared from the configuration, restart what
changed, add what is new, and record every step that succeeded for `rollback`. The orders in which the names are visited
are arbitrary lists of the keys. A failing `add` leaves the registry as it was; a failing `remove` has already taken the
component out when the error of its `Stop` is returned (`removeComp`).

* `rollback_of_undoable`: a recorded state is undone by the rollback. -/

namespace CoreC.Executor.Diff

open Core.Types Lib.RangeLoop Function List

inductive CompOp (C : Type) where
  | remove (name : String)
  | add (cfg : C)
  deriving DecidableEq

/-- The components of one kind that run, by name, and the part of `diffActions` about them. -/
structure DiffState (C : Type) where
  reg : String → Option C
  removed : List C
  added : List String

section

variable {C : Type} [DecidableEq C] (nameOf : C → String) (fails : CompOp C → Bool)

/-- `RemoveDriver`, `RemoveTransport`: the registry afterwards, and whether `nil` is returned. -/
def removeComp (reg : String → Option C) (name : String) : (String → Option C) × Bool :=
  match reg name with
  | none => (reg, false)
  | some _ => (update reg name none, !fails (.remove name))

/-- `AddDriver`, `AddTransport`: a running component of the same name is replaced. -/
def addComp (reg : String → Option C) (cfg : C) : (String → Option C) × Bool :=
  if fails (.add cfg) then (reg, false) else (update reg (nameOf cfg) (some cfg), true)

def configMap (cfgs : List C) : AList fun _ : String => C :=
  cfgs.foldl (fun m c => m.insert (nameOf c) c) ∅

def removeStep (old new : AList fun _ : String => C) (st : DiffState C) (name : String) :
    DiffState C × Option (CompOp C) :=
  match old.lookup name, new.lookup name with
  | some c, none =>
    match removeComp fails st.reg name with
    | (reg, true) => ({ st with reg, removed := st.removed ++ [c] }, none)
    | (reg, false) => ({ st with reg }, some (.remove name))
  | _, _ => (st, none)

def addStep (st : DiffState C) (c : C) : DiffState C × Option (CompOp C) :=
  match addComp nameOf fails st.reg c with
  | (reg, true) => ({ st with reg, added := st.added ++ [nameOf c] }, none)
  | (reg, false) => ({ st with reg }, some (.add c))

def updateStep (old new : AList fun _ : String => C) (force : Bool) (st : DiffState C)
    (name : String) : DiffState C × Option (CompOp C) :=
  match new.lookup name with
  | none => (st, none)
  | some c =>
    match old.lookup name with
    | none => addStep nameOf fails st c
    | some o =>
      if force || o ≠ c then
        match removeComp fails st.reg name with
        | (reg, true) => addStep nameOf fails { st with reg, removed := st.removed ++ [o] } c
        | (reg, false) => ({ st with reg }, some (.remove name))
      else (st, none)

/-- `diffDrivers`, `diffTransports`, with the visiting orders of the two maps. -/
def diffComponents (old new : List C) (force : Bool) (oldOrder newOrder : List String)
    (st : DiffState C) : DiffState C × Option (CompOp C) :=
  match loop (removeStep fails (configMap nameOf old) (configMap nameOf new)) oldOrder st with
  | (st, some e) => (st, some e)
  | (st, none) =>
    loop (updateStep nameOf fails (configMap nameOf old) (configMap nameOf new) force) newOrder st

/-- The part of `rollback` for one kind: remove what was added, then restore what was removed, the
last first. Errors are only logged. -/
def rollbackComponents (st : DiffState C) : String → Option C :=
  st.removed.reverse.foldl (fun reg c => (addComp nameOf fails reg c).1)
    (st.added.foldl (fun reg name => (removeComp fails reg name).1) st.reg)

end

def diffDrivers (fails : CompOp DriverConfig → Bool) (old new : List DriverConfig) (force : Bool)
    (oldOrder newOrder : List String) (st : DiffState DriverConfig) :
    DiffState DriverConfig × Option (CompOp DriverConfig) :=
  diffComponents DriverConfig.name fails old new force oldOrder newOrder st

def diffTransports (fails : CompOp TransportConfig → Bool) (old new : List TransportConfig)
    (force : Bool) (oldOrder newOrder : List String) (st : DiffState TransportConfig) :
    DiffState TransportConfig × Option (CompOp TransportConfig) :=
  diffComponents TransportConfig.name fails old new force oldOrder newOrder st

variable {C : Type} {nameOf : C → String} {fails : CompOp C → Bool} {c : C} {st : DiffState C} {n : String}
  {reg0 : String → Option C}

/-! ### The maps of a configuration -/

theorem configMap_append (cfgs : List C) (c : C) :
    configMap nameOf (cfgs ++ [c]) = (configMap nameOf cfgs).insert (nameOf c) c := by
  simp [configMap]

theorem nameOf_of_lookup {cfgs : List C} (h : (configMap nameOf cfgs).lookup n = some c) : nameOf c = n ∧ c ∈ cfgs := by
  induction cfgs using List.reverseRecOn with
  | nil => simp [configMap] at h
  | append_singleton l x ih =>
    rw [configMap_append] at h
    by_cases hn : n = nameOf x
    · subst hn
      rw [AList.lookup_insert] at h
      cases h
      exact ⟨rfl, by simp⟩
    · rw [AList.lookup_insert_ne hn] at h
      exact ⟨(ih h).1, by simp [(ih h).2]⟩

theorem lookup_configMap {cfgs : List C} (hnd : (cfgs.map nameOf).Nodup) :
    (configMap nameOf cfgs).lookup n = some c ↔ c ∈ cfgs ∧ nameOf c = n := by
  refine ⟨fun h => ⟨(nameOf_of_lookup h).2, (nameOf_of_lookup h).1⟩, ?_⟩
  rintro ⟨hc, rfl⟩
  induction cfgs using List.reverseRecOn with
  | nil => simp at hc
  | append_singleton l x ih =>
    rw [configMap_append]
    rw [map_append, nodup_append] at hnd
    rcases mem_append.mp hc with h | h
    · have hne : nameOf c ≠ nameOf x :=
        hnd.2.2 _ (mem_map_of_mem h) _ (by simp)
      rw [AList.lookup_insert_ne hne]
      exact ih hnd.1 h
    · obtain rfl := mem_singleton.mp h
      rw [AList.lookup_insert]

theorem lookup_map_iff {base : List C} {f g : C → C} (hf : ∀ c, nameOf (f c) = nameOf c)
    (hg : ∀ c, nameOf (g c) = nameOf c) (hnd : (base.map nameOf).Nodup) :
    (∀ n, (configMap nameOf (base.map f)).lookup n = (configMap nameOf (base.map g)).lookup n) ↔
      ∀ c ∈ base, f c = g c := by
  have hnames : ∀ k, (∀ c, nameOf (k c) = nameOf c) → (base.map k).map nameOf = base.map nameOf := by
    intro k hk
    rw [map_map]
    exact map_congr_left fun c _ => hk c
  constructor
  · intro h c hc
    have hleft := (lookup_configMap (hnames f hf ▸ hnd)).mpr ⟨mem_map_of_mem hc, hf c⟩
    have hright := (lookup_configMap (hnames g hg ▸ hnd)).mpr ⟨mem_map_of_mem hc, hg c⟩
    rw [h (nameOf c), hright] at hleft
    exact (Option.some.inj hleft).symm
  · intro h n
    rw [map_congr_left h]

/-! ### Rolling back -/

/-- What the log says about the registry `reg0` before the diff: a name the log does not mention is
as before, an added name that was not removed first is new, and a removed component was running. -/
structure Undoable (nameOf : C → String) (reg0 : String → Option C) (st : DiffState C) : Prop where
  same : ∀ n, n ∉ st.added → n ∉ st.removed.map nameOf → st.reg n = reg0 n
  fresh : ∀ n ∈ st.added, n ∉ st.removed.map nameOf → reg0 n = none
  old : ∀ c ∈ st.removed, reg0 (nameOf c) = some c

theorem removeComp_fst (reg : String → Option C) (name : String) :
    (removeComp fails reg name).1 = update reg name none := by
  unfold removeComp
  split
  · next h => rw [← h, update_eq_self]
  · rfl

theorem foldl_remove : ∀ (ns : List String) (reg : String → Option C) (n : String),
    ns.foldl (fun reg name => (removeComp fails reg name).1) reg n =
      if n ∈ ns then none else reg n
  | [], reg, n => by simp
  | m :: ns, reg, n => by
    rw [foldl_cons, foldl_remove ns, removeComp_fst]
    by_cases hn : n ∈ ns
    · simp [hn]
    · by_cases hm : n = m
      · simp [hm]
      · simp [hn, hm]

section

variable (hok : ∀ op, fails op = false)
include hok

theorem foldl_add (reg0 : String → Option C) (n : String) :
    ∀ (cs : List C) (reg : String → Option C), (∀ c ∈ cs, reg0 (nameOf c) = some c) →
      cs.foldl (fun reg c => (addComp nameOf fails reg c).1) reg n =
        if n ∈ cs.map nameOf then reg0 n else reg n
  | [], reg, _ => by simp
  | c :: cs, reg, h => by
    rw [foldl_cons, foldl_add reg0 n cs _ fun x hx => h x (by simp [hx])]
    have hc := h c (by simp)
    by_cases hn : n ∈ cs.map nameOf
    · rw [if_pos hn, if_pos (by rw [map_cons]; exact mem_cons_of_mem _ hn)]
    · rw [if_neg hn]
      by_cases hm : n = nameOf c
      · subst hm
        simp [addComp, hok, hc]
      · simp [addComp, hok, hm, hn]

theorem rollback_apply (hold : ∀ c ∈ st.removed, reg0 (nameOf c) = some c) (n : String) :
    rollbackComponents nameOf fails st n =
      if n ∈ st.removed.map nameOf then reg0 n else if n ∈ st.added then none else st.reg n := by
  unfold rollbackComponents
  rw [foldl_add hok reg0 n _ _ fun c hc => hold c (mem_reverse.mp hc), foldl_remove]
  simp [mem_reverse]

theorem rollback_of_undoable
    (h : Undoable nameOf reg0 st) : rollbackComponents nameOf fails st = reg0 := by
  funext n
  rw [rollback_apply hok h.old]
  split_ifs with h1 h2
  · rfl
  · exact (h.fresh n h2 h1).symm
  · exact h.same n h2 h1

/-- **A component whose removal failed is not restored.** -/
theorem rollback_of_lost (hold : ∀ c ∈ st.removed, reg0 (nameOf c) = some c)
    (hn : n ∉ st.removed.map nameOf) (hreg : st.reg n = none) :
    rollbackComponents nameOf fails st n = none := by
  rw [rollback_apply hok hold, if_neg hn, hreg, ite_self]

end

theorem Undoable.remove (h : Undoable nameOf reg0 st) (hc : reg0 (nameOf c) = some c) : Undoable nameOf reg0 { st with
      reg := update st.reg (nameOf c) none, removed := st.removed ++ [c] } where
  same n ha hr := by
    simp only [map_append, map_cons, map_nil, mem_append, mem_singleton, not_or] at hr
    exact (update_of_ne hr.2 _ _).trans (h.same n ha hr.1)
  fresh n ha hr := h.fresh n ha fun hn => hr (by simp [hn])
  old x hx := by
    rcases mem_append.mp hx with hx | hx
    · exact h.old x hx
    · rw [mem_singleton.mp hx, hc]

theorem Undoable.add (h : Undoable nameOf reg0 st) (hc : reg0 (nameOf c) = none ∨ nameOf c ∈ st.removed.map nameOf) :
    Undoable nameOf reg0 { st with
      reg := update st.reg (nameOf c) (some c), added := st.added ++ [nameOf c] } where
  same n ha hr := by
    simp only [mem_append, mem_singleton, not_or] at ha
    exact (update_of_ne ha.2 _ _).trans (h.same n ha.1 hr)
  fresh n ha hr := by
    rcases mem_append.mp ha with ha | ha
    · exact h.fresh n ha hr
    · obtain rfl := mem_singleton.mp ha
      exact hc.resolve_right hr
  old := h.old

/-! ### The registry along the diff -/

def registryOf (m : AList fun _ : String => C) : String → Option C := fun n => m.lookup n

/-- The registry when the removal loop has visited `rd` and the second loop has visited `ud`. -/
def progress (old new : AList fun _ : String => C) (rd ud : List String) : String → Option C :=
  fun n =>
    match new.lookup n with
    | some c => if n ∈ ud then some c else old.lookup n
    | none => if n ∈ rd then none else old.lookup n

section

variable {old new : AList fun _ : String => C} {rd ud : List String} {n : String}

theorem progress_nil : progress old new [] [] = registryOf old := by
  funext n
  unfold progress registryOf
  split <;> simp

theorem progress_full (hr : ∀ n, n ∈ old → n ∈ rd) (hu : ∀ n, n ∈ new → n ∈ ud) :
    progress old new rd ud = registryOf new := by
  funext n
  unfold progress registryOf
  split
  · next c hc =>
    rw [if_pos (hu n (AList.lookup_isSome.mp (by rw [hc]; rfl))), hc]
  · next hc =>
    rw [hc]
    by_cases hn : n ∈ rd
    · rw [if_pos hn]
    · rw [if_neg hn]
      exact AList.lookup_eq_none.mpr fun h => hn (hr n h)

theorem progress_remove (hnew : new.lookup n = none) :
    update (progress old new rd ud) n none = progress old new (rd ++ [n]) ud := by
  funext m
  by_cases hm : m = n
  · subst hm
    simp [progress, hnew]
  · simp [progress, hm]

theorem progress_add (hnew : new.lookup n = some c) :
    update (progress old new rd ud) n (some c) = progress old new rd (ud ++ [n]) := by
  funext m
  by_cases hm : m = n
  · subst hm
    simp [progress, hnew]
  · simp [progress, hm]

theorem progress_keep (h : old.lookup n = none ∨ new.lookup n ≠ none) :
    progress old new (rd ++ [n]) ud = progress old new rd ud := by
  funext m
  by_cases hm : m = n
  · subst hm
    unfold progress
    split
    · rfl
    · next hnew => simp [h.resolve_right (not_not.mpr hnew)]
  · simp [progress, hm]

theorem progress_same (h : new.lookup n = none ∨ new.lookup n = old.lookup n) :
    progress old new rd (ud ++ [n]) = progress old new rd ud := by
  funext m
  by_cases hm : m = n
  · subst hm
    unfold progress
    split
    · next c hnew => simp [← h.resolve_left (by simp [hnew]), hnew]
    · rfl
  · simp [progress, hm]

end

/-! ### What a step and a run of the diff leave -/

/-- Where the diff stands: the registry has made its progress, the log undoes it, and a component in
the log was taken out by one of the visits. -/
structure DiffInv (nameOf : C → String) (old new : AList fun _ : String => C)
    (rd ud : List String) (st : DiffState C) : Prop where
  reg : st.reg = progress old new rd ud
  undo : Undoable nameOf (registryOf old) st
  removed : ∀ c ∈ st.removed, nameOf c ∈ rd ∧ new.lookup (nameOf c) = none ∨ nameOf c ∈ ud

/-- What a failing call leaves: after an `add` the log undoes the registry; after a `remove` the
component is gone and not in the log. -/
def Failed (nameOf : C → String) (fails : CompOp C → Bool) (reg0 : String → Option C)
    (e : CompOp C) (st : DiffState C) : Prop :=
  fails e = true ∧
    match e with
    | .add _ => Undoable nameOf reg0 st
    | .remove n => reg0 n ≠ none ∧ st.reg n = none ∧ n ∉ st.removed.map nameOf ∧
        ∀ c ∈ st.removed, reg0 (nameOf c) = some c

/-- **The rollback restores the registry unless the failing call was a removal.** -/
theorem Failed.rollback_iff {rollbackFails : CompOp C → Bool} (hok : ∀ op, rollbackFails op = false) {e : CompOp C}
    (h : Failed nameOf fails reg0 e st) :
    rollbackComponents nameOf rollbackFails st = reg0 ↔ ∀ n, e ≠ .remove n := by
  obtain ⟨-, h⟩ := h
  cases e with
  | add c => simp [rollback_of_undoable hok h]
  | remove n =>
    obtain ⟨h0, hreg, hn, hold⟩ := h
    refine ⟨fun heq => absurd ?_ h0, fun hne => absurd rfl (hne n)⟩
    rw [← heq, rollback_of_lost hok hold hn hreg]

section

variable {old new : AList fun _ : String => C} {rd ud : List String} {st : DiffState C}

theorem DiffInv.not_removed (h : DiffInv nameOf old new rd ud st) (hu : n ∉ ud)
    (hr : n ∈ rd → new.lookup n ≠ none) : n ∉ st.removed.map nameOf := by
  intro hm
  obtain ⟨c, hc, rfl⟩ := mem_map.mp hm
  rcases h.removed c hc with hx | hx
  · exact hr hx.1 hx.2
  · exact hu hx

theorem removeComp_outcome (fails : CompOp C → Bool) (hreg : st.reg (nameOf c) = some c)
    (h : Undoable nameOf (registryOf old) st) (hold : old.lookup (nameOf c) = some c)
    (hn : nameOf c ∉ st.removed.map nameOf) :
    removeComp fails st.reg (nameOf c) = (update st.reg (nameOf c) none, true) ∨
      ∃ reg, removeComp fails st.reg (nameOf c) = (reg, false) ∧
        Failed nameOf fails (registryOf old) (.remove (nameOf c)) { st with reg } := by
  unfold removeComp
  rw [hreg]
  cases hf : fails (.remove (nameOf c)) with
  | false => exact .inl rfl
  | true =>
    refine .inr ⟨_, rfl, hf, ?_, ?_, hn, h.old⟩
    · simp [registryOf, hold]
    · exact update_self _ _ _

theorem addStep_outcome (fails : CompOp C → Bool) (h : Undoable nameOf (registryOf old) st)
    (hc : registryOf old (nameOf c) = none ∨ nameOf c ∈ st.removed.map nameOf)
    (hreg : update st.reg (nameOf c) (some c) = progress old new rd (ud ++ [nameOf c]))
    (hrem : ∀ x ∈ st.removed, nameOf x ∈ rd ∧ new.lookup (nameOf x) = none ∨ nameOf x ∈ ud ++ [nameOf c]) :
    Outcome (DiffInv nameOf old new rd (ud ++ [nameOf c])) (Failed nameOf fails (registryOf old))
      (addStep nameOf fails st c) := by
  unfold addStep addComp
  cases hf : fails (.add c) with
  | true => exact ⟨hf, h⟩
  | false => exact ⟨hreg, h.add hc, hrem⟩

variable (hname : ∀ n c, old.lookup n = some c → nameOf c = n)

include hname in
theorem removeStep_outcome (h : DiffInv nameOf old new rd [] st) (hn : n ∉ rd) :
    Outcome (DiffInv nameOf old new (rd ++ [n]) []) (Failed nameOf fails (registryOf old))
      (removeStep fails old new st n) := by
  unfold removeStep
  split
  · next c hold hnew =>
    obtain rfl := hname n c hold
    have hreg : st.reg (nameOf c) = some c := by
      rw [h.reg]
      simp [progress, hnew, hn, hold]
    have hlog := h.not_removed (n := nameOf c) (by simp) fun hr => absurd hr hn
    rcases removeComp_outcome fails hreg h.undo hold hlog with hr | ⟨reg, hr, hf⟩
    · rw [hr]
      refine ⟨?_, h.undo.remove hold, ?_⟩
      · rw [← progress_remove hnew, h.reg]
      · intro x hx
        rcases mem_append.mp hx with hx | hx
        · exact (h.removed x hx).imp (fun hr => ⟨by simp [hr.1], hr.2⟩) id
        · obtain rfl := mem_singleton.mp hx
          exact .inl ⟨by simp, hnew⟩
    · rw [hr]
      exact hf
  · next hx =>
    refine ⟨?_, h.undo, fun x hx => (h.removed x hx).imp (fun hr => ⟨by simp [hr.1], hr.2⟩) id⟩
    rw [h.reg, progress_keep]
    by_contra! hc
    obtain ⟨c, hc'⟩ := Option.ne_none_iff_exists'.mp hc.1
    exact hx c hc' hc.2

include hname in
theorem updateStep_outcome [DecidableEq C] {force : Bool}
    (hname' : ∀ n c, new.lookup n = some c → nameOf c = n)
    (h : DiffInv nameOf old new rd ud st) (hn : n ∉ ud) :
    Outcome (DiffInv nameOf old new rd (ud ++ [n])) (Failed nameOf fails (registryOf old))
      (updateStep nameOf fails old new force st n) := by
  have hrem : ∀ c ∈ st.removed, nameOf c ∈ rd ∧ new.lookup (nameOf c) = none ∨ nameOf c ∈ ud ++ [n] :=
    fun c hc => (h.removed c hc).imp id fun hr => by simp [hr]
  unfold updateStep
  cases hnew : new.lookup n with
  | none => exact ⟨by rw [h.reg, progress_same (.inl hnew)], h.undo, hrem⟩
  | some c =>
    obtain rfl := hname' n c hnew
    cases hold : old.lookup (nameOf c) with
    | none =>
      exact addStep_outcome fails h.undo (.inl hold) (by rw [h.reg, progress_add hnew]) hrem
    | some o =>
      have ho := hname _ _ hold
      dsimp only
      split_ifs with hne
      · -- a restart: taken out as in the first loop, then added under the same name
        have hreg : st.reg (nameOf o) = some o := by
          rw [h.reg, ho]
          simp [progress, hnew, hn, hold]
        have hlog := h.not_removed (n := nameOf o) (ho ▸ hn) fun _ => by rw [ho, hnew]; simp
        rcases removeComp_outcome fails hreg h.undo (ho ▸ hold) hlog with hr | ⟨reg, hr, hf⟩
        · have hundo := h.undo.remove (c := o) (ho ▸ hold)
          rw [ho] at hr hundo
          rw [hr]
          refine addStep_outcome fails hundo (.inr (by simp [ho])) ?_ ?_
          · rw [update_idem, h.reg, progress_add hnew]
          · intro x hx
            rcases mem_append.mp hx with hx | hx
            · exact hrem x hx
            · exact .inr (by simp [mem_singleton.mp hx, ho])
        · rw [← ho, hr]
          exact hf
      · have hoc : o = c := (by simpa using hne : force = false ∧ o = c).2
        refine ⟨?_, h.undo, hrem⟩
        rw [h.reg, progress_same (.inr (by rw [hnew, hold, hoc]))]

end

section

variable [DecidableEq C] {old new : List C} {oldOrder newOrder : List String}

/-- **A diff that succeeds has made its progress; one that fails leaves what its failing call
leaves.** -/
theorem diffComponents_outcome (nameOf : C → String) (fails : CompOp C → Bool) (old new : List C)
    (force : Bool) (ho : oldOrder.Nodup) (hw : newOrder.Nodup) :
    Outcome (DiffInv nameOf (configMap nameOf old) (configMap nameOf new) oldOrder newOrder)
      (Failed nameOf fails (registryOf (configMap nameOf old)))
      (diffComponents nameOf fails old new force oldOrder newOrder ⟨registryOf (configMap nameOf old), [], []⟩) := by
  have hname : ∀ {cfgs : List C} n c, (configMap nameOf cfgs).lookup n = some c → nameOf c = n :=
    fun n c h => (nameOf_of_lookup h).1
  have hnd : ∀ {l d r : List String} {n : String}, l.Nodup → l = d ++ n :: r → n ∉ d := by
    rintro _ d r n hl rfl hn
    exact (nodup_append.mp hl).2.2 n hn n (by simp) rfl
  have hinit : DiffInv nameOf (configMap nameOf old) (configMap nameOf new) [] []
      ⟨registryOf (configMap nameOf old), [], []⟩ :=
    ⟨progress_nil.symm, ⟨fun _ _ _ => rfl, by simp, by simp⟩, by simp⟩
  have h1 : Outcome (DiffInv nameOf (configMap nameOf old) (configMap nameOf new) oldOrder [])
      (Failed nameOf fails (registryOf (configMap nameOf old)))
      (loop (removeStep fails (configMap nameOf old) (configMap nameOf new)) oldOrder
        ⟨registryOf (configMap nameOf old), [], []⟩) :=
    loop_outcome (P := (DiffInv nameOf (configMap nameOf old) (configMap nameOf new) · [])) oldOrder []
      (fun d n r st hd h => removeStep_outcome hname h (hnd ho hd)) hinit
  unfold diffComponents
  revert h1
  rcases loop (removeStep fails (configMap nameOf old) (configMap nameOf new)) oldOrder _ with ⟨st, _ | e⟩
  · intro h1
    exact loop_outcome newOrder [] (fun d n r st hd h => updateStep_outcome hname hname h (hnd hw hd)) h1
  · exact id

/-- **The log of a diff restores the registry, unless the diff failed in a removal.** -/
theorem diffComponents_rollback (fails : CompOp C → Bool)
    {rollbackFails : CompOp C → Bool} (hok : ∀ op, rollbackFails op = false)
    (hreg : reg0 = registryOf (configMap nameOf old)) (force : Bool)
    (ho : oldOrder.Perm (configMap nameOf old).keys) (hw : newOrder.Perm (configMap nameOf new).keys) :
    Outcome (fun st => rollbackComponents nameOf rollbackFails st = reg0) (fun e st => fails e = true ∧
        (rollbackComponents nameOf rollbackFails st = reg0 ↔ ∀ n, e ≠ .remove n))
      (diffComponents nameOf fails old new force oldOrder newOrder ⟨reg0, [], []⟩) := by
  subst hreg
  have h := diffComponents_outcome nameOf fails old new force
    (ho.nodup_iff.mpr (AList.nodupKeys _)) (hw.nodup_iff.mpr (AList.nodupKeys _))
  revert h
  rcases diffComponents nameOf fails old new force oldOrder newOrder _ with ⟨st, _ | e⟩
  · exact fun h => rollback_of_undoable hok h.undo
  · exact fun h => ⟨h.1, Failed.rollback_iff hok h⟩

/-- **Without failing calls the diff installs the components of the new configuration.** -/
theorem diffComponents_total (force : Bool) (hok : ∀ op, fails op = false)
    (ho : oldOrder.Perm (configMap nameOf old).keys) (hw : newOrder.Perm (configMap nameOf new).keys) :
    ∃ st, diffComponents nameOf fails old new force oldOrder newOrder
        ⟨registryOf (configMap nameOf old), [], []⟩ = (st, none) ∧
      st.reg = registryOf (configMap nameOf new) := by
  have h := diffComponents_outcome nameOf fails old new force
    (ho.nodup_iff.mpr (AList.nodupKeys _)) (hw.nodup_iff.mpr (AList.nodupKeys _))
  revert h
  rcases diffComponents nameOf fails old new force oldOrder newOrder _ with ⟨st, _ | e⟩
  · intro h
    refine ⟨st, rfl, h.reg.trans (progress_full ?_ ?_)⟩
    · exact fun n hn => ho.mem_iff.mpr (AList.mem_keys.mp hn)
    · exact fun n hn => hw.mem_iff.mpr (AList.mem_keys.mp hn)
  · intro h
    exact absurd h.1 (by simp [hok])

theorem diffComponents_same (h : ∀ n, (configMap nameOf old).lookup n = (configMap nameOf new).lookup n)
    (st : DiffState C) :
    diffComponents nameOf fails old new false oldOrder newOrder st = (st, none) := by
  have hr : ∀ n, removeStep fails (configMap nameOf old) (configMap nameOf new) st n = (st, none) := by
    intro n
    unfold removeStep
    rw [h n]
    cases (configMap nameOf new).lookup n <;> rfl
  have hu : ∀ n, updateStep nameOf fails (configMap nameOf old) (configMap nameOf new) false st n = (st, none) := by
    intro n
    unfold updateStep
    rw [h n]
    cases (configMap nameOf new).lookup n <;> simp
  unfold diffComponents
  rw [loop_skip hr]
  exact loop_skip hu newOrder

theorem same_of_diffComponents (ho : oldOrder.Perm (configMap nameOf old).keys)
    (hw : newOrder.Perm (configMap nameOf new).keys) (st : DiffState C)
    (h : (diffComponents nameOf (fun _ => true) old new false oldOrder newOrder st).2 = none) (n : String) :
    (configMap nameOf old).lookup n = (configMap nameOf new).lookup n := by
  have hremove : ∀ reg, ∃ reg', removeComp (fun _ : CompOp C => true) reg n = (reg', false) := by
    intro reg
    unfold removeComp
    split
    · exact ⟨_, rfl⟩
    · exact ⟨_, rfl⟩
  rw [diffComponents] at h
  cases hnew : (configMap nameOf new).lookup n with
  | none =>
    -- an old name that is not new would be removed by the first loop
    cases hold : (configMap nameOf old).lookup n with
    | none => rfl
    | some o =>
      have hmem : n ∈ oldOrder := ho.mem_iff.mpr (AList.mem_keys.mp (AList.lookup_isSome.mp (by rw [hold]; rfl)))
      have hstep : ∀ st, (removeStep (fun _ => true) (configMap nameOf old) (configMap nameOf new) st n).2 ≠
          none := by
        intro st
        obtain ⟨reg, hreg⟩ := hremove st.reg
        simp only [removeStep, hold, hnew, hreg]
        nofun
      have hloop := loop_fails hstep hmem st
      split at h
      · cases h
      · next st' heq => exact absurd (congrArg Prod.snd heq) hloop
  | some c =>
    -- a new name that is missing or has another configuration would be added by the second
    by_contra hne
    have hmem : n ∈ newOrder := hw.mem_iff.mpr (AList.mem_keys.mp (AList.lookup_isSome.mp (by rw [hnew]; rfl)))
    have hstep : ∀ st,
        (updateStep nameOf (fun _ => true) (configMap nameOf old) (configMap nameOf new) false st n).2 ≠ none := by
      intro st
      unfold updateStep
      rw [hnew]
      cases hold : (configMap nameOf old).lookup n with
      | none => nofun
      | some o =>
        have hdiff : (false || decide (o ≠ c)) = true := by
          rw [hold] at hne
          simpa using hne
        obtain ⟨reg, hreg⟩ := hremove st.reg
        simp only [hdiff, hreg]
        nofun
    split at h
    · cases h
    · next st' _ => exact absurd h (loop_fails hstep hmem st')

end

end CoreC.Executor.Diff
