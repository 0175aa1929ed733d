import Mathlib.Data.List.Chain
import Mathlib.Data.List.Sublists

/-! # Finding a cycle depth-first

A walk over a finite graph from a node, with the keys of the nodes it is inside of (`path`), which stand for the set of
the nodes that are being visited: a node whose key is on the path closes a cycle, and the part of the path from there on
is reported. -/

namespace CoreC.Lib.Cycles

open List

variable {α κ : Type} [DecidableEq κ]

structure Graph (α : Type) where
  nodes : List α
  succ : α → List α
  closed : ∀ a, ∀ b ∈ succ a, b ∈ nodes

theorem filter_append_lt {keys path : List κ} {k : κ} (hk : k ∈ keys) (hpath : k ∉ path) :
    (keys.filter (· ∉ path ++ [k])).length < (keys.filter (· ∉ path)).length := by
  have hsub : (keys.filter (· ∉ path ++ [k])) = (keys.filter (· ∉ path)).filter (· ≠ k) := by
    rw [filter_filter]
    refine filter_congr fun x _ => ?_
    by_cases hx : x = k <;> by_cases hx' : x ∈ path <;> simp [hx']
  rw [hsub]
  refine length_filter_lt_length_iff_exists.mpr ⟨k, ?_, by simp⟩
  simp [hk, hpath]

/-- The walk from `a`. -/
def visit (g : Graph α) (key : α → κ) (path : List κ) (a : α) (_ha : a ∈ g.nodes) : Except (List κ) Unit :=
  if _hon : key a ∈ path then .error (path.dropWhile (· ≠ key a) ++ [key a])
  else forM (g.succ a).attach fun b => visit g key (path ++ [key a]) b.1 (g.closed a b.1 b.2)
termination_by ((g.nodes.map key).filter (· ∉ path)).length
decreasing_by exact filter_append_lt (mem_map_of_mem _ha) _hon

def visitAll (g : Graph α) (key : α → κ) : Except (List κ) Unit :=
  forM g.nodes.attach fun a => visit g key [] a.1 a.2

theorem forM_ok_iff {ε β : Type} {f : β → Except ε Unit} {l : List β} : forM l f = .ok () ↔ ∀ b ∈ l, f b = .ok () := by
  induction l with
  | nil => simp [pure, Except.pure]
  | cons b l ih =>
    rw [forM_cons, forall_mem_cons, ← ih]
    cases hb : f b with
    | error | ok => simp [bind, Except.bind]

/-- **The walk finds nothing if and only if no path from the node repeats a key.** -/
theorem visit_ok_iff (g : Graph α) (key : α → κ) (path : List κ) (a : α) (ha : a ∈ g.nodes) (hpath : path.Nodup) :
    visit g key path a ha = .ok () ↔
      ∀ w, (a :: w).IsChain (fun x y => y ∈ g.succ x) → (path ++ (a :: w).map key).Nodup := by
  induction path, a, ha using visit.induct g key with
  | case1 path a ha hon =>
    rw [visit, dif_pos hon]
    refine ⟨nofun, fun h => ?_⟩
    have hnodup := h [] (isChain_singleton a)
    rw [nodup_append] at hnodup
    exact absurd rfl (hnodup.2.2 (key a) hon (key a) (by simp))
  | case2 path a ha hon ih =>
    have hpath' : (path ++ [key a]).Nodup := nodup_append.mpr ⟨hpath, by simp, by
      rintro x hx y hy rfl
      rw [mem_singleton] at hy
      exact hon (hy ▸ hx)⟩
    rw [visit, dif_neg hon, forM_ok_iff]
    constructor
    · rintro h (_ | ⟨b, w⟩) hw
      · exact hpath'
      · have hb : b ∈ g.succ a := (isChain_cons_cons.mp hw).1
        have hrest := (ih ⟨b, hb⟩ hpath').mp (h ⟨b, hb⟩ (mem_attach _ _)) w (isChain_cons_cons.mp hw).2
        rwa [append_assoc] at hrest
    · rintro h ⟨b, hb⟩ -
      refine (ih ⟨b, hb⟩ hpath').mpr fun w hw => ?_
      rw [append_assoc]
      exact h (b :: w) (isChain_cons_cons.mpr ⟨hb, hw⟩)

/-- A key has an edge to another if a node with it has one to a node with the other. -/
def KeyEdge (g : Graph α) (key : α → κ) (k k' : κ) : Prop :=
  ∃ a ∈ g.nodes, key a = k ∧ ∃ b ∈ g.succ a, key b = k'

section

variable {g : Graph α} {key : α → κ}

omit [DecidableEq κ] in
theorem isChain_map_key {a : α} (ha : a ∈ g.nodes) {w : List α} (hw : (a :: w).IsChain fun x y => y ∈ g.succ x) :
    ((a :: w).map key).IsChain (KeyEdge g key) := by
  induction w generalizing a with
  | nil => exact isChain_singleton _
  | cons b w ih =>
    obtain ⟨hb, hrest⟩ := isChain_cons_cons.mp hw
    exact isChain_cons_cons.mpr ⟨⟨a, ha, rfl, b, hb, rfl⟩, ih (g.closed a b hb) hrest⟩

omit [DecidableEq κ] in
theorem exists_transGen (hkey : ∀ a ∈ g.nodes, ∀ b ∈ g.nodes, key a = key b → a = b) {k k' : κ}
    (h : Relation.TransGen (KeyEdge g key) k k') :
    ∃ a ∈ g.nodes, ∃ b ∈ g.nodes, key a = k ∧ key b = k' ∧ Relation.TransGen (fun x y => y ∈ g.succ x) a b := by
  induction h with
  | single hedge =>
    obtain ⟨a, ha, hka, b, hb, hkb⟩ := hedge
    exact ⟨a, ha, b, g.closed a b hb, hka, hkb, .single hb⟩
  | tail _ hedge ih =>
    obtain ⟨a, ha, b, hb, hka, hkb, hpath⟩ := ih
    obtain ⟨b', hb', hkb', c, hc, hkc⟩ := hedge
    obtain rfl := hkey b hb b' hb' (hkb.trans hkb'.symm)
    exact ⟨a, ha, c, g.closed b c hc, hka, hkc, hpath.tail hc⟩

/-- **The walks from all nodes find nothing if and only if no key leads back to itself.** -/
theorem visitAll_ok_iff (hkey : ∀ a ∈ g.nodes, ∀ b ∈ g.nodes, key a = key b → a = b) :
    visitAll g key = .ok () ↔ ∀ k, ¬ Relation.TransGen (KeyEdge g key) k k := by
  rw [visitAll, forM_ok_iff]
  constructor
  · intro h k hcycle
    obtain ⟨a, ha, b, hb, hka, hkb, hpath⟩ := exists_transGen hkey hcycle
    obtain rfl := hkey a ha b hb (hka.trans hkb.symm)
    -- the cycle as a path from `a` to itself
    obtain ⟨b', hedge, hback⟩ := Relation.TransGen.head'_iff.mp hpath
    obtain ⟨w, hw, hlast⟩ := exists_isChain_cons_of_relationReflTransGen hback
    have hnodup := (visit_ok_iff g key [] a ha nodup_nil).mp (h ⟨a, ha⟩ (mem_attach _ _)) (b' :: w)
      (isChain_cons_cons.mpr ⟨hedge, hw⟩)
    rw [nil_append, map_cons, nodup_cons] at hnodup
    refine hnodup.1 (mem_map.mpr ⟨a, ?_, rfl⟩)
    exact hlast ▸ getLast_mem _
  · rintro h ⟨a, ha⟩ -
    refine (visit_ok_iff g key [] a ha nodup_nil).mpr fun w hw => ?_
    have hpaths : ((a :: w).map key).Pairwise (Relation.TransGen (KeyEdge g key)) :=
      ((isChain_map_key ha hw).imp fun _ _ hedge => .single hedge).pairwise
    refine hpaths.imp fun {k k'} hpath => ?_
    rintro rfl
    exact h k hpath

end

end CoreC.Lib.Cycles
