import Mathlib.Data.List.Infix

/-! # Paths as text

`Clean`, `Join`, `Dir`, `Abs` and `Rel` of `path/filepath`, by their Unix definition, on lists of characters. A path is
read as its elements, the texts between the slashes, and a cleaned one is written from them.

* `elems_clean`: the elements of a cleaned path. -/

namespace CoreC.Lib.UnixPath

open List

abbrev Path := List Char

/-- The element `..`. -/
def dotdot : Path := ['.', '.']

def isAbs (p : Path) : Bool := p.head? = some '/'

/-- The elements, without empty ones and `.`. -/
def elems (p : Path) : List Path := (p.splitOn '/').filter fun e => e ≠ [] ∧ e ≠ ['.']

/-- One more element on a stack, the last one first: `..` takes the element before it away. -/
def push (rooted : Bool) (stack : List Path) (e : Path) : List Path :=
  if e = dotdot then
    match stack with
    | [] => if rooted then [] else [e]
    | top :: rest => if top = dotdot then e :: top :: rest else rest
  else e :: stack

def normal (rooted : Bool) (es : List Path) : List Path := (es.foldl (push rooted) []).reverse

def render (rooted : Bool) (es : List Path) : Path :=
  if rooted then '/' :: ['/'].intercalate es else if es = [] then ['.'] else ['/'].intercalate es

def clean (p : Path) : Path := render (isAbs p) (normal (isAbs p) (elems p))

/-- `filepath.Join`, of two paths. -/
def join (a b : Path) : Path :=
  if a = [] then if b = [] then [] else clean b else if b = [] then clean a else clean (a ++ '/' :: b)

def upToSlash (p : Path) : Path := (p.reverse.dropWhile (· ≠ '/')).reverse

def dir (p : Path) : Path := clean (upToSlash p)

/-- `filepath.Abs`, in a working directory. -/
def abs (wd p : Path) : Path := if isAbs p then clean p else join wd p

def dropCommon : List Path → List Path → List Path × List Path
  | a :: as, b :: bs => if a = b then dropCommon as bs else (a :: as, b :: bs)
  | as, bs => (as, bs)

/-- `filepath.Rel`, of two absolute paths. -/
def rel (base target : Path) : Path :=
  let (up, down) := dropCommon (elems (clean base)) (elems (clean target))
  render false (up.map (fun _ => dotdot) ++ down)

/-- The file is in the directory or below it. -/
def Below (d f : Path) : Prop := elems d <+: elems f

instance (d f : Path) : Decidable (Below d f) := inferInstanceAs (Decidable (_ <+: _))

/-! ### Elements -/

structure IsElem (e : Path) : Prop where
  ne_nil : e ≠ []
  ne_dot : e ≠ ['.']
  slash : '/' ∉ e

theorem slash_notMem_splitOn (p : Path) : ∀ e ∈ p.splitOn '/', '/' ∉ e := by
  induction p with
  | nil => simp
  | cons c p ih =>
    rw [splitOn_cons_eq_if_modifyHead]
    by_cases hc : (c == '/') = true
    · rw [if_pos hc]
      simpa using ih
    · rw [if_neg hc]
      cases hsplit : p.splitOn '/' with
      | nil => exact absurd hsplit (splitOn_ne_nil _ _)
      | cons e es =>
        have hne : ¬ '/' = c := fun h => hc (beq_iff_eq.mpr h.symm)
        rw [hsplit] at ih
        simpa [hne] using ih

variable {rooted : Bool} {es stack : List Path} {a e p wd : Path}

theorem isElem_of_mem_elems (h : e ∈ elems p) : IsElem e := by
  obtain ⟨hmem, hne⟩ := mem_filter.mp h
  obtain ⟨hnil, hdot⟩ := of_decide_eq_true hne
  exact ⟨hnil, hdot, slash_notMem_splitOn p e hmem⟩

@[simp]
theorem elems_nil : elems [] = [] := rfl

@[simp]
theorem elems_dot : elems ['.'] = [] := rfl

theorem elems_append_slash (a b : Path) : elems (a ++ '/' :: b) = elems a ++ elems b := by
  rw [elems, splitOn_append_cons_self, filter_append]
  rfl

theorem elems_slash (b : Path) : elems ('/' :: b) = elems b := elems_append_slash [] b

theorem elems_intercalate (h : ∀ e ∈ es, IsElem e) : elems (['/'].intercalate es) = es := by
  cases es with
  | nil => rfl
  | cons e es =>
    rw [elems, splitOn_intercalate '/' (fun e he => (h e he).slash) (cons_ne_nil e es)]
    exact filter_eq_self.mpr fun e he => by simp [(h e he).ne_nil, (h e he).ne_dot]

theorem elems_render (rooted : Bool) (h : ∀ e ∈ es, IsElem e) : elems (render rooted es) = es := by
  unfold render
  cases rooted with
  | true => rw [if_pos rfl, elems_slash, elems_intercalate h]
  | false =>
    rw [if_neg nofun]
    by_cases hnil : es = []
    · rw [if_pos hnil, hnil, elems_dot]
    · rw [if_neg hnil, elems_intercalate h]

theorem isAbs_render (rooted : Bool) (h : ∀ e ∈ es, IsElem e) : isAbs (render rooted es) = rooted := by
  cases rooted with
  | true => rfl
  | false =>
    cases es with
    | nil => rfl
    | cons e es =>
      have he := h e mem_cons_self
      cases e with
      | nil => exact absurd rfl he.ne_nil
      | cons c e =>
        have hc : c ≠ '/' := fun hc => he.slash (hc ▸ mem_cons_self)
        simp [render, isAbs, hc]

/-! ### The elements that are left -/

theorem mem_push {x : Path} (h : x ∈ push rooted stack e) : x = e ∨ x ∈ stack := by
  unfold push at h
  split at h
  · cases stack with
    | nil =>
      cases rooted
      · exact .inl (mem_singleton.mp h)
      · cases h
    | cons top rest =>
      dsimp only at h
      split at h
      · exact mem_cons.mp h
      · exact .inr (mem_cons_of_mem top h)
  · exact mem_cons.mp h

theorem mem_foldl_push {x : Path} (h : x ∈ es.foldl (push rooted) stack) : x ∈ es ∨ x ∈ stack := by
  refine List.foldlRecOn (motive := fun stack' => x ∈ stack' → x ∈ es ∨ x ∈ stack) es _ .inr
    (fun stack' ih e he h => ?_) h
  rcases mem_push h with rfl | h
  · exact .inl he
  · exact ih h

theorem isElem_normal (h : ∀ e ∈ es, IsElem e) : ∀ e ∈ normal rooted es, IsElem e := by
  intro e he
  rcases mem_foldl_push (mem_reverse.mp he) with he | he
  · exact h e he
  · cases he

theorem elems_clean (p : Path) : elems (clean p) = normal (isAbs p) (elems p) :=
  elems_render _ (isElem_normal fun _ => isElem_of_mem_elems)

theorem isAbs_clean (p : Path) : isAbs (clean p) = isAbs p :=
  isAbs_render _ (isElem_normal fun _ => isElem_of_mem_elems)

theorem push_of_ne (h : e ≠ dotdot) : push rooted stack e = e :: stack := if_neg h

theorem foldl_push_of_ne (h : dotdot ∉ es) (stack : List Path) :
    es.foldl (push rooted) stack = es.reverse ++ stack := by
  induction es generalizing stack with
  | nil => rfl
  | cons e es ih =>
    rw [mem_cons, not_or] at h
    rw [foldl_cons, push_of_ne (Ne.symm h.1), ih h.2, reverse_cons, append_assoc, singleton_append]

theorem normal_append_names (es : List Path) {names : List Path} (h : dotdot ∉ names) :
    normal rooted (es ++ names) = normal rooted es ++ names := by
  rw [normal, foldl_append, foldl_push_of_ne h, reverse_append, reverse_reverse, normal]

theorem normal_names {names : List Path} (h : dotdot ∉ names) : normal rooted names = names :=
  normal_append_names [] h

theorem dotdot_notMem_normal (es : List Path) : dotdot ∉ normal true es := by
  rw [normal, mem_reverse]
  refine List.foldlRecOn (motive := (dotdot ∉ ·)) es _ not_mem_nil fun stack h e _ => ?_
  unfold push
  by_cases he : e = dotdot
  · rw [if_pos he]
    cases stack with
    | nil => exact not_mem_nil
    | cons top rest =>
      rw [mem_cons, not_or] at h
      dsimp only
      rw [if_neg (Ne.symm h.1)]
      exact h.2
  · rw [if_neg he, mem_cons, not_or]
    exact ⟨Ne.symm he, h⟩

theorem head_normal_of_dotdot (h : dotdot ∈ normal false es) : (normal false es).head? = some dotdot := by
  rw [normal, mem_reverse] at h
  rw [normal, List.head?_reverse]
  revert h
  refine List.foldlRecOn (motive := fun stack => dotdot ∈ stack → stack.getLast? = some dotdot) es _
    (absurd · not_mem_nil) fun stack h e _ => ?_
  unfold push
  by_cases he : e = dotdot
  · rw [if_pos he]
    cases stack with
    | nil => exact fun _ => congrArg some he
    | cons top rest =>
      dsimp only
      by_cases htop : top = dotdot
      · rw [if_pos htop]
        intro _
        exact h (htop ▸ mem_cons_self)
      · rw [if_neg htop]
        intro hmem
        have hlast := h (mem_cons_of_mem top hmem)
        cases rest with
        | nil => cases hmem
        | cons x rest => rwa [List.getLast?_cons_cons] at hlast
  · rw [if_neg he]
    intro hmem
    have hstack : dotdot ∈ stack := (mem_cons.mp hmem).resolve_left (Ne.symm he)
    have hlast := h hstack
    cases stack with
    | nil => cases hstack
    | cons x rest => rwa [List.getLast?_cons_cons]

/-- **Cleaning the second half of a path first makes no difference.** -/
theorem normal_append_normal (ws es : List Path) : normal true (ws ++ normal false es) = normal true (ws ++ es) := by
  -- by induction on the elements read: only a `..` after a name shortens the stack, and it takes the name away on both
  have hfold : ∀ es stack : List Path,
      (es.foldl (push false) []).reverse.foldl (push true) stack = es.foldl (push true) stack := by
    intro es stack
    induction es using List.reverseRecOn with
    | nil => rfl
    | append_singleton es e ih =>
      rw [foldl_append, foldl_append, foldl_cons, foldl_nil, foldl_cons, foldl_nil, ← ih]
      generalize es.foldl (push false) [] = left
      by_cases he : e = dotdot
      · cases left with
        | nil =>
          rw [he]
          rfl
        | cons top rest =>
          by_cases htop : top = dotdot
          · have hpush : push false (top :: rest) e = e :: top :: rest := by
              rw [push, if_pos he]
              exact if_pos htop
            rw [hpush, reverse_cons, foldl_append, foldl_cons, foldl_nil]
          · have hpush (rooted : Bool) (xs : List Path) : push rooted (top :: xs) e = xs := by
              rw [push, if_pos he]
              exact if_neg htop
            rw [hpush, reverse_cons, foldl_append, foldl_cons, foldl_nil, push_of_ne htop, hpush]
      · rw [push_of_ne he, reverse_cons, foldl_append, foldl_cons, foldl_nil]
  rw [normal, normal, normal, foldl_append, foldl_append, hfold]

/-! ### Joining and directories -/

theorem elems_join (ha : isAbs a = true) (b : Path) : elems (join a b) = normal true (elems a ++ elems b) := by
  have hne : a ≠ [] := fun h => by simp [h, isAbs] at ha
  unfold join
  rw [if_neg hne]
  by_cases hb : b = []
  · rw [if_pos hb, elems_clean, ha, hb, elems_nil, append_nil]
  · have hroot : isAbs (a ++ '/' :: b) = true := by
      cases a with
      | nil => exact absurd rfl hne
      | cons c a => exact ha
    rw [if_neg hb, elems_clean, hroot, elems_append_slash]

theorem isAbs_join (ha : isAbs a = true) (b : Path) : isAbs (join a b) = true := by
  cases a with
  | nil => exact absurd ha nofun
  | cons c a =>
    unfold join
    rw [if_neg (cons_ne_nil c a)]
    split <;> rw [isAbs_clean] <;> exact ha

theorem elems_abs (hwd : isAbs wd = true) (p : Path) :
    elems (abs wd p) = normal true ((if isAbs p then [] else elems wd) ++ elems p) := by
  unfold abs
  by_cases hp : isAbs p = true
  · rw [if_pos hp, if_pos hp, elems_clean, hp, nil_append]
  · rw [if_neg hp, if_neg hp, elems_join hwd]

theorem isAbs_abs (hwd : isAbs wd = true) (p : Path) : isAbs (abs wd p) = true := by
  unfold abs
  by_cases hp : isAbs p = true
  · rw [if_pos hp, isAbs_clean, hp]
  · rw [if_neg hp, isAbs_join hwd]

theorem render_elems_clean (p : Path) : render (isAbs p) (elems (clean p)) = clean p := by
  rw [elems_clean, clean]

theorem render_elems_abs (hwd : isAbs wd = true) (p : Path) : render true (elems (abs wd p)) = abs wd p := by
  unfold abs join
  by_cases hp : isAbs p = true
  · rw [if_pos hp]
    exact hp ▸ render_elems_clean p
  · cases wd with
    | nil => exact absurd hwd nofun
    | cons d wd =>
      rw [if_neg hp, if_neg (cons_ne_nil d wd)]
      by_cases hnil : p = []
      · rw [if_pos hnil]
        exact hwd ▸ render_elems_clean (d :: wd)
      · rw [if_neg hnil]
        exact hwd ▸ render_elems_clean (d :: wd ++ '/' :: p)

theorem elems_abs_of_isAbs (wd : Path) (hp : isAbs p = true) (h : dotdot ∉ elems p) : elems (abs wd p) = elems p := by
  rw [abs, if_pos hp, elems_clean, normal_names h]

/-- **What is joined to a directory without `..` lies below it.** -/
theorem elems_join_of_names (ha : isAbs a = true) (hdir : dotdot ∉ elems a) {b : Path} (hb : dotdot ∉ elems b) :
    elems (join a b) = elems a ++ elems b := by
  rw [elems_join ha, normal_names]
  rw [mem_append, not_or]
  exact ⟨hdir, hb⟩

theorem dotdot_notMem_clean (hp : isAbs p = false) (h : ¬ dotdot <+: clean p) : dotdot ∉ elems (clean p) := by
  intro hmem
  rw [elems_clean, hp] at hmem
  have hhead := head_normal_of_dotdot hmem
  refine h ?_
  rw [clean, hp]
  cases hes : normal false (elems p) with
  | nil => simp [hes] at hhead
  | cons e es =>
    obtain rfl : e = dotdot := by simpa [hes] using hhead
    rw [render]
    cases es with
    | nil | cons => simp

theorem upToSlash_append {last : Path} (h : '/' ∉ last) (a : Path) : upToSlash (a ++ '/' :: last) = a ++ ['/'] := by
  have hlast : ∀ c ∈ last.reverse, decide (c ≠ '/') = true := fun c hc =>
    decide_eq_true fun hslash => h (hslash ▸ mem_reverse.mp hc)
  rw [upToSlash, reverse_append, reverse_cons, append_assoc, dropWhile_append_of_pos hlast]
  simp

theorem upToSlash_of_notMem {last : Path} (h : '/' ∉ last) : upToSlash last = [] := by
  have hlast : ∀ c ∈ last.reverse, decide (c ≠ '/') = true := fun c hc =>
    decide_eq_true fun hslash => h (hslash ▸ mem_reverse.mp hc)
  rw [upToSlash, ← append_nil last.reverse, dropWhile_append_of_pos hlast]
  rfl

theorem intercalate_concat (h : es ≠ []) (last : Path) :
    ['/'].intercalate (es ++ [last]) = ['/'].intercalate es ++ '/' :: last := by
  induction es with
  | nil => exact absurd rfl h
  | cons e es ih =>
    cases es with
    | nil => simp
    | cons e' es =>
      have hrest := ih (cons_ne_nil e' es)
      simp only [cons_append, intercalate_cons_cons] at hrest ⊢
      rw [hrest]
      simp

theorem upToSlash_render (rooted : Bool) (h : ∀ e ∈ es, IsElem e) :
    elems (upToSlash (render rooted es)) = es.dropLast ∧ isAbs (upToSlash (render rooted es)) = rooted := by
  rcases eq_nil_or_concat' es with rfl | ⟨es, last, rfl⟩
  · cases rooted <;> exact ⟨rfl, rfl⟩
  have hlast : '/' ∉ last := (h last (by simp)).slash
  have hes : ∀ e ∈ es, IsElem e := fun e he => h e (mem_append_left _ he)
  rw [dropLast_concat]
  by_cases hnil : es = []
  · subst hnil
    cases rooted with
    | true =>
      have htext : render true ([] ++ [last]) = [] ++ '/' :: last := by simp [render]
      rw [htext, upToSlash_append hlast]
      exact ⟨rfl, rfl⟩
    | false =>
      have htext : render false ([] ++ [last]) = last := by simp [render]
      rw [htext, upToSlash_of_notMem hlast]
      exact ⟨rfl, rfl⟩
  · have htext : render rooted (es ++ [last]) = render rooted es ++ '/' :: last := by
      unfold render
      rw [if_neg hnil, if_neg (concat_ne_nil last es), intercalate_concat hnil]
      cases rooted <;> rfl
    rw [htext, upToSlash_append hlast]
    constructor
    · rw [elems_append_slash, elems_render rooted hes, elems_nil, append_nil]
    · have habs := isAbs_render rooted hes
      have hne : render rooted es ≠ [] := by
        cases rooted
        · intro htext
          have := elems_render false hes
          rw [htext] at this
          exact hnil this.symm
        · exact cons_ne_nil _ _
      unfold isAbs at habs ⊢
      rwa [List.head?_append_of_ne_nil _ hne]

theorem elems_dir_clean (p : Path) :
    elems (dir (clean p)) = normal (isAbs p) (normal (isAbs p) (elems p)).dropLast := by
  have hnormal : ∀ e ∈ normal (isAbs p) (elems p), IsElem e := isElem_normal fun _ => isElem_of_mem_elems
  obtain ⟨helems, habs⟩ := upToSlash_render (isAbs p) hnormal
  rw [dir, elems_clean, clean, helems, habs]

theorem isAbs_dir_clean (p : Path) : isAbs (dir (clean p)) = isAbs p := by
  rw [dir, isAbs_clean]
  exact (upToSlash_render (isAbs p) (isElem_normal fun _ => isElem_of_mem_elems)).2

theorem elems_dir_abs (hwd : isAbs wd = true) (p : Path) : elems (dir (abs wd p)) = (elems (abs wd p)).dropLast := by
  obtain ⟨helems, habs⟩ := upToSlash_render true fun e he => isElem_of_mem_elems (p := abs wd p) he
  have hnot : dotdot ∉ (elems (abs wd p)).dropLast := fun h => by
    rw [elems_abs hwd] at h
    exact dotdot_notMem_normal _ (mem_of_mem_dropLast h)
  rw [render_elems_abs hwd] at helems habs
  rw [dir, elems_clean, helems, normal_names hnot]

theorem dropLast_normal_concat (es : List Path) (e : Path) : (normal true (es ++ [e])).dropLast <+: normal true es := by
  by_cases he : e = dotdot
  · have hnot := dotdot_notMem_normal es
    rw [normal, mem_reverse] at hnot
    rw [normal, foldl_append, foldl_cons, normal]
    cases hstack : es.foldl (push true) [] with
    | nil =>
      rw [he]
      exact prefix_rfl
    | cons top rest =>
      rw [hstack, mem_cons, not_or] at hnot
      have hpush : push true (top :: rest) e = rest := by
        rw [push, if_pos he]
        exact if_neg (Ne.symm hnot.1)
      rw [hpush, reverse_cons]
      exact ( dropLast_prefix _).trans (prefix_append _ _)
  · rw [normal_append_names es (by simpa using Ne.symm he), dropLast_concat]

/-- **The directory of an absolute path**: that of the path before it was made absolute is there or below. -/
theorem dropLast_elems_abs (hwd : isAbs wd = true) (p : Path) :
    (elems (abs wd p)).dropLast <+: elems (abs wd (dir (clean p))) := by
  rw [elems_abs hwd, elems_abs hwd, isAbs_dir_clean, elems_dir_clean]
  cases hp : isAbs p with
  | true =>
    have hnot : dotdot ∉ (normal true (elems p)).dropLast := fun h =>
      dotdot_notMem_normal (elems p) (mem_of_mem_dropLast h)
    rw [if_pos rfl, nil_append, nil_append, normal_names hnot, normal_names hnot]
  | false =>
    rw [if_neg nofun, normal_append_normal (elems wd) (normal false (elems p)).dropLast,
      ← normal_append_normal (elems wd) (elems p)]
    rcases eq_nil_or_concat' (normal false (elems p)) with hnil | ⟨es, last, hes⟩
    · rw [hnil]
      exact dropLast_prefix _
    · rw [hes, dropLast_concat, ← append_assoc]
      exact dropLast_normal_concat _ last

end CoreC.Lib.UnixPath
