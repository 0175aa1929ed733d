import CoreC.Rules.Build

/-! # Matching: the linear scan and the driver index

`matchInRules` scans a rule list up to the first terminal match. `matchPoint` (`Engine.Match`) merges the universal
rules and those indexed under the point's driver on the fly (`matchMerged`), and then records the misses of the other
rules that the scan would have reached (`otherMisses`). Both yield the matches and the counter increments.

The merge is the scan of the filtered list (`matchMerged_filter`); leaving out rules that cannot match changes neither
the matches (`scan_filter_results`) nor, with the recorded misses, the increments (`scan_filter_events`). -/

namespace CoreC.Rules.Match

open Core.Types Lib.Buckets Rules.Build List

/-- `core.RuleMatchResult`: the matched wrapper, the targets and the transform. -/
structure MatchResult where
  rule : RuleWrapper
  targets : List String
  transform : Option TransformConfig

structure Outcome where
  results : List MatchResult
  events : List StatEvent

def Outcome.prepend (rs : List MatchResult) (es : List StatEvent) (o : Outcome) : Outcome :=
  ⟨rs ++ o.results, es ++ o.events⟩

section Engine

variable (e : Engine) (p : DataPoint)

variable (w : RuleWrapper)

def idOf : RuleId := ⟨e.group, w.seq⟩

/-- `ruleWrapper.Match`: a disabled rule neither matches nor counts. -/
def evalWrapper : Bool × List StatEvent :=
  if e.disabled w.seq then (false, [])
  else
    let (ok, inner) := w.rule.eval p
    (ok, inner ++ [if ok then .hit (idOf e w) else .miss (idOf e w)])

def recordMiss : List StatEvent :=
  if e.disabled w.seq then [] else [.miss (idOf e w)]

/-- The result built for a matching rule (`tryMatch`, and the body of `matchInRules`). -/
def resultOf : MatchResult :=
  { rule := w
    targets := if w.rule.targets = [] ∧ w.rule.target ≠ "" then [w.rule.target] else w.rule.targets
    transform := w.rule.transform }

def tryMatch (rest : Outcome) : Outcome :=
  let (ok, events) := evalWrapper e p w
  if ok then
    if w.rule.continue_ then rest.prepend [resultOf w] events else ⟨[resultOf w], events⟩
  else rest.prepend [] events

def matchInRules : List RuleWrapper → Outcome
  | [] => ⟨[], []⟩
  | w :: ws => tryMatch e p w (matchInRules ws)

def mergeFirst (a b : RuleWrapper) : Bool :=
  a.rule.priority < b.rule.priority || (a.rule.priority = b.rule.priority && a.seq ≤ b.seq)

/-- `matchMerged`: the two-pointer merge of two lists, evaluating as it goes. -/
def matchMerged : List RuleWrapper → List RuleWrapper → Outcome
  | a :: as, b :: bs =>
    if mergeFirst a b then tryMatch e p a (matchMerged as (b :: bs))
    else tryMatch e p b (matchMerged (a :: as) bs)
  | as, [] => matchInRules e p as
  | [], bs => matchInRules e p bs
termination_by as bs => as.length + bs.length

def terminal (results : List MatchResult) : Option RuleWrapper :=
  match results.getLast? with
  | some r => if r.rule.rule.continue_ then none else some r.rule
  | none => none

def notReached (t : Option RuleWrapper) (w : RuleWrapper) : Bool :=
  match t with
  | none => false
  | some t =>
    t.rule.priority < w.rule.priority || (w.rule.priority = t.rule.priority && t.seq ≤ w.seq)

/-- The misses recorded for the rules of other drivers, the index visited in the order `order`. -/
def otherMisses (order : List String) (results : List MatchResult) : List StatEvent :=
  order.flatMap fun driver =>
    if driver = p.driver then []
    else (get e.driverIndex driver).flatMap fun w =>
      if notReached (terminal results) w then [] else recordMiss e w

/-- `Engine.Match`. -/
def matchPoint (order : List String) : Outcome :=
  if e.driverIndex.keys = [] then matchInRules e p e.rules
  else
    let o := matchMerged e p e.universalRules (get e.driverIndex p.driver)
    ⟨o.results, o.events ++ otherMisses e p order o.results⟩

end Engine

/-! ### The merge of two parts of a sorted list -/

variable {e : Engine} {p : DataPoint} {o : Outcome} {a b w : RuleWrapper}

theorem mergeFirst_of_before (h : Before a b) : mergeFirst a b = true := by
  obtain ⟨h1, h2⟩ := h
  unfold mergeFirst
  rcases lt_or_eq_of_le h1 with h | h
  · simp [h]
  · simp [h, h2.le]

theorem mergeFirst_of_after (h : Before b a) : mergeFirst a b = false := by
  obtain ⟨h1, h2⟩ := h
  unfold mergeFirst
  simp only [Bool.or_eq_false_iff, Bool.and_eq_false_imp, decide_eq_false_iff_not]
  exact ⟨not_lt.mpr h1, fun _ => by omega⟩

theorem matchMerged_nil_right (as : List RuleWrapper) : matchMerged e p as [] = matchInRules e p as := by
  cases as <;> simp [matchMerged]

theorem matchMerged_nil_left (bs : List RuleWrapper) : matchMerged e p [] bs = matchInRules e p bs := by
  cases bs <;> simp [matchMerged]

theorem matchMerged_left {as bs : List RuleWrapper} (h : ∀ b ∈ bs, Before a b) :
    matchMerged e p (a :: as) bs = tryMatch e p a (matchMerged e p as bs) := by
  cases bs with
  | nil => rw [matchMerged_nil_right, matchMerged_nil_right, matchInRules]
  | cons b bs => rw [matchMerged, if_pos (mergeFirst_of_before (h b (by simp)))]

theorem matchMerged_right {as bs : List RuleWrapper} (h : ∀ a ∈ as, Before b a) :
    matchMerged e p as (b :: bs) = tryMatch e p b (matchMerged e p as bs) := by
  cases as with
  | nil => rw [matchMerged_nil_left, matchMerged_nil_left, matchInRules]
  | cons a as =>
    rw [matchMerged, if_neg (by rw [mergeFirst_of_after (h a (by simp))]; simp)]

/-- **The merge is a scan.** Merging two disjoint parts of a list in evaluation order evaluates the
rules of either part, in the order of the list. -/
theorem matchMerged_filter (f g : RuleWrapper → Bool) (hfg : ∀ w, f w → g w = false) :
    ∀ {ws : List RuleWrapper}, ws.Pairwise Before → matchMerged e p (ws.filter f) (ws.filter g) =
        matchInRules e p (ws.filter fun w => f w || g w)
  | [], _ => by simp [matchMerged, matchInRules]
  | w :: ws, h => by
    rw [pairwise_cons] at h
    have ih := matchMerged_filter f g hfg h.2
    cases hf : f w with
    | true =>
      have hg := hfg w hf
      simp only [filter_cons, hf, hg, Bool.or_false, if_true, Bool.false_eq_true, if_false]
      rw [matchMerged_left fun b hb => h.1 b (mem_filter.mp hb).1, ih, matchInRules]
    | false =>
      cases hg : g w with
      | true =>
        simp only [filter_cons, hf, hg, Bool.or_true, if_true, Bool.false_eq_true, if_false]
        rw [matchMerged_right fun b hb => h.1 b (mem_filter.mp hb).1, ih, matchInRules]
      | false => simpa [hf, hg] using ih

/-! ### Leaving out rules that cannot match -/

theorem tryMatch_of_not (h : (evalWrapper e p w).1 = false) :
    tryMatch e p w o = o.prepend [] (evalWrapper e p w).2 := by
  unfold tryMatch
  simp [h]

/-- **One rule**: the scan goes on, with at most a result that is not terminal, or it ends with the rule. -/
theorem tryMatch_cases (e : Engine) (p : DataPoint) (w : RuleWrapper) :
    (∃ rs, (∀ o, tryMatch e p w o = o.prepend rs (evalWrapper e p w).2) ∧ ∀ rs', terminal (rs ++ rs') = terminal rs') ∨
      (∀ o, tryMatch e p w o = ⟨[resultOf w], (evalWrapper e p w).2⟩) ∧ terminal [resultOf w] = some w := by
  cases hm : (evalWrapper e p w).1 with
  | false => exact .inl ⟨[], fun _ => tryMatch_of_not hm, fun _ => rfl⟩
  | true =>
    cases hc : w.rule.continue_ with
    | true =>
      refine .inl ⟨[resultOf w], fun o => by simp [tryMatch, hm, hc], fun rs => ?_⟩
      cases rs <;> simp [terminal, resultOf, hc]
    | false => exact .inr ⟨fun o => by simp [tryMatch, hm, hc], by simp [terminal, resultOf, hc]⟩

theorem evalWrapper_of_miss (h1 : (w.rule.eval p).1 = false)
    (h2 : (w.rule.eval p).2 = []) : evalWrapper e p w = (false, recordMiss e w) := by
  unfold evalWrapper recordMiss
  split_ifs with hd
  · rfl
  · simp [h1, h2]

theorem terminal_mem : ∀ {ws : List RuleWrapper} {t : RuleWrapper},
    terminal (matchInRules e p ws).results = some t → t ∈ ws
  | [], t, h => by simp [matchInRules, terminal] at h
  | w :: ws, t, h => by
    rw [matchInRules] at h
    rcases tryMatch_cases e p w with ⟨rs, htry, hrs⟩ | ⟨htry, hlast⟩
    · rw [htry] at h
      exact mem_cons_of_mem _ (terminal_mem ((hrs _).symm.trans h))
    · rw [htry] at h
      cases hlast.symm.trans h
      exact mem_cons_self ..

theorem notReached_some (t w : RuleWrapper) : notReached (some t) w = mergeFirst t w := by
  simp [notReached, mergeFirst, eq_comm]

theorem notReached_of_before {t : Option RuleWrapper} (h : ∀ x, t = some x → Before w x) : notReached t w = false := by
  cases t with
  | none => rfl
  | some x => rw [notReached_some, mergeFirst_of_after (h x rfl)]

variable {rel : RuleWrapper → Bool}

/-- **Leaving out rules that cannot match keeps the matches.** -/
theorem scan_filter_results : ∀ {ws : List RuleWrapper}, (∀ w ∈ ws, rel w = false → (evalWrapper e p w).1 = false) →
      (matchInRules e p (ws.filter rel)).results = (matchInRules e p ws).results
  | [], _ => by simp [matchInRules]
  | w :: ws, h => by
    have ih := @scan_filter_results ws fun x hx => h x (by simp [hx])
    cases hr : rel w with
    | false =>
      rw [filter_cons_of_neg (by simp [hr]), matchInRules, tryMatch_of_not (h w (by simp) hr), ih]
      rfl
    | true =>
      rw [filter_cons_of_pos hr, matchInRules, matchInRules]
      rcases tryMatch_cases e p w with ⟨rs, htry, -⟩ | ⟨htry, -⟩
      · rw [htry, htry]
        exact congrArg (rs ++ ·) ih
      · rw [htry, htry]

def leftOut (e : Engine) (rel : RuleWrapper → Bool) (t : Option RuleWrapper)
    (ws : List RuleWrapper) : List StatEvent :=
  (ws.filter fun w => !rel w).flatMap fun w => if notReached t w then [] else recordMiss e w

theorem leftOut_after {t : RuleWrapper} {ws : List RuleWrapper} (h : ∀ w ∈ ws, Before t w) :
    leftOut e rel (some t) ws = [] := by
  refine flatMap_eq_nil_iff.mpr fun w hw => ?_
  rw [notReached_some, mergeFirst_of_before (h w (mem_filter.mp hw).1), if_pos rfl]

/-- **Leaving out rules that cannot match keeps the increments**, once the misses of those reached
are added. -/
theorem scan_filter_events : ∀ {ws : List RuleWrapper}, ws.Pairwise Before →
    (∀ w ∈ ws, rel w = false → evalWrapper e p w = (false, recordMiss e w)) →
      ((matchInRules e p (ws.filter rel)).events ++
        leftOut e rel (terminal (matchInRules e p (ws.filter rel)).results) ws).Perm (matchInRules e p ws).events
  | [], _, _ => by simp [matchInRules, leftOut]
  | w :: ws, hs, h => by
    rw [pairwise_cons] at hs
    have ih := scan_filter_events hs.2 fun x hx => h x (by simp [hx])
    cases hr : rel w with
    | false =>
      -- the scan counts the miss first, the index after its own evaluations
      have hw := h w (by simp) hr
      have hnr : notReached (terminal (matchInRules e p (ws.filter rel)).results) w = false :=
        notReached_of_before fun x hx => hs.1 x (mem_filter.mp (terminal_mem hx)).1
      rw [filter_cons_of_neg (by simp [hr]), matchInRules, tryMatch_of_not (by rw [hw]), hw]
      have hlo : leftOut e rel (terminal (matchInRules e p (ws.filter rel)).results) (w :: ws) = recordMiss e w ++
            leftOut e rel (terminal (matchInRules e p (ws.filter rel)).results) ws := by
        simp [leftOut, hr, hnr]
      rw [hlo]
      exact (perm_append_comm_assoc _ _ _).trans (ih.append_left _)
    | true =>
      have hlo : ∀ t, leftOut e rel t (w :: ws) = leftOut e rel t ws := by
        intro t; simp [leftOut, hr]
      rw [filter_cons_of_pos hr, matchInRules, matchInRules, hlo]
      rcases tryMatch_cases e p w with ⟨rs, htry, hrs⟩ | ⟨htry, hlast⟩
      · rw [htry, htry]
        simp only [Outcome.prepend]
        rw [hrs, append_assoc]
        exact ih.append_left _
      · rw [htry, htry, hlast, leftOut_after hs.1, append_nil]

/-! ### The index refines the scan -/

/-- The rules `Engine.Match` evaluates for a point: universal ones and those of its driver. -/
def relevant (p : DataPoint) (w : RuleWrapper) : Bool :=
  decide (w.key = none) || decide (w.key = some p.driver)

theorem otherMisses_perm (hi : e.Installed) {order : List String}
    (ho : order.Perm e.driverIndex.keys) (results : List MatchResult) :
    (otherMisses e p order results).Perm (leftOut e (relevant p) (terminal results) e.rules) := by
  set f : RuleWrapper → List StatEvent :=
    fun w => if notReached (terminal results) w then [] else recordMiss e w with hf
  set key : RuleWrapper → Option String :=
    fun w => if w.key = some p.driver then none else w.key with hkey
  have hnd : order.Nodup := ho.nodup_iff.mpr e.driverIndex.keys_nodup
  have hcover : ∀ w ∈ e.rules, ∀ k, key w = some k → k ∈ order := by
    intro w hw k hk
    have hwk : w.key = some k := by
      by_cases h : w.key = some p.driver
      · simp [hkey, h] at hk
      · simpa [hkey, h] using hk
    rw [ho.mem_iff, hi.index]
    exact mem_buckets.mpr ⟨w, hw, hwk⟩
  have hbucket : otherMisses e p order results =
      order.flatMap fun k => (e.rules.filter fun w => key w = some k).flatMap f := by
    refine flatMap_congr fun k _ => ?_
    by_cases hk : k = p.driver
    · have : (e.rules.filter fun w => key w = some k) = [] := by
        refine filter_eq_nil_iff.mpr fun w _ => ?_
        subst hk
        by_cases h : w.key = some p.driver <;> simp [hkey]
      rw [if_pos hk, this]; rfl
    · rw [if_neg hk, hi.index, get_buckets]
      congr 1
      refine filter_congr fun w _ => ?_
      by_cases h : w.key = some p.driver
      · simp [hkey, h, Ne.symm hk]
      · simp [hkey, h]
  have hpart : (e.rules.filter fun w => (key w).isSome) = e.rules.filter fun w => !relevant p w := by
    refine filter_congr fun w _ => ?_
    unfold relevant
    by_cases h : w.key = some p.driver
    · simp [hkey, h]
    · cases hk : w.key with
      | none => simp [hkey, hk]
      | some k =>
        rw [hk] at h
        simp [hkey, hk, h]
  rw [hbucket, leftOut, ← hpart]
  exact flatMap_buckets_perm key f hnd e.rules hcover

theorem evalWrapper_irrelevant (hi : e.Installed) (hfilter : ∀ w ∈ e.rules, w.rule.driverFilter ≠ "" →
      ∀ q, q.driver ≠ w.rule.driverFilter → (w.rule.eval q).1 = false) :
    ∀ w ∈ e.rules, relevant p w = false → evalWrapper e p w = (false, recordMiss e w) := by
  intro w hw hr
  unfold relevant RuleWrapper.key at hr
  by_cases hf : w.rule.driverFilter = ""
  · simp [hf] at hr
  · have hne : p.driver ≠ w.rule.driverFilter := by
      rintro h
      simp [h] at hr
    exact evalWrapper_of_miss (hfilter w hw hf p hne) (hi.plain w hw hf p)

theorem matchMerged_installed (hi : e.Installed) : matchMerged e p e.universalRules (get e.driverIndex p.driver) =
      matchInRules e p (e.rules.filter (relevant p)) := by
  rw [hi.universal, hi.index, get_buckets]
  refine matchMerged_filter _ _ (fun w hw => ?_) hi.sorted
  simp only [decide_eq_true_eq] at hw
  simp [hw]

def Outcome.hits (o : Outcome) (id : RuleId) : ℕ := o.events.count (.hit id)

def Outcome.misses (o : Outcome) (id : RuleId) : ℕ := o.events.count (.miss id)

/-- **The driver index refines the linear scan.** After `SetRules`, for any disabled flags and any visiting order of
the index, `Engine.Match` returns the results and increments the counters of the scan over all rules, if no rule with
a driver filter matches a point of another driver. -/
theorem matchPoint_refines_scan {env : BuildEnv} {g : Option String} {cfgs : List RuleConfig}
    {e : Engine} (hset : setRules env g cfgs = .ok e)
    (hfilter : ∀ w ∈ e.rules, w.rule.driverFilter ≠ "" →
      ∀ q : DataPoint, q.driver ≠ w.rule.driverFilter → (w.rule.eval q).1 = false)
    (d : ℕ → Bool) (p : DataPoint) {order : List String} (ho : order.Perm e.driverIndex.keys) :
    let e' : Engine := { e with disabled := d }
    (matchPoint e' p order).results = (matchInRules e' p e'.rules).results ∧
      ∀ id, (matchPoint e' p order).hits id = (matchInRules e' p e'.rules).hits id ∧
        (matchPoint e' p order).misses id = (matchInRules e' p e'.rules).misses id := by
  intro e'
  have hi : e'.Installed := (setRules_installed hset).withDisabled d
  have hmiss := evalWrapper_irrelevant (p := p) hi hfilter
  unfold matchPoint
  split_ifs with hk
  · exact ⟨rfl, fun _ => ⟨rfl, rfl⟩⟩
  · rw [matchMerged_installed hi]
    have hres := scan_filter_results fun w hw hr => congrArg Prod.fst (hmiss w hw hr)
    have hperm := ((otherMisses_perm hi ho
      (matchInRules e' p (e'.rules.filter (relevant p))).results).append_left _).trans
        (scan_filter_events hi.sorted hmiss)
    exact ⟨hres, fun id => ⟨hperm.count_eq _, hperm.count_eq _⟩⟩

def plcEnv : BuildEnv where
  providers := fun _ => none
  subEngines := fun _ => none
  compileExpr := fun s => if s = "driver == 'plc'" then some fun p => p.driver = "plc" else none

def plcRules : List RuleConfig :=
  [{ name := "all", match_ := "ALL", action := "forward", target := "mqtt", priority := 7 },
    { name := "plc", match_ := "driver == 'plc'", action := "alert", target := "mqtt",
      priority := 7, continue_ := true }]

def rtuPoint : DataPoint where
  driver := "rtu"
  device := ""
  group := ""
  tag := "temp"
  value := .bool true
  type := .bool
  quality := .good
  timestamp := 0
  metadata := []
  isStale := false

theorem matchPoint_refines_scan_plc : ∃ e, setRules plcEnv none plcRules = .ok e ∧ e.driverIndex.keys = ["plc"] ∧
      (matchPoint e rtuPoint ["plc"]).results = (matchInRules e rtuPoint e.rules).results := by
  refine ⟨_, rfl, rfl, (matchPoint_refines_scan (show setRules plcEnv none plcRules = .ok _ from rfl)
    ?_ (fun _ => false) rtuPoint (Perm.refl ["plc"])).1⟩
  intro w hw hf q hq
  rcases mem_cons.mp hw with rfl | hw
  · exact absurd rfl hf
  · obtain rfl := mem_singleton.mp hw
    exact decide_eq_false hq

end CoreC.Rules.Match
