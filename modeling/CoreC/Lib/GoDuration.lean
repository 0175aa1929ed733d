import Mathlib.Data.Nat.Digits.Defs
import Mathlib.Data.String.Basic

/-! # Durations as texts

`time.Duration.String`, on nanoseconds: a duration below a second in the largest of the units `ns`,
`µs`, `ms` that is not above it, a longer one in hours, minutes and seconds, and in both cases a
fraction without trailing zeros.

The text determines the duration (`durationString_injective`): a reader goes over it character by
character, keeps the digits seen since the last unit, and adds them up when the unit comes. -/

namespace CoreC.Lib.GoDuration

open List

/-! ### Formatting -/

/-- The loop of `fmtFrac` over the lowest `k` digits of `v`, the last one first; `print` says that a
digit other than zero has been seen. -/
def fracLoop : ℕ → ℕ → Bool → List Char → List Char
  | 0, _, _, acc => acc
  | k + 1, v, print, acc =>
    let print := print || v % 10 ≠ 0
    fracLoop k (v / 10) print (if print then Nat.digitChar (v % 10) :: acc else acc)

/-- `fmtFrac`: the point and the digits after it, nothing if they are all zero. -/
def fmtFrac (v prec : ℕ) : List Char :=
  match fracLoop prec v false [] with
  | [] => []
  | d :: ds => '.' :: d :: ds

variable (v : ℕ)

def fmtInt : List Char := Nat.toDigits 10 v

def fmtMinutes (secs : ℕ) : List Char :=
  if 0 < secs / 60 then
    (if 0 < secs / 60 / 60 then fmtInt (secs / 60 / 60) ++ ['h'] else []) ++ fmtInt (secs / 60 % 60) ++ ['m']
  else []

variable (u : ℕ)

/-- The body of `Duration.format`, for the absolute value in nanoseconds. -/
def formatAbs : List Char :=
  if u < 10 ^ 9 then
    if u = 0 then ['0', 's']
    else if u < 10 ^ 3 then fmtInt u ++ ['n', 's']
    else if u < 10 ^ 6 then fmtInt (u / 10 ^ 3) ++ fmtFrac u 3 ++ ['µ', 's']
    else fmtInt (u / 10 ^ 6) ++ fmtFrac u 6 ++ ['m', 's']
  else fmtMinutes (u / 10 ^ 9) ++ fmtInt (u / 10 ^ 9 % 60) ++ fmtFrac u 9 ++ ['s']

/-- `time.Duration.String`. -/
def durationString (d : ℤ) : String :=
  String.ofList (if d < 0 then '-' :: formatAbs d.natAbs else formatAbs d.natAbs)

/-! ### Reading back -/

def number (ds : List Char) : ℕ := Nat.ofDigitChars 10 ds 0

/-- The digits after a point, when the unit has `k` of them. -/
def fracNumber : ℕ → List Char → ℕ
  | 0, _ => 0
  | _ + 1, [] => 0
  | k + 1, c :: cs => (c.toNat - 48) * 10 ^ k + fracNumber k cs

/-- The state of the reader: the complete units, the digits before the point and those read last, and a
first letter of a unit. -/
structure Reader where
  total : ℕ := 0
  int : Option (List Char) := none
  run : List Char := []
  letter : Char := ' '

/-- The number of digits after the point that count, by the letter before the final `s`. -/
def places (letter : Char) : ℕ :=
  if letter = 'n' then 0 else if letter = 'µ' then 3 else if letter = 'm' then 6 else 9

/-- The duration, when the final `s` is read. -/
def Reader.value (st : Reader) : ℕ :=
  st.total +
    match st.int with
    | none => number st.run * 10 ^ places st.letter
    | some i => number i * 10 ^ places st.letter + fracNumber (places st.letter) st.run

/-- One character. A digit after the letter `m` shows that it stood for minutes. -/
def Reader.step (st : Reader) (c : Char) : Reader :=
  if c.isDigit then
    if st.letter = 'm' then { total := st.total + number st.run * (60 * 10 ^ 9), run := [c] }
    else { st with run := st.run ++ [c] }
  else if c = '.' then { st with int := some st.run, run := [] }
  else if c = 'h' then { st with total := st.total + number st.run * (3600 * 10 ^ 9), run := [] }
  else if c = 's' then { total := st.value }
  else { st with letter := c }

def read (cs : List Char) : ℕ := (cs.foldl Reader.step {}).total

theorem isDigit_fmtInt : ∀ c ∈ fmtInt v, c.isDigit = true :=
  fun _ h => Nat.isDigit_of_mem_toDigits (by norm_num) (by norm_num) h

@[simp] theorem number_fmtInt : number (fmtInt v) = v :=
  Nat.ofDigitChars_toDigits (by norm_num) (by norm_num)

theorem digitChar_digit : ∀ d < 10, (Nat.digitChar d).isDigit = true ∧ (Nat.digitChar d).toNat - 48 = d := by
  decide

theorem isDigit_fracLoop : ∀ k v print acc,
    (∀ c ∈ acc, c.isDigit = true) → ∀ c ∈ fracLoop k v print acc, c.isDigit = true
  | 0, _, _, _, h => h
  | k + 1, v, print, acc, h => by
    unfold fracLoop
    refine isDigit_fracLoop k _ _ _ fun c hc => ?_
    split_ifs at hc with hp
    · rcases mem_cons.mp hc with rfl | hc
      · exact (digitChar_digit _ (Nat.mod_lt _ (by norm_num))).1
      · exact h c hc
    · exact h c hc

theorem fracNumber_fracLoop : ∀ k j v print acc, (print = false → acc = []) →
      fracNumber (k + j) (fracLoop k v print acc) = v % 10 ^ k * 10 ^ j + fracNumber j acc
  | 0, j, v, print, acc, _ => by simp [fracLoop, Nat.mod_one]
  | k + 1, j, v, print, acc, h => by
    have hsplit : v % 10 ^ (k + 1) = v % 10 + 10 * (v / 10 % 10 ^ k) := by
      rw [Nat.pow_succ', Nat.mod_mul]
    unfold fracLoop
    rw [show k + 1 + j = k + (j + 1) by omega, hsplit]
    dsimp only
    by_cases hp : (print || decide (v % 10 ≠ 0)) = true
    · rw [if_pos hp, hp, fracNumber_fracLoop k (j + 1) _ _ _ (by simp), fracNumber,
        (digitChar_digit _ (Nat.mod_lt v (by norm_num))).2]
      ring
    · rw [if_neg hp]
      rw [Bool.not_eq_true] at hp
      obtain ⟨hprint, hzero⟩ : print = false ∧ v % 10 = 0 := by simpa using hp
      rw [fracNumber_fracLoop k (j + 1) _ _ _ fun _ => h hprint, h hprint, hzero]
      cases j <;> simp [fracNumber] <;> ring

variable {c : Char} {st : Reader}

theorem step_digit (hm : st.letter ≠ 'm') (hc : c.isDigit = true) : st.step c = { st with run := st.run ++ [c] } := by
  simp [Reader.step, hc, hm]

theorem foldl_digits : ∀ (ds : List Char) (st : Reader), st.letter ≠ 'm' →
    (∀ c ∈ ds, c.isDigit = true) → ds.foldl Reader.step st = { st with run := st.run ++ ds }
  | [], st, _, _ => by simp
  | c :: ds, st, hm, h => by
    rw [foldl_cons, step_digit hm (h c (by simp)),
      foldl_digits ds { st with run := st.run ++ [c] } hm fun x hx => h x (by simp [hx])]
    simp

theorem step_s (st : Reader) : (st.step 's').total = st.value := by
  simp [Reader.step]

theorem step_letter (st : Reader) {l : Char} (h : l = 'n' ∨ l = 'µ' ∨ l = 'm') :
    st.step l = { st with letter := l } := by
  rcases h with rfl | rfl | rfl <;> simp [Reader.step]

theorem step_minutes (hm : st.letter = 'm') (hc : c.isDigit = true) :
    st.step c = { total := st.total + number st.run * (60 * 10 ^ 9), run := [c] } := by
  simp [Reader.step, hc, hm]

theorem foldl_point (hm : st.letter ≠ 'm') {ds : List Char} (hds : ∀ c ∈ ds, c.isDigit = true) :
    ('.' :: ds).foldl Reader.step st = { st with int := some st.run, run := ds } := by
  have hpoint : st.step '.' = { st with int := some st.run, run := [] } := by simp [Reader.step]
  rw [foldl_cons, hpoint, foldl_digits _ { st with int := some st.run, run := [] } hm hds]
  rfl

/-- **A fraction**: together with the number before it, it shows `v` when the unit is read. -/
theorem value_frac (hint : st.int = none) (hm : st.letter ≠ 'm') (v : ℕ) (l : Char) :
    Reader.value { (fmtFrac v (places l)).foldl Reader.step st with letter := l } =
      st.total + (number st.run * 10 ^ places l + v % 10 ^ places l) := by
  have hnum := fracNumber_fracLoop (places l) 0 v false [] fun _ => rfl
  have hdig := isDigit_fracLoop (places l) v false [] (by simp)
  simp only [Nat.add_zero, pow_zero, Nat.mul_one, fracNumber] at hnum
  unfold fmtFrac
  generalize hds : fracLoop (places l) v false [] = ds at hnum hdig
  cases ds with
  | nil =>
    have hzero : v % 10 ^ places l = 0 := by
      rw [← hnum]
      cases places l <;> rfl
    simp [Reader.value, hint, hzero]
  | cons d ds =>
    rw [foldl_point hm hdig]
    simp [Reader.value, hnum]

theorem letter_frac (hm : st.letter ≠ 'm') (v k : ℕ) : ((fmtFrac v k).foldl Reader.step st).letter = st.letter := by
  have hdig := isDigit_fracLoop k v false [] (by simp)
  unfold fmtFrac
  generalize fracLoop k v false [] = ds at hdig
  cases ds with
  | nil => rfl
  | cons d ds =>
    rw [foldl_point hm hdig]

theorem fmtInt_ne_nil : fmtInt v ≠ [] := by
  unfold fmtInt
  rw [Nat.toDigits_eq_if (by norm_num)]
  split_ifs <;> simp

/-- **Hours and minutes**, followed by the digits of the seconds. -/
theorem foldl_minutes (secs : ℕ) {ds : List Char} (hne : ds ≠ []) (hds : ∀ c ∈ ds, c.isDigit = true) :
    (fmtMinutes secs ++ ds).foldl Reader.step {} = { total := secs / 60 * (60 * 10 ^ 9), run := ds } := by
  have hsp : (' ' : Char) ≠ 'm' := by decide
  -- the minutes are added up at the first digit of the seconds
  have hmin : ∀ (total : ℕ) (m : ℕ), (fmtInt m ++ ['m'] ++ ds).foldl Reader.step { total } =
        { total := total + m * (60 * 10 ^ 9), run := ds } := by
    intro total m
    obtain ⟨c, cs, rfl⟩ := exists_cons_of_ne_nil hne
    have hfirst : (fmtInt m ++ ['m']).foldl Reader.step { total } = { total, run := fmtInt m, letter := 'm' } := by
      rw [foldl_append, foldl_digits _ { total } hsp (isDigit_fmtInt m), foldl_cons,
        foldl_nil, step_letter _ (.inr (.inr rfl)), nil_append]
    rw [foldl_append, hfirst, foldl_cons, step_minutes rfl (hds c (by simp)), number_fmtInt,
      foldl_digits cs { total := total + m * (60 * 10 ^ 9), run := [c] } hsp fun x hx => hds x (by simp [hx])]
    rfl
  unfold fmtMinutes
  by_cases h1 : 0 < secs / 60
  · by_cases h2 : 0 < secs / 60 / 60
    · rw [if_pos h1, if_pos h2]
      have hhour : (fmtInt (secs / 60 / 60) ++ ['h']).foldl Reader.step {} =
          { total := secs / 60 / 60 * (3600 * 10 ^ 9) } := by
        rw [foldl_append, foldl_digits _ {} hsp (isDigit_fmtInt _)]
        simp [Reader.step]
      rw [append_assoc, append_assoc, foldl_append, hhour, ← append_assoc, hmin]
      have htotal : secs / 60 / 60 * (3600 * 10 ^ 9) + secs / 60 % 60 * (60 * 10 ^ 9) = secs / 60 * (60 * 10 ^ 9) := by
        omega
      rw [htotal]
    · rw [if_pos h1, if_neg h2, nil_append, hmin, Nat.zero_add]
      have hsmall : secs / 60 % 60 = secs / 60 := by omega
      rw [hsmall]
  · rw [if_neg h1, nil_append, foldl_digits _ {} hsp hds]
    have hzero : secs / 60 = 0 := by omega
    simp [hzero]

theorem read_short {l : Char} (hl : l = 'n' ∨ l = 'µ' ∨ l = 'm') :
    read (fmtInt (u / 10 ^ places l) ++ fmtFrac u (places l) ++ [l, 's']) = u := by
  have hsp : (' ' : Char) ≠ 'm' := by decide
  unfold read
  rw [foldl_append, foldl_append, foldl_digits _ {} hsp (isDigit_fmtInt _),
    foldl_cons, step_letter _ hl, foldl_cons, foldl_nil, step_s,
    value_frac rfl hsp, nil_append, number_fmtInt]
  rw [Nat.zero_add, Nat.mul_comm, Nat.div_add_mod]

theorem read_long : read (fmtMinutes (u / 10 ^ 9) ++ fmtInt (u / 10 ^ 9 % 60) ++ fmtFrac u 9 ++ ['s']) = u := by
  have hsp : (' ' : Char) ≠ 'm' := by decide
  have hplaces : places ' ' = 9 := by decide
  unfold read
  rw [foldl_append, foldl_append, foldl_minutes _ (fmtInt_ne_nil _) (isDigit_fmtInt _), foldl_cons, foldl_nil, step_s]
  set st : Reader := { total := u / 10 ^ 9 / 60 * (60 * 10 ^ 9), run := fmtInt (u / 10 ^ 9 % 60) }
  have hval := @value_frac st rfl hsp u ' '
  rw [hplaces, show (' ' : Char) = st.letter from rfl, ← letter_frac hsp u 9] at hval
  refine hval.trans ?_
  rw [number_fmtInt]
  show u / 10 ^ 9 / 60 * (60 * 10 ^ 9) + (u / 10 ^ 9 % 60 * 10 ^ 9 + u % 10 ^ 9) = u
  omega

theorem read_formatAbs : read (formatAbs u) = u := by
  have hn : places 'n' = 0 := by decide
  have hu : places 'µ' = 3 := by decide
  have hm : places 'm' = 6 := by decide
  unfold formatAbs
  split_ifs with h9 h0 h3 h6
  · subst h0
    decide
  · have h := read_short u (.inl rfl)
    rwa [hn, pow_zero, Nat.div_one, fmtFrac, fracLoop, append_nil] at h
  · have h := read_short u (.inr (.inl rfl))
    rwa [hu] at h
  · have h := read_short u (.inr (.inr rfl))
    rwa [hm] at h
  · exact read_long u

theorem head_fmtInt_append (rest : List Char) : (fmtInt v ++ rest).head? ≠ some '-' := by
  obtain ⟨c, cs, hc⟩ := exists_cons_of_ne_nil (fmtInt_ne_nil v)
  have hdigit := isDigit_fmtInt v c (by simp [hc])
  rw [hc, cons_append]
  rintro ⟨rfl⟩
  exact absurd hdigit (by decide)

theorem head_formatAbs : (formatAbs u).head? ≠ some '-' := by
  unfold formatAbs fmtMinutes
  split_ifs
  · decide
  all_goals
    simp only [append_assoc, ne_eq]
    exact head_fmtInt_append _ _

theorem durationString_injective : Function.Injective durationString := by
  intro d e h
  have hlist := String.ofList_injective h
  split_ifs at hlist with hd he he
  · have habs := congrArg read (List.cons.inj hlist).2
    rw [read_formatAbs, read_formatAbs] at habs
    omega
  · exact absurd (congrArg List.head? hlist.symm) (head_formatAbs _)
  · exact absurd (congrArg List.head? hlist) (head_formatAbs _)
  · have habs := congrArg read hlist
    rw [read_formatAbs, read_formatAbs] at habs
    omega

example : durationString 5430500000000 = "1h30m30.5s" := by decide
example : durationString 1500000 = "1.5ms" := by decide

/-! ### The characters of a text -/

def isDurationChar (c : Char) : Bool := c.isDigit || c ∈ ['-', '.', 'h', 'm', 's', 'n', 'µ']

theorem isDurationChar_fmtInt {v : ℕ} (h : c ∈ fmtInt v) : isDurationChar c = true := by
  simp [isDurationChar, isDigit_fmtInt v c h]

theorem isDurationChar_fmtFrac {v prec : ℕ} (h : c ∈ fmtFrac v prec) : isDurationChar c = true := by
  have hdigits := isDigit_fracLoop prec v false [] (by simp)
  unfold fmtFrac at h
  split at h
  · cases h
  · next heq =>
    rw [heq] at hdigits
    rcases mem_cons.mp h with rfl | h
    · rfl
    · simp [isDurationChar, hdigits c h]

theorem isDurationChar_fmtMinutes {secs : ℕ} (h : c ∈ fmtMinutes secs) : isDurationChar c = true := by
  unfold fmtMinutes at h
  split_ifs at h
  · simp only [mem_append, mem_singleton] at h
    rcases h with ((h | rfl) | h) | rfl
    · exact isDurationChar_fmtInt h
    · rfl
    · exact isDurationChar_fmtInt h
    · rfl
  · simp only [nil_append, mem_append, mem_singleton] at h
    rcases h with h | rfl
    · exact isDurationChar_fmtInt h
    · rfl
  · cases h

theorem isDurationChar_formatAbs {u : ℕ} (h : c ∈ formatAbs u) : isDurationChar c = true := by
  have hunit : ∀ {l : List Char}, l.all isDurationChar = true → c ∈ l → isDurationChar c = true :=
    fun hl hc => all_eq_true.mp hl c hc
  unfold formatAbs at h
  split_ifs at h
  · exact hunit rfl h
  · rcases mem_append.mp h with h | h
    · exact isDurationChar_fmtInt h
    · exact hunit rfl h
  · simp only [mem_append] at h
    rcases h with (h | h) | h
    · exact isDurationChar_fmtInt h
    · exact isDurationChar_fmtFrac h
    · exact hunit rfl h
  · simp only [mem_append] at h
    rcases h with (h | h) | h
    · exact isDurationChar_fmtInt h
    · exact isDurationChar_fmtFrac h
    · exact hunit rfl h
  · simp only [mem_append] at h
    rcases h with ((h | h) | h) | h
    · exact isDurationChar_fmtMinutes h
    · exact isDurationChar_fmtInt h
    · exact isDurationChar_fmtFrac h
    · exact hunit rfl h

/-- **A duration is written with digits, a sign, points and the letters of the units.** -/
theorem isDurationChar_durationString {d : ℤ} (h : c ∈ (durationString d).toList) : isDurationChar c = true := by
  unfold durationString at h
  rw [String.toList_ofList] at h
  split_ifs at h
  · rcases mem_cons.mp h with rfl | h
    · rfl
    · exact isDurationChar_formatAbs h
  · exact isDurationChar_formatAbs h

end CoreC.Lib.GoDuration
