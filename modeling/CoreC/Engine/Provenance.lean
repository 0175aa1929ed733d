import CoreC.Core.Json
import CoreC.Engine.Write

/-! # The provenance of commands

The records of a command should not depend on what the sender claims about its origin, the members
`source` and `remote` of the payload. The listener overwrites the source, but
it keeps the remote address, and every audit entry and dead letter of the command carries it
(`forged_remote_recorded`).

* `execute_audits`, `execute_deadLetters`: what each fate of a command leaves in the two logs. -/

namespace CoreC.Engine.Provenance

open Core.Types Core.Json Engine.Write List Option
open Lib.Json.Lex Lib.Json.Text Lib.Json.Parse Lib.Json.Struct

/-! ### Payloads that differ in `source` and `remote` -/

def isProvenance (kv : Bytes × Doc) : Bool :=
  commandSchema.fieldOf (unquote kv.1) = some .source ∨ commandSchema.fieldOf (unquote kv.1) = some .remote

/-- The members of a payload other than `source` and `remote`. -/
def others (kvs : List (Bytes × Doc)) : List (Bytes × Doc) := kvs.filter fun kv => !isProvenance kv

def anonymous (c : WriteCommand) : WriteCommand := { c with source := "", remote := "" }

variable {i : CommandField} {g : WriteCommand → WriteCommand} {c : WriteCommand}

theorem anonymous_set {t : Doc}
    (h : commandSchema.set i t = some g) {d : WriteCommand} (hcd : anonymous c = anonymous d) :
    anonymous (g c) = anonymous (g d) := by
  have hcopy : ∀ x s, anonymous (copyField i x s) = anonymous (copyField i x (anonymous s)) := by
    intro x s
    cases i <;> rfl
  rcases set_cases h with rfl | ⟨x, rfl⟩
  · exact hcd
  · rw [hcopy x c, hcopy x d, hcd]

theorem anonymous_provenance (hi : i = .source ∨ i = .remote) {t : Doc}
    (h : commandSchema.set i t = some g) (c : WriteCommand) :
    anonymous (g c) = anonymous c := by
  rcases set_cases h with rfl | ⟨x, rfl⟩
  · rfl
  · rcases hi with rfl | rfl <;> rfl

theorem fill_others : ∀ {kvs : List (Bytes × Doc)} {c d c' : WriteCommand},
    anonymous c = anonymous d → commandSchema.fill kvs c = some c' →
      ∃ d', commandSchema.fill (others kvs) d = some d' ∧ anonymous c' = anonymous d'
  | [], c, d, c', hcd, h => by
    cases h
    exact ⟨d, rfl, hcd⟩
  | kv :: kvs, c, d, c', hcd, h => by
    cases hm : commandSchema.member c kv with
    | none => rw [Schema.fill_cons_none hm] at h; cases h
    | some c₁ =>
      rw [Schema.fill_cons_some hm] at h
      unfold Schema.member at hm
      cases hf : commandSchema.fieldOf (unquote kv.1) with
      | none =>
        have hothers : others (kv :: kvs) = kv :: others kvs :=
          filter_cons_of_pos (by simp [isProvenance, hf])
        simp only [hf, some.injEq] at hm
        have hd : commandSchema.member d kv = some d := by simp [Schema.member, hf]
        rw [hothers, Schema.fill_cons_some hd]
        exact fill_others (hm ▸ hcd) h
      | some i =>
        simp only [hf, map_eq_some_iff] at hm
        obtain ⟨g, hg, rfl⟩ := hm
        by_cases hi : i = .source ∨ i = .remote
        · have hothers : others (kv :: kvs) = others kvs :=
            filter_cons_of_neg (by simpa [isProvenance, hf, or_iff_not_imp_left] using hi)
          rw [hothers]
          exact fill_others ((anonymous_provenance hi hg c).trans hcd) h
        · have hothers : others (kv :: kvs) = kv :: others kvs :=
            filter_cons_of_pos (by simpa [isProvenance, hf] using hi)
          have hd : commandSchema.member d kv = some (g d) := by simp [Schema.member, hf, hg]
          rw [hothers, Schema.fill_cons_some hd]
          exact fill_others (anonymous_set hg hcd) h

theorem probe_others (kvs : List (Bytes × Doc)) : probeRawValue (.obj (others kvs)) = probeRawValue (.obj kvs) := by
  unfold probeRawValue Schema.unmarshal
  dsimp only
  rw [others, Schema.fill_filter]
  intro kv _ hkv
  have hprov : isProvenance kv = true := by simpa using hkv
  cases hf : probeSchema.fieldOf (unquote kv.1) with
  | none => rfl
  | some i =>
    have hvalue := fieldOf_probe.mp hf
    simp [isProvenance, hvalue] at hprov

/-- **Payloads that differ in `source` and `remote` only** decode to commands that do. -/
theorem same_of_payloads {P Q : Bytes} {kvs kvs' : List (Bytes × Doc)} {c' : WriteCommand}
    (hP : parse P = some (.obj kvs)) (hQ : parse Q = some (.obj kvs')) (hothers : others kvs = others kvs')
    (hc : decodeCommand P = some c) (hc' : decodeCommand Q = some c') : anonymous c = anonymous c' := by
  have hdecode : ∀ {P kvs c}, parse P = some (.obj kvs) → decodeCommand P = some c →
      ∃ d, commandSchema.fill (others kvs) {} = some d ∧ anonymous c =
          anonymous { d with value := decodeValueByType (probeRawValue (.obj (others kvs))) d.type } := by
    intro P kvs c hP hc
    rw [decodeCommand, hP, bind_some, unmarshalCommand, map_eq_some_iff] at hc
    obtain ⟨fields, hfields, rfl⟩ := hc
    obtain ⟨d, hd, hsame⟩ := fill_others rfl hfields
    refine ⟨d, hd, ?_⟩
    rw [probe_others]
    simp only [anonymous, WriteCommand.mk.injEq] at hsame ⊢
    obtain ⟨h1, h2, h3, -, h5, -, -, h8⟩ := hsame
    exact ⟨h1, h2, h3, by rw [h5], h5, trivial, trivial, h8⟩
  obtain ⟨d, hd, hsame⟩ := hdecode hP hc
  obtain ⟨d', hd', hsame'⟩ := hdecode hQ hc'
  rw [hothers] at hd hsame
  obtain rfl : d = d' := some.inj (hd.symm.trans hd')
  exact hsame.trans hsame'.symm

/-! ### The fate of a command -/

/-- What becomes of a command in the channel of a listener: it gets a slot; or the transport is removed
while the listener holds it without a slot; or the transport is removed while it is in the channel. -/
inductive Fate where
  | dispatched
  | held (rest : List WriteCommand)
  | drained (before rest : List WriteCommand)

def Fate.before : Fate → List WriteCommand
  | .drained before _ => before
  | _ => []

def Fate.rest : Fate → List WriteCommand
  | .dispatched => []
  | .held rest => rest
  | .drained _ rest => rest

section

variable {δ : Type}

/-- What becomes of the command. -/
def execute (env : Env δ) (fate : Fate) (c : WriteCommand) (s : WriteManager δ) : WriteManager δ :=
  match fate with
  | .dispatched => executeWriteWithRetry env (stamp c) s
  | .held rest => deadLetterStrandedCommands env rest (some (stamp c)) s
  | .drained before rest => deadLetterStrandedCommands env (before ++ c :: rest) none s

/-- The command comes to the audit trail. -/
def Audited (fate : Fate) (c : WriteCommand) (s : WriteManager δ) : Prop :=
  fate = .dispatched ∧ c.driver ∈ s.drivers

/-- The command goes to another node: no driver of this node has its name, and a transport forwards it. -/
def Forwarded (env : Env δ) (fate : Fate) (c : WriteCommand) (s : WriteManager δ) : Prop :=
  fate = .dispatched ∧ c.driver ∉ s.drivers ∧ ∃ t ∈ s.transports, t.forwarder = true ∧
    env.forwardCommand t.name (stamp c) s.world = none

variable {env : Env δ} {s : WriteManager δ} {c c' : WriteCommand} {fate : Fate}

theorem forwardCommand_eq_true {cmd : WriteCommand} : forwardCommand env cmd s = true ↔
    ∃ t ∈ s.transports, t.forwarder = true ∧ env.forwardCommand t.name cmd s.world = none := by
  simp [forwardCommand]

theorem execute_of_forwarded (h : Forwarded env fate c s) : execute env fate c s = s := by
  obtain ⟨rfl, hdriver, hforward⟩ := h
  exact execute_forwarded hdriver (forwardCommand_eq_true.mpr hforward)

theorem execute_audits (env : Env δ) (fate : Fate) (c : WriteCommand) (s : WriteManager δ) :
    ∃ new, (execute env fate c s).auditLog = s.auditLog ++ new ∧ (∀ e ∈ new, OfCommand (stamp c) e) ∧
      (Audited fate c s ↔ new ≠ []) := by
  by_cases haudited : Audited fate c s
  · obtain ⟨rfl, hdriver⟩ := haudited
    have hstamped : (stamp c).driver ∈ s.drivers := hdriver
    obtain ⟨hrec, hne⟩ := execute_local env hstamped
    obtain ⟨new, hnew, hof⟩ := hrec.audits
    refine ⟨new, hnew, hof, fun _ hnil => hne ?_, fun _ => ⟨rfl, hdriver⟩⟩
    rw [hnew, hnil, append_nil]
  · refine ⟨[], ?_, by simp, fun h => absurd h haudited, fun h => absurd rfl h⟩
    rw [append_nil]
    cases fate with
    | dispatched =>
      have hdriver : (stamp c).driver ∉ s.drivers := fun h => haudited ⟨rfl, h⟩
      cases hf : forwardCommand env (stamp c) s with
      | true => rw [execute, execute_forwarded hdriver hf]
      | false =>
        obtain ⟨entry, -, heq⟩ := execute_nowhere hdriver hf
        rw [execute, heq, addDeadLetter_auditLog]
    | held | drained => exact (stranded_log _ _ _).1

theorem execute_deadLetters (haudited : ¬Audited fate c s) (hforwarded : ¬Forwarded env fate c s) :
    (execute env fate c s).deadLetterLog.map DeadLetterEntry.command = s.deadLetterLog.map DeadLetterEntry.command ++
        (fate.before.map stamp ++ stamp c :: fate.rest.map stamp) := by
  cases fate with
  | dispatched =>
    have hdriver : (stamp c).driver ∉ s.drivers := fun h => haudited ⟨rfl, h⟩
    have hf : forwardCommand env (stamp c) s = false := by
      rw [← Bool.not_eq_true, forwardCommand_eq_true]
      exact fun h => hforwarded ⟨rfl, hdriver, h⟩
    obtain ⟨entry, hentry, heq⟩ := execute_nowhere hdriver hf
    rw [execute, heq]
    simp [Fate.before, Fate.rest, hentry]
  | held rest =>
    rw [execute, (stranded_log _ _ _).2]
    rfl
  | drained before rest =>
    rw [execute, (stranded_log _ _ _).2]
    simp [Fate.before, Fate.rest]

/-! ### Records -/

/-- What is recorded, without the times: the history, the queue and the two logs. -/
def records (s : WriteManager δ) : (List WriteAuditEntry × List WriteAuditEntry) ×
    (List DeadLetterEntry × List DeadLetterEntry) :=
  let audit := List.map fun e : WriteAuditEntry => { e with timestamp := 0 }
  let deadLetter := List.map fun e : DeadLetterEntry => { e with failedAt := 0 }
  ((audit s.writeAudits, audit s.auditLog), (deadLetter s.deadLetters, deadLetter s.deadLetterLog))

/-- The audit entries since `s` are those of a transport command without an address. -/
def Clean (s s' : WriteManager δ) : Prop :=
  ∀ e ∈ s'.auditLog.drop s.auditLog.length, e.source = "command" ∧ e.remote = ""

variable {t t' : WriteManager δ}

theorem remotes_eq (h : records t = records t') :
    t.auditLog.map WriteAuditEntry.remote = t'.auditLog.map WriteAuditEntry.remote := by
  have hlog := congrArg (fun r => r.1.2.map WriteAuditEntry.remote) h
  simpa [records, Function.comp_def] using hlog

theorem commands_eq (h : records t = records t') :
    t.deadLetterLog.map DeadLetterEntry.command = t'.deadLetterLog.map DeadLetterEntry.command := by
  have hlog := congrArg (fun r => r.2.2.map DeadLetterEntry.command) h
  simpa [records, Function.comp_def] using hlog

theorem remote_eq_of_records (hcc : anonymous c = anonymous c')
    (h : records (execute env fate c s) = records (execute env fate c' s))
    (hforwarded : ¬(Forwarded env fate c s ∧ Forwarded env fate c' s)) : c.remote = c'.remote := by
  have hdriver : c.driver = c'.driver := by simpa [anonymous] using congrArg WriteCommand.driver hcc
  by_cases haudited : Audited fate c s
  · have haudited' : Audited fate c' s := ⟨haudited.1, hdriver ▸ haudited.2⟩
    obtain ⟨new, hnew, hof, hne⟩ := execute_audits env fate c s
    obtain ⟨new', hnew', hof', hne'⟩ := execute_audits env fate c' s
    have hremotes := remotes_eq h
    rw [hnew, hnew', map_append, map_append, append_cancel_left_eq] at hremotes
    cases new with
    | nil => exact absurd rfl (hne.mp haudited)
    | cons e new =>
      cases new' with
      | nil => exact absurd rfl (hne'.mp haudited')
      | cons e' new' =>
        have hhead : e.remote = e'.remote := (List.cons.inj hremotes).1
        rwa [(hof e (by simp)).remote, (hof' e' (by simp)).remote] at hhead
  · have haudited' : ¬Audited fate c' s := fun h => haudited ⟨h.1, hdriver ▸ h.2⟩
    have hcommands := commands_eq h
    by_cases hf : Forwarded env fate c s <;> by_cases hf' : Forwarded env fate c' s
    · exact absurd ⟨hf, hf'⟩ hforwarded
    · rw [execute_of_forwarded hf, execute_deadLetters haudited' hf'] at hcommands
      simpa using congrArg List.length hcommands
    · rw [execute_of_forwarded hf', execute_deadLetters haudited hf] at hcommands
      simpa using congrArg List.length hcommands
    · rw [execute_deadLetters haudited hf, execute_deadLetters haudited' hf',
        append_cancel_left_eq, append_cancel_left_eq] at hcommands
      simpa [stamp] using congrArg WriteCommand.remote (List.cons.inj hcommands).1

theorem execute_congr (h : stamp c = stamp c') : execute env fate c s = execute env fate c' s := by
  cases fate with
  | drained before rest =>
    simp [execute, deadLetterStrandedCommands, h]
  | dispatched | held => rw [execute, execute, h]

theorem clean_iff (env : Env δ) (fate : Fate) (c : WriteCommand) (s : WriteManager δ) :
    Clean s (execute env fate c s) ↔ (Audited fate c s → c.remote = "") := by
  obtain ⟨new, hnew, hof, hne⟩ := execute_audits env fate c s
  rw [Clean, hnew, drop_left]
  constructor
  · intro hclean haudited
    obtain ⟨e, he⟩ := exists_mem_of_ne_nil new (hne.mp haudited)
    exact (hof e he).remote.symm.trans (hclean e he).2
  · intro hremote e he
    have haudited : Audited fate c s := hne.mpr (ne_nil_of_mem he)
    exact ⟨(hof e he).source, (hof e he).remote.trans (hremote haudited)⟩

/-- **When the records do not depend on the claimed origin.** -/
theorem provenance_iff {P Q : Bytes} {kvs kvs' : List (Bytes × Doc)}
    (hP : parse P = some (.obj kvs)) (hQ : parse Q = some (.obj kvs')) (hothers : others kvs = others kvs')
    (hc : decodeCommand P = some c) (hc' : decodeCommand Q = some c') (env : Env δ) (fate : Fate)
    (s : WriteManager δ) :
    (records (execute env fate c s) = records (execute env fate c' s) ∧
        Clean s (execute env fate c s) ∧ Clean s (execute env fate c' s)) ↔
      (Forwarded env fate c s ∧ Forwarded env fate c' s) ∨
        (c.remote = c'.remote ∧ (Audited fate c s → c.remote = "")) := by
  have hcc := same_of_payloads hP hQ hothers hc hc'
  constructor
  · rintro ⟨hrecords, hclean, -⟩
    by_cases hforwarded : Forwarded env fate c s ∧ Forwarded env fate c' s
    · exact .inl hforwarded
    · exact .inr ⟨remote_eq_of_records hcc hrecords hforwarded, (clean_iff env fate c s).mp hclean⟩
  · rintro (⟨hf, hf'⟩ | ⟨hremote, haudited⟩)
    · have hno : ∀ c, Forwarded env fate c s → ¬Audited fate c s := fun c hf ha => hf.2.1 ha.2
      refine ⟨?_, (clean_iff env fate c s).mpr fun h => absurd h (hno c hf),
        (clean_iff env fate c' s).mpr fun h => absurd h (hno c' hf')⟩
      rw [execute_of_forwarded hf, execute_of_forwarded hf']
    · have hstamp : stamp c = stamp c' := by
        simp only [anonymous, stamp, WriteCommand.mk.injEq] at hcc ⊢
        obtain ⟨h1, h2, h3, h4, h5, -, -, h8⟩ := hcc
        exact ⟨h1, h2, h3, h4, h5, trivial, hremote, h8⟩
      have hclean := (clean_iff env fate c s).mpr haudited
      exact ⟨by rw [execute_congr hstamp], hclean, execute_congr hstamp ▸ hclean⟩

end

/-! ### A forged address -/

def plainEnv : Env Unit where
  now _ := 0
  write _ _ _ := (.ok [{ success := true }], ())
  forwardCommand _ _ _ := none
  wait _ _ := (false, ())
  quoted := id
  duration _ := ""

def plainEngine : WriteManager Unit where
  world := ()
  drivers := ["plc"]

variable (l : List (String × String))

def members : List (Bytes × Doc) :=
  l.map fun x => (quote x.1, .scalar (quote x.2))

def payload : Bytes := render (.obj (members l))

theorem parse_payload : parse (payload l) = some (.obj (members l)) := by
  refine parse_render ⟨by decide, (fitsMembers_iff _).mpr fun x hx => ?_⟩
  obtain ⟨y, -, rfl⟩ := mem_map.mp hx
  exact ⟨⟨validScalar_quote _, rfl⟩, validScalar_quote _⟩

theorem others_cons (x : String × String) (l : List (String × String)) : others (members (x :: l)) =
    if commandSchema.fieldOf x.1 = some .source ∨ commandSchema.fieldOf x.1 = some .remote then
      others (members l)
    else (quote x.1, .scalar (quote x.2)) :: others (members l) := by
  simp only [others, members, map_cons, filter_cons, isProvenance]
  split_ifs <;> simp_all

def forged : List (String × String) := [("driver", "plc"), ("remote", "10.0.0.9")]

def honest : List (String × String) := [("driver", "plc"), ("source", "api")]

def plain : List (String × String) := [("driver", "plc")]

theorem others_forged : others (members forged) = others (members honest) := by
  unfold forged honest
  rw [others_cons]
  rfl

theorem others_plain : others (members honest) = others (members plain) := by
  unfold honest plain
  rw [others_cons, others_cons, others_cons]
  rfl

theorem exists_decoded (driver remote : String)
    (h : (decodeCommand (payload l)).map (fun c => (c.driver, c.remote)) = some (driver, remote)) :
    ∃ c, decodeCommand (payload l) = some c ∧ c.driver = driver ∧ c.remote = remote := by
  obtain ⟨c, hc, heq⟩ := map_eq_some_iff.mp h
  exact ⟨c, hc, congrArg Prod.fst heq, congrArg Prod.snd heq⟩

/-- **The address in the payload is recorded**, so the two commands leave different records. -/
theorem forged_remote_recorded : ∃ c c', decodeCommand (payload forged) = some c ∧
    decodeCommand (payload honest) = some c' ∧
    others (members forged) = others (members honest) ∧
    (∃ e ∈ (execute plainEnv .dispatched c plainEngine).auditLog, e.remote = "10.0.0.9") ∧
    records (execute plainEnv .dispatched c plainEngine) ≠ records (execute plainEnv .dispatched c' plainEngine) := by
  obtain ⟨c, hc, hdriver, hremote⟩ := exists_decoded forged "plc" "10.0.0.9" (by decide +kernel)
  obtain ⟨c', hc', -, hremote'⟩ := exists_decoded honest "plc" "" (by decide +kernel)
  have haudited : Audited .dispatched c plainEngine := ⟨rfl, by rw [hdriver]; decide⟩
  refine ⟨c, c', hc, hc', others_forged, ?_, fun hrecords => ?_⟩
  · obtain ⟨new, hnew, hof, hne⟩ := execute_audits plainEnv .dispatched c plainEngine
    obtain ⟨e, he⟩ := exists_mem_of_ne_nil new (hne.mp haudited)
    refine ⟨e, ?_, (hof e he).remote.trans hremote⟩
    rw [hnew]
    exact mem_append_right _ he
  · have hcc := same_of_payloads (parse_payload _) (parse_payload _) others_forged hc hc'
    have heq := remote_eq_of_records hcc hrecords fun hf => hf.1.2.1 haudited.2
    rw [hremote, hremote'] at heq
    exact absurd heq (by decide)

/-- Two commands without an address, with different sources, leave the same records. -/
theorem provenance_iff_honest : ∃ c c', decodeCommand (payload honest) = some c ∧
    decodeCommand (payload plain) = some c' ∧
    records (execute plainEnv .dispatched c plainEngine) = records (execute plainEnv .dispatched c' plainEngine) := by
  obtain ⟨c, hc, -, hremote⟩ := exists_decoded honest "plc" "" (by decide +kernel)
  obtain ⟨c', hc', -, hremote'⟩ := exists_decoded plain "plc" "" (by decide +kernel)
  refine ⟨c, c', hc, hc', ((provenance_iff (parse_payload _) (parse_payload _) others_plain hc hc' plainEnv
    .dispatched plainEngine).mpr (.inr ⟨?_, fun _ => ?_⟩)).1⟩
  · rw [hremote, hremote']
  · exact hremote

end CoreC.Engine.Provenance
