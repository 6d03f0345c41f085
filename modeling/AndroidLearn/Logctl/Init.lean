import AndroidLearn.Logctl.Loggers
import AndroidLearn.Lib.Sentinel

/-!
# `loggers_init`, and the loops after it

From `logctl.c`: `loggers_init`, and what the loops of `loggers_start`,
`loggers_stop`, `loggers_update_state`, `loggers_clear_errors` and
`config_load` do with the table it leaves. The table of loggers ends at the
first entry without a name. `loggers_init` takes the name of an entry away when
its `log_init` fails, and so ends the table there for every later loop.

A slot of the table is `none` when it has no name; `Lib.Sentinel` has the loops
over such tables. A run is `loggers_init` and then any sequence of the loops
(`TableOp`), `config_load` with whatever settings it reads. It is compared with
the same run over `withoutFailing`, the table without the loggers that fail.

`isolated_iff` says when the two agree all along: when no logger that
initialises stands behind a failing one and is enabled, be it in the table or by
`config_load` later in the run. An entry up to the end gets the same `turns` in
both runs (`walk_tableRun`), one beyond it gets none in the first
(`beyond_tableRun`) and all of them in the second (`walk_reference`), and only
`config_load` changes whether a logger is enabled (`TableOp.turn_enabled`).
-/

namespace AndroidLearn.Logctl

open Conf Sentinel

/-- `LOG_DEFAULT_SIZE_LIMIT` of a logger without a weight. -/
def logDefaultLimitedSizeMb : Nat := 2048

/-- `weight > 0`, of the text of the weight -/
def weightPositive (weight : CString) : Bool :=
  weight.head? ≠ some '-' && weight.any fun c => c.isDigit && c ≠ '0'

/-- The entry's turn in `loggers_init`, up to its `log_init`. -/
def Logger.reset (l : Logger) : Logger :=
  { l with
    state := .onlyStopped
    limitedSizeMb := if weightPositive l.weight then 0 else logDefaultLimitedSizeMb
    serialno := 0
    rotateSizeMb := logDefaultRotateSize
    confExtras := [] }

/-- The table that `loggers_init` leaves. `logInit` is the `log_init` of an entry: its
extra configurations, or a failure. An entry without a name is `none`. -/
def loggersInit (logInit : Logger → Option (List ExtraConfig)) (t : List Logger) :
    List (Option Logger) :=
  t.map fun l => (logInit l).map fun confExtras => { l.reset with confExtras }

/-! ## The loops over the table -/

/-- `loggers_start`: the table, and the last entry that failed. -/
def tableStart (e : Env) (logpath : CString) (t : List (Option Logger)) :
    List (Option Logger) × Option LoggerName :=
  (loop (fun l => (l.started e logpath).2) t, (loggersStart e logpath (walk t)).2)

/-- `loggers_stop` looks for the end of the table first, and goes back from there. -/
def tableStop (t : List (Option Logger)) : List (Option Logger) := loop Logger.stopped t

/-- The entry's turn in `loggers_update_state`. -/
def Logger.updated (e : Env) (l : Logger) : Logger :=
  if l.enabled then { l with state := l.logUpdateState e } else l

/-- `loggers_update_state`, over the table as it was left. -/
def tableUpdateState (e : Env) (t : List (Option Logger)) : List (Option Logger) :=
  loop (Logger.updated e) t

/-- `loggers_clear_errors` -/
def tableClearErrors (t : List (Option Logger)) : List (Option Logger) :=
  loop (fun l => if l.enabled then l.clearErrors else l) t

/-- The loop of `config_load`: `c` is what it reads for each logger it comes to. -/
def tableConfigure (c : LoggerName → LoggerConfig) (t : List (Option Logger)) :
    List (Option Logger) :=
  loop (fun l => l.setConfigs (c l.name)) t

/-- What is done with the table once it is initialised. -/
inductive TableOp
  | start (e : Env) (logpath : CString)
  | stop
  | updateState (e : Env)
  | clearErrors
  | configure (c : LoggerName → LoggerConfig)

/-- What an operation makes of the table. -/
def TableOp.exec (t : List (Option Logger)) : TableOp → List (Option Logger)
  | start e logpath => (tableStart e logpath t).1
  | stop => tableStop t
  | updateState e => tableUpdateState e t
  | clearErrors => tableClearErrors t
  | configure c => tableConfigure c t

/-- `loggers_init`, and the loops after it -/
def tableRun (logInit : Logger → Option (List ExtraConfig)) (t : List Logger)
    (ops : List TableOp) : List (Option Logger) :=
  ops.foldl TableOp.exec (loggersInit logInit t)

/-- The table without the loggers that fail to initialise. -/
def withoutFailing (logInit : Logger → Option (List ExtraConfig)) (t : List Logger) :
    List Logger :=
  t.filter fun l => (logInit l).isSome

/-- The loggers that are enabled. -/
def enabledOf (t : List Logger) : List Logger := t.filter Logger.enabled

/-- The enabled loggers of one table are those of the other, they are in the same state,
a loop sees them all, and the message of a start names the same one. -/
structure SameEnabled (t reference : List (Option Logger)) : Prop where
  left : enabledOf t.reduceOption = enabledOf reference.reduceOption
  visited : enabledOf (walk t) = enabledOf (walk reference)
  failed : ∀ e logpath, (tableStart e logpath t).2 = (tableStart e logpath reference).2

/-- After every one of the loops, the loggers that are left are as they are in a run over
the table without the failing ones. -/
def Isolated (logInit : Logger → Option (List ExtraConfig)) (t : List Logger)
    (ops : List TableOp) : Prop :=
  ∀ done, done <+: ops →
    SameEnabled (tableRun logInit t done) (tableRun logInit (withoutFailing logInit t) done)

/-- The logger is not enabled, and `config_load` is not told to enable it. -/
def StaysDisabled (ops : List TableOp) (l : Logger) : Prop :=
  l.enabled = false ∧ ∀ c, .configure c ∈ ops → (c l.name).enabled = false

/-- Behind a logger that fails to initialise, none that does is ever to be enabled. -/
def NoneBehindFailing (logInit : Logger → Option (List ExtraConfig)) (t : List Logger)
    (ops : List TableOp) : Prop :=
  ∀ front failing back, t = front ++ failing :: back → logInit failing = none →
    ∀ l ∈ back, (logInit l).isSome → StaysDisabled ops l

/-! ## One logger's turns -/

/-- What a loop does with an entry it sees. -/
def TableOp.turn : TableOp → Logger → Logger
  | start e logpath, l => (l.started e logpath).2
  | stop, l => l.stopped
  | updateState e, l => l.updated e
  | clearErrors, l => if l.enabled then l.clearErrors else l
  | configure c, l => l.setConfigs (c l.name)

theorem TableOp.exec_eq (op : TableOp) (t : List (Option Logger)) :
    op.exec t = loop op.turn t := by
  cases op <;> rfl

/-- What all the loops do with an entry they see. -/
def turns (ops : List TableOp) (l : Logger) : Logger := ops.foldl (fun l op => op.turn l) l

section Turns

variable {l : Logger} {e : Env} {logpath : CString}

/-- Starting a logger does not rename it. -/
theorem logStart_name : (l.logStart e logpath).2.name = l.name := by
  unfold Logger.logStart
  dsimp only
  split
  · split
    · split <;> rfl
    · rfl
  · rfl

theorem started_name : (l.started e logpath).2.name = l.name := by
  unfold Logger.started
  dsimp only
  split
  · exact logStart_name
  · rfl

theorem stopped_name : l.stopped.name = l.name := by
  unfold Logger.stopped Logger.logStop
  dsimp only
  split
  · split <;> rfl
  · rfl

theorem updated_name : (l.updated e).name = l.name := by
  unfold Logger.updated
  split <;> rfl

theorem updated_enabled : (l.updated e).enabled = l.enabled := by
  unfold Logger.updated
  split <;> rfl

theorem TableOp.turn_name (op : TableOp) (l : Logger) : (op.turn l).name = l.name := by
  cases op with
  | start e logpath => exact started_name
  | stop => exact stopped_name
  | updateState e => exact updated_name
  | clearErrors => cases hl : l.enabled <;> simp [turn, hl, Logger.clearErrors]
  | configure c => rfl

/-- Only `config_load` enables a logger, or disables it. -/
theorem TableOp.turn_enabled (op : TableOp) (l : Logger) :
    (∃ c, op = .configure c ∧ (op.turn l).enabled = (c l.name).enabled) ∨
      (∀ c, op ≠ .configure c) ∧ (op.turn l).enabled = l.enabled := by
  cases op with
  | start e logpath => exact .inr ⟨fun c h => TableOp.noConfusion h, Logger.started_enabled⟩
  | stop => exact .inr ⟨fun c h => TableOp.noConfusion h, Logger.stopped_enabled⟩
  | updateState e => exact .inr ⟨fun c h => TableOp.noConfusion h, updated_enabled⟩
  | clearErrors =>
    refine .inr ⟨fun c h => TableOp.noConfusion h, ?_⟩
    cases hl : l.enabled <;> simp [turn, hl, Logger.clearErrors]
  | configure c => exact .inl ⟨c, rfl, rfl⟩

/-- A logger is never enabled when it is not at first and is not told to be. -/
theorem staysDisabled_iff (ops : List TableOp) (l : Logger) :
    (∀ done, done <+: ops → (turns done l).enabled = false) ↔ StaysDisabled ops l := by
  induction ops generalizing l with
  | nil =>
    constructor
    · intro h
      exact ⟨h [] (List.nil_prefix), fun c hc => absurd hc List.not_mem_nil⟩
    · rintro ⟨hl, -⟩ done hdone
      rw [List.prefix_nil.mp hdone]
      exact hl
  | cons op ops ih =>
    have hcons : (∀ done, done <+: op :: ops → (turns done l).enabled = false) ↔
        l.enabled = false ∧ ∀ done, done <+: ops → (turns done (op.turn l)).enabled = false := by
      constructor
      · intro h
        exact ⟨h [] List.nil_prefix, fun done hdone =>
          h (op :: done) (List.cons_prefix_cons.mpr ⟨rfl, hdone⟩)⟩
      · rintro ⟨hl, h⟩ done hdone
        cases done with
        | nil => exact hl
        | cons op' done =>
          obtain ⟨rfl, hrest⟩ := List.cons_prefix_cons.mp hdone
          exact h done hrest
    rw [hcons, ih]
    unfold StaysDisabled
    rw [op.turn_name]
    rcases op.turn_enabled l with ⟨c, rfl, hturn⟩ | ⟨hnone, hturn⟩
    · rw [hturn]
      constructor
      · rintro ⟨hl, hc, hops⟩
        refine ⟨hl, fun c' hc' => ?_⟩
        rcases List.mem_cons.mp hc' with heq | hmem
        · cases heq
          exact hc
        · exact hops c' hmem
      · rintro ⟨hl, hops⟩
        exact ⟨hl, hops c List.mem_cons_self, fun c' hc' => hops c' (List.mem_cons_of_mem _ hc')⟩
    · rw [hturn]
      constructor
      · rintro ⟨hl, -, hops⟩
        refine ⟨hl, fun c' hc' => ?_⟩
        rcases List.mem_cons.mp hc' with heq | hmem
        · exact absurd heq.symm (hnone c')
        · exact hops c' hmem
      · rintro ⟨hl, hops⟩
        exact ⟨hl, hl, fun c' hc' => hops c' (List.mem_cons_of_mem _ hc')⟩

end Turns

/-! ## Every run -/

section Run

variable (logInit : Logger → Option (List ExtraConfig)) (t : List Logger) (ops : List TableOp)

/-- The loops give each entry up to the end of the table its turns. -/
theorem walk_tableRun :
    walk (tableRun logInit t ops) = (walk (loggersInit logInit t)).map (turns ops) := by
  unfold tableRun
  generalize loggersInit logInit t = slots
  induction ops generalizing slots with
  | nil => exact (List.map_id _).symm
  | cons op ops ih =>
    rw [List.foldl_cons, ih, op.exec_eq, walk_loop, List.map_map]
    rfl

/-- The end of the table stays where `loggers_init` put it. -/
theorem beyond_tableRun :
    beyond (tableRun logInit t ops) = beyond (loggersInit logInit t) := by
  unfold tableRun
  generalize loggersInit logInit t = slots
  induction ops generalizing slots with
  | nil => rfl
  | cons op ops ih => rw [List.foldl_cons, ih, op.exec_eq, beyond_loop]

/-- Without the failing ones, the table holds what is left in it, and no empty slot. -/
theorem loggersInit_withoutFailing :
    loggersInit logInit (withoutFailing logInit t) =
      (loggersInit logInit t).reduceOption.map some := by
  unfold loggersInit withoutFailing
  induction t with
  | nil => rfl
  | cons l t ih =>
    cases hinit : logInit l with
    | none => simpa [hinit] using ih
    | some confExtras => simpa [hinit] using ih

/-- The loops reach in one table what they reach in the other, and the loggers behind the failing
one. -/
theorem walk_reference :
    walk (tableRun logInit (withoutFailing logInit t) ops) =
      walk (tableRun logInit t ops) ++ (beyond (loggersInit logInit t)).map (turns ops) := by
  rw [walk_tableRun, walk_tableRun, loggersInit_withoutFailing, walk_map_some,
    ← walk_append_beyond, List.map_append]

theorem beyond_reference : beyond (tableRun logInit (withoutFailing logInit t) ops) = [] := by
  rw [beyond_tableRun, loggersInit_withoutFailing, beyond_map_some]

end Run

theorem enabledOf_append (a b : List Logger) : enabledOf (a ++ b) = enabledOf a ++ enabledOf b := by
  unfold enabledOf
  exact List.filter_append ..

/-- No logger is enabled. -/
theorem enabledOf_eq_nil_iff {a : List Logger} : enabledOf a = [] ↔ ∀ l ∈ a, l.enabled = false := by
  unfold enabledOf
  rw [List.filter_eq_nil_iff]
  simp only [Bool.not_eq_true]

/-- Only an enabled logger can fail to start. -/
theorem loggersStart_failed_append {e : Env} {logpath : CString} (a b : List Logger)
    (hb : enabledOf b = []) :
    (loggersStart e logpath (a ++ b)).2 = (loggersStart e logpath a).2 := by
  have hnone : (b.filter fun l => decide ((l.started e logpath).1 < 0)) = [] := by
    rw [List.filter_eq_nil_iff]
    intro l hl
    have hdisabled : l.enabled = false := enabledOf_eq_nil_iff.mp hb l hl
    simp [Logger.started, hdisabled]
  unfold loggersStart
  dsimp only
  rw [List.filter_append, hnone, List.append_nil]

section Same

variable {logInit : Logger → Option (List ExtraConfig)} {t : List Logger} {ops : List TableOp}

/-- The two runs agree when no enabled logger is beyond the end, neither as it was left there
nor as it would be by now. -/
theorem sameEnabled_of_beyond (hleft : enabledOf (beyond (loggersInit logInit t)) = [])
    (hnow : enabledOf ((beyond (loggersInit logInit t)).map (turns ops)) = []) :
    SameEnabled (tableRun logInit t ops) (tableRun logInit (withoutFailing logInit t) ops) where
  left := by
    rw [← walk_append_beyond, ← walk_append_beyond, beyond_reference, walk_reference,
      beyond_tableRun, List.append_nil, enabledOf_append, enabledOf_append, hleft, hnow]
  visited := by rw [walk_reference, enabledOf_append, hnow, List.append_nil]
  failed e logpath := by
    unfold tableStart
    dsimp only
    rw [walk_reference, loggersStart_failed_append _ _ hnow]

/-- If both tables have the same loggers enabled, none is enabled behind the failing one. -/
theorem beyond_of_sameEnabled
    (h : SameEnabled (tableRun logInit t ops) (tableRun logInit (withoutFailing logInit t) ops)) :
    enabledOf ((beyond (loggersInit logInit t)).map (turns ops)) = [] := by
  have hvisited := h.visited
  rw [walk_reference, enabledOf_append] at hvisited
  simpa using hvisited

/-- The entries beyond the end are the ones that initialise behind a failing one. -/
theorem forall_beyond_loggersInit {p : Logger → Prop} (logInit : Logger → Option (List ExtraConfig))
    (t : List Logger) :
    (∀ x ∈ beyond (loggersInit logInit t), p x) ↔
      ∀ front failing back, t = front ++ failing :: back → logInit failing = none →
        ∀ l ∈ back, ∀ confExtras, logInit l = some confExtras → p { l.reset with confExtras } := by
  constructor
  · rintro h front failing back rfl hfail l hl confExtras hinit
    refine h _ (mem_beyond_iff.mpr ⟨loggersInit logInit front, loggersInit logInit back, ?_, ?_⟩)
    · simp [loggersInit, hfail]
    · exact List.mem_map.mpr ⟨l, hl, by rw [hinit]; rfl⟩
  · intro h x hx
    obtain ⟨front, back, heq, hxback⟩ := mem_beyond_iff.mp hx
    obtain ⟨a, b, rfl, ha, hb⟩ := List.map_eq_append_iff.mp heq
    obtain ⟨failing, c, rfl, hfail, hc⟩ := List.map_eq_cons_iff.mp hb
    rw [← hc] at hxback
    obtain ⟨l, hl, hlx⟩ := List.mem_map.mp hxback
    obtain ⟨confExtras, hinit, rfl⟩ := Option.map_eq_some_iff.mp hlx
    exact h a failing c rfl (Option.map_eq_none_iff.mp hfail) l hl confExtras hinit

/-- To initialise a logger changes neither its name nor whether it is enabled. -/
theorem noneBehindFailing_iff :
    (∀ x ∈ beyond (loggersInit logInit t), StaysDisabled ops x) ↔
      NoneBehindFailing logInit t ops := by
  rw [forall_beyond_loggersInit]
  unfold NoneBehindFailing
  constructor
  · intro h front failing back heq hfail l hl hsome
    obtain ⟨confExtras, hinit⟩ := Option.isSome_iff_exists.mp hsome
    exact h front failing back heq hfail l hl confExtras hinit
  · intro h front failing back heq hfail l hl confExtras hinit
    exact h front failing back heq hfail l hl (by rw [hinit]; rfl)

end Same

/-- Through every run of the loops, the loggers that are left are treated as if the failing
ones were not in the table exactly when none of them that is enabled, in the table or by
`config_load` in this run, stands behind a failing one. -/
theorem isolated_iff (logInit : Logger → Option (List ExtraConfig)) (t : List Logger)
    (ops : List TableOp) : Isolated logInit t ops ↔ NoneBehindFailing logInit t ops := by
  rw [← noneBehindFailing_iff]
  constructor
  · intro h x hx
    rw [← staysDisabled_iff]
    intro done hdone
    exact enabledOf_eq_nil_iff.mp (beyond_of_sameEnabled (h done hdone)) _
      (List.mem_map_of_mem hx)
  · intro h done hdone
    refine sameEnabled_of_beyond (enabledOf_eq_nil_iff.mpr fun x hx => (h x hx).1)
      (enabledOf_eq_nil_iff.mpr fun y hy => ?_)
    obtain ⟨x, hx, rfl⟩ := List.mem_map.mp hy
    exact (staysDisabled_iff ops x).mpr (h x hx) done hdone

/-- `logevents` cannot make its pipe: `logradio` behind it, which can, is not started. -/
theorem isolated_fails_logevents :
    ¬ ∀ (logInit : Logger → Option (List ExtraConfig)) (t : List Logger) (ops : List TableOp),
      Isolated logInit t ops := by
  intro h
  have hsame := h (fun l => if l.name = .logevents then none else some []) loggers [] []
    List.nil_prefix
  have hbeyond := enabledOf_eq_nil_iff.mp (beyond_of_sameEnabled hsame)
  exact absurd (hbeyond (loggerEntry .logradio "0.200".toList 20 []) (by decide)) (by decide)

end AndroidLearn.Logctl
