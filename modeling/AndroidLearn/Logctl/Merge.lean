import AndroidLearn.Lib.Overlay
import AndroidLearn.Logctl.Decimal

/-!
# What `config_load` does to one key

`config_load` of `logctl.c` goes through the settings of the program, of the storages and
of the loggers, and makes up the store and the copies in the database from the overwrites,
the file and the defaults. `Entry` is a setting with its default, or a description put
beside one; `State.entries` lists those it goes through, in its order.

The store and the copies are two views of one thing, key by key (`view`). Each function of
the source is a sequence of the operations of `Lib.Overlay` on it: `Merged` says so of a
piece of the program, and follows it (`merged_setting`, `merged_describe`,
`configLogger_run`, `configStorage_run`, `loggers_run`).

The keys of the entries are distinct (`Setup.entries_nodup`), so what becomes of a key
depends on its own entry alone: `merge_entry` for a key that has one, `merge_unknown` for
one that has none, and `merge_version` for the version, which has two.

Allocations succeed, and the lock of the configuration is held from the begin to the end.
-/

namespace AndroidLearn.Logctl

open Thread Conf Overlay

/-! ## The settings and their defaults -/

/-- What the merge does about a key. -/
inductive Entry
  /-- with the default in full; `inTmp` when it is printed into `tmp` first -/
  | setting (key default : CString) (inTmp : Bool)
  | describe (key text : CString)
  deriving DecidableEq, Repr

/-- The key it is about. -/
def Entry.key : Entry → CString
  | setting key _ _ | describe key _ => key

/-- The default, or the description. -/
def Entry.text : Entry → CString
  | setting _ default _ => default
  | describe _ text => text

/-- The text that is stored. -/
def Entry.stored : Entry → CString
  | setting _ default inTmp => if inTmp then tmp16 default else default
  | describe _ text => text

def Entry.op : Entry → Op CString CString
  | setting key default inTmp => .setting key (setting key default inTmp).stored
  | describe key text => .describe key text

@[simp] theorem Entry.op_key (e : Entry) : e.op.key = e.key := by
  cases e <;> rfl

/-- The settings that belong to no storage and no logger. -/
def keywordEntries : List Entry := keywordPairs.map fun p => .setting p.1 p.2 false

/-- The settings of a storage. -/
def Storage.entries (ps : Storage) : List Entry :=
  [.setting (storageConfigKey ps.name keyLimitedTotalLogSizeMB) autoValue false,
    .setting (storageConfigKey ps.name keyReservedStorageSizeMB) autoValue false,
    .setting (storageConfigKey ps.name keyPriority) (decimal ps.priority) true]

/-- A setting that one logger has of its own, with its description. -/
def ExtraConfig.entries (extra : ExtraConfig) : List Entry :=
  match extra.confKey with
  | none => []
  | some key =>
    [.setting key extra.defaultValue true,
      .describe (key ++ ".Prompt".toList) extra.prompt,
      .describe (key ++ ".Type".toList) extra.dataType,
      .describe (key ++ ".Default".toList) extra.defaultValue]

/-- The settings every logger has. -/
def Logger.commonEntries (rotate compress : CString) (l : Logger) : List Entry :=
  [.setting (loggerConfigKey l.name keyLimitedTotalLogSizeMB) autoValue false,
    .setting (loggerConfigKey l.name keyRotateSizeMB) rotate false,
    .setting (loggerConfigKey l.name keyCompress) compress false,
    .setting (loggerConfigKey l.name keyEnable) (enableText l.enabled) true,
    .setting (loggerConfigKey l.name keyWeight) l.weight true,
    .setting (loggerConfigKey l.name keyOverload) (decimal l.overload) true]

/-- `rotate` and `compress` are the values of the global settings. -/
def Logger.entries (rotate compress : CString) (l : Logger) : List Entry :=
  l.commonEntries rotate compress ++ l.confExtras.flatMap ExtraConfig.entries

/-- What is configured of a key: the overwrite, or else the file. -/
def State.given (s : State) (overwriteConfigs key : CString) : Option CString :=
  (lastOf (overwritePairs overwriteConfigs) key).or (valueOf (s.confFile.getD []) key)

/-- All settings, in the order of the merge. -/
def State.entriesWith (s : State) (rotate compress : CString) : List Entry :=
  keywordEntries ++ s.storages.flatMap Storage.entries ++
    s.loggers.flatMap (Logger.entries rotate compress)

/-- The settings and descriptions of `config_load`: a logger's `RotateSizeMB` and
`Compress` default to the global ones. -/
def State.entries (s : State) (overwriteConfigs : CString) : List Entry :=
  s.entriesWith ((s.given overwriteConfigs keyRotateSizeMB).getD autoValue)
    ((s.given overwriteConfigs keyCompress).getD defaultCompress)

/-- A default configuration, in the tables of storages and loggers, and a file that could
be read. No key is that of two settings or descriptions. -/
structure Setup extends State where
  storageNames : storages.map Storage.name = Logctl.storages.map Storage.name
  loggerNames : (loggers.map Logger.name).Nodup
  keys : ∀ rotate compress, ((toState.entriesWith rotate compress).map Entry.key).Nodup
  fileNames : (namesOf (confFile.getD [])).Nodup

/-! ## One step -/

section Put

variable {conf : PairList} {name value n : CString}

theorem confFind_eq : confFind conf name = valueOf conf name := by
  unfold confFind
  rw [confGet_eq, Option.or_none]

/-- A pair is changed, or put in front. -/
theorem confPut_cases (conf : PairList) (name value : CString) :
    (∃ index, glistFindEx (compareDataWithPair name) conf = some index ∧
        confPut conf name value = setValue conf index value) ∨
      (name ∉ namesOf conf ∧ confPut conf name value = ⟨name, value⟩ :: conf) := by
  unfold confPut confSet
  dsimp only
  cases hfind : glistFindEx (compareDataWithPair name) conf with
  | some index => exact .inl ⟨index, rfl, rfl⟩
  | none => exact .inr ⟨find_eq_none_iff.mp hfind, rfl⟩

/-- What was put is seen under its name only. -/
theorem confPut_lookup : valueOf (confPut conf name value) n =
    if n = name then some value else valueOf conf n := by
  rcases confPut_cases conf name value with ⟨index, hfind, hput⟩ | ⟨-, hput⟩
  · rw [hput, setValue_lookup hfind]
  · rw [hput, lookup_cons]

/-- Putting a pair keeps the names distinct. -/
theorem confPut_nodup (h : (namesOf conf).Nodup) : (namesOf (confPut conf name value)).Nodup := by
  rcases confPut_cases conf name value with ⟨index, -, hput⟩ | ⟨hnew, hput⟩
  · rw [hput, setValue_names]
    exact h
  · rw [hput]
    exact List.nodup_cons.mpr ⟨hnew, h⟩

theorem sysKey_inj {k k' : CString} : sysKey k = sysKey k' ↔ k = k' := by
  unfold sysKey
  exact List.append_cancel_left_eq .. |> Iff.of_eq

end Put

/-- The store and the copies of its keys. -/
def view (conf db : PairList) : Stores CString CString := ⟨valueOf conf, fun k => valueOf db (sysKey k)⟩

/-- The store and the database have gone through the steps. -/
structure Merged (ops : List (Op CString CString)) (conf db conf' db' : PairList) : Prop where
  view : view conf' db' = Overlay.run ops (view conf db)
  names : (namesOf conf).Nodup → (namesOf conf').Nodup

section Merged

variable {conf db conf' db' conf'' db'' : PairList} {ops ops' : List (Op CString CString)}
  {key value k : CString} {op : Op CString CString}

theorem Merged.refl (conf db : PairList) : Merged [] conf db conf db := ⟨rfl, id⟩

/-- One merge after another is one. -/
theorem Merged.trans (h : Merged ops conf db conf' db') (h' : Merged ops' conf' db' conf'' db'') :
    Merged (ops ++ ops') conf db conf'' db'' where
  view := by rw [h'.view, h.view, run_append]
  names hnd := h'.names (h.names hnd)

/-- A key that no step is at keeps its value. -/
theorem Merged.lookup (h : Merged ops conf db conf' db') (hk : ∀ op ∈ ops, op.key ≠ k) :
    valueOf conf' k = valueOf conf k := by
  have hat : (Logctl.view conf' db').at k = (Logctl.view conf db).at k := by
    rw [h.view, run_at_none hk]
  exact congrArg Prod.fst hat

/-- A key of none of the entries keeps its value. -/
theorem Merged.untouched {es : List Entry} (h : Merged (es.map Entry.op) conf db conf' db')
    (hk : ∀ e ∈ es, e.key ≠ k) : valueOf conf' k = valueOf conf k := by
  refine h.lookup ?_
  intro op hop
  obtain ⟨e, he, rfl⟩ := List.mem_map.mp hop
  rw [Entry.op_key]
  exact hk e he

/-- A value that goes to both stores. -/
theorem view_put_copy : view (confPut conf key value) (confPut db (sysKey key) value) =
    (view conf db).put key (some value, some value) := by
  unfold view Stores.put
  congr 1
  · funext k
    rw [confPut_lookup, Function.update_apply]
  · funext k
    rw [confPut_lookup, Function.update_apply]
    simp only [sysKey_inj]

/-- An overwrite. -/
theorem merged_overwrite : Merged [.overwrite key value] conf db (confPut conf key value)
    (confPut db (sysKey key) value) where
  view := view_put_copy
  names := confPut_nodup

/-- A description. -/
theorem merged_describe : Merged [.describe key value] conf db (confPut conf key value) db where
  view := by
    unfold view
    rw [run_cons]
    unfold Overlay.run Op.apply Stores.put Stores.at Op.cell Op.key
    dsimp only [List.foldl_nil]
    congr 1
    · funext k
      rw [confPut_lookup, Function.update_apply]
    · exact (Function.update_eq_self key _).symm
  names := confPut_nodup

/-- A setting. -/
theorem merged_setting : Merged [.setting key value] conf db
    (if confFind conf key = none then confPut conf key value else conf)
    (confPut db (sysKey key) ((confFind conf key).getD value)) where
  view := by
    have hstep : Overlay.run [.setting key value] (Logctl.view conf db) =
        (Logctl.view conf db).put key
          (some ((valueOf conf key).getD value), some ((valueOf conf key).getD value)) := rfl
    rw [hstep, confFind_eq]
    cases hfind : valueOf conf key with
    | none => exact view_put_copy
    | some v =>
      -- the store has the value already
      have hsame : Function.update (valueOf conf) key (some v) = valueOf conf := by
        rw [Function.update_eq_self_iff, hfind]
      rw [if_neg (by simp), Option.getD_some]
      unfold Stores.put
      dsimp only [Logctl.view]
      rw [hsame]
      congr 1
      funext k
      rw [confPut_lookup, Function.update_apply]
      simp only [sysKey_inj]
  names hnd := by
    split
    · exact confPut_nodup hnd
    · exact hnd

/-- One setting, whatever comes after it in the program. -/
theorem configSetting_run (conf : PairList) (s : State) (key value : CString) :
    ∃ v conf' db', (∀ {α : Type} (k : CString × PairList → Program α),
        (configSetting conf key value >>= k).run Call.exec s =
          (k (v, conf')).run Call.exec { s with db := db' }) ∧
      Merged [.setting key value] conf s.db conf' db' ∧ valueOf conf' key = some v := by
  refine ⟨_, _, _, fun k => rfl, merged_setting, ?_⟩
  have hm := @merged_setting conf s.db key value
  have hat : (Overlay.run [.setting key value] (view conf s.db)).at key =
      (some ((valueOf conf key).getD value), some ((valueOf conf key).getD value)) :=
    run_one_at.trans (if_pos rfl)
  rw [← hm.view] at hat
  exact (congrArg Prod.fst hat).trans (by rw [confFind_eq])

/-- The steps of a program that changes the store and the database alone. -/
def Steps (p : Program PairList) (ops : List (Op CString CString)) (conf : PairList) (s : State) :
    Prop :=
  ∃ conf' db', p.run Call.exec s = (conf', { s with db := db' }) ∧ Merged ops conf s.db conf' db'

/-- A loop over settings merges them all. -/
theorem steps_foldlM {ι : Type} {f : PairList → ι → Program PairList}
    {ops : ι → List (Op CString CString)} (hf : ∀ conf i s, Steps (f conf i) (ops i) conf s)
    (l : List ι) (conf : PairList) (s : State) : Steps (l.foldlM f conf) (l.flatMap ops) conf s := by
  induction l generalizing conf s with
  | nil => exact ⟨conf, s.db, rfl, .refl _ _⟩
  | cons i l ih =>
    obtain ⟨conf₁, db₁, hrun₁, hmerged₁⟩ := hf conf i s
    obtain ⟨conf₂, db₂, hrun₂, hmerged₂⟩ := ih conf₁ { s with db := db₁ }
    refine ⟨conf₂, db₂, ?_, hmerged₁.trans hmerged₂⟩
    rw [List.foldlM_cons, Prog.run_bind, hrun₁]
    exact hrun₂

theorem steps_overwrite (conf : PairList) (pair : CString × CString) (s : State) :
    Steps (configOverwrite conf pair) [.overwrite pair.1 pair.2] conf s :=
  ⟨_, _, rfl, merged_overwrite⟩

/-- A setting of the program. -/
theorem steps_global (conf : PairList) (pair : CString × CString) (s : State) :
    Steps (configGlobal conf pair) [.setting pair.1 pair.2] conf s := by
  obtain ⟨v, conf', db', hrun, hmerged, -⟩ := configSetting_run conf s pair.1 pair.2
  exact ⟨conf', db', hrun _, hmerged⟩

/-- A setting that one logger has of its own. -/
theorem steps_extra (conf : PairList) (extra : ExtraConfig) (s : State) :
    Steps (configExtra conf extra) (extra.entries.map Entry.op) conf s := by
  unfold configExtra ExtraConfig.entries
  cases extra.confKey with
  | none => exact ⟨conf, s.db, rfl, .refl _ _⟩
  | some key =>
    obtain ⟨v, conf', db', hrun, hmerged, -⟩ := configSetting_run conf s key (tmp16 extra.defaultValue)
    exact ⟨_, db', hrun _,
      ((hmerged.trans merged_describe).trans merged_describe).trans merged_describe⟩

end Merged

/-! ## The loggers and the storages -/

/-- What `loggers_set_configs` is given of a logger whose settings are in `m`. -/
structure Logger.Configured (e : Env) (m : CString → Option CString) (l : Logger) (c : LoggerConfig) :
    Prop where
  enabled : ∃ v, m (loggerConfigKey l.name keyEnable) = some v ∧ c.enabled = isValueTrue v
  weight : ∃ v, m (loggerConfigKey l.name keyWeight) = some v ∧ c.weight = e.weightText v
  overload : ∃ v, m (loggerConfigKey l.name keyOverload) = some v ∧ c.overload = max (atoi v) 0

/-- What `storage_set_configs` is given of a storage whose settings are in `m`. -/
def Storage.Configured (m : CString → Option CString) (ps : Storage) (c : StorageConfig) : Prop :=
  ∃ v, m (storageConfigKey ps.name keyPriority) = some v ∧ c.priority = atoi v

section Logger

variable {conf : PairList} {s : State} {l : Logger} {rotate compress : CString}

/-- With distinct keys, the later entries leave the key of an earlier one alone. -/
theorem Merged.later {entries post : List Entry} {e : Entry} {conf db conf' db' : PairList}
    (h : Merged (post.map Entry.op) conf db conf' db') (hkeys : (entries.map Entry.key).Nodup)
    (hsplit : ∃ pre, entries = pre ++ e :: post) : valueOf conf' e.key = valueOf conf e.key := by
  obtain ⟨pre, rfl⟩ := hsplit
  rw [ List.map_append, List.map_cons] at hkeys
  have hnot := (List.nodup_cons.mp (List.nodup_append.mp hkeys).2.1).1
  exact h.untouched fun e' he' heq => hnot (heq ▸ List.mem_map_of_mem he')

/-- What `config_load` does for a logger. -/
theorem configLogger_run (hfind : s.loggers.find? (fun l' => l'.name = l.name) = some l)
    (hrotate : valueOf conf keyRotateSizeMB = some rotate)
    (hcompress : valueOf conf keyCompress = some compress)
    (hkeys : ((l.entries rotate compress).map Entry.key).Nodup)
    (hnoRotate : ∀ e ∈ l.entries rotate compress, e.key ≠ keyRotateSizeMB)
    (hnoCompress : ∀ e ∈ l.entries rotate compress, e.key ≠ keyCompress) :
    ∃ conf' db' c, (configLogger conf l.name).run Call.exec s = (conf',
        { s with db := db', loggers := Logctl.loggersSetConfigs l.name c s.loggers }) ∧
      Merged ((l.entries rotate compress).map Entry.op) conf s.db conf' db' ∧
      l.Configured s.env (valueOf conf') c := by
  have hsingle : ∀ {e : Entry} {k : CString}, e.key ≠ k → ∀ op ∈ [e.op], op.key ≠ k := by
    intro e k hne op hop
    rw [List.mem_singleton.mp hop, Entry.op_key]
    exact hne
  -- the settings common to all loggers, with the global values as they are found
  obtain ⟨limited, conf₁, db₁, hrun₁, hm₁, -⟩ := configSetting_run conf s
    (loggerConfigKey l.name keyLimitedTotalLogSizeMB) autoValue
  have hrotate₁ : confFind conf₁ keyRotateSizeMB = some rotate := by
    rw [confFind_eq, hm₁.lookup (hsingle (hnoRotate _ List.mem_cons_self)), hrotate]
  have hcompress₁ : valueOf conf₁ keyCompress = some compress := by
    rw [hm₁.lookup (hsingle (hnoCompress _ List.mem_cons_self)), hcompress]
  obtain ⟨rotate', conf₂, db₂, hrun₂, hm₂, -⟩ := configSetting_run conf₁ { s with db := db₁ }
    (loggerConfigKey l.name keyRotateSizeMB) rotate
  have hcompress₂ : confFind conf₂ keyCompress = some compress := by
    rw [confFind_eq, hm₂.lookup (hsingle (hnoCompress _ (List.mem_cons_of_mem _ List.mem_cons_self))),
      hcompress₁]
  obtain ⟨compress', conf₃, db₃, hrun₃, hm₃, -⟩ := configSetting_run conf₂ { s with db := db₂ }
    (loggerConfigKey l.name keyCompress) compress
  obtain ⟨enabled, conf₄, db₄, hrun₄, hm₄, henabled⟩ := configSetting_run conf₃ { s with db := db₃ }
    (loggerConfigKey l.name keyEnable) (tmp16 (enableText l.enabled))
  obtain ⟨weight, conf₅, db₅, hrun₅, hm₅, hweight⟩ := configSetting_run conf₄ { s with db := db₄ }
    (loggerConfigKey l.name keyWeight) (tmp16 l.weight)
  obtain ⟨overload, conf₆, db₆, hrun₆, hm₆, hoverload⟩ := configSetting_run conf₅ { s with db := db₅ }
    (loggerConfigKey l.name keyOverload) (tmp16 (decimal l.overload))
  let c : LoggerConfig := {
    limitedSizeMb := sizeValue limited 0
    rotateSizeMb := sizeValue rotate' logDefaultRotateSize
    compress := isValueTrue compress'
    enabled := isValueTrue enabled
    weight := s.env.weightText weight
    overload := max (atoi overload) 0 }
  obtain ⟨conf₇, db₇, hrun₇, hm₇⟩ := steps_foldlM steps_extra l.confExtras conf₆
    { s with db := db₆, loggers := Logctl.loggersSetConfigs l.name c s.loggers }
  let extras := l.confExtras.flatMap ExtraConfig.entries
  let overloadEntry : Entry :=
    .setting (loggerConfigKey l.name keyOverload) (decimal l.overload) true
  let weightEntry : Entry := .setting (loggerConfigKey l.name keyWeight) l.weight true
  have hlast₇ : Merged (extras.map Entry.op) conf₆ db₆ conf₇ db₇ := by
    rw [List.map_flatMap]
    exact hm₇
  have hlast₆ : Merged ((overloadEntry :: extras).map Entry.op) conf₅ db₅ conf₇ db₇ :=
    hm₆.trans hlast₇
  have hlast₅ : Merged ((weightEntry :: overloadEntry :: extras).map Entry.op) conf₄ db₄ conf₇ db₇ :=
    hm₅.trans hlast₆
  refine ⟨conf₇, db₇, c, ?_, (((hm₁.trans hm₂).trans hm₃).trans hm₄).trans hlast₅, ?_⟩
  · unfold configLogger
    rw [hrun₁]
    dsimp only
    rw [hrotate₁, Option.getD_some, hrun₂]
    dsimp only
    rw [hcompress₂, Option.getD_some, hrun₃]
    dsimp only
    rw [Prog.invoke_bind, Prog.run_call]
    dsimp only [Call.exec]
    rw [hfind]
    dsimp only
    rw [hrun₄]
    dsimp only
    rw [hrun₅]
    dsimp only
    rw [Prog.invoke_bind, Prog.run_call]
    dsimp only [Call.exec]
    rw [hrun₆]
    dsimp only
    rw [Prog.invoke_bind, Prog.run_call]
    exact hrun₇
  · refine ⟨⟨enabled, ?_, rfl⟩, ⟨weight, ?_, rfl⟩, ⟨overload, ?_, rfl⟩⟩
    · exact (hlast₅.later hkeys ⟨[_, _, _], rfl⟩).trans henabled
    · exact (hlast₆.later hkeys ⟨[_, _, _, _], rfl⟩).trans hweight
    · exact (hlast₇.later hkeys ⟨[_, _, _, _, _], rfl⟩).trans hoverload

end Logger

/-- What it does for a storage. -/
theorem configStorage_run {conf : PairList} {s : State} {ps : Storage}
    (hfind : s.storages.find? (fun ps' => ps'.name = ps.name) = some ps) :
    ∃ conf' db' c, (configStorage conf ps.name).run Call.exec s = (conf',
        { s with db := db', storages := Logctl.storageSetConfigs ps.name c s.storages }) ∧
      Merged (ps.entries.map Entry.op) conf s.db conf' db' ∧
      ∃ v, valueOf conf' (storageConfigKey ps.name keyPriority) = some v ∧ c.priority = atoi v := by
  obtain ⟨limited, conf₁, db₁, hrun₁, hm₁, -⟩ := configSetting_run conf s
    (storageConfigKey ps.name keyLimitedTotalLogSizeMB) autoValue
  obtain ⟨reserved, conf₂, db₂, hrun₂, hm₂, -⟩ := configSetting_run conf₁ { s with db := db₁ }
    (storageConfigKey ps.name keyReservedStorageSizeMB) autoValue
  obtain ⟨priority, conf₃, db₃, hrun₃, hm₃, hpriority⟩ :=
    configSetting_run conf₂ { s with db := db₂ } (storageConfigKey ps.name keyPriority)
      (tmp16 (decimal ps.priority))
  let logPath := (confFind db₃ (sysKey keyLogPath)).getD defaultLogPath
  let c : StorageConfig := {
    limitedSizeMb := sizeValue limited 0
    reservedSizeMb := sizeValue reserved 0
    priority := atoi priority
    userExcluded := decide (logPath ≠ storageKeyAuto ∧ logPath ≠ ps.name.text) }
  refine ⟨conf₃, db₃, c, ?_, (hm₁.trans hm₂).trans hm₃, priority, hpriority, rfl⟩
  unfold configStorage
  rw [hrun₁]
  dsimp only
  rw [hrun₂]
  dsimp only
  rw [Prog.invoke_bind, Prog.run_call]
  dsimp only [Call.exec]
  rw [hfind, Option.map_some, Option.getD_some, hrun₃]
  rfl

/-! ## The loops over the tables -/

section Table

variable {ι α : Type} [DecidableEq ι] {name : α → ι} {done todo : List α} {x : α}

/-- Where names are distinct an entry is found by its own. -/
theorem find_at (h : ((done ++ x :: todo).map name).Nodup) :
    (done ++ x :: todo).find? (fun y => name y = name x) = some x := by
  rw [List.find?_append]
  have hnone : done.find? (fun y => decide (name y = name x)) = none := by
    rw [List.find?_eq_none]
    intro y hy
    have hne := (List.nodup_append.mp (by rwa [List.map_append] at h)).2.2 (name y)
      (List.mem_map_of_mem hy) (name x) (by simp)
    simpa using hne
  rw [hnone, Option.none_or]
  simp

/-- An entry that is found by its name is the only one that is changed. -/
theorem map_at (h : ((done ++ x :: todo).map name).Nodup) (f : α → α) :
    ((done ++ x :: todo).map fun y => if name y = name x then f y else y) =
      done ++ f x :: todo := by
  have hsame : ∀ l : List α, (∀ y ∈ l, name y ≠ name x) →
      (l.map fun y => if name y = name x then f y else y) = l := by
    intro l hl
    rw [List.map_congr_left fun y hy => if_neg (hl y hy), List.map_id']
  rw [List.map_append, List.map_cons, List.nodup_append, List.nodup_cons] at h
  obtain ⟨-, ⟨hx, -⟩, hdone⟩ := h
  rw [List.map_append, List.map_cons, if_pos rfl, hsame done, hsame todo]
  · intro y hy heq
    exact hx (heq ▸ List.mem_map_of_mem hy)
  · intro y hy
    exact hdone _ (List.mem_map_of_mem hy) _ List.mem_cons_self

end Table

/-- A merge of other keys does not touch this one. -/
theorem Merged.rest {es es' : List Entry} {conf db conf' db' : PairList}
    (h : Merged (es'.map Entry.op) conf db conf' db')
    (hkeys : ((es ++ es').map Entry.key).Nodup) {e : Entry} (he : e ∈ es) :
    valueOf conf' e.key = valueOf conf e.key := by
  rw [List.map_append, List.nodup_append] at hkeys
  refine h.untouched fun e' he' => ?_
  exact (hkeys.2.2 _ (List.mem_map_of_mem he) _ (List.mem_map_of_mem he')).symm

section Members

variable (l : Logger) (rotate compress : CString)

/-- A logger has a setting that enables it. -/
theorem Logger.enable_mem :
    .setting (loggerConfigKey l.name keyEnable) (enableText l.enabled) true ∈
      l.entries rotate compress := by
  simp [Logger.entries, Logger.commonEntries]

theorem Logger.weight_mem :
    .setting (loggerConfigKey l.name keyWeight) l.weight true ∈ l.entries rotate compress := by
  simp [Logger.entries, Logger.commonEntries]

/-- It has one for its overload. -/
theorem Logger.overload_mem :
    .setting (loggerConfigKey l.name keyOverload) (decimal l.overload) true ∈
      l.entries rotate compress := by
  simp [Logger.entries, Logger.commonEntries]

end Members

/-- A storage is configured by its own keys. -/
theorem Storage.Configured.congr {m m' : CString → Option CString} {ps : Storage}
    {c : StorageConfig} (h : ps.Configured m c) (hsame : ∀ x ∈ ps.entries, m' x.key = m x.key) :
    ps.Configured m' c := by
  obtain ⟨v, hv, hpriority⟩ := h
  refine ⟨v, (hsame (.setting (storageConfigKey ps.name keyPriority) (decimal ps.priority) true)
    ?_).trans hv, hpriority⟩
  simp [Storage.entries]

theorem Logger.Configured.congr {e : Env} {m m' : CString → Option CString} {l : Logger}
    {c : LoggerConfig} {rotate compress : CString} (h : l.Configured e m c)
    (hsame : ∀ x ∈ l.entries rotate compress, m' x.key = m x.key) : l.Configured e m' c where
  enabled := by
    obtain ⟨v, hv, hc⟩ := h.enabled
    exact ⟨v, (hsame _ (l.enable_mem rotate compress)).trans hv, hc⟩
  weight := by
    obtain ⟨v, hv, hc⟩ := h.weight
    exact ⟨v, (hsame _ (l.weight_mem rotate compress)).trans hv, hc⟩
  overload := by
    obtain ⟨v, hv, hc⟩ := h.overload
    exact ⟨v, (hsame _ (l.overload_mem rotate compress)).trans hv, hc⟩

/-- One of the tables of the state. Its entries are found by their names, and `set`
configures one. -/
structure Table (α ι γ : Type) where
  name : α → ι
  set : α → γ → α
  get : State → List α
  /-- the state with another database and table -/
  put : State → PairList → List α → State
  name_set : ∀ x c, name (set x c) = name x
  get_put : ∀ s db t, get (put s db t) = t
  put_put : ∀ s db t db' t', put (put s db t) db' t' = put s db' t'
  put_get : ∀ s, put s s.db (get s) = s
  db_put : ∀ s db t, (put s db t).db = db
  env_put : ∀ s db t, (put s db t).env = s.env

/-- A loop over a table by the names in it, each turn of which finds its entry, merges
what the entry has, and changes the entry alone. `P` says what an entry is configured
with, of the values of its keys; `I` is what a turn needs of the store. -/
theorem Table.run {α ι γ : Type} [DecidableEq ι] [Inhabited γ] (T : Table α ι γ)
    {entries : α → List Entry} {turn : PairList → ι → Program PairList}
    {P : Env → (CString → Option CString) → α → γ → Prop} {I : PairList → Prop}
    (hcongr : ∀ e m m' x c, P e m x c → (∀ y ∈ entries x, m' y.key = m y.key) → P e m' x c)
    {done todo : List α} {conf : PairList} {s : State}
    (hturn : ∀ x ∈ todo, ∀ conf s, (T.get s).find? (fun y => T.name y = T.name x) = some x →
      I conf → ((entries x).map Entry.key).Nodup → ∃ conf' db' c,
        (turn conf (T.name x)).run Call.exec s = (conf', T.put s db'
          ((T.get s).map fun y => if T.name y = T.name x then T.set y c else y)) ∧
        Merged ((entries x).map Entry.op) conf s.db conf' db' ∧ P s.env (valueOf conf') x c)
    (hs : T.get s = done ++ todo)
    (hnames : ((done ++ todo).map T.name).Nodup)
    (hkeys : ((todo.flatMap entries).map Entry.key).Nodup)
    (hI : ∀ x ∈ todo, ∀ conf db conf' db', Merged ((entries x).map Entry.op) conf db conf' db' →
      I conf → I conf') (hconf : I conf) :
    ∃ conf' db', ∃ c : α → γ,
      ((todo.map T.name).foldlM turn conf).run Call.exec s =
        (conf', T.put s db' (done ++ todo.map fun x => T.set x (c x))) ∧
      Merged ((todo.flatMap entries).map Entry.op) conf s.db conf' db' ∧
      ∀ x ∈ todo, P s.env (valueOf conf') x (c x) := by
  induction todo generalizing done conf s with
  | nil =>
    have hput : T.put s s.db (done ++ []) = s := by rw [← hs, T.put_get]
    exact ⟨conf, s.db, fun _ => default, congrArg (conf, ·) hput.symm, .refl _ _, by simp⟩
  | cons x todo ih =>
    rw [List.flatMap_cons] at hkeys ⊢
    have hkeys' := hkeys
    rw [List.map_append, List.nodup_append] at hkeys'
    obtain ⟨hkeysx, hkeystodo, -⟩ := hkeys'
    have hfind : (T.get s).find? (fun y => T.name y = T.name x) = some x := by
      rw [hs]
      exact find_at hnames
    obtain ⟨conf₁, db₁, c₁, hrun₁, hm₁, hc₁⟩ := hturn x List.mem_cons_self conf s hfind hconf hkeysx
    rw [hs, map_at hnames] at hrun₁
    have hnames' : ((done ++ [T.set x c₁] ++ todo).map T.name).Nodup := by
      simpa [T.name_set] using hnames
    obtain ⟨conf₂, db₂, c₂, hrun₂, hm₂, hc₂⟩ := ih
      (s := T.put s db₁ (done ++ T.set x c₁ :: todo))
      (fun y hy => hturn y (List.mem_cons_of_mem x hy)) (by rw [T.get_put]; simp) hnames' hkeystodo
      (fun y hy => hI y (List.mem_cons_of_mem x hy))
      (hI x List.mem_cons_self _ _ _ _ hm₁ hconf)
    rw [T.db_put] at hm₂
    rw [T.put_put] at hrun₂
    rw [T.env_put] at hc₂
    have hfresh : ∀ y ∈ todo, T.name y ≠ T.name x := by
      intro y hy heq
      rw [List.map_append, List.map_cons, List.nodup_append, List.nodup_cons] at hnames
      exact hnames.2.1.1 (heq ▸ List.mem_map_of_mem hy)
    let c : α → γ := fun y => if T.name y = T.name x then c₁ else c₂ y
    have hcx : c x = c₁ := if_pos rfl
    have hctodo : ∀ y ∈ todo, c y = c₂ y := fun y hy => if_neg (hfresh y hy)
    have hmap : (todo.map fun y => T.set y (c y)) = todo.map fun y => T.set y (c₂ y) :=
      List.map_congr_left fun y hy => by rw [hctodo y hy]
    refine ⟨conf₂, db₂, c, ?_, ?_, ?_⟩
    · rw [List.map_cons, List.foldlM_cons, Prog.run_bind, hrun₁]
      dsimp only
      rw [hrun₂, List.map_cons, hcx, hmap, List.append_assoc, List.singleton_append]
    · rw [List.map_append]
      exact hm₁.trans hm₂
    · intro y hy
      rcases List.mem_cons.mp hy with rfl | hy
      · rw [hcx]
        exact hcongr _ _ _ _ _ hc₁ fun e he => hm₂.rest hkeys he
      · rw [hctodo y hy]
        exact hc₂ y hy

section Entries

variable {es : List Entry} {e : Entry} {m : Stores CString CString} {k : CString}

/-- Of entries with distinct keys, one alone decides what becomes of its key. -/
theorem run_entry (hkeys : (es.map Entry.key).Nodup) (he : e ∈ es) :
    (Overlay.run (es.map Entry.op) m).at e.key = e.op.cell (m.at e.key) := by
  refine run_at_single ?_ (List.mem_map_of_mem he) e.op_key
  intro o ho hkey
  obtain ⟨e', he', rfl⟩ := List.mem_map.mp ho
  rw [Entry.op_key] at hkey
  rw [List.inj_on_of_nodup_map hkeys he' he hkey]

/-- A key without an entry keeps its value. -/
theorem run_no_entry (hk : ∀ e ∈ es, e.key ≠ k) :
    (Overlay.run (es.map Entry.op) m).at k = m.at k := by
  refine run_at_none ?_
  intro op hop
  obtain ⟨e, he, rfl⟩ := List.mem_map.mp hop
  rw [Entry.op_key]
  exact hk e he

end Entries

/-- The table of the loggers, and how their settings get there. -/
def loggerTable : Table Logger LoggerName LoggerConfig where
  name := Logger.name
  set := Logger.setConfigs
  get := State.loggers
  put s db t := { s with db := db, loggers := t }
  name_set _ _ := rfl
  get_put _ _ _ := rfl
  put_put _ _ _ _ _ := rfl
  put_get _ := rfl
  db_put _ _ _ := rfl
  env_put _ _ _ := rfl

/-- The table of the storages, and how their settings get there. -/
def storageTable : Table Storage StorageKey StorageConfig where
  name := Storage.name
  set := Storage.setConfigs
  get := State.storages
  put s db t := { s with db := db, storages := t }
  name_set _ _ := rfl
  get_put _ _ _ := rfl
  put_put _ _ _ _ _ := rfl
  put_get _ := rfl
  db_put _ _ _ := rfl
  env_put _ _ _ := rfl

/-! ## `configMerge` -/

instance : Inhabited LoggerConfig := ⟨⟨0, 0, false, false, [], 0⟩⟩

instance : Inhabited StorageConfig := ⟨⟨0, 0, 0, false⟩⟩

/-- The steps of `config_load`. -/
def State.mergeOps (s : State) (overwriteConfigs : CString) : List (Op CString CString) :=
  (overwritePairs overwriteConfigs).map (fun p => .overwrite p.1 p.2) ++
    (s.entries overwriteConfigs).map Entry.op ++ [.describe keyVersion confVersion]

/-- The state that `config_load` leaves: the tables are configured with `cs` and `cl`. -/
def State.configured (s : State) (db : PairList) (cs : Storage → StorageConfig)
    (cl : Logger → LoggerConfig) : State :=
  { s with
    db := db
    storages := s.storages.map fun ps => ps.setConfigs (cs ps)
    loggers := s.loggers.map fun l => l.setConfigs (cl l) }

section Loops

variable {conf : PairList} {s : State} {rotate compress : CString}

/-- All storages, one after the other. -/
theorem storages_run (hnames : (s.storages.map Storage.name).Nodup)
    (hkeys : ((s.storages.flatMap Storage.entries).map Entry.key).Nodup) :
    ∃ conf' db', ∃ cs : Storage → StorageConfig,
      ((s.storages.map Storage.name).foldlM configStorage conf).run Call.exec s =
        (conf', { s with db := db', storages := s.storages.map fun ps => ps.setConfigs (cs ps) }) ∧
      Merged ((s.storages.flatMap Storage.entries).map Entry.op) conf s.db conf' db' ∧
      ∀ ps ∈ s.storages, ps.Configured (valueOf conf') (cs ps) := by
  refine storageTable.run (I := fun _ => True) (P := fun _ m ps c => ps.Configured m c)
    (fun _ _ _ _ _ hc hsame => hc.congr hsame) ?_ (List.nil_append _).symm hnames hkeys
    (fun _ _ _ _ _ _ _ _ => trivial) trivial
  intro ps _ conf s hfind _ _
  exact configStorage_run hfind

/-- All loggers, one after the other. -/
theorem loggers_run (hnames : (s.loggers.map Logger.name).Nodup)
    (hkeys : ((s.loggers.flatMap (Logger.entries rotate compress)).map Entry.key).Nodup)
    (hrotate : valueOf conf keyRotateSizeMB = some rotate)
    (hcompress : valueOf conf keyCompress = some compress)
    (hfresh : ∀ e ∈ s.loggers.flatMap (Logger.entries rotate compress),
      e.key ≠ keyRotateSizeMB ∧ e.key ≠ keyCompress) :
    ∃ conf' db', ∃ cl : Logger → LoggerConfig,
      ((s.loggers.map Logger.name).foldlM configLogger conf).run Call.exec s =
        (conf', { s with db := db', loggers := s.loggers.map fun l => l.setConfigs (cl l) }) ∧
      Merged ((s.loggers.flatMap (Logger.entries rotate compress)).map Entry.op) conf s.db conf' db' ∧
      ∀ l ∈ s.loggers, l.Configured s.env (valueOf conf') (cl l) := by
  have hl : ∀ l ∈ s.loggers, ∀ e ∈ l.entries rotate compress,
      e.key ≠ keyRotateSizeMB ∧ e.key ≠ keyCompress :=
    fun l hl e he => hfresh e (List.mem_flatMap.mpr ⟨l, hl, he⟩)
  refine loggerTable.run (P := fun e m l c => l.Configured e m c)
    (I := fun conf => valueOf conf keyRotateSizeMB = some rotate ∧
      valueOf conf keyCompress = some compress)
    (fun _ _ _ _ _ hc hsame => hc.congr hsame) ?_ (List.nil_append _).symm hnames hkeys ?_ ⟨hrotate, hcompress⟩
  · intro l hmem conf s hfind hglobal hkeysl
    exact configLogger_run hfind hglobal.1 hglobal.2 hkeysl (fun e he => (hl l hmem e he).1)
      fun e he => (hl l hmem e he).2
  · intro l hmem conf db conf' db' hm hglobal
    exact ⟨(hm.untouched fun e he => (hl l hmem e he).1).trans hglobal.1,
      (hm.untouched fun e he => (hl l hmem e he).2).trans hglobal.2⟩

end Loops

section Merge

variable (S : Setup) (overwriteConfigs : CString)

theorem Setup.entries_nodup : ((S.entries overwriteConfigs).map Entry.key).Nodup := S.keys _ _

/-- The value of a global setting behind the loop over the storages. -/
theorem global_value {es : List Entry} {conf₁ db₁ conf₂ db₂ conf₃ db₃ : PairList} {k d : CString}
    (hkeywords : (keywordEntries.map Entry.key).Nodup)
    (hapart : ∀ k ∈ keywordEntries.map Entry.key, ∀ k' ∈ es.map Entry.key, k ≠ k')
    (hm₁ : Merged ((overwritePairs overwriteConfigs).map fun p => .overwrite p.1 p.2)
      (S.confFile.getD []) S.db conf₁ db₁)
    (hm₂ : Merged (keywordEntries.map Entry.op) conf₁ db₁ conf₂ db₂)
    (hm₃ : Merged (es.map Entry.op) conf₂ db₂ conf₃ db₃)
    (hk : .setting k d false ∈ keywordEntries) :
    valueOf conf₃ k = some ((S.given overwriteConfigs k).getD d) := by
  have hgiven : valueOf conf₁ k = S.given overwriteConfigs k := by
    have hat := run_overwrites (overwritePairs overwriteConfigs)
      (view (S.confFile.getD []) S.db) k
    rw [← hm₁.view] at hat
    exact congrArg Prod.fst hat
  have hkeyword : valueOf conf₂ k = some ((valueOf conf₁ k).getD d) := by
    have hat := run_entry (m := view conf₁ db₁) hkeywords hk
    rw [← hm₂.view] at hat
    exact congrArg Prod.fst hat
  rw [hm₃.untouched, hkeyword, hgiven]
  intro e he heq
  exact hapart k (List.mem_map.mpr ⟨_, hk, rfl⟩) _ (List.mem_map_of_mem he) heq.symm

/-- The merge as a whole: the stores are merged, and all that has settings is configured by them. -/
theorem configMerge_run :
    ∃ conf' db' cs cl, (configMerge overwriteConfigs).run Call.exec S.toState =
        (conf', S.configured db' cs cl) ∧
      Merged (S.mergeOps overwriteConfigs) (S.confFile.getD []) S.db conf' db' ∧
      (∀ ps ∈ S.storages, ps.Configured (valueOf conf') (cs ps)) ∧
      ∀ l ∈ S.loggers, l.Configured S.env (valueOf conf') (cl l) := by
  let rotate := (S.given overwriteConfigs keyRotateSizeMB).getD autoValue
  let compress := (S.given overwriteConfigs keyCompress).getD defaultCompress
  have hkeys : ((keywordEntries ++ S.storages.flatMap Storage.entries ++
    S.loggers.flatMap (Logger.entries rotate compress)).map Entry.key).Nodup := S.keys rotate compress
  have hkeys' := hkeys
  rw [List.map_append, List.nodup_append, List.map_append, List.nodup_append] at hkeys'
  obtain ⟨⟨hkeywords, hstorages, hkeywordstorage⟩, hloggers, hlogger⟩ := hkeys'
  obtain ⟨conf₁, db₁, hrun₁, hm₁⟩ := steps_foldlM steps_overwrite (overwritePairs overwriteConfigs)
    (S.confFile.getD []) S.toState
  obtain ⟨conf₂, db₂, hrun₂, hm₂⟩ := steps_foldlM steps_global keywordPairs conf₁
    { S.toState with db := db₁ }
  have hnames : (S.storages.map Storage.name).Nodup := by
    rw [S.storageNames]
    decide
  obtain ⟨conf₃, db₃, cs, hrun₃, hm₃, hcs⟩ := @storages_run conf₂ { S.toState with db := db₂ }
    hnames hstorages
  -- the global settings of the loggers have their values before the loop over these
  have hoverwrites : (overwritePairs overwriteConfigs).flatMap
      (fun p => [Op.overwrite p.1 p.2]) = (overwritePairs overwriteConfigs).map
      fun p => .overwrite p.1 p.2 := List.map_eq_flatMap.symm
  have hkeywordOps : keywordPairs.flatMap (fun p => [Op.setting p.1 p.2]) =
      keywordEntries.map Entry.op := rfl
  rw [hoverwrites] at hm₁
  rw [hkeywordOps] at hm₂
  have hglobal : ∀ {k d : CString}, .setting k d false ∈ keywordEntries →
      valueOf conf₃ k = some ((S.given overwriteConfigs k).getD d) :=
    fun hk => global_value S overwriteConfigs hkeywords hkeywordstorage hm₁ hm₂ hm₃ hk
  have hfresh : ∀ e ∈ S.loggers.flatMap (Logger.entries rotate compress),
      e.key ≠ keyRotateSizeMB ∧ e.key ≠ keyCompress := by
    intro e he
    have hne : ∀ k, k ∈ keywordEntries.map Entry.key → e.key ≠ k := fun k hk heq =>
      hlogger k (List.mem_append_left _ hk) _ (List.mem_map_of_mem he) heq.symm
    exact ⟨hne _ (by decide), hne _ (by decide)⟩
  obtain ⟨conf₄, db₄, cl, hrun₄, hm₄, hcl⟩ := @loggers_run conf₃
    { S.toState with db := db₃, storages := S.storages.map fun ps => ps.setConfigs (cs ps) }
    rotate compress S.loggerNames hloggers (hglobal (by decide)) (hglobal (by decide)) hfresh
  have hlast : ∀ {e : Entry}, e ∈ S.storages.flatMap Storage.entries ∨
      e ∈ S.loggers.flatMap (Logger.entries rotate compress) →
      valueOf (confPut conf₄ keyVersion confVersion) e.key = valueOf conf₄ e.key := by
    intro e he
    have hversion : keyVersion ∈ keywordEntries.map Entry.key := by decide
    rw [confPut_lookup, if_neg]
    rcases he with he | he
    · exact (hkeywordstorage _ hversion _ (List.mem_map_of_mem he)).symm
    · exact (hlogger _ (List.mem_append_left _ hversion) _ (List.mem_map_of_mem he)).symm
  refine ⟨confPut conf₄ keyVersion confVersion, db₄, cs, cl, ?_, ?_, ?_, ?_⟩
  · unfold configMerge
    rw [Prog.invoke_bind, Prog.run_call]
    dsimp only [Call.exec]
    rw [Prog.run_bind, hrun₁]
    dsimp only
    rw [Prog.run_bind, hrun₂]
    dsimp only
    rw [Prog.run_bind, ← S.storageNames, hrun₃]
    dsimp only
    rw [Prog.invoke_bind, Prog.run_call]
    dsimp only [Call.exec]
    rw [Prog.run_bind, hrun₄]
    rfl
  · have hentries : (S.entries overwriteConfigs).map Entry.op =
        keywordEntries.map Entry.op ++ (S.storages.flatMap Storage.entries).map Entry.op ++
          (S.loggers.flatMap (Logger.entries rotate compress)).map Entry.op := by
      rw [← List.map_append, ← List.map_append]
      rfl
    unfold State.mergeOps
    rw [hentries]
    refine (hm₁.trans ?_).trans merged_describe
    exact (hm₂.trans hm₃).trans hm₄
  · intro ps hps
    refine (hcs ps hps).congr fun e he => ?_
    have hmem : e ∈ S.storages.flatMap Storage.entries := List.mem_flatMap.mpr ⟨ps, hps, he⟩
    rw [hlast (.inl hmem), hm₄.untouched]
    intro e' he' heq
    exact hlogger _ (List.mem_append_right _ (List.mem_map_of_mem hmem)) _
      (List.mem_map_of_mem he') heq.symm
  · intro l hl
    exact (hcl l hl).congr fun e (he : e ∈ l.entries rotate compress) =>
      hlast (.inr (List.mem_flatMap.mpr ⟨l, hl, he⟩))

/-! ## One key -/

/-- The copy of a key before the settings are gone through. -/
def State.copied (s : State) (overwriteConfigs key : CString) : Option CString :=
  (lastOf (overwritePairs overwriteConfigs) key).or (valueOf s.db (sysKey key))

variable {S overwriteConfigs} {conf' db' : PairList}

theorem version_mem (S : Setup) (overwriteConfigs : CString) :
    .setting keyVersion confVersion false ∈ S.entries overwriteConfigs :=
  List.mem_append_left _ (List.mem_append_left _ (by decide))

/-- What a key has before the defaults. -/
theorem Setup.given_at (S : Setup) (overwriteConfigs k : CString) :
    (Overlay.run ((overwritePairs overwriteConfigs).map fun p => .overwrite p.1 p.2)
      (view (S.confFile.getD []) S.db)).at k =
      (S.given overwriteConfigs k, S.copied overwriteConfigs k) := run_overwrites _ _ _

/-- The version is written in any case. -/
theorem describe_version_at (m : Stores CString CString) (k : CString) :
    (Overlay.run [.describe keyVersion confVersion] m).at k =
      if k = keyVersion then (some confVersion, m.copy k) else m.at k := by
  by_cases hk : k = keyVersion
  · rw [if_pos hk]
    exact run_one_at.trans (if_pos hk.symm)
  · rw [if_neg hk]
    exact run_one_at.trans (if_neg (Ne.symm hk))

/-- What a key of the program comes to. -/
theorem merge_entry
    (hm : Merged (S.mergeOps overwriteConfigs) (S.confFile.getD []) S.db conf' db') {e : Entry}
    (he : e ∈ S.entries overwriteConfigs) (hversion : e.key ≠ keyVersion) :
    (view conf' db').at e.key =
      e.op.cell (S.given overwriteConfigs e.key, S.copied overwriteConfigs e.key) := by
  rw [hm.view, State.mergeOps, run_append, describe_version_at, if_neg hversion, run_append,
    run_entry (S.entries_nodup overwriteConfigs) he, S.given_at]

theorem merge_unknown
    (hm : Merged (S.mergeOps overwriteConfigs) (S.confFile.getD []) S.db conf' db') {k : CString}
    (hk : ∀ e ∈ S.entries overwriteConfigs, e.key ≠ k) :
    (view conf' db').at k = (S.given overwriteConfigs k, S.copied overwriteConfigs k) := by
  have hversion : k ≠ keyVersion := fun heq =>
    hk _ (version_mem S overwriteConfigs) heq.symm
  rw [hm.view, State.mergeOps, run_append, describe_version_at, if_neg hversion, run_append,
    run_no_entry hk, S.given_at]

/-- The version that is stored is the program's; the copy is of the version found. -/
theorem merge_version
    (hm : Merged (S.mergeOps overwriteConfigs) (S.confFile.getD []) S.db conf' db') :
    (view conf' db').at keyVersion =
      (some confVersion, some ((S.given overwriteConfigs keyVersion).getD confVersion)) := by
  have hentry : ∀ m : Stores CString CString,
      (Overlay.run ((S.entries overwriteConfigs).map Entry.op) m).at keyVersion =
        (Entry.setting keyVersion confVersion false).op.cell (m.at keyVersion) :=
    fun m => run_entry (S.entries_nodup overwriteConfigs) (version_mem S overwriteConfigs)
  have hcopy := congrArg Prod.snd (hentry (Overlay.run
    ((overwritePairs overwriteConfigs).map fun p => .overwrite p.1 p.2)
    (view (S.confFile.getD []) S.db)))
  rw [S.given_at] at hcopy
  rw [hm.view, State.mergeOps, run_append, describe_version_at, if_pos rfl, run_append]
  exact congrArg (some confVersion, ·) hcopy

end Merge

end AndroidLearn.Logctl
