import AndroidLearn.Logctl.Merge
import AndroidLearn.Logctl.System

/-!
# The contract of `config_load`

`MergeContract` is what the store and the copies owe to the overwrites, the file and the
defaults after a `config_load` of `logctl.c`: an overwrite wins over the file and the file
over the default (`precedence`), the version is that of the program, the copies say what
is in the store, and a second `config_load` right after it changes nothing. The second one
reads what the first has left (`State.left`), which is a new file if it was told to write
one (`State.saves`).

What `Merge` says of one key is gathered in `Loaded`, and each part of the contract is
argued from it. A second load is the first one again on what is due (`Loaded.again`); what
the file carries to it is what a line can carry (`Conf.File`).

Theorem: `mergeContract_iff` says when `config_load` keeps the contract: not when it finds
another version, of which it keeps the copy; not when it cuts a default in `tmp`; not when
it finds another description of a setting than its own; and not when it writes a file that
cannot carry the names, or the values that count (`State.Carried`).
-/

namespace AndroidLearn.Logctl

open Thread Conf Overlay

/-! ## The contract -/

/-- The value a key is due: of the overwrites, the file, the defaults, the first that
has it. -/
def State.due (s : State) (overwriteConfigs key : CString) : Option CString :=
  (s.given overwriteConfigs key).or
    (((s.entries overwriteConfigs).find? fun e => e.key = key).map Entry.text)

theorem trimmed_keyVersion : Trimmed keyVersion where
  head c hc := by
    obtain rfl : 'V' = c := Option.some.inj hc
    decide
  last c hc := by
    obtain rfl : 'n' = c := Option.some.inj hc
    decide

theorem trimmed_confVersion : Trimmed confVersion where
  head c hc := by
    obtain rfl : '3' = c := Option.some.inj hc
    decide
  last c hc := by
    obtain rfl : '3' = c := Option.some.inj hc
    decide

/-- The store `config_load` makes up. -/
def State.store (s : State) (overwriteConfigs : CString) : PairList :=
  ((configMerge overwriteConfigs).run Call.exec s).1

/-- The state `config_load` leaves. -/
def State.left (s : State) (updateToFile : Bool) (overwriteConfigs : CString) : State :=
  ((configLoad updateToFile overwriteConfigs).run Call.exec s).2

/-- What the merge is to do. -/
structure MergeContract (s : State) (updateToFile : Bool) (overwriteConfigs : CString) : Prop where
  precedence : ∀ k, k ≠ keyVersion →
    valueOf (s.store overwriteConfigs) k = s.due overwriteConfigs k
  version : valueOf (s.store overwriteConfigs) keyVersion = some confVersion
  /-- every setting has a copy -/
  copied : ∀ k d t, .setting k d t ∈ s.entries overwriteConfigs →
    (valueOf (s.left updateToFile overwriteConfigs).db (sysKey k)).isSome
  /-- whatever has a copy agrees with it -/
  copies : ∀ k v w, valueOf (s.store overwriteConfigs) k = some v →
    valueOf (s.left updateToFile overwriteConfigs).db (sysKey k) = some w → w = v
  again : ∀ k, valueOf ((s.left updateToFile overwriteConfigs).store overwriteConfigs) k =
    valueOf (s.store overwriteConfigs) k

/-- The store goes to the file. -/
def State.saves (s : State) (updateToFile : Bool) : Prop :=
  updateToFile = true ∧ s.env.canSave = true

/-- A weight and an overload that are not configured are read back as they are. -/
structure Logger.Rereads (s : State) (overwriteConfigs : CString) (l : Logger) : Prop where
  weight : s.given overwriteConfigs (loggerConfigKey l.name keyWeight) = none →
    tmp16 (s.env.weightText (tmp16 l.weight)) = tmp16 l.weight
  overload : s.given overwriteConfigs (loggerConfigKey l.name keyOverload) = none → 0 ≤ l.overload

/-- What the settings themselves are to meet. -/
structure Settles (s : State) (updateToFile : Bool) (overwriteConfigs : CString) : Prop where
  fits : ∀ k d, .setting k d true ∈ s.entries overwriteConfigs →
    s.given overwriteConfigs k = none → d.length ≤ 15
  version : ∀ v, s.given overwriteConfigs keyVersion = some v → v = confVersion
  described : ∀ k text, .describe k text ∈ s.entries overwriteConfigs →
    ∀ v, s.given overwriteConfigs k = some v → v = text
  /-- the flag `loaded` is kept among the copies -/
  loaded : ∀ v, s.due overwriteConfigs keyLoaded = some v → v = ['1']
  /-- no old copy of a key that gets no new one -/
  stale : ∀ k, k ≠ keyLoaded → (∀ d t, .setting k d t ∉ s.entries overwriteConfigs) →
    lastOf (overwritePairs overwriteConfigs) k = none →
    ∀ v w, s.due overwriteConfigs k = some v → valueOf s.db (sysKey k) = some w → w = v
  rereads : ¬ s.saves updateToFile → ∀ l ∈ s.loggers, l.Rereads s overwriteConfigs

/-- Each pair that is due has a line in the file that is read as one of its name. -/
def State.Named (s : State) (overwriteConfigs : CString) : Prop :=
  ∀ k v, s.due overwriteConfigs k = some v → (ConfPair.mk k v).Named

/-- The next `config_load` takes the value of the key from the file. -/
def State.Rests (s : State) (overwriteConfigs k : CString) : Prop :=
  lastOf (overwritePairs overwriteConfigs) k = none ∧
    ∀ text, .describe k text ∉ s.entries overwriteConfigs

/-- The lines of the file carry the pairs that are due; of what is set anew each time, they
need carry the name alone. -/
structure State.Carried (s : State) (overwriteConfigs : CString) : Prop where
  named : s.Named overwriteConfigs
  trimmed : ∀ k v, s.due overwriteConfigs k = some v → s.Rests overwriteConfigs k → Trimmed v

/-- The condition under which it does. -/
structure KeepsContract (s : State) (updateToFile : Bool) (overwriteConfigs : CString) : Prop
    extends Settles s updateToFile overwriteConfigs where
  carried : s.saves updateToFile → s.Carried overwriteConfigs

/-! ## The state that is left -/

section Left

variable (S : Setup) (updateToFile : Bool) (overwriteConfigs : CString)

/-- The file as `config_load` leaves it. -/
def State.leftFile (s : State) (updateToFile : Bool) (overwriteConfigs : CString) :
    Option PairList :=
  if updateToFile = true ∧ s.env.canSave = true then
    some (Conf.confLoadFromFile (Conf.confSaveToFile (s.store overwriteConfigs)))
  else s.confFile

/-- What `config_load` did: the steps to the store and the database, what the tables are
configured with, and the flag at the end. -/
structure Loaded (s : State) (updateToFile : Bool) (overwriteConfigs : CString) (db : PairList)
    (cs : Storage → StorageConfig) (cl : Logger → LoggerConfig) : Prop where
  merged : Merged (s.mergeOps overwriteConfigs) (s.confFile.getD []) s.db
    (s.store overwriteConfigs) db
  storages : ∀ ps ∈ s.storages, ps.Configured (valueOf (s.store overwriteConfigs)) (cs ps)
  loggers : ∀ l ∈ s.loggers, l.Configured s.env (valueOf (s.store overwriteConfigs)) (cl l)
  left : s.left updateToFile overwriteConfigs =
    { s.configured (confPut db (sysKey keyLoaded) ['1']) cs cl with
      confFile := s.leftFile updateToFile overwriteConfigs }

/-- What `config_load` leaves. -/
theorem Setup.loaded : ∃ db cs cl, Loaded S.toState updateToFile overwriteConfigs db cs cl := by
  obtain ⟨conf', db, cs, cl, hrun, hmerged, hcs, hcl⟩ := configMerge_run S overwriteConfigs
  have hstore : S.store overwriteConfigs = conf' := by
    unfold State.store
    rw [hrun]
  rw [← hstore] at hmerged hcs hcl
  refine ⟨db, cs, cl, hmerged, hcs, hcl, ?_⟩
  unfold State.left configLoad
  rw [Prog.run_bind, hrun, ← hstore]
  unfold State.leftFile onlyIf
  cases updateToFile with
  | false => rfl
  | true =>
    have hcan : (S.configured db cs cl).env.canSave = S.env.canSave := rfl
    rw [if_pos rfl, Prog.invoke_bind, Prog.run_call]
    dsimp only [Call.exec]
    rw [hcan]
    by_cases hsave : S.env.canSave = true
    · rw [if_pos hsave, if_pos ⟨rfl, hsave⟩]
      rfl
    · rw [if_neg hsave, if_neg fun h => hsave h.2]
      rfl

end Left

/-! ## What becomes of a key -/

section Key

variable {S : Setup} {updateToFile : Bool} {overwriteConfigs : CString} {db : PairList}
  {cs : Storage → StorageConfig} {cl : Logger → LoggerConfig} {k d text : CString} {t : Bool}
  {e e' : Entry}

theorem entry_eq (he : e ∈ S.entries overwriteConfigs) (he' : e' ∈ S.entries overwriteConfigs)
    (hkey : e.key = e'.key) : e = e' :=
  List.inj_on_of_nodup_map (S.entries_nodup overwriteConfigs) he he' hkey

theorem version_only (he : e ∈ S.entries overwriteConfigs) (hkey : e.key = keyVersion) :
    e = .setting keyVersion confVersion false :=
  entry_eq he (version_mem S overwriteConfigs) hkey

/-- What a key of the program is due. -/
theorem due_entry (he : e ∈ S.entries overwriteConfigs) :
    S.due overwriteConfigs e.key = some ((S.given overwriteConfigs e.key).getD e.text) := by
  have hfind : (S.entries overwriteConfigs).find? (fun e' => e'.key = e.key) = some e := by
    cases hf : (S.entries overwriteConfigs).find? (fun e' => e'.key = e.key) with
    | none =>
      rw [List.find?_eq_none] at hf
      exact absurd (decide_eq_true rfl) (hf e he)
    | some e' =>
      have hkey : e'.key = e.key := by simpa using List.find?_some hf
      rw [entry_eq (List.mem_of_find?_eq_some hf) he hkey]
  unfold State.due
  rw [hfind]
  cases S.given overwriteConfigs e.key <;> rfl

/-- What any other key is due. -/
theorem due_unknown (hk : ∀ e ∈ S.entries overwriteConfigs, e.key ≠ k) :
    S.due overwriteConfigs k = S.given overwriteConfigs k := by
  have hfind : (S.entries overwriteConfigs).find? (fun e => e.key = k) = none := by
    rw [List.find?_eq_none]
    intro e he
    simpa using hk e he
  unfold State.due
  rw [hfind, Option.map_none, Option.or_none]

/-- The value of a key that is due to have one of the texts of the program. -/
theorem entry_cases (S : Setup) (overwriteConfigs k : CString) :
    (∃ d t, .setting k d t ∈ S.entries overwriteConfigs) ∨
      (∃ text, .describe k text ∈ S.entries overwriteConfigs) ∨
      ∀ e ∈ S.entries overwriteConfigs, e.key ≠ k := by
  by_cases h : ∃ e ∈ S.entries overwriteConfigs, e.key = k
  · obtain ⟨e, he, rfl⟩ := h
    cases e with
    | setting k d t => exact .inl ⟨d, t, he⟩
    | describe k text => exact .inr (.inl ⟨text, he⟩)
  · exact .inr (.inr fun e he hkey => h ⟨e, he, hkey⟩)

variable (h : Loaded S.toState updateToFile overwriteConfigs db cs cl)

include h

/-- A setting has its value, or its default, in the store and in the copy. -/
theorem Loaded.setting_at (he : .setting k d t ∈ S.entries overwriteConfigs) (hk : k ≠ keyVersion) :
    valueOf (S.store overwriteConfigs) k =
        some ((S.given overwriteConfigs k).getD (Entry.setting k d t).stored) ∧
      valueOf db (sysKey k) =
        some ((S.given overwriteConfigs k).getD (Entry.setting k d t).stored) :=
  Prod.ext_iff.mp (merge_entry h.merged he hk)

/-- A description is in the store only. -/
theorem Loaded.describe_at (he : .describe k text ∈ S.entries overwriteConfigs) :
    valueOf (S.store overwriteConfigs) k = some text ∧
      valueOf db (sysKey k) = S.copied overwriteConfigs k := by
  have hk : k ≠ keyVersion := fun hkey => Entry.noConfusion (version_only he hkey)
  exact Prod.ext_iff.mp (merge_entry h.merged he hk)

theorem Loaded.unknown_at (hk : ∀ e ∈ S.entries overwriteConfigs, e.key ≠ k) :
    valueOf (S.store overwriteConfigs) k = S.given overwriteConfigs k ∧
      valueOf db (sysKey k) = S.copied overwriteConfigs k :=
  Prod.ext_iff.mp (merge_unknown h.merged hk)

/-- The version is that of the program in the store, and what it was in the copy. -/
theorem Loaded.version_at :
    valueOf (S.store overwriteConfigs) keyVersion = some confVersion ∧
      valueOf db (sysKey keyVersion) =
        some ((S.given overwriteConfigs keyVersion).getD confVersion) :=
  Prod.ext_iff.mp (merge_version h.merged)

/-- The database is left with the copy. -/
theorem Loaded.copy_at (hk : k ≠ keyLoaded) :
    valueOf (S.left updateToFile overwriteConfigs).db (sysKey k) = valueOf db (sysKey k) := by
  rw [h.left]
  dsimp only [State.configured]
  rw [confPut_lookup, if_neg (fun heq => hk (sysKey_inj.mp heq))]

/-- It is marked as loaded. -/
theorem Loaded.copy_loaded :
    valueOf (S.left updateToFile overwriteConfigs).db (sysKey keyLoaded) = some ['1'] := by
  rw [h.left]
  dsimp only [State.configured]
  rw [confPut_lookup, if_pos rfl]

end Key

/-! ## Loading again -/

section Again

variable {S : Setup} {updateToFile : Bool} {overwriteConfigs : CString} {db : PairList}
  {cs : Storage → StorageConfig} {cl : Logger → LoggerConfig} {k d text : CString} {t : Bool}
  {e : Entry}

/-- The entry with another default. -/
def Entry.withDefault : Entry → CString → Entry
  | setting key _ inTmp, d => setting key d inTmp
  | describe key text, _ => describe key text

/-- The keys depend neither on the global settings nor on what is configured. -/
theorem configured_keys (s : State) (db : PairList) (rotate compress rotate' compress' : CString) :
    ((s.configured db cs cl).entriesWith rotate compress).map Entry.key =
      (s.entriesWith rotate' compress').map Entry.key := by
  have hstorage : ∀ ps : Storage, (ps.setConfigs (cs ps)).entries.map Entry.key =
      ps.entries.map Entry.key := by
    intro ps
    simp only [Storage.entries, Storage.setConfigs, List.map_cons, List.map_nil, Entry.key]
  have hlogger : ∀ l : Logger, ((l.setConfigs (cl l)).entries rotate compress).map Entry.key =
      (l.entries rotate' compress').map Entry.key := by
    intro l
    simp only [Logger.entries, Logger.commonEntries, Logger.setConfigs, List.map_append,
      List.map_cons, List.map_nil, Entry.key]
  unfold State.entriesWith State.configured
  dsimp only
  simp only [List.map_append, List.map_flatMap, List.flatMap_map, hstorage, hlogger]

variable (h : Loaded S.toState updateToFile overwriteConfigs db cs cl)

include h

/-- The state that is left is a default configuration again. -/
theorem Loaded.setup : ∃ S' : Setup, S'.toState = S.left updateToFile overwriteConfigs := by
  have hnames : (S.storages.map fun ps => ps.setConfigs (cs ps)).map Storage.name =
      S.storages.map Storage.name := List.map_map
  have hloggers : (S.loggers.map fun l => l.setConfigs (cl l)).map Logger.name =
      S.loggers.map Logger.name := List.map_map
  refine ⟨⟨S.left updateToFile overwriteConfigs, ?_, ?_, ?_, ?_⟩, rfl⟩
  · rw [h.left]
    exact hnames.trans S.storageNames
  · rw [h.left]
    exact hloggers ▸ S.loggerNames
  · intro rotate compress
    rw [h.left]
    have hkeys := @configured_keys cs cl S.toState (confPut db (sysKey keyLoaded) ['1'])
      rotate compress rotate compress
    exact hkeys ▸ S.keys rotate compress
  · rw [h.left]
    show (namesOf ((S.leftFile updateToFile overwriteConfigs).getD [])).Nodup
    unfold State.leftFile
    split
    · exact confLoadFromFile_nodup _
    · exact S.fileNames

omit h in
/-- Where an entry is from. -/
theorem mem_entriesWith {s : State} {rotate compress : CString} :
    e ∈ s.entriesWith rotate compress ↔ e ∈ keywordEntries ∨ (∃ ps ∈ s.storages, e ∈ ps.entries) ∨
      ∃ l ∈ s.loggers, e ∈ l.entries rotate compress := by
  unfold State.entriesWith
  rw [List.mem_append, List.mem_append, List.mem_flatMap, List.mem_flatMap, or_assoc]

/-- Without a new file, the same is configured. -/
theorem Loaded.given_left (hs : ¬ S.saves updateToFile) (k : CString) :
    (S.left updateToFile overwriteConfigs).given overwriteConfigs k = S.given overwriteConfigs k := by
  have hfile : S.leftFile updateToFile overwriteConfigs = S.confFile := if_neg hs
  unfold State.given
  rw [h.left]
  dsimp only
  rw [hfile]

/-- The value that is stored where none is configured. -/
theorem Loaded.stored_none (he : .setting k d true ∈ S.entries overwriteConfigs)
    (hnone : S.given overwriteConfigs k = none) :
    valueOf (S.store overwriteConfigs) k = some (tmp16 d) := by
  have hk : k ≠ keyVersion := fun hkey => by
    have heq := version_only he hkey
    cases heq
  rw [(h.setting_at he hk).1, hnone]
  rfl

/-- A storage configured has the default for its priority that it was given. -/
theorem Loaded.storage_entry {ps : Storage} (hps : ps ∈ S.storages) (hmem : e ∈ ps.entries)
    (he : e ∈ S.entries overwriteConfigs) :
    ∃ d, e.withDefault d ∈ (ps.setConfigs (cs ps)).entries ∧
      (S.given overwriteConfigs e.key = none → (e.withDefault d).stored = e.stored) := by
  simp only [Storage.entries, List.mem_cons, List.not_mem_nil, or_false] at hmem
  rcases hmem with rfl | rfl | rfl
  · exact ⟨autoValue, List.mem_cons_self, fun _ => rfl⟩
  · exact ⟨autoValue, List.mem_cons_of_mem _ List.mem_cons_self, fun _ => rfl⟩
  · refine ⟨decimal (cs ps).priority,
      List.mem_cons_of_mem _ (List.mem_cons_of_mem _ List.mem_cons_self), fun hnone => ?_⟩
    obtain ⟨v, hv, hpriority⟩ := h.storages ps hps
    rw [h.stored_none he hnone, tmp16_decimal] at hv
    obtain rfl := Option.some.inj hv
    rw [atoi_decimal] at hpriority
    rw [hpriority]
    rfl

/-- A logger configured has those for its own settings. -/
theorem Loaded.logger_entry {l : Logger} {rotate compress rotate' compress' : CString}
    (hl : l ∈ S.loggers) (hmem : e ∈ l.entries rotate compress)
    (he : e ∈ S.entries overwriteConfigs) :
    ∃ d, e.withDefault d ∈ (l.setConfigs (cl l)).entries rotate' compress' ∧
      (rotate' = rotate → compress' = compress → l.Rereads S.toState overwriteConfigs →
        S.given overwriteConfigs e.key = none → (e.withDefault d).stored = e.stored) := by
  rcases List.mem_append.mp hmem with hcommon | hextra
  · simp only [Logger.commonEntries, List.mem_cons, List.not_mem_nil, or_false] at hcommon
    rcases hcommon with rfl | rfl | rfl | rfl | rfl | rfl
    · exact ⟨autoValue, List.mem_cons_self, fun _ _ _ _ => rfl⟩
    · refine ⟨_, List.mem_cons_of_mem _ List.mem_cons_self, fun hrotate _ _ _ => ?_⟩
      rw [hrotate]
      rfl
    · refine ⟨_, List.mem_cons_of_mem _ (List.mem_cons_of_mem _ List.mem_cons_self),
        fun _ hcompress _ _ => ?_⟩
      rw [hcompress]
      rfl
    · refine ⟨enableText (cl l).enabled, Logger.enable_mem _ _ _, fun _ _ _ hnone => ?_⟩
      obtain ⟨v, hv, hc⟩ := (h.loggers l hl).enabled
      rw [h.stored_none he hnone, tmp16_enableText] at hv
      obtain rfl := Option.some.inj hv
      rw [isValueTrue_enableText] at hc
      rw [hc]
      rfl
    · refine ⟨(cl l).weight, Logger.weight_mem _ _ _, fun _ _ hre hnone => ?_⟩
      obtain ⟨v, hv, hc⟩ := (h.loggers l hl).weight
      rw [h.stored_none he hnone] at hv
      obtain rfl := Option.some.inj hv
      rw [hc]
      exact hre.weight hnone
    · refine ⟨decimal (cl l).overload, Logger.overload_mem _ _ _, fun _ _ hre hnone => ?_⟩
      obtain ⟨v, hv, hc⟩ := (h.loggers l hl).overload
      rw [h.stored_none he hnone, tmp16_decimal] at hv
      obtain rfl := Option.some.inj hv
      rw [atoi_decimal] at hc
      rw [max_zero_eq_iff.mpr (hre.overload hnone)] at hc
      rw [hc]
      rfl
  · have hself : e.withDefault e.text = e := by cases e <;> rfl
    refine ⟨e.text, ?_, fun _ _ _ _ => by rw [hself]⟩
    rw [hself]
    exact List.mem_append_right _ hextra

/-- Every entry is there again, perhaps with another default: the same where none is
configured, if weights and overloads are read back as they are. -/
theorem Loaded.entry_left (he : e ∈ S.entries overwriteConfigs) :
    ∃ d, e.withDefault d ∈ (S.left updateToFile overwriteConfigs).entries overwriteConfigs ∧
      (¬ S.saves updateToFile → (∀ l ∈ S.loggers, l.Rereads S.toState overwriteConfigs) →
        S.given overwriteConfigs e.key = none → (e.withDefault d).stored = e.stored) := by
  have hstorages : (S.left updateToFile overwriteConfigs).storages =
      S.storages.map fun ps => ps.setConfigs (cs ps) := by
    rw [h.left]
    rfl
  have hloggers : (S.left updateToFile overwriteConfigs).loggers =
      S.loggers.map fun l => l.setConfigs (cl l) := by
    rw [h.left]
    rfl
  rcases mem_entriesWith.mp he with hk | ⟨ps, hps, hmem⟩ | ⟨l, hl, hmem⟩
  · have hself : e.withDefault e.text = e := by cases e <;> rfl
    refine ⟨e.text, ?_, fun _ _ _ => by rw [hself]⟩
    rw [hself]
    exact mem_entriesWith.mpr (.inl hk)
  · obtain ⟨d, hd, hsame⟩ := h.storage_entry hps hmem he
    have hps' : ps.setConfigs (cs ps) ∈ (S.left updateToFile overwriteConfigs).storages := by
      rw [hstorages]
      exact List.mem_map_of_mem hps
    exact ⟨d, mem_entriesWith.mpr (.inr (.inl ⟨_, hps', hd⟩)), fun _ _ => hsame⟩
  · obtain ⟨d, hd, hsame⟩ := h.logger_entry hl hmem he
    have hl' : l.setConfigs (cl l) ∈ (S.left updateToFile overwriteConfigs).loggers := by
      rw [hloggers]
      exact List.mem_map_of_mem hl
    refine ⟨d, mem_entriesWith.mpr (.inr (.inr ⟨_, hl', hd⟩)), fun hs hre hnone => ?_⟩
    refine hsame ?_ ?_ (hre l hl) hnone
    · rw [h.given_left hs]
    · rw [h.given_left hs]

/-- What is stored is what is due. -/
theorem Loaded.store_named (hnamed : S.Named overwriteConfigs)
    (hdue : ∀ k, k ≠ keyVersion →
      valueOf (S.store overwriteConfigs) k = S.due overwriteConfigs k) :
    ∀ p ∈ S.store overwriteConfigs, p.Named := by
  intro p hp
  have hlookup := (lookup_eq_some_iff (h.merged.names S.fileNames)).mpr hp
  by_cases hversion : p.name = keyVersion
  · rw [hversion, h.version_at.1] at hlookup
    have hp' : p = ⟨keyVersion, confVersion⟩ := by
      rw [Option.some.inj hlookup, ← hversion]
    rw [hp']
    exact ⟨by decide, by decide, trimmed_keyVersion, by decide, by decide, by decide, by decide⟩
  · exact hnamed p.name p.value ((hdue p.name hversion).symm.trans hlookup)

/-- What the next `config_load` finds in the file. -/
theorem Loaded.given_saved (hs : S.saves updateToFile)
    (hnamed : ∀ p ∈ S.store overwriteConfigs, p.Named)
    (hlast : lastOf (overwritePairs overwriteConfigs) k = none) :
    (S.left updateToFile overwriteConfigs).given overwriteConfigs k =
      (valueOf (S.store overwriteConfigs) k).map fun v => strtrim (' ' :: v) := by
  have hfile : S.leftFile updateToFile overwriteConfigs =
      some (confLoadFromFile (confSaveToFile (S.store overwriteConfigs))) := if_pos hs
  unfold State.given
  rw [h.left, hlast, Option.none_or]
  dsimp only
  rw [hfile, Option.getD_some]
  exact (loaded_named (h.merged.names S.fileNames) hnamed).2 k

/-- A saved store is configured as it is, where the program does not put its own text. -/
theorem Loaded.given_carried (hs : S.saves updateToFile) (hcarried : S.Carried overwriteConfigs)
    (hdue : ∀ k, k ≠ keyVersion →
      valueOf (S.store overwriteConfigs) k = S.due overwriteConfigs k)
    (hversion : k ≠ keyVersion) (htext : ∀ text, .describe k text ∉ S.entries overwriteConfigs) :
    (S.left updateToFile overwriteConfigs).given overwriteConfigs k =
      valueOf (S.store overwriteConfigs) k := by
  cases hlast : lastOf (overwritePairs overwriteConfigs) k with
  | some x =>
    have hgiven : ∀ s : State, s.given overwriteConfigs k = some x := by
      intro s
      unfold State.given
      rw [hlast]
      rfl
    rw [hgiven, hdue k hversion, State.due, hgiven]
    rfl
  | none =>
    rw [h.given_saved hs (h.store_named hcarried.named hdue) hlast]
    cases hv : valueOf (S.store overwriteConfigs) k with
    | none => rfl
    | some v =>
      have htrimmed := hcarried.trimmed k v ((hdue k hversion).symm.trans hv) ⟨hlast, htext⟩
      exact congrArg some (htrimmed.strtrim_cons (by decide))

/-- Whatever is left, the keys are the same. -/
theorem Loaded.unknown_left (hk : ∀ e ∈ S.entries overwriteConfigs, e.key ≠ k) :
    ∀ e ∈ (S.left updateToFile overwriteConfigs).entries overwriteConfigs, e.key ≠ k := by
  have hkeys : ((S.left updateToFile overwriteConfigs).entries overwriteConfigs).map Entry.key =
      (S.entries overwriteConfigs).map Entry.key := by
    unfold State.entries
    rw [h.left]
    exact configured_keys _ db _ _ _ _
  intro e he hek
  have hmem := List.mem_map_of_mem (f := Entry.key) he
  rw [hkeys] at hmem
  obtain ⟨e', he', hkey⟩ := List.mem_map.mp hmem
  exact hk e' he' (hkey.trans hek)

/-- A second load finds what the first has left. -/
theorem Loaded.again
    (hdue : ∀ k, k ≠ keyVersion →
      valueOf (S.store overwriteConfigs) k = S.due overwriteConfigs k)
    (hcarried : S.saves updateToFile → S.Carried overwriteConfigs)
    (hre : ¬ S.saves updateToFile → ∀ l ∈ S.loggers, l.Rereads S.toState overwriteConfigs)
    (k : CString) :
    valueOf ((S.left updateToFile overwriteConfigs).store overwriteConfigs) k =
      valueOf (S.store overwriteConfigs) k := by
  obtain ⟨S', hS'⟩ := h.setup
  obtain ⟨db', cs', cl', h'⟩ := S'.loaded updateToFile overwriteConfigs
  rcases entry_cases S overwriteConfigs k with ⟨d, t, he⟩ | ⟨text, he⟩ | hk
  · by_cases hversion : k = keyVersion
    · rw [← hS', hversion, h.version_at.1, h'.version_at.1]
    · obtain ⟨d', he', hstored⟩ := h.entry_left he
      rw [← hS'] at he'
      have hvalue := (h.setting_at he hversion).1
      rw [← hS', (h'.setting_at he' hversion).1, hS', hvalue]
      by_cases hs : S.saves updateToFile
      · have htext : ∀ text, .describe k text ∉ S.entries overwriteConfigs := fun text htext =>
          Entry.noConfusion (entry_eq he htext rfl)
        rw [h.given_carried hs (hcarried hs) hdue hversion htext, hvalue]
        rfl
      · rw [h.given_left hs]
        cases hnone : S.given overwriteConfigs k with
        | none => exact congrArg some (hstored hs (hre hs) hnone)
        | some v => rfl
  · obtain ⟨d', he', -⟩ := h.entry_left he
    rw [← hS'] at he'
    rw [← hS', (h.describe_at he).1, (h'.describe_at he').1]
  · have hk' := h.unknown_left hk
    rw [← hS'] at hk'
    have hvalue := (h.unknown_at hk).1
    rw [← hS', (h'.unknown_at hk').1, hS', hvalue]
    by_cases hs : S.saves updateToFile
    · have hversion : k ≠ keyVersion := fun heq =>
        hk _ (version_mem S overwriteConfigs) heq.symm
      exact (h.given_carried hs (hcarried hs) hdue hversion fun text htext =>
        hk _ htext rfl).trans hvalue
    · exact h.given_left hs k

end Again

/-! ## When the contract is kept -/

section Contract

variable {S : Setup} {updateToFile : Bool} {overwriteConfigs : CString}

/-- Under the condition the contract is kept. -/
theorem KeepsContract.contract (hkeep : KeepsContract S.toState updateToFile overwriteConfigs) :
    MergeContract S.toState updateToFile overwriteConfigs := by
  obtain ⟨db, cs, cl, h⟩ := S.loaded updateToFile overwriteConfigs
  have hprecedence : ∀ k, k ≠ keyVersion →
      valueOf (S.store overwriteConfigs) k = S.due overwriteConfigs k := by
    intro k hk
    rcases entry_cases S overwriteConfigs k with ⟨d, t, he⟩ | ⟨text, he⟩ | hunknown
    · refine Eq.trans ?_ (due_entry he).symm
      rw [(h.setting_at he hk).1]
      show _ = some ((S.given overwriteConfigs k).getD d)
      cases hgiven : S.given overwriteConfigs k with
      | some v => rfl
      | none =>
        cases t with
        | false => rfl
        | true => exact congrArg some (tmp16_eq_self_iff.mpr (hkeep.fits k d he hgiven))
    · refine Eq.trans ?_ (due_entry he).symm
      rw [(h.describe_at he).1]
      show _ = some ((S.given overwriteConfigs k).getD text)
      cases hgiven : S.given overwriteConfigs k with
      | none => rfl
      | some v => rw [hkeep.described k text he v hgiven, Option.getD_some]
    · rw [(h.unknown_at hunknown).1, due_unknown hunknown]
  -- a key that gets no new copy
  have hold : ∀ k v w, k ≠ keyLoaded → k ≠ keyVersion →
      (∀ d t, .setting k d t ∉ S.entries overwriteConfigs) →
      valueOf (S.store overwriteConfigs) k = some v → S.copied overwriteConfigs k = some w →
      w = v := by
    intro k v w hloaded hversion hsetting hv hw
    have hdue := (hprecedence k hversion).symm.trans hv
    cases hlast : lastOf (overwritePairs overwriteConfigs) k with
    | none =>
      unfold State.copied at hw
      rw [hlast, Option.none_or] at hw
      exact hkeep.stale k hloaded hsetting hlast v w hdue hw
    | some x =>
      unfold State.copied at hw
      rw [hlast, Option.some_or] at hw
      unfold State.due State.given at hdue
      rw [hlast, Option.some_or, Option.some_or] at hdue
      exact Option.some.inj (hw.symm.trans hdue)
  refine ⟨hprecedence, h.version_at.1, ?_, ?_,
    h.again hprecedence hkeep.carried hkeep.rereads⟩
  · intro k d t he
    by_cases hloaded : k = keyLoaded
    · rw [hloaded, h.copy_loaded]
      rfl
    · rw [h.copy_at hloaded]
      by_cases hversion : k = keyVersion
      · rw [hversion, h.version_at.2]
        rfl
      · rw [(h.setting_at he hversion).2]
        rfl
  · intro k v w hv hw
    by_cases hloaded : k = keyLoaded
    · subst hloaded
      rw [h.copy_loaded] at hw
      rw [hprecedence keyLoaded (by decide)] at hv
      rw [hkeep.loaded v hv]
      exact (Option.some.inj hw).symm
    · rw [h.copy_at hloaded] at hw
      by_cases hversion : k = keyVersion
      · subst hversion
        rw [h.version_at.1] at hv
        rw [h.version_at.2] at hw
        rw [← Option.some.inj hv, ← Option.some.inj hw]
        cases hgiven : S.given overwriteConfigs keyVersion with
        | none => rfl
        | some x => exact hkeep.version x hgiven
      · rcases entry_cases S overwriteConfigs k with ⟨d, t, he⟩ | ⟨text, he⟩ | hunknown
        · rw [(h.setting_at he hversion).1] at hv
          rw [(h.setting_at he hversion).2] at hw
          exact Option.some.inj (hw.symm.trans hv)
        · rw [(h.describe_at he).2] at hw
          refine hold k v w hloaded hversion (fun d t he' => ?_) hv hw
          exact Entry.noConfusion (entry_eq he he' rfl)
        · rw [(h.unknown_at hunknown).2] at hw
          exact hold k v w hloaded hversion (fun d t he' => hunknown _ he' rfl) hv hw

/-- What a second default says about the first, when the store is the same again. -/
theorem Loaded.stored_again {db : PairList} {cs : Storage → StorageConfig}
    {cl : Logger → LoggerConfig} (h : Loaded S.toState updateToFile overwriteConfigs db cs cl)
    (hs : ¬ S.saves updateToFile) {k d d' : CString}
    (hsame : valueOf ((S.left updateToFile overwriteConfigs).store overwriteConfigs) k =
      valueOf (S.store overwriteConfigs) k)
    (he : .setting k d true ∈ S.entries overwriteConfigs)
    (he' : .setting k d' true ∈ (S.left updateToFile overwriteConfigs).entries overwriteConfigs)
    (hnone : S.given overwriteConfigs k = none) : tmp16 d' = tmp16 d := by
  obtain ⟨S', hS'⟩ := h.setup
  obtain ⟨db', cs', cl', h'⟩ := S'.loaded updateToFile overwriteConfigs
  rw [← h.given_left hs k, ← hS'] at hnone
  have hnone' := hnone
  rw [hS', h.given_left hs] at hnone'
  rw [← hS'] at he' hsame
  rw [h'.stored_none he' hnone, h.stored_none he hnone'] at hsame
  exact Option.some.inj hsame

/-- Where the contract is kept a second load changes nothing. -/
theorem MergeContract.settles (hcontract : MergeContract S.toState updateToFile overwriteConfigs) :
    Settles S.toState updateToFile overwriteConfigs := by
  obtain ⟨db, cs, cl, h⟩ := S.loaded updateToFile overwriteConfigs
  have hloggers : (S.left updateToFile overwriteConfigs).loggers =
      S.loggers.map fun l => l.setConfigs (cl l) := by
    rw [h.left]
    rfl
  have hleft : ∀ l ∈ S.loggers, ∀ {e}, e ∈ (l.setConfigs (cl l)).entries
      (((S.left updateToFile overwriteConfigs).given overwriteConfigs keyRotateSizeMB).getD autoValue)
      (((S.left updateToFile overwriteConfigs).given overwriteConfigs keyCompress).getD
        defaultCompress) →
      e ∈ (S.left updateToFile overwriteConfigs).entries overwriteConfigs := by
    intro l hl e he
    refine mem_entriesWith.mpr (.inr (.inr ⟨_, ?_, he⟩))
    rw [hloggers]
    exact List.mem_map_of_mem hl
  refine ⟨?_, ?_, ?_, ?_, ?_, ?_⟩
  · intro k d he hnone
    have hversion : k ≠ keyVersion := fun hkey => by
      have heq := version_only he hkey
      cases heq
    have hvalue := hcontract.precedence k hversion
    rw [h.stored_none he hnone] at hvalue
    have hdue := hvalue.trans (due_entry he)
    rw [show (Entry.setting k d true).key = k from rfl, hnone] at hdue
    exact tmp16_eq_self_iff.mp (Option.some.inj hdue)
  · intro v hv
    refine hcontract.copies keyVersion confVersion v h.version_at.1 ?_
    rw [h.copy_at (by decide), h.version_at.2, hv]
    rfl
  · intro k text he v hv
    have hversion : k ≠ keyVersion := fun hkey => Entry.noConfusion (version_only he hkey)
    have hvalue := hcontract.precedence k hversion
    rw [(h.describe_at he).1] at hvalue
    have hdue := hvalue.trans (due_entry he)
    rw [show (Entry.describe k text).key = k from rfl, hv] at hdue
    exact (Option.some.inj hdue).symm
  · intro v hv
    have hstore := (hcontract.precedence keyLoaded (by decide)).trans hv
    exact (hcontract.copies keyLoaded v ['1'] hstore h.copy_loaded).symm
  · intro k hloaded hsetting hlast v w hv hw
    have hversion : k ≠ keyVersion := fun hkey =>
      hsetting _ _ (hkey ▸ version_mem S overwriteConfigs)
    have hstore := (hcontract.precedence k hversion).trans hv
    have hcopied : S.copied overwriteConfigs k = some w := by
      unfold State.copied
      rw [hlast, Option.none_or, hw]
    refine hcontract.copies k v w hstore ?_
    rw [h.copy_at hloaded]
    rcases entry_cases S overwriteConfigs k with ⟨d, t, he⟩ | ⟨text, he⟩ | hunknown
    · exact absurd he (hsetting d t)
    · rw [(h.describe_at he).2, hcopied]
    · rw [(h.unknown_at hunknown).2, hcopied]
  · intro hs l hl
    have hmem : ∀ {e}, e ∈ l.entries _ _ → e ∈ S.entries overwriteConfigs := fun he =>
      mem_entriesWith.mpr (.inr (.inr ⟨l, hl, he⟩))
    refine ⟨fun hnone => ?_, fun hnone => ?_⟩
    · have hstored := h.stored_again hs (hcontract.again _) (hmem (l.weight_mem _ _))
        (hleft l hl (Logger.weight_mem _ _ _)) hnone
      obtain ⟨v, hv, hc⟩ := (h.loggers l hl).weight
      rw [h.stored_none (hmem (l.weight_mem _ _)) hnone] at hv
      obtain rfl := Option.some.inj hv
      exact hc ▸ hstored
    · have hstored := h.stored_again hs (hcontract.again _) (hmem (l.overload_mem _ _))
        (hleft l hl (Logger.overload_mem _ _ _)) hnone
      obtain ⟨v, hv, hc⟩ := (h.loggers l hl).overload
      rw [h.stored_none (hmem (l.overload_mem _ _)) hnone] at hv
      obtain rfl := Option.some.inj hv
      rw [tmp16_decimal, atoi_decimal] at hc
      rw [tmp16_decimal, tmp16_decimal, decimal_inj] at hstored
      exact max_zero_eq_iff.mp (hc.symm.trans hstored)

/-- If each line of the file is read as one of its name, then nothing less will do. -/
theorem MergeContract.keeps (hcontract : MergeContract S.toState updateToFile overwriteConfigs)
    (hnamed : S.saves updateToFile → S.Named overwriteConfigs) :
    KeepsContract S.toState updateToFile overwriteConfigs := by
  refine ⟨hcontract.settles, fun hs => ⟨hnamed hs, fun k v hv hrests => ?_⟩⟩
  obtain ⟨db, cs, cl, h⟩ := S.loaded updateToFile overwriteConfigs
  obtain ⟨S', hS'⟩ := h.setup
  obtain ⟨db', cs', cl', h'⟩ := S'.loaded updateToFile overwriteConfigs
  by_cases hversion : k = keyVersion
  · -- the version that is due is the one that is stored
    subst hversion
    have hdue : S.due overwriteConfigs keyVersion =
        some ((S.given overwriteConfigs keyVersion).getD confVersion) :=
      due_entry (version_mem S overwriteConfigs)
    rw [hdue] at hv
    have hv' : v = confVersion := by
      cases hgiven : S.given overwriteConfigs keyVersion with
      | none =>
        rw [hgiven] at hv
        exact (Option.some.inj hv).symm
      | some x =>
        rw [hgiven] at hv
        exact (Option.some.inj hv).symm.trans (hcontract.settles.version x hgiven)
    rw [hv']
    exact trimmed_confVersion
  · have hstore := (hcontract.precedence k hversion).trans hv
    have hgiven := h.given_saved hs (h.store_named (hnamed hs) hcontract.precedence) hrests.1
    rw [hstore] at hgiven
    have hagain := (hcontract.again k).trans hstore
    rw [← hS'] at hagain hgiven
    have htrim : strtrim (' ' :: v) = v := by
      rcases entry_cases S overwriteConfigs k with ⟨d, t, he⟩ | ⟨text, he⟩ | hk
      · obtain ⟨d', he', -⟩ := h.entry_left he
        rw [← hS'] at he'
        rw [(h'.setting_at he' hversion).1, hgiven] at hagain
        exact Option.some.inj hagain
      · exact absurd he (hrests.2 text)
      · have hk' := h.unknown_left hk
        rw [← hS'] at hk'
        rw [(h'.unknown_at hk').1, hgiven] at hagain
        exact Option.some.inj hagain
    rw [← htrim]
    exact trimmed_strtrim _

/-- `config_load` keeps its contract when no default is cut, the version it finds is the current
one, no description of another text is configured, the copies it does not write agree, what it
puts into the tables of loggers is read back as it was, and, if it writes the file, the lines
there carry what is due. Each of these is needed; of the lines it is where they are read as ones
of their own names. -/
theorem mergeContract_iff (S : Setup) (updateToFile : Bool) (overwriteConfigs : CString) :
    (KeepsContract S.toState updateToFile overwriteConfigs →
      MergeContract S.toState updateToFile overwriteConfigs) ∧
    (MergeContract S.toState updateToFile overwriteConfigs →
      Settles S.toState updateToFile overwriteConfigs ∧
      ((S.saves updateToFile → S.Named overwriteConfigs) →
        KeepsContract S.toState updateToFile overwriteConfigs)) :=
  ⟨KeepsContract.contract, fun hcontract => ⟨hcontract.settles, hcontract.keeps⟩⟩

end Contract

/-! ## The built-in tables -/

/-- The keys of the built-in tables, in pieces that can be compared. -/
def builtinKeys : List CString :=
  keywordEntries.map Entry.key ++
    (Logctl.storages.map Storage.name).flatMap
      (fun name => (storageEntry name none 0).entries.map Entry.key) ++
    Logctl.loggers.flatMap fun l => (l.entries [] []).map Entry.key

/-- The program asks for no key twice. -/
theorem builtinKeys_nodup : builtinKeys.Nodup := by
  -- compared as numbers
  have hnumbers : (builtinKeys.map fun k => k.foldl (fun n c => 256 * n + c.toNat) 0).Nodup := by
    decide +kernel
  exact List.Nodup.of_map _ hnumbers

/-- The table of the storages, by name. -/
theorem init_storageNames (e : Env) (confFile : Option PairList) :
    (State.init e confFile).storages.map Storage.name = Logctl.storages.map Storage.name := by
  unfold State.init storageInit
  dsimp only
  rw [List.map_map]
  refine List.map_congr_left fun ps _ => ?_
  exact storageUpdate_name ..

/-- The keys the program asks for as it starts. -/
theorem init_keys (e : Env) (confFile : Option PairList) (rotate compress : CString) :
    ((State.init e confFile).entriesWith rotate compress).map Entry.key = builtinKeys := by
  have hstorage : (fun ps : Storage => ps.entries.map Entry.key) =
      fun ps => (storageEntry ps.name none 0).entries.map Entry.key := by
    funext ps
    simp only [Storage.entries, storageEntry, List.map_cons, List.map_nil, Entry.key]
  have hlogger : (fun l : Logger => (l.entries rotate compress).map Entry.key) =
      fun l => (l.entries [] []).map Entry.key := by
    funext l
    simp only [Logger.entries, Logger.commonEntries, List.map_append, List.map_cons, List.map_nil,
      Entry.key]
  unfold State.entriesWith builtinKeys
  rw [← init_storageNames e confFile, List.map_append, List.map_append, List.map_flatMap,
    List.map_flatMap, List.flatMap_map, hstorage, hlogger]
  rfl

/-- `logctl` with its own tables, and a file. -/
def Setup.ofFile (e : Env) (conf : PairList) (h : (namesOf conf).Nodup) : Setup where
  toState := State.init e (some conf)
  storageNames := init_storageNames e (some conf)
  loggerNames := show (Logctl.loggers.map Logger.name).Nodup by decide
  keys rotate compress := init_keys e (some conf) rotate compress ▸ builtinKeys_nodup
  fileNames := h

/-- The file of an older version: its version stays in the database. -/
theorem mergeContract_fails_version :
    ¬ ∀ (S : Setup) (updateToFile : Bool) (overwriteConfigs : CString),
      MergeContract S.toState updateToFile overwriteConfigs := by
  intro h
  have hkeep := (h (.ofFile plainEnv [⟨keyVersion, ['2']⟩] (by decide)) false []).settles
  have hversion := hkeep.version ['2'] (by decide +kernel)
  exact absurd hversion (by decide)

/-- A file of the current version, which sets the log path. -/
def currentFile : PairList := [⟨keyVersion, confVersion⟩, ⟨keyLogPath, autoValue⟩]

def currentSetup : Setup := .ofFile plainEnv currentFile (by decide)

theorem currentSetup_keeps : KeepsContract currentSetup.toState false [] where
  fits k d he _ := by
    have hall : ((currentSetup.entries []).all fun
        | .setting _ d true => decide (d.length ≤ 15)
        | _ => true) = true := by decide +kernel
    simpa using List.all_eq_true.mp hall _ he
  version v hv := by
    have hgiven : currentSetup.given [] keyVersion = some confVersion := by decide +kernel
    exact Option.some.inj (hv.symm.trans hgiven)
  described k text he v hv := by
    have hall : ((currentSetup.entries []).all fun
        | .describe k _ => (currentSetup.given [] k).isNone
        | _ => true) = true := by decide +kernel
    have hnone := List.all_eq_true.mp hall _ he
    simp [hv] at hnone
  loaded v hv := by
    have hdue : currentSetup.due [] keyLoaded = none := by decide +kernel
    exact absurd (hdue.symm.trans hv) (by simp)
  stale k _ _ _ v w _ hw := absurd hw (by simp [currentSetup, Setup.ofFile, State.init])
  rereads _ l hl := by
    have hall : (Logctl.loggers.all fun l =>
        decide (tmp16 (tmp16 l.weight) = tmp16 l.weight ∧ 0 ≤ l.overload)) = true := by
      decide +kernel
    have hl' := decide_eq_true_eq.mp (List.all_eq_true.mp hall l hl)
    exact ⟨fun _ => hl'.1, fun _ => hl'.2⟩
  carried hs := absurd hs.1 (by decide)

theorem mergeContract_iff_current : MergeContract currentSetup.toState false [] :=
  (mergeContract_iff currentSetup false []).1 currentSetup_keeps

end AndroidLearn.Logctl
