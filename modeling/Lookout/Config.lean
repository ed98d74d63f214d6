import Lookout.Settings
/-!
# Lookout — the configuration layers

Before it fans an event out, `HandleReview` (and `HandlePush`, whose first
lines are the same) resolves the configuration of every analyzer from three
layers: the `Config` each registered analyzer has on the server, the
organization's default configuration from the database, and the
repository's `.lookout.yml`. `parseConfig` fills every registered name into
both layers before they meet, so `mergeConfigs` always finds the
organization entry and keeps its fields, merging only the settings.

`configOf_eventConfig` says what the merged map holds for each registered
analyzer. From it: the repository's `disabled` never reaches the fan-out once
a repository file exists (`skipped_eventConfig`), and the settings a task
hands to `send` are `mergeSettings S (mergeMaps O' R')`, with a layer that
does not mention the analyzer standing in as its server settings
(`taskSettings_eventConfig`). These are not the layers folded in order
(`taskSettings_not_layered`): a repository file that does not mention the
analyzer resets the organization's settings to the server's, and nested
mappings, which the YAML decoder hands over as `map[interface{}]interface{}`,
are replaced, not merged.
-/

namespace Lookout

/-- `lookout.AnalyzerConfig`. -/
structure AnalyzerConfig where
  name : String
  addr : String
  disabled : Bool
  feedback : String
  settings : Settings
  deriving Inhabited

/-- The zero `AnalyzerConfig`, which a lookup of a missing name yields. -/
def AnalyzerConfig.zero : AnalyzerConfig := ⟨"", "", false, "", []⟩

/-- `map[string]lookout.AnalyzerConfig`. -/
abbrev ConfigMap := List (String × AnalyzerConfig)

/-- `Server.analyzers`, each registered name with its analyzer's `Config`.
A Go map: no name twice. -/
structure Registry where
  analyzers : ConfigMap
  nodup : (keys analyzers).Nodup

/-- One entry of the parsed file, kept when its analyzer is registered. -/
def parseConfigStep (r : Registry) (res : ConfigMap) (aConf : AnalyzerConfig) : ConfigMap :=
  if aConf.name ∈ keys r.analyzers then setKey aConf.name aConf res else res

/-- `Server.parseConfig`, from what the YAML decoder made of the file: every
registered analyzer's `Config`, replaced by the file's entries for it. -/
def parseConfig (r : Registry) : Except String (List AnalyzerConfig) → Except String ConfigMap
  | .error err => .error s!"can't parse configuration file: {err}"
  | .ok conf => .ok (conf.foldl (parseConfigStep r) r.analyzers)

/-- What the data service gave for `.lookout.yml` at the head revision. -/
inductive ConfigFile where
  /-- `GetFiles` failed. -/
  | getFilesFailed (err : String)
  /-- The scanner ended with an error. -/
  | scanFailed (err : String)
  /-- The file's content, empty when there is no such file. -/
  | content (bytes : String)

/-- `Server.getConfig`. A missing or empty file gives the nil map. -/
def getConfig (decode : String → Except String (List AnalyzerConfig)) (r : Registry)
    (head : String) : ConfigFile → Except String ConfigMap
  | .getFilesFailed err => .error s!"Can't get .lookout.yml in revision {head}: {err}"
  | .scanFailed err => .error err
  | .content bytes =>
    if bytes.isEmpty then .ok [] else
      match parseConfig r (decode bytes) with
      | .error err => .error s!"failed to get the local .lookout.yml file from the repository: {err}"
      | .ok conf => .ok conf

/-- `Server.getOrgConfig`, from what `OrganizationOperator.Config` returned. -/
def getOrgConfig (decode : String → Except String (List AnalyzerConfig)) (r : Registry) :
    Except String String → Except String ConfigMap
  | .error err => .error s!"could not load default configuration for organization from the DB: {err}"
  | .ok content =>
    match parseConfig r (decode content) with
    | .error err => .error s!"failed to get the organization default configuration from the DB: {err}"
    | .ok conf => .ok conf

/-- One entry of the local map, merged into `merged`. -/
def mergeConfigsStep (merged : ConfigMap) : String × AnalyzerConfig → ConfigMap
  | (k, v) =>
    match merged.lookup k with
    | some globalV => setKey k { globalV with settings := mergeMaps globalV.settings v.settings } merged
    | none => setKey k v merged

/-- `mergeConfigs(global, local)`. -/
def mergeConfigs (global «local» : ConfigMap) : ConfigMap :=
  if «local».isEmpty then global else if global.isEmpty then «local» else
    «local».foldl mergeConfigsStep global

/-- The configuration `HandleReview` and `HandlePush` resolve before the
fan-out: the repository layer, then the organization layer, then their merge. -/
def eventConfig (decode : String → Except String (List AnalyzerConfig)) (r : Registry)
    (head : String) (file : ConfigFile) (org : Except String String) : Except String ConfigMap := do
  let repoConf ← getConfig decode r head file
  let orgConf ← getOrgConfig decode r org
  return mergeConfigs orgConf repoConf

/-- `conf[name]`: a missing name reads as the zero config. -/
def configOf (conf : ConfigMap) (name : String) : AnalyzerConfig :=
  (conf.lookup name).getD .zero

/-- Whether `concurrentRequest` skips the registered analyzer `name`, whose
`Config` is `a`, instead of sending it the event. -/
def skipped (conf : ConfigMap) (name : String) (a : AnalyzerConfig) : Bool :=
  a.disabled || (configOf conf name).disabled

/-- The settings the task for `name` hands to `send`. -/
def taskSettings (conf : ConfigMap) (name : String) (a : AnalyzerConfig) : Settings :=
  mergeSettings a.settings (configOf conf name).settings

/-- The entry a configuration file gives `name`: its last mention there. -/
def layerEntry (conf : List AnalyzerConfig) (name : String) : Option AnalyzerConfig :=
  (conf.filter fun c => c.name = name).getLast?

/-- The `Config` a layer gives a registered analyzer: its last entry in the
layer's file, or its `Config` on the server. -/
def layerConfig (conf : List AnalyzerConfig) (name : String) (a : AnalyzerConfig) : AnalyzerConfig :=
  (layerEntry conf name).getD a

/-! ## Reading the layers back -/

variable {r : Registry} {n : String} {a : AnalyzerConfig}

theorem layerEntry_append_single (conf : List AnalyzerConfig) (c : AnalyzerConfig) :
    layerEntry (conf ++ [c]) n = if c.name = n then some c else layerEntry conf n := by
  by_cases h : c.name = n <;> simp [layerEntry, h, List.getLast?_append]

/-- **What `parseConfig` leaves for a registered analyzer**: its last entry
in the file, or what the map held. -/
theorem lookup_parseConfig_fold (hn : n ∈ keys r.analyzers) (conf : List AnalyzerConfig)
    (m : ConfigMap) :
    (conf.foldl (parseConfigStep r) m).lookup n = (layerEntry conf n).or (m.lookup n) := by
  induction conf using List.reverseRecOn with
  | nil => rfl
  | append_singleton conf c ih =>
    rw [List.foldl_append, List.foldl_cons, List.foldl_nil, layerEntry_append_single, parseConfigStep]
    by_cases hc : c.name = n
    · subst hc; simp [lookup_setKey, hn]
    · split_ifs <;> simp [lookup_setKey, Ne.symm hc, ih]

theorem lookup_mergeConfigsStep_of_ne {g : ConfigMap} {k : String} {v : AnalyzerConfig} (h : n ≠ k) :
    (mergeConfigsStep g (k, v)).lookup n = g.lookup n := by
  rw [mergeConfigsStep]; split <;> simp [lookup_setKey, h]

theorem lookup_mergeConfigsStep_self {g : ConfigMap} {k : String} {v : AnalyzerConfig} :
    (mergeConfigsStep g (k, v)).lookup k =
      some ((g.lookup k).elim v fun gv => { gv with settings := mergeMaps gv.settings v.settings }) := by
  rw [mergeConfigsStep]; split <;> simp [lookup_setKey, *]

/-- `mergeConfigs` folds each local entry into the global map. -/
theorem lookup_mergeConfigs_fold {l : ConfigMap} (hl : (keys l).Nodup) (g : ConfigMap) :
    (l.foldl mergeConfigsStep g).lookup n =
      match l.lookup n, g.lookup n with
      | some v, some gv => some { gv with settings := mergeMaps gv.settings v.settings }
      | some v, none => some v
      | none, x => x := by
  induction l generalizing g with
  | nil => simp
  | cons e rest ih =>
    obtain ⟨k, v⟩ := e
    simp only [keys_cons, List.nodup_cons] at hl
    rw [List.foldl_cons, ih hl.2]
    by_cases hk : n = k
    · subst hk
      rw [lookup_eq_none hl.1, lookup_mergeConfigsStep_self]
      cases g.lookup n <;> simp [List.lookup_cons]
    · simp [lookup_mergeConfigsStep_of_ne hk, List.lookup_cons, beq_false_of_ne hk]


theorem keys_parseConfig_fold (conf : List AnalyzerConfig) {m : ConfigMap}
    (hm : keys m = keys r.analyzers) : keys (conf.foldl (parseConfigStep r) m) = keys r.analyzers := by
  induction conf generalizing m with
  | nil => exact hm
  | cons c conf ih =>
    refine ih ?_
    rw [parseConfigStep]
    split_ifs with h
    · rw [keys_setKey_of_mem (hm ▸ r.nodup) (hm ▸ h), hm]
    · exact hm

theorem isEmpty_of_lookup {α : Type} {m : List (String × α)} {x : α} (h : m.lookup n = some x) : m.isEmpty = false := by
  cases m <;> simp_all

theorem lookup_fill (hn : r.analyzers.lookup n = some a) (conf : List AnalyzerConfig) :
    (conf.foldl (parseConfigStep r) r.analyzers).lookup n = some (layerConfig conf n a) := by
  rw [lookup_parseConfig_fold (mem_keys_of_mem (mem_of_lookup_eq_some hn)), hn, layerConfig]
  cases layerEntry conf n <;> rfl

/-- With both files parsing, the configuration step succeeds. -/
theorem eventConfig_ok {decode : String → Except String (List AnalyzerConfig)} {head bytes org : String}
    {repoConf orgConf : List AnalyzerConfig}
    (hr : bytes.isEmpty = false → decode bytes = .ok repoConf) (ho : decode org = .ok orgConf) :
    ∃ conf, eventConfig decode r head (.content bytes) (.ok org) = .ok conf := by
  simp only [eventConfig, getConfig, getOrgConfig, parseConfig, ho, bind, Except.bind, pure, Except.pure]
  cases hb : bytes.isEmpty
  · simp [hr hb]
  · simp

/-- **The configuration an event resolves, per analyzer.** Without a
repository file the organization layer is the answer; with one, the
organization entry stands, its settings merged with the repository's. -/
theorem configOf_eventConfig (hn : r.analyzers.lookup n = some a)
    {decode : String → Except String (List AnalyzerConfig)} {head bytes org : String}
    {repoConf orgConf : List AnalyzerConfig}
    (hr : bytes.isEmpty = false → decode bytes = .ok repoConf) (ho : decode org = .ok orgConf) :
    ∃ conf, eventConfig decode r head (.content bytes) (.ok org) = .ok conf ∧
      configOf conf n = if bytes.isEmpty then layerConfig orgConf n a else
        { layerConfig orgConf n a with
          settings := mergeMaps (layerConfig orgConf n a).settings (layerConfig repoConf n a).settings } := by
  have hnd (conf : List AnalyzerConfig) : (keys (conf.foldl (parseConfigStep r) r.analyzers)).Nodup := by
    rw [keys_parseConfig_fold conf rfl]; exact r.nodup
  simp only [eventConfig, getConfig, getOrgConfig, parseConfig, ho, bind, Except.bind, pure, Except.pure]
  cases hb : bytes.isEmpty
  · simp [hr hb, mergeConfigs, isEmpty_of_lookup (lookup_fill hn repoConf),
      isEmpty_of_lookup (lookup_fill hn orgConf), configOf, lookup_mergeConfigs_fold (hnd repoConf), lookup_fill hn]
  · simp [mergeConfigs, configOf, lookup_fill hn]

/-- **The repository layer never disables an analyzer.** Whatever the
repository file says, the fan-out skips a registered analyzer exactly when
its server `Config` or its organization entry disables it. -/
theorem skipped_eventConfig (hn : r.analyzers.lookup n = some a)
    {decode : String → Except String (List AnalyzerConfig)} {head bytes org : String}
    {repoConf orgConf : List AnalyzerConfig}
    (hr : bytes.isEmpty = false → decode bytes = .ok repoConf) (ho : decode org = .ok orgConf) :
    ∃ conf, eventConfig decode r head (.content bytes) (.ok org) = .ok conf ∧
      skipped conf n a = (a.disabled || (layerConfig orgConf n a).disabled) := by
  obtain ⟨conf, h, hc⟩ := configOf_eventConfig hn hr ho
  exact ⟨conf, h, by rw [skipped, hc]; split <;> rfl⟩

/-- **The settings a task hands to `send`.** The two overlay layers, each
standing in as the server settings where it has no entry for the analyzer,
merge first; the result is merged over the server settings. -/
theorem taskSettings_eventConfig (hn : r.analyzers.lookup n = some a)
    {decode : String → Except String (List AnalyzerConfig)} {head bytes org : String}
    {repoConf orgConf : List AnalyzerConfig}
    (hr : bytes.isEmpty = false → decode bytes = .ok repoConf) (ho : decode org = .ok orgConf) :
    ∃ conf, eventConfig decode r head (.content bytes) (.ok org) = .ok conf ∧
      taskSettings conf n a = mergeSettings a.settings
        (if bytes.isEmpty then (layerConfig orgConf n a).settings
         else mergeMaps (layerConfig orgConf n a).settings (layerConfig repoConf n a).settings) := by
  obtain ⟨conf, h, hc⟩ := configOf_eventConfig hn hr ho
  exact ⟨conf, h, by rw [taskSettings, hc]; split <;> rfl⟩

/-! ## `parseConfig` and `mergeConfigs` on their own -/

/-- **What `parseConfig` makes of a decoded file.** Every analyzer the server
runs keeps one entry, in the server's order: its last entry in the file, or
its server `Config` when the file has none. An entry for an analyzer the
server does not run is dropped, so no other name ever enters the map. -/
theorem parseConfig_ok (r : Registry) (conf : List AnalyzerConfig) :
    ∃ m, parseConfig r (.ok conf) = .ok m ∧ keys m = keys r.analyzers ∧
      ∀ n a, r.analyzers.lookup n = some a → m.lookup n = some (layerConfig conf n a) :=
  ⟨_, rfl, keys_parseConfig_fold conf rfl, fun _ _ hn => lookup_fill hn conf⟩

/-- Folding entries with new, distinct keys into a map appends them. -/
theorem foldl_mergeConfigsStep_of_new {l m : ConfigMap} (hl : (keys l).Nodup) (hnew : ∀ k ∈ keys l, k ∉ keys m) :
    l.foldl mergeConfigsStep m = m ++ l := by
  induction l generalizing m with
  | nil => simp
  | cons e rest ih =>
    obtain ⟨k, v⟩ := e
    simp only [keys_cons, List.nodup_cons, List.mem_cons, forall_eq_or_imp] at hl hnew
    have hstep : mergeConfigsStep m (k, v) = m ++ [(k, v)] := by
      rw [mergeConfigsStep, lookup_eq_none hnew.1]
      exact setKey_of_not_mem hnew.1
    rw [List.foldl_cons, hstep, ih hl.2 fun k' hk' => ?_]
    · simp
    · simp only [keys_append, keys_cons, keys_nil, List.mem_append, List.mem_singleton, not_or]
      exact ⟨hnew.2 k' hk', fun h => hl.1 (h ▸ hk')⟩

/-- **`mergeConfigs`'s shortcuts change nothing.** On a local map with
distinct keys, as a Go map has, returning `global` for an empty `local` and
`local` for an empty `global` gives what the merging loop gives. -/
theorem mergeConfigs_eq_foldl (g : ConfigMap) {l : ConfigMap} (hl : (keys l).Nodup) :
    mergeConfigs g l = l.foldl mergeConfigsStep g := by
  unfold mergeConfigs
  split_ifs with hlo hgl
  · rw [List.isEmpty_iff.1 hlo]; rfl
  · rw [List.isEmpty_iff.1 hgl, foldl_mergeConfigsStep_of_new hl fun _ _ => by simp, List.nil_append]
  · rfl

theorem mergeConfigs_eq_foldl_zero : (keys [("a", AnalyzerConfig.zero), ("b", .zero)]).Nodup ∧
    mergeConfigs [] [("a", .zero), ("b", .zero)] = [("a", AnalyzerConfig.zero), ("b", .zero)].foldl mergeConfigsStep [] :=
  have h : (keys [("a", AnalyzerConfig.zero), ("b", .zero)]).Nodup := by decide
  ⟨h, mergeConfigs_eq_foldl [] h⟩

/-! ## Where the settings are not the layers folded in order -/

/-- An analyzer `a` whose server settings hold `k: 1`. -/
def serverA : AnalyzerConfig := ⟨"a", "", false, "", [("k", .scalar (.int 1))]⟩

/-- A server with `a` registered. -/
def registryA : Registry := ⟨[("a", serverA)], by decide⟩

/-- The organization's entry for `a`, setting `k: 2`. -/
def orgA : AnalyzerConfig := ⟨"a", "", false, "", [("k", .scalar (.int 2))]⟩

/-- The organization's configuration in the database. -/
def orgYamlA : String := "analyzers: [{name: a, settings: {k: 2}}]"

/-- A repository `.lookout.yml` that names no analyzer. -/
def repoYamlA : String := "analyzers: []"

/-- What the YAML decoder makes of the two files. -/
def decodeA (content : String) : Except String (List AnalyzerConfig) :=
  if content = orgYamlA then .ok [orgA] else .ok []

theorem taskSettings_eventConfig_registryA :
    registryA.analyzers.lookup "a" = some serverA ∧
      (repoYamlA.isEmpty = false → decodeA repoYamlA = .ok []) ∧ decodeA orgYamlA = .ok [orgA] ∧
      ∃ conf, eventConfig decodeA registryA "HEAD" (.content repoYamlA) (.ok orgYamlA) = .ok conf ∧
        taskSettings conf "a" serverA = mergeSettings serverA.settings
          (if repoYamlA.isEmpty then (layerConfig [orgA] "a" serverA).settings
           else mergeMaps (layerConfig [orgA] "a" serverA).settings (layerConfig [] "a" serverA).settings) :=
  ⟨rfl, fun _ => rfl, rfl, taskSettings_eventConfig (r := registryA) (n := "a") (a := serverA) rfl (fun _ => rfl) rfl⟩

/-- The organization's entry for `a`, setting `k` to the nested mapping
`{x: 1}`, as the YAML decoder hands it over. -/
def orgNestedA : AnalyzerConfig := ⟨"a", "", false, "", [("k", .imap [(.scalar (.str "x"), .scalar (.int 1))])]⟩

/-- The repository's entry for `a`, setting `k` to the nested mapping `{w: 2}`. -/
def repoNestedA : AnalyzerConfig := ⟨"a", "", false, "", [("k", .imap [(.scalar (.str "w"), .scalar (.int 2))])]⟩

/-- The organization's configuration with a nested mapping. -/
def orgYamlNestedA : String := "analyzers: [{name: a, settings: {k: {x: 1}}}]"

/-- A repository `.lookout.yml` with a nested mapping. -/
def repoYamlNestedA : String := "analyzers: [{name: a, settings: {k: {w: 2}}}]"

/-- What the YAML decoder makes of the two files with nested mappings. -/
def decodeNestedA (content : String) : Except String (List AnalyzerConfig) :=
  if content = orgYamlNestedA then .ok [orgNestedA] else if content = repoYamlNestedA then .ok [repoNestedA] else .ok []

/-- **The settings a task hands to `send` are not the layers folded in
order.** A repository file with no entry for `a` still replaces the
organization's `k: 2` by the server's `k: 1`, where the fold skips the
repository layer and keeps `k: 2`. And where the organization sets `k` to
the nested mapping `{x: 1}` and the repository to `{w: 2}`, the task is
handed `k: {w: 2}`: `mergeMaps` merges only `map[string]interface{}` values,
so the nested mapping is replaced and `x` is lost, where the deep merge
keeps it. -/
theorem taskSettings_not_layered :
    (decodeA repoYamlA = .ok [] ∧ decodeA orgYamlA = .ok [orgA] ∧
      orgA.settings.lookup "k" = some (.scalar (.int 2)) ∧
      ∃ conf, eventConfig decodeA registryA "HEAD" (.content repoYamlA) (.ok orgYamlA) = .ok conf ∧
        (taskSettings conf "a" serverA).lookup "k" = some (.scalar (.int 1))) ∧
    (decodeNestedA repoYamlNestedA = .ok [repoNestedA] ∧ decodeNestedA orgYamlNestedA = .ok [orgNestedA] ∧
      orgNestedA.settings.lookup "k" = some (.imap [(.scalar (.str "x"), .scalar (.int 1))]) ∧
      repoNestedA.settings.lookup "k" = some (.imap [(.scalar (.str "w"), .scalar (.int 2))]) ∧
      ∃ conf, eventConfig decodeNestedA registryA "HEAD" (.content repoYamlNestedA) (.ok orgYamlNestedA) = .ok conf ∧
        (taskSettings conf "a" serverA).lookup "k" = some (.imap [(.scalar (.str "w"), .scalar (.int 2))])) :=
  ⟨⟨rfl, rfl, rfl, _, rfl, rfl⟩, rfl, rfl, rfl, rfl, _, rfl, rfl⟩

end Lookout
