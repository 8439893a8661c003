import Autobase.JsonAscii
import Autobase.JsonRoundTrip
import Autobase.ConsoleLogWatcher
import Autobase.ObjectLiterals

/-! # The json_log callback and its reader

The plugin writes the opening bracket when it starts, an object for each recorded result and,
at the end of the playbook, a separator, the summary and the closing bracket. The watcher
decodes the file into entries of fixed types. -/
namespace JsonLogCallback

open JsonText JsonRoundTrip JsonAscii ConsoleSchema ConsoleLogEntity ConsoleLogWatcher
  TransitionRuns

inductive LogLevel where
  | info | detail | debug
  deriving DecidableEq

/-- A dictionary is the list of its items in insertion order. -/
structure Dict where
  items : List (String × Json)
  distinct : (items.map Prod.fst).Nodup

def Dict.get? (b : Dict) (key : String) : Option Json := b.items.lookup key

def Dict.get (b : Dict) (key : String) (default : Json) : Json := (b.get? key).getD default

/-- The union that keeps the places of `a` and takes the values of `b`. -/
def merged (a : List (String × Json)) (b : Dict) : List (String × Json) :=
  a.map (fun m => (m.1, b.get m.1 m.2)) ++
    b.items.filter fun m => decide (m.1 ∉ a.map Prod.fst)

structure TaskResult where
  time : String
  task : String
  host : String
  result : Dict

def itemOf (b : Dict) : List (String × Json) :=
  match b.get? "_ansible_item_label" with
  | some v => [("item", v)]
  | none =>
    match b.get? "item" with
    | some v => [("item", v)]
    | none => []

def baseResult (r : TaskResult) : List (String × Json) :=
  [("time", .str r.time), ("task", .str r.task), ("host", .str r.host)] ++ itemOf r.result

def basicResult (b : Dict) : Dict where
  items := [("changed", b.get "changed" (.bool false)), ("failed", b.get "failed" (.bool false)),
    ("msg", b.get "msg" (.str ""))]
  distinct := by simp

def detailedResult (b : Dict) : Dict where
  items := [("changed", b.get "changed" (.bool false)), ("failed", b.get "failed" (.bool false)),
    ("msg", b.get "msg" (.str "")), ("stdout", b.get "stdout" (.str "")),
    ("stderr", b.get "stderr" (.str ""))]
  distinct := by simp

def taskResultMembers (r : TaskResult) : LogLevel → List (String × Json)
  | .debug => merged (baseResult r) r.result
  | .detail => merged (baseResult r) (detailedResult r.result)
  | .info => merged (baseResult r) (basicResult r.result)

def dump (v : Json) : List Char := render (asciiLayout 4) 0 v

structure LogFile where
  text : List Char
  resultsStarted : Bool

def initialized : LogFile := ⟨['[', '\n'], false⟩

def recordTaskResult (level : LogLevel) (f : LogFile) (r : TaskResult) : LogFile where
  text := f.text ++ ((if f.resultsStarted then [',', '\n'] else []) ++
    dump (.obj (taskResultMembers r level)))
  resultsStarted := true

structure HostSummary where
  ok : ℕ
  failures : ℕ
  unreachable : ℕ
  changed : ℕ
  skipped : ℕ
  rescued : ℕ
  ignored : ℕ

def HostSummary.counts (h : HostSummary) : List (String × ℕ) :=
  [("ok", h.ok), ("failures", h.failures), ("unreachable", h.unreachable),
    ("changed", h.changed), ("skipped", h.skipped), ("rescued", h.rescued),
    ("ignored", h.ignored)]

def HostSummary.json (h : HostSummary) : Json :=
  .obj (h.counts.map fun m => (m.1, .num (.ofNat m.2)))

/-- What the playbook processed: every host once. -/
abbrev Stats := List (String × HostSummary)

def summaryStatus (stats : Stats) : String :=
  stats.foldl (fun status h =>
    if h.2.failures > 0 || h.2.unreachable > 0 then "failed" else status) "success"

def summaryMembers (time : String) (stats : Stats) : List (String × Json) :=
  [("time", .str time), ("summary", .obj (stats.map fun h => (h.1, h.2.json))),
    ("status", .str (summaryStatus stats))]

def playbookOnStats (time : String) (stats : Stats) (f : LogFile) : List Char :=
  f.text ++ ([',', '\n'] ++ (dump (.obj (summaryMembers time stats)) ++ ['\n', ']', '\n']))

/-- What the plugin leaves in the file. -/
def logText (level : LogLevel) (results : List TaskResult) (time : String) (stats : Stats) :
    List Char :=
  playbookOnStats time stats (run (recordTaskResult level) initialized results)

/-! ## Agreement with the reader -/

def SomeHostBad (stats : Stats) : Prop :=
  ∃ h ∈ stats, 0 < h.2.failures ∨ 0 < h.2.unreachable

/-- The entries are those of the recorded results, one summary follows, and whatever the
watcher stores on its way, it ends with the status of the hosts. -/
structure Decodes (results : List TaskResult) (stats : Stats) (entries : List LogEntity)
    (last : LogEntity) : Prop where
  tasks : entries.map LogEntity.task = results.map TaskResult.task
  summary : last.summary.isSome
  status : ∀ S w cluster op d,
    finalStatus (collectEntries S w cluster op d (entries ++ [last])).2 = operationStatusFailed ↔
      SomeHostBad stats

structure Agrees (level : LogLevel) (results : List TaskResult) (time : String) (stats : Stats) :
    Prop where
  valid : ∃ vs, parse (logText level results time stats) = some (.arr vs)
  decoded : ∃ entries last, decodeLogs (logText level results time stats) =
    some (entries ++ [last]) ∧ Decodes results stats entries last

/-- The task of a fully merged result: a string under another spelling of the key wins, then
the value the result itself has under the key. -/
def shownTask (r : TaskResult) : String :=
  lastTask (match r.result.get? "task" with
    | none => r.task
    | some (.str s) => s
    | some _ => "") (r.result.items.filter fun m => decide (m.1 ≠ "task"))

def EntryFits (r : TaskResult) : LogLevel → Prop
  | .debug => (∀ m ∈ r.result.items, acceptsMember m = true) ∧ shownTask r = r.task
  | _ => accepts .failed (r.result.get "failed" (.bool false)) = true ∧
      fitsInterface (r.result.get "msg" (.str "")) = true

structure Readable (level : LogLevel) (results : List TaskResult) (stats : Stats) : Prop where
  recorded : results ≠ []
  entries : ∀ r ∈ results, EntryFits r level
  counts : ∀ h ∈ stats, ∀ m ∈ h.2.counts, m.2 < float64Limit

/-! ## The text of the file -/

theorem joined_cons (sep t : List Char) (ts : List (List Char)) :
    joined sep (t :: ts) = t ++ ts.flatMap (sep ++ ·) := by
  induction ts generalizing t with
  | nil => simp [joined]
  | cons u us ih => simp [joined, ih, List.append_assoc]

theorem run_started (level : LogLevel) (rs : List TaskResult) (text : List Char) :
    run (recordTaskResult level) ⟨text, true⟩ rs =
      ⟨text ++ rs.flatMap fun r => [',', '\n'] ++ dump (.obj (taskResultMembers r level)), true⟩ := by
  induction rs generalizing text with
  | nil => simp
  | cons r rs ih => simp [recordTaskResult, ih, List.append_assoc]

def recordedValues (level : LogLevel) (results : List TaskResult) : List Json :=
  results.map fun r => .obj (taskResultMembers r level)

/-- From the first result on the file is a bracketed sequence, but for the missing end. -/
theorem logText_recorded (level : LogLevel) {results : List TaskResult} (time : String)
    (stats : Stats) (h : results ≠ []) :
    logText level results time stats = '[' :: (['\n'] ++
      (joined (',' :: ['\n']) ((recordedValues level results ++
        [Json.obj (summaryMembers time stats)]).map dump) ++ (['\n'] ++ [']']))) ++ ['\n'] := by
  cases results with
  | nil => exact absurd rfl h
  | cons r rs =>
    have hfirst : recordTaskResult level initialized r =
        ⟨['[', '\n'] ++ dump (.obj (taskResultMembers r level)), true⟩ := by
      simp [recordTaskResult, initialized]
    rw [logText, run_cons, hfirst, run_started]
    simp [playbookOnStats, recordedValues, joined_cons, List.flatMap_map, List.append_assoc]

theorem written_dumps (vs : List Json) :
    List.Forall₂ (fun v t => Written t v) vs (vs.map dump) := by
  induction vs with
  | nil => exact .nil
  | cons v vs ih => exact .cons (written_render _ v 0) ih

theorem written_log (level : LogLevel) {results : List TaskResult} (time : String)
    (stats : Stats) (h : results ≠ []) :
    ∃ t, Written t (.arr (recordedValues level results ++ [.obj (summaryMembers time stats)])) ∧
      logText level results time stats = t ++ ['\n'] := by
  refine ⟨_, ?_, logText_recorded level time stats h⟩
  exact written_array (List.all_eq_true.mp rfl) (List.all_eq_true.mp rfl)
    (List.all_eq_true.mp rfl) (written_dumps _) (by simp)

/-- Without a result the separator of the summary follows the opening bracket. -/
theorem decodeLogs_nothing_recorded (level : LogLevel) (time : String) (stats : Stats) :
    decodeLogs (logText level [] time stats) = none := by
  obtain ⟨rest, hrest⟩ : ∃ rest, logText level [] time stats = '[' :: '\n' :: ',' :: rest :=
    ⟨_, rfl⟩
  rw [hrest]
  have hnumber : readNumber (',' :: rest) = none := rfl
  simp [decodeLogs, readFirst, readValue, readElements, skipBlanks, isBlank, hnumber]

/-! ## Dictionaries -/

theorem lookup_eq_some {items : List (String × Json)} (h : (items.map Prod.fst).Nodup)
    {k : String} {v : Json} : items.lookup k = some v ↔ (k, v) ∈ items := by
  constructor
  · intro hlookup
    obtain ⟨before, after, rfl, -⟩ := List.lookup_eq_some_iff.mp hlookup
    exact List.mem_append_right _ List.mem_cons_self
  · exact ObjectLiterals.lookup_of_mem h

theorem Dict.get?_eq_some {b : Dict} {k : String} {v : Json} :
    b.get? k = some v ↔ (k, v) ∈ b.items :=
  lookup_eq_some b.distinct

theorem Dict.get?_eq_none {b : Dict} {k : String} (h : k ∉ b.items.map Prod.fst) :
    b.get? k = none := by
  cases hv : b.get? k with
  | none => rfl
  | some v => exact absurd (List.mem_map_of_mem (Dict.get?_eq_some.mp hv)) h

theorem merged_disjoint {a : List (String × Json)} {b : Dict}
    (h : ∀ k ∈ a.map Prod.fst, k ∉ b.items.map Prod.fst) : merged a b = a ++ b.items := by
  rw [merged]
  congr 1
  · conv_rhs => rw [← List.map_id a]
    apply List.map_congr_left
    intro m hm
    simp [Dict.get, Dict.get?_eq_none (h m.1 (List.mem_map_of_mem hm))]
  · rw [List.filter_eq_self]
    intro m hm
    rw [decide_eq_true_eq]
    intro hk
    exact h m.1 hk (List.mem_map_of_mem hm)

/-! ## Entries -/

theorem unspelled_keys :
    ∀ k ∈ ["time", "host", "item", "changed", "stdout", "stderr"], fieldOf k = none := by
  decide

theorem spelled_keys : fieldOf "task" = some .task ∧ fieldOf "failed" = some .failed ∧
    fieldOf "msg" = some .msg ∧ fieldOf "summary" = some .summary ∧
    fieldOf "status" = some .status := by
  decide

theorem itemOf_key {b : Dict} {m : String × Json} (h : m ∈ itemOf b) : m.1 = "item" := by
  rw [itemOf] at h
  split at h
  · rw [List.mem_singleton.mp h]
  · split at h
    · rw [List.mem_singleton.mp h]
    · cases h

theorem baseResult_key {r : TaskResult} {k : String} (h : k ∈ (baseResult r).map Prod.fst) :
    k = "task" ∨ fieldOf k = none ∧ k ∈ ["time", "host", "item"] := by
  obtain ⟨m, hm, rfl⟩ := List.mem_map.mp h
  rcases List.mem_append.mp hm with hm | hm
  · simp only [List.mem_cons, List.not_mem_nil, or_false] at hm
    rcases hm with rfl | rfl | rfl
    · exact Or.inr (show fieldOf "time" = none ∧ "time" ∈ ["time", "host", "item"] by decide)
    · exact Or.inl rfl
    · exact Or.inr (show fieldOf "host" = none ∧ "host" ∈ ["time", "host", "item"] by decide)
  · rw [itemOf_key hm]
    exact Or.inr (by decide)

theorem lastTask_append (t : String) (ms ns : List (String × Json)) :
    lastTask t (ms ++ ns) = lastTask (lastTask t ms) ns :=
  List.foldl_append

theorem lastTask_unspelled {t : String} (ms : List (String × Json))
    (h : ∀ m ∈ ms, fieldOf m.1 ≠ some .task) : lastTask t ms = t := by
  induction ms generalizing t with
  | nil => rfl
  | cons m ms ih =>
    have hm := h m List.mem_cons_self
    have hms := ih (t := t) fun m' hm' => h m' (List.mem_cons_of_mem _ hm')
    simp only [lastTask, List.foldl_cons] at hms ⊢
    split
    · next hf _ => exact absurd hf hm
    · exact hms

/-- Only the members spelled like the key matter. -/
theorem lastTask_filter {p q : String × Json → Bool} (ms : List (String × Json))
    (h : ∀ m ∈ ms, fieldOf m.1 = some .task → p m = q m) (t : String) :
    lastTask t (ms.filter p) = lastTask t (ms.filter q) := by
  induction ms generalizing t with
  | nil => rfl
  | cons m ms ih =>
    have hms := ih fun m' hm' => h m' (List.mem_cons_of_mem _ hm')
    -- one member adds the same to both sides: it is kept by both or spelled differently
    by_cases ht : fieldOf m.1 = some .task
    · have hpq := h m List.mem_cons_self ht
      by_cases hp : p m = true
      · rw [List.filter_cons_of_pos hp, List.filter_cons_of_pos (hpq ▸ hp)]
        exact hms _
      · rw [List.filter_cons_of_neg hp, List.filter_cons_of_neg (hpq ▸ hp)]
        exact hms t
    · have hskip : ∀ r : String × Json → Bool,
          lastTask t ((m :: ms).filter r) = lastTask t (ms.filter r) := by
        intro r
        by_cases hr : r m = true
        · rw [List.filter_cons_of_pos hr, ← List.singleton_append, lastTask_append,
            lastTask_unspelled [m]]
          simpa using ht
        · rw [List.filter_cons_of_neg hr]
      rw [hskip p, hskip q]
      exact hms t

theorem decodeEntity_task {ms : List (String × Json)} {task : String} :
    (∃ e, decodeEntity (.obj ms) = some e ∧ e.task = task) ↔
      ms.all acceptsMember = true ∧ lastTask "" ms = task := by
  simp only [decodeEntity, decodeMembers_eq_some]
  constructor
  · rintro ⟨e, ⟨hall, rfl⟩, ht⟩
    exact ⟨hall, by rw [← ht, task_assignMembers]; rfl⟩
  · rintro ⟨hall, ht⟩
    exact ⟨_, ⟨hall, rfl⟩, by rw [task_assignMembers]; exact ht⟩

theorem accepts_unspelled {m : String × Json} (h : fieldOf m.1 = none) :
    acceptsMember m = true := by
  simp [acceptsMember, h]

/-- The base of an entry decodes to the task under its `task` member. -/
theorem base_task {f : String × Json → Json} (r : TaskResult) :
    lastTask "" ((baseResult r).map fun m => (m.1, f m)) =
      match f ("task", .str r.task) with
      | .str s => s
      | _ => "" := by
  have hitem : ∀ t, lastTask t ((itemOf r.result).map fun m => (m.1, f m)) = t := by
    intro t
    apply lastTask_unspelled
    intro m hm
    obtain ⟨m', hm', rfl⟩ := List.mem_map.mp hm
    rw [itemOf_key hm']
    decide
  have htime := unspelled_keys "time" (by simp)
  have hhost := unspelled_keys "host" (by simp)
  rw [baseResult, List.map_append, lastTask_append, hitem]
  simp only [List.map_cons, List.map_nil, lastTask, List.foldl_cons, List.foldl_nil, htime, hhost,
    spelled_keys.1]
  cases f ("task", .str r.task) <;> rfl

theorem base_accepts (r : TaskResult) : (baseResult r).all acceptsMember = true := by
  rw [List.all_eq_true]
  intro m hm
  rcases List.mem_append.mp hm with hm | hm
  · simp only [List.mem_cons, List.not_mem_nil, or_false] at hm
    rcases hm with rfl | rfl | rfl
    · exact accepts_unspelled (unspelled_keys "time" (by simp))
    · simp [acceptsMember, spelled_keys.1, accepts]
    · exact accepts_unspelled (unspelled_keys "host" (by simp))
  · exact accepts_unspelled (itemOf_key hm ▸ unspelled_keys "item" (by simp))

theorem plain_entry {r : TaskResult} {b : Dict}
    (hkeys : ∀ k ∈ b.items.map Prod.fst, fieldOf k ≠ some .task ∧ k ∉ ["time", "host", "item"]) :
    (merged (baseResult r) b).all acceptsMember = b.items.all acceptsMember ∧
      lastTask "" (merged (baseResult r) b) = r.task := by
  have hdisjoint : ∀ k ∈ (baseResult r).map Prod.fst, k ∉ b.items.map Prod.fst := by
    intro k hk hb
    rcases baseResult_key hk with rfl | ⟨-, hk⟩
    · exact (hkeys _ hb).1 (by decide)
    · exact (hkeys k hb).2 hk
  rw [merged_disjoint hdisjoint]
  constructor
  · rw [List.all_append, base_accepts, Bool.true_and]
  · have hb := base_task (f := Prod.snd) r
    rw [lastTask_append, lastTask_unspelled b.items]
    · simpa using hb
    · intro m hm
      exact (hkeys m.1 (List.mem_map_of_mem hm)).1

/-- A fully merged result decodes when all members of the result do. -/
theorem debug_accepts (r : TaskResult) :
    (merged (baseResult r) r.result).all acceptsMember = true ↔
      ∀ m ∈ r.result.items, acceptsMember m = true := by
  rw [List.all_eq_true]
  constructor
  · intro h m hm
    by_cases hk : m.1 ∈ (baseResult r).map Prod.fst
    · rcases baseResult_key hk with ht | ⟨hf, -⟩
      · -- the value stands in the place of the recorded task
        obtain ⟨m', hm', hk'⟩ := List.mem_map.mp hk
        have hget : r.result.get m'.1 m'.2 = m.2 := by
          rw [hk', Dict.get, Dict.get?_eq_some.mpr hm, Option.getD_some]
        have := h (m'.1, r.result.get m'.1 m'.2)
          (List.mem_append_left _ (List.mem_map.mpr ⟨m', hm', rfl⟩))
        rwa [hget, hk'] at this
      · exact accepts_unspelled hf
    · exact h m (List.mem_append_right _ (List.mem_filter.mpr ⟨hm, by simpa using hk⟩))
  · intro h m hm
    rcases List.mem_append.mp hm with hm | hm
    · obtain ⟨m', hm', rfl⟩ := List.mem_map.mp hm
      cases hv : r.result.get? m'.1 with
      | some v =>
        rw [Dict.get, hv, Option.getD_some]
        exact h _ (Dict.get?_eq_some.mp hv)
      | none =>
        rw [Dict.get, hv, Option.getD_none]
        exact List.all_eq_true.mp (base_accepts r) m' hm'
    · exact h m (List.mem_filter.mp hm).1

theorem debug_task (r : TaskResult) :
    lastTask "" (merged (baseResult r) r.result) = shownTask r := by
  have hbase := base_task (f := fun m => r.result.get m.1 m.2) r
  rw [merged, lastTask_append, hbase, shownTask]
  have hfilter := lastTask_filter r.result.items
    (p := fun m => decide (m.1 ∉ (baseResult r).map Prod.fst))
    (q := fun m => decide (m.1 ≠ "task")) (by
      intro m _ ht
      apply decide_eq_decide.mpr
      constructor
      · intro hk he
        exact hk (he ▸ List.mem_map_of_mem (a := ("task", Json.str r.task)) (by simp [baseResult]))
      · intro hne hk
        rcases baseResult_key hk with he | ⟨hf, -⟩
        · exact hne he
        · simp [hf] at ht)
  rw [hfilter]
  congr 1
  simp only [Dict.get]
  cases r.result.get? "task" with
  | none => rfl
  | some v => cases v <;> rfl

theorem entry_iff (level : LogLevel) (r : TaskResult) :
    (∃ e, decodeEntity (.obj (taskResultMembers r level)) = some e ∧ e.task = r.task) ↔
      EntryFits r level := by
  rw [decodeEntity_task]
  have hplain : ∀ k ∈ ["changed", "failed", "msg", "stdout", "stderr"],
      fieldOf k ≠ some .task ∧ k ∉ ["time", "host", "item"] := by decide
  have hchanged := unspelled_keys "changed" (by simp)
  have hstdout := unspelled_keys "stdout" (by simp)
  have hstderr := unspelled_keys "stderr" (by simp)
  obtain ⟨-, hfailed, hmsg, -, -⟩ := spelled_keys
  cases level with
  | debug => rw [taskResultMembers, debug_accepts, debug_task, EntryFits]
  | detail =>
    obtain ⟨hall, htask⟩ := plain_entry (r := r) (b := detailedResult r.result) (by
      intro k hk
      exact hplain k (by simpa [detailedResult] using hk))
    rw [taskResultMembers, hall, htask]
    simp [detailedResult, acceptsMember, hchanged, hfailed, hmsg, hstdout, hstderr, EntryFits,
      accepts]
  | info =>
    obtain ⟨hall, htask⟩ := plain_entry (r := r) (b := basicResult r.result) (by
      intro k hk
      exact hplain k (by
        simp only [basicResult, List.map_cons, List.map_nil] at hk
        simp only [List.mem_cons, List.not_mem_nil, or_false] at hk ⊢
        rcases hk with h | h | h <;> simp [h]))
    rw [taskResultMembers, hall, htask]
    simp [basicResult, acceptsMember, hchanged, hfailed, hmsg, EntryFits, accepts]

/-! ## The summary -/

theorem summaryStatus_eq (stats : Stats) :
    summaryStatus stats = operationStatusFailed ∧ SomeHostBad stats ∨
      summaryStatus stats = operationStatusSuccess ∧ ¬ SomeHostBad stats := by
  have h : ∀ status, (status = operationStatusFailed ∨ SomeHostBad stats) ∧
        stats.foldl (fun status h =>
          if h.2.failures > 0 || h.2.unreachable > 0 then "failed" else status) status =
            operationStatusFailed ∨
      ¬ SomeHostBad stats ∧ stats.foldl (fun status h =>
          if h.2.failures > 0 || h.2.unreachable > 0 then "failed" else status) status = status := by
    induction stats with
    | nil =>
      intro status
      exact Or.inr ⟨by simp [SomeHostBad], rfl⟩
    | cons h stats ih =>
      intro status
      have hcons : SomeHostBad (h :: stats) ↔
          (0 < h.2.failures ∨ 0 < h.2.unreachable) ∨ SomeHostBad stats := by
        simp [SomeHostBad]
      rw [List.foldl_cons, hcons]
      by_cases hbad : 0 < h.2.failures ∨ 0 < h.2.unreachable
      · have hcond : (h.2.failures > 0 || h.2.unreachable > 0) = true := by simpa using hbad
        rw [if_pos hcond]
        rcases ih "failed" with ⟨-, hf⟩ | ⟨-, hf⟩
        · exact Or.inl ⟨Or.inr (Or.inl hbad), hf⟩
        · exact Or.inl ⟨Or.inr (Or.inl hbad), hf⟩
      · have hcond : ¬ (h.2.failures > 0 || h.2.unreachable > 0) = true := by simpa using hbad
        rw [if_neg hcond]
        simp only [hbad, false_or]
        exact ih status
  rcases h "success" with ⟨hs | hs, hf⟩ | ⟨hs, hf⟩
  · exact absurd hs (by decide)
  · exact Or.inl ⟨hf, hs⟩
  · exact Or.inr ⟨hf, hs⟩

theorem finalStatus_summaryStatus (stats : Stats) :
    finalStatus (summaryStatus stats) = operationStatusFailed ↔ SomeHostBad stats := by
  rcases summaryStatus_eq stats with ⟨hs, hb⟩ | ⟨hs, hb⟩
  · rw [hs]
    exact iff_of_true (by decide) hb
  · rw [hs]
    exact iff_of_false (by decide) hb

theorem fits_hostSummary (h : HostSummary) :
    fitsInterface h.json = true ↔ ∀ m ∈ h.counts, m.2 < float64Limit := by
  simp [HostSummary.json, fitsInterface, fitMembers_eq, fitsFloat64_ofNat]

def summaryEntry (stats : Stats) : LogEntity where
  task := ""
  failed := false
  msg := none
  summary := some (.obj (stats.map fun h => (h.1, h.2.json)))
  status := summaryStatus stats

theorem decodeEntity_summary (time : String) (stats : Stats) {e : LogEntity} :
    decodeEntity (.obj (summaryMembers time stats)) = some e ↔
      (∀ h ∈ stats, ∀ m ∈ h.2.counts, m.2 < float64Limit) ∧ summaryEntry stats = e := by
  obtain ⟨-, -, -, hsummary, hstatus⟩ := spelled_keys
  have htime := unspelled_keys "time" (by simp)
  have hfits : fitsInterface (.obj (stats.map fun h => (h.1, h.2.json))) = true ↔
      ∀ h ∈ stats, ∀ m ∈ h.2.counts, m.2 < float64Limit := by
    simp only [fitsInterface, fitMembers_eq, List.all_map, List.all_eq_true, Function.comp,
      fits_hostSummary]
  have hall : (summaryMembers time stats).all acceptsMember = true ↔
      ∀ h ∈ stats, ∀ m ∈ h.2.counts, m.2 < float64Limit := by
    rw [← hfits]
    simp [summaryMembers, acceptsMember, htime, hsummary, hstatus, accepts]
  have hfold : (summaryMembers time stats).foldl assignMember .zero = summaryEntry stats := by
    simp [summaryMembers, assignMember, htime, hsummary, hstatus, assign, LogEntity.zero,
      summaryEntry, interfaceOf]
  rw [decodeEntity, decodeMembers_eq_some, hall, hfold]

/-- An entry without a task is never skipped, so a summary at the end decides. -/
theorem collectEntries_last (S : Setup) (w : Conditions) (cluster : Cluster) (op : Operation)
    (d : Db) (entries : List LogEntity) {e : LogEntity} (ht : e.task = "")
    (hs : e.summary.isSome) :
    (collectEntries S w cluster op d (entries ++ [e])).2 = e.status := by
  have hsystem : e.task ≠ logFieldSystemInfo := by rw [ht]; decide
  have hconnection : e.task ≠ logFieldConnectionInfo := by rw [ht]; decide
  rw [collectEntries, List.zipIdx_append, run_append]
  simp [collectEntry, writeEntry, hsystem, hconnection, hs]

/-! ## The whole file -/

theorem decodeLogs_recorded (level : LogLevel) {results : List TaskResult} (time : String)
    (stats : Stats) (h : results ≠ []) {entries : List LogEntity} {last : LogEntity} :
    decodeLogs (logText level results time stats) = some (entries ++ [last]) ↔
      List.Forall₂ (fun r e => decodeEntity (.obj (taskResultMembers r level)) = some e)
          results entries ∧
        decodeEntity (.obj (summaryMembers time stats)) = some last := by
  obtain ⟨t, ht, htext⟩ := written_log level time stats h
  have hread := ht.readFirst (follow_blank (c := '\n') (r := []) rfl)
  rw [htext, decodeLogs, hread]
  rw [recordedValues, decodeEntities_concat, List.forall₂_map_left_iff]

/-- The entries carry the recorded tasks when each result decodes to its own. -/
theorem tasks_recorded (level : LogLevel) (results : List TaskResult) :
    (∃ entries, List.Forall₂ (fun r e => decodeEntity (.obj (taskResultMembers r level)) = some e)
        results entries ∧ entries.map LogEntity.task = results.map TaskResult.task) ↔
      ∀ r ∈ results, EntryFits r level := by
  induction results with
  | nil => exact iff_of_true ⟨[], .nil, rfl⟩ (by simp)
  | cons r rs ih =>
    rw [List.forall_mem_cons, ← entry_iff, ← ih]
    constructor
    · rintro ⟨entries, hall, ht⟩
      cases hall with
      | cons he hes =>
        obtain ⟨ht, hts⟩ := List.cons.inj ht
        exact ⟨⟨_, he, ht⟩, _, hes, hts⟩
    · rintro ⟨⟨e, he, ht⟩, entries, hes, hts⟩
      exact ⟨e :: entries, .cons he hes, by simp [ht, hts]⟩

/-- The plugin and the watcher agree on exactly the runs with a recorded result in which every
result fits the types of an entry. -/
theorem log_agrees_iff (level : LogLevel) (results : List TaskResult) (time : String)
    (stats : Stats) : Agrees level results time stats ↔ Readable level results stats := by
  constructor
  · rintro ⟨-, entries, last, hdecode, htasks, -, -⟩
    have hne : results ≠ [] := by
      rintro rfl
      rw [decodeLogs_nothing_recorded] at hdecode
      cases hdecode
    obtain ⟨hfirst, hlast⟩ := (decodeLogs_recorded level time stats hne).mp hdecode
    exact ⟨hne, (tasks_recorded level results).mp ⟨entries, hfirst, htasks⟩,
      ((decodeEntity_summary time stats).mp hlast).1⟩
  · rintro ⟨hne, hentries, hcounts⟩
    obtain ⟨entries, hfirst, htasks⟩ := (tasks_recorded level results).mpr hentries
    have hlast := (decodeEntity_summary time stats).mpr ⟨hcounts, rfl⟩
    obtain ⟨t, ht, htext⟩ := written_log level time stats hne
    refine ⟨⟨_, htext ▸ ht.parse (List.all_eq_true.mp rfl)⟩, entries, summaryEntry stats,
      (decodeLogs_recorded level time stats hne).mpr ⟨hfirst, hlast⟩, htasks, rfl, ?_⟩
    intro S w cluster op d
    rw [collectEntries_last S w cluster op d entries (e := summaryEntry stats) rfl rfl]
    exact finalStatus_summaryStatus stats

/-- A playbook that recorded nothing. -/
theorem nothing_recorded_disagrees : ¬ Agrees .info [] "2025-01-01T00:00:00" [] := by
  rintro ⟨-, entries, last, hdecode, -⟩
  rw [decodeLogs_nothing_recorded] at hdecode
  cases hdecode

end JsonLogCallback
