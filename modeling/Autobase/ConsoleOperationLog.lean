import Autobase.ConsoleLogWatcher
import Autobase.LineScanner

/-! # The log of an operation

Three parties work on one row: the collector appends the lines of the container as it reads
them, the watcher stores the status once the container is no longer running, and readers ask
for the log. The flag of a response is derived from the status alone. -/
namespace ConsoleOperationLog

open ConsoleSchema ConsoleStatements ConsoleLogWatcher LineScanner TransitionRuns

def newline : UInt8 := 10
def carriageReturn : UInt8 := 13

/-- The largest buffer of the scanner. -/
def maxTokenSize : ℕ := 65536

abbrev Line := List UInt8

/-- A text value holds valid UTF-8. -/
def textOf (bs : List UInt8) : Option String := String.fromUTF8? bs.toByteArray

def bytesOf (s : String) : List UInt8 := s.toUTF8.data.toList

/-- The terminal of the container ends its lines in a carriage return and a newline. -/
def streamLines (written : List UInt8) : List Line :=
  (lines newline written).map (dropMark carriageReturn)

/-! ## Statements -/

def storeLine (id : ℤ) (line : Line) (d : Db) : Option Db :=
  (textOf line).bind fun l => updateOperation ⟨id, none, some l⟩ d

structure LogResponse where
  content : String
  completed : Bool
  deriving DecidableEq

def getOperationLog (id : ℤ) (d : Db) : Option LogResponse :=
  (getOperation id d).map fun op =>
    ⟨op.operationLog.getD "", decide (op.operationStatus ≠ operationStatusInProgress)⟩

def logLines (r : LogResponse) : List Line := lines newline (bytesOf r.content)

/-! ## The parties -/

/-- `unread` is what the container wrote and the collector has not read; `inspected` holds
between the inspection of the finished container and its removal. -/
structure State where
  db : Db
  written : List UInt8
  running : Bool
  unread : List UInt8
  collecting : Bool
  inspected : Bool

inductive Event where
  | write (bs : List UInt8)
  | exit
  | collect (fails : Bool)
  | detach
  | inspect
  | finish (status : String) (fails : Bool)
  | remove
  | others (d : Db)
  | read

/-- What the parties see of the operation. -/
def view (id : ℤ) (d : Db) : Option (String × Option String) :=
  (getOperation id d).map fun op => (op.operationStatus, op.operationLog)

def nextLine (s : State) : Scan UInt8 := scan newline maxTokenSize s.unread (!s.running)

def act (id : ℤ) (s : State) : Event → State
  | .write bs =>
    if s.running then { s with written := s.written ++ bs, unread := s.unread ++ bs } else s
  | .exit => { s with running := false }
  | .collect fails =>
    if s.collecting then
      match nextLine s with
      | .token line rest => { s with
          db := attempt fails (storeLine id (dropMark carriageReturn line)) s.db
          unread := rest }
      | .blocked => s
      | .stopped => { s with collecting := false }
    else s
  -- the container cannot be attached, its stream breaks off, or the collector is stopped
  | .detach => { s with collecting := false }
  | .inspect =>
    if !s.running && storedStatus id s.db = some operationStatusInProgress then
      { s with inspected := true }
    else s
  | .finish status fails =>
    if s.inspected then
      { s with db := attempt fails (updateOperation ⟨id, some status, none⟩) s.db }
    else s
  | .remove => { s with inspected := false }
  -- the rows of other operations and all other tables change at will
  | .others d => if view id d = view id s.db then { s with db := d } else s
  | .read => s

def responses (id : ℤ) (s : State) : Event → List LogResponse
  | .read => (getOperationLog id s.db).toList
  | _ => []

/-- The collector was just started: it has read nothing yet. -/
structure Fresh (id : ℤ) (s : State) : Prop where
  stored : view id s.db = some (operationStatusInProgress, none)
  unread : s.unread = s.written
  collecting : s.collecting = true
  inspected : s.inspected = false

/-- No storage call of the collector fails, and it is not cut off from unread data. -/
def undisturbed (id : ℤ) (s : State) : Event → Bool
  | .collect fails =>
    match nextLine s with
    | .token line _ =>
      !s.collecting || (!fails && (storeLine id (dropMark carriageReturn line) s.db).isSome)
    | _ => true
  | .detach => !s.collecting || (!s.running && s.unread.isEmpty)
  | _ => true

/-- Besides, the collector meets no line that is too long, and the watcher takes the
operation out of progress only after the collector has come to the end. -/
def drained (id : ℤ) (s : State) (e : Event) : Bool :=
  undisturbed id s e &&
    match e with
    | .collect _ =>
      match nextLine s with
      | .stopped => !s.collecting || s.unread.isEmpty
      | _ => true
    | .finish status _ =>
      !s.inspected || status == operationStatusInProgress || !s.collecting
    | _ => true

/-- A response that is complete stays as it is and holds every line. -/
structure Final (written : List UInt8) (rs : List LogResponse) : Prop where
  stable : rs.Pairwise fun r r' => r.completed = true → r'.content = r.content
  complete : ∀ r ∈ rs, r.completed = true → ∀ l ∈ streamLines written, l ∈ logLines r

/-! ## Bytes -/

theorem textOf_eq_some {bs : List UInt8} {l : String} (h : textOf bs = some l) :
    bytesOf l = bs := by
  rw [textOf, String.fromUTF8?] at h
  split at h
  · obtain rfl := Option.some.inj h
    simp [bytesOf, String.fromUTF8]
  · cases h

theorem bytesOf_append (s t : String) : bytesOf (s ++ t) = bytesOf s ++ bytesOf t := by
  simp [bytesOf, String.toByteArray_append]

theorem bytesOf_joined (s l : String) :
    bytesOf (s ++ ("\n" ++ l)) = bytesOf s ++ newline :: bytesOf l := by
  rw [bytesOf_append, bytesOf_append]
  rfl

/-! ## The row -/

def logText (id : ℤ) (d : Db) : String := ((view id d).bind Prod.snd).getD ""

def finished (id : ℤ) (d : Db) : Bool :=
  decide ((view id d).map Prod.fst ≠ some operationStatusInProgress)

variable {id : ℤ} {d d' : Db} {s : State} {e : Event}

theorem getOperationLog_view (h : (view id d).isSome) :
    getOperationLog id d = some ⟨logText id d, finished id d⟩ := by
  rw [view] at h
  cases ho : getOperation id d with
  | none => simp [ho] at h
  | some op => simp [getOperationLog, logText, finished, view, ho]

theorem view_updateOperation {req : UpdateOperationReq} (h : updateOperation req d = some d') :
    view req.id d' = (view req.id d).map fun v =>
      (req.status.getD v.1, match req.logs with
        | none => v.2
        | some l => some (v.2.getD "" ++ ("\n" ++ l))) := by
  obtain ⟨-, -, -, ht⟩ := updateOperation_eq_some.mp h
  have hg := getOperation_updateWhere (apply_id req) req.id (congrArg Tables.operations ht)
  unfold view
  rw [hg]
  cases ho : getOperation req.id d with
  | none => rfl
  | some op =>
    have hid : op.id = req.id := by simpa using List.find?_some ho
    simp only [Option.map_some, hid, decide_true, if_true]
    rfl

/-- The append puts a separator in front of the line, also in front of the first one. -/
theorem storeLine_spec {line : Line} (h : storeLine id line d = some d') :
    (view id d').isSome = (view id d).isSome ∧ finished id d' = finished id d ∧
      ((view id d).isSome → bytesOf (logText id d') = bytesOf (logText id d) ++ newline :: line) := by
  obtain ⟨l, hl, hu⟩ := Option.bind_eq_some_iff.mp h
  have hv := view_updateOperation hu
  simp only [Option.getD_none] at hv
  refine ⟨by simp [hv], by simp [finished, hv], ?_⟩
  intro hsome
  obtain ⟨v, hv'⟩ := Option.isSome_iff_exists.mp hsome
  simp only [logText, hv, hv', Option.map_some, Option.bind_some, Option.getD_some]
  rw [bytesOf_joined, textOf_eq_some hl]

theorem view_finish (id : ℤ) (status : String) (fails : Bool) (d : Db) :
    view id (attempt fails (updateOperation ⟨id, some status, none⟩) d) = (view id d).map fun v =>
      (if fails = false ∧ status ∈ operationStatuses then status else v.1, v.2) := by
  cases ho : getOperation id d with
  | none =>
    have hnone : updateOperation ⟨id, some status, none⟩ d = none := by
      cases hu : updateOperation ⟨id, some status, none⟩ d with
      | none => rfl
      | some d' =>
        obtain ⟨-, -, hsome, -⟩ := updateOperation_eq_some.mp hu
        simp [ho] at hsome
    simp [attempt_refused (Or.inr hnone), view, ho]
  | some op =>
    have hiff : (updateOperation ⟨id, some status, none⟩ d).isSome ↔ status ∈ operationStatuses :=
      updateOperation_isSome (Option.isSome_iff_exists.mpr ⟨op, ho⟩)
    by_cases hw : fails = false ∧ status ∈ operationStatuses
    · obtain ⟨rfl, hs⟩ := hw
      obtain ⟨d', hd'⟩ := Option.isSome_iff_exists.mp (hiff.mpr hs)
      rw [attempt_false hd', view_updateOperation hd']
      simp [hs]
    · have hrefused : fails = true ∨ updateOperation ⟨id, some status, none⟩ d = none := by
        by_cases hf : fails = true
        · exact Or.inl hf
        · refine Or.inr (Option.not_isSome_iff_eq_none.mp fun hsome => hw ⟨by simpa using hf, ?_⟩)
          exact hiff.mp hsome
      simp [attempt_refused hrefused, hw]

/-! ## The collector -/

/-- No line was lost: the first lines are stored, and the unread data begins a new one. -/
structure Collected (id : ℤ) (taken : List Line) (s : State) : Prop where
  present : (view id s.db).isSome
  plain : ∀ l ∈ taken, newline ∉ l
  stored : bytesOf (logText id s.db) =
    (taken.map (dropMark carriageReturn)).flatMap fun l => newline :: l
  unread : (∃ read, s.written = read ++ s.unread ∧ Cut newline read taken) ∨
    (s.running = false ∧ s.unread = [] ∧ lines newline s.written = taken)

/-- The next line is too long, however it goes on. -/
def TooLong (s : State) : Prop :=
  ∀ more, ∃ l ls, lines newline (s.unread ++ more) = l :: ls ∧ maxTokenSize ≤ l.length

def AtEnd (s : State) : Prop := s.running = false ∧ s.unread = []

structure CollectorInv (id : ℤ) (s : State) : Prop where
  collected : ∃ taken, Collected id taken s
  stopped : s.collecting = false → AtEnd s ∨ TooLong s

theorem collectorInv_fresh (h : Fresh id s) : CollectorInv id s where
  collected := by
    refine ⟨[], by simp [h.stored], by simp, ?_, Or.inl ⟨[], ?_, cut_nil⟩⟩
    · simp [logText, h.stored, bytesOf]
    · simp [h.unread]
  stopped := by simp [h.collecting]

theorem collected_token {taken : List Line} {line rest : Line} (hc : Collected id taken s)
    (hn : nextLine s = .token line rest) {d' : Db}
    (hd : storeLine id (dropMark carriageReturn line) s.db = some d') :
    Collected id (taken ++ [line]) { s with db := d', unread := rest } := by
  obtain ⟨hpresent, hfinished, hbytes⟩ := storeLine_spec hd
  obtain ⟨hfree, hrest⟩ := scan_token hn
  refine ⟨by rw [hpresent]; exact hc.present, ?_, ?_, ?_⟩
  · intro l hl
    rcases List.mem_append.mp hl with hl | hl
    · exact hc.plain l hl
    · rw [List.mem_singleton.mp hl]
      exact hfree
  · rw [hbytes hc.present, hc.stored]
    simp
  · rcases hc.unread with ⟨read, hread, hcut⟩ | ⟨hstop, hempty, -⟩
    · rcases hrest with ⟨first, hfirst, hcut'⟩ | ⟨hend, rfl, hlines⟩
      · refine Or.inl ⟨read ++ first, ?_, ?_⟩
        · rw [hread, hfirst, List.append_assoc]
        · intro more
          rw [List.append_assoc, hcut, hcut', List.append_assoc]
      · refine Or.inr ⟨by simpa using hend, rfl, ?_⟩
        rw [hread, hcut, hlines]
    · -- nothing is left to be read
      rw [nextLine, hempty] at hn
      simp [scan, maxTokenSize] at hn
      split at hn <;> cases hn

/-- The row is seen unchanged, so nothing the collector relies on is. -/
theorem Collected.of_view {taken : List Line} {d' : Db} (h : Collected id taken s)
    (hsome : (view id d').isSome = (view id s.db).isSome)
    (hlog : logText id d' = logText id s.db) : Collected id taken { s with db := d' } where
  present := hsome ▸ h.present
  plain := h.plain
  stored := hlog ▸ h.stored
  unread := h.unread

theorem collected_write {taken : List Line} (h : Collected id taken s) (hr : s.running = true)
    (bs : List UInt8) :
    Collected id taken { s with written := s.written ++ bs, unread := s.unread ++ bs } where
  present := h.present
  plain := h.plain
  stored := h.stored
  unread := by
    rcases h.unread with ⟨read, hread, hcut⟩ | ⟨hstop, -, -⟩
    · exact Or.inl ⟨read, by rw [hread, List.append_assoc], hcut⟩
    · exact absurd (hr.symm.trans hstop) (by decide)

theorem tooLong_write (h : TooLong s) (bs : List UInt8) :
    TooLong { s with written := s.written ++ bs, unread := s.unread ++ bs } := by
  intro more
  obtain ⟨l, ls, he, hlen⟩ := h (bs ++ more)
  exact ⟨l, ls, by rw [← he, ← List.append_assoc], hlen⟩

theorem stopped_cases (h : nextLine s = .stopped) : AtEnd s ∨ TooLong s := by
  rcases scan_stopped (by decide) h with ⟨hend, hempty⟩ | hlong
  · exact Or.inl ⟨by simpa using hend, hempty⟩
  · exact Or.inr hlong

/-- A stopped collector may be detached at any time, a running one at the end only. -/
theorem atEnd_of_detach (hg : undisturbed id s .detach = true) (hon : s.collecting = true) :
    AtEnd s := by
  simp only [undisturbed, hon, Bool.not_true, Bool.false_or, Bool.and_eq_true,
    Bool.not_eq_true', List.isEmpty_iff] at hg
  exact hg

theorem collectorInv_collect (fails : Bool) (h : CollectorInv id s)
    (hg : undisturbed id s (.collect fails) = true) :
    CollectorInv id (act id s (.collect fails)) := by
  obtain ⟨taken, hc⟩ := h.collected
  simp only [act]
  split
  · next hcoll =>
    split
    · next line rest hn =>
      simp only [undisturbed, hn, hcoll, Bool.not_true, Bool.false_or, Bool.and_eq_true,
        Bool.not_eq_true'] at hg
      obtain ⟨rfl, hsome⟩ := hg
      obtain ⟨d', hd'⟩ := Option.isSome_iff_exists.mp hsome
      rw [attempt_false hd']
      refine ⟨⟨_, collected_token hc hn hd'⟩, fun hstop => ?_⟩
      exact absurd (hcoll.symm.trans hstop) (by decide)
    · exact h
    · next hn =>
      exact ⟨⟨taken, hc.present, hc.plain, hc.stored, hc.unread⟩, fun _ => stopped_cases hn⟩
  · exact h

theorem collectorInv_act (e : Event) (h : CollectorInv id s) (hg : undisturbed id s e = true) :
    CollectorInv id (act id s e) := by
  obtain ⟨taken, hc⟩ := h.collected
  cases e with
  | write bs =>
    simp only [act]
    split
    · next hr =>
      refine ⟨⟨taken, collected_write hc hr bs⟩, fun hstop => ?_⟩
      rcases h.stopped hstop with ⟨hrun, -⟩ | hlong
      · exact absurd (hr.symm.trans hrun) (by decide)
      · exact Or.inr (tooLong_write hlong bs)
    · exact h
  | exit =>
    refine ⟨⟨taken, hc.present, hc.plain, hc.stored, ?_⟩, fun hstop => ?_⟩
    · rcases hc.unread with hread | ⟨-, hempty, hlines⟩
      · exact Or.inl hread
      · exact Or.inr ⟨rfl, hempty, hlines⟩
    · rcases h.stopped hstop with ⟨-, hempty⟩ | hlong
      · exact Or.inl ⟨rfl, hempty⟩
      · exact Or.inr hlong
  | collect fails => exact collectorInv_collect fails h hg
  | detach =>
    refine ⟨⟨taken, hc.present, hc.plain, hc.stored, hc.unread⟩, fun _ => ?_⟩
    cases hcoll : s.collecting with
    | false => exact h.stopped hcoll
    | true =>
      have hend : AtEnd s := atEnd_of_detach hg hcoll
      exact Or.inl hend
  | inspect =>
    simp only [act]
    split
    · exact ⟨⟨taken, hc.present, hc.plain, hc.stored, hc.unread⟩, h.stopped⟩
    · exact h
  | finish status fails =>
    simp only [act]
    split
    · have hv := view_finish id status fails s.db
      refine ⟨⟨taken, hc.of_view ?_ ?_⟩, h.stopped⟩
      · rw [hv, Option.isSome_map]
      · unfold logText
        rw [hv]
        cases view id s.db <;> rfl
    · exact h
  | remove => exact ⟨⟨taken, hc.present, hc.plain, hc.stored, hc.unread⟩, h.stopped⟩
  | others d =>
    simp only [act]
    split
    · next hview =>
      refine ⟨⟨taken, hc.of_view (by rw [hview]) ?_⟩, h.stopped⟩
      unfold logText
      rw [hview]
    · exact h
  | read => exact h

/-! ## What is asked for -/

theorem dropMark_empty_iff {l : Line} : dropMark carriageReturn l = [] →
    l.length ≤ 1 := by
  rw [dropMark]
  split
  · intro h
    have hlen := congrArg List.length h
    simp only [List.length_dropLast, List.length_nil] at hlen
    omega
  · rintro rfl
    exact Nat.zero_le 1

theorem plain_dropMark {taken : List Line} (h : ∀ l ∈ taken, newline ∉ l) :
    ∀ l ∈ taken.map (dropMark carriageReturn), newline ∉ l := by
  intro l hl
  obtain ⟨u, hu, rfl⟩ := List.mem_map.mp hl
  rw [dropMark]
  split
  · exact fun hm => h u hu (List.dropLast_subset u hm)
  · exact h u hu

/-- The first append leaves an empty line in front. -/
theorem Collected.logLines {taken : List Line} {r : LogResponse} (h : Collected id taken s)
    (hr : r.content = logText id s.db) :
    logLines r = trimLast ([] :: taken.map (dropMark carriageReturn)) := by
  have hjoined : lines newline ([] ++ (taken.map (dropMark carriageReturn)).flatMap
      fun l => newline :: l) = _ := lines_joined (by simp) (plain_dropMark h.plain)
  rw [ConsoleOperationLog.logLines, hr, h.stored]
  exact hjoined

theorem Collected.allLines {taken : List Line} (h : Collected id taken s) (he : AtEnd s) :
    streamLines s.written = taken.map (dropMark carriageReturn) := by
  rw [streamLines]
  rcases h.unread with ⟨read, hread, hcut⟩ | ⟨-, -, hlines⟩
  · rw [hread, he.2, hcut]
    simp [lines]
  · rw [hlines]

/-- For every run in which nothing disturbs the collector: once it has finished, the log is
the stream line by line exactly when the stream has no line but empty ones. -/
theorem complete_log_iff {as : List Event} (hs : Fresh id s)
    (hg : Along (act id) (fun s e => undisturbed id s e = true) s as)
    (hend : (run (act id) s as).collecting = false) :
    (getOperationLog id (run (act id) s as).db).map logLines =
        some (streamLines (run (act id) s as).written) ↔
      ∀ l ∈ streamLines (run (act id) s as).written, l = [] := by
  have hinv := run_of_along (fun s e h hg => collectorInv_act e h hg) (collectorInv_fresh hs) hg
  generalize run (act id) s as = t at hend hinv ⊢
  obtain ⟨taken, hc⟩ := hinv.collected
  rw [getOperationLog_view hc.present, Option.map_some, hc.logLines rfl, Option.some.injEq]
  constructor
  · intro h
    refine eq_nil_of_shifted (h ▸ trimLast_prefix _) ?_
    rcases hc.unread with ⟨read, hread, hcut⟩ | ⟨-, -, hlines⟩
    · rw [streamLines, hread, hcut, List.map_append]
      exact List.prefix_append _ _
    · have hall : streamLines t.written = taken.map (dropMark carriageReturn) := by
        simp only [streamLines, hlines]
      exact hall ▸ List.prefix_refl _
  · intro hempty
    rcases hinv.stopped hend with hdone | hlong
    · rw [hc.allLines hdone] at hempty ⊢
      exact trimLast_empty hempty
    · -- a line that is too long is not empty
      rcases hc.unread with ⟨read, hread, hcut⟩ | ⟨hrun, hnone, -⟩
      · obtain ⟨l, ls, hl, hlen⟩ := hlong []
        rw [List.append_nil] at hl
        have hmem : dropMark carriageReturn l ∈ streamLines t.written := by
          rw [streamLines, hread, hcut, hl]
          exact List.mem_map_of_mem (List.mem_append_right _ List.mem_cons_self)
        have hshort := dropMark_empty_iff (hempty _ hmem)
        exact absurd (Nat.le_trans hlen hshort) (by decide)
      · rw [hc.allLines ⟨hrun, hnone⟩] at hempty ⊢
        exact trimLast_empty hempty

/-- The collector is started on the operation the handler has just created. -/
def started : State where
  db := deploying
  written := []
  running := true
  unread := []
  collecting := true
  inspected := false

theorem fresh_started : Fresh 1 started := ⟨by decide +kernel, rfl, rfl, rfl⟩

/-- The lines `ok` and `done`, and their end. -/
def twoLines : List Event :=
  [.write [111, 107, 13, 10, 100, 111], .collect false, .collect false,
    .write [110, 101, 13, 10], .collect false, .exit, .collect false]

theorem complete_log_two_lines :
    (getOperationLog 1 (run (act 1) started twoLines).db).map logLines =
        some (streamLines (run (act 1) started twoLines).written) ↔
      ∀ l ∈ streamLines (run (act 1) started twoLines).written, l = [] :=
  complete_log_iff fresh_started (by decide +kernel) (by decide +kernel)

theorem log_gains_a_line : ¬ ∀ (id : ℤ) (s : State) (as : List Event), Fresh id s →
    Along (act id) (fun s e => undisturbed id s e = true) s as →
    (run (act id) s as).collecting = false →
    (getOperationLog id (run (act id) s as).db).map logLines =
      some (streamLines (run (act id) s as).written) := by
  intro h
  have hlog := h 1 started twoLines fresh_started (by decide +kernel) (by decide +kernel)
  revert hlog
  decide +kernel

/-! ## What a complete response promises -/

structure DrainedInv (id : ℤ) (s : State) : Prop where
  collector : CollectorInv id s
  ended : s.collecting = false → AtEnd s
  status : finished id s.db = true → s.collecting = false
  seen : s.inspected = true → s.running = false

theorem drainedInv_fresh (h : Fresh id s) : DrainedInv id s where
  collector := collectorInv_fresh h
  ended := by simp [h.collecting]
  status := by simp [finished, h.stored]
  seen := by simp [h.inspected]

theorem finished_store (fails : Bool) (line : Line) (d : Db) :
    finished id (attempt fails (storeLine id line) d) = finished id d :=
  attempt_keeps (I := fun t => finished id t = finished id d) rfl
    fun _ hs => (storeLine_spec hs).2.1

theorem finished_of_view (h : view id d' = view id d) : finished id d' = finished id d := by
  simp only [finished, h]

/-- Only a status other than in progress finishes an operation. -/
theorem finished_inProgress {fails : Bool} {d : Db}
    (h : finished id (attempt fails
      (updateOperation ⟨id, some operationStatusInProgress, none⟩) d) = true) :
    finished id d = true := by
  rw [finished] at h ⊢
  rw [view_finish] at h
  cases hv : view id d with
  | none => rfl
  | some v =>
    rw [hv] at h
    by_cases hw : fails = false ∧ operationStatusInProgress ∈ operationStatuses
    · simp [hw] at h
    · simpa [hw] using h

/-- The collector that meets no long line stops at the end of the stream. -/
theorem ended_collect {fails : Bool} (h : DrainedInv id s)
    (hg : drained id s (.collect fails) = true)
    (hstop : (act id s (.collect fails)).collecting = false) :
    AtEnd (act id s (.collect fails)) := by
  simp only [act] at hstop ⊢
  split at hstop
  · next hon =>
    rw [if_pos hon]
    cases hn : nextLine s with
    | token line rest =>
      simp only [hn] at hstop
      exact absurd (hon.symm.trans hstop) (by decide)
    | blocked =>
      simp only [hn] at hstop
      exact h.ended hstop
    | stopped =>
      have hstep := (Bool.and_eq_true_iff.mp hg).2
      simp only [hn, hon, Bool.not_true, Bool.false_or, List.isEmpty_iff] at hstep
      rcases stopped_cases hn with hend | hlong
      · exact hend
      · obtain ⟨l, ls, he, -⟩ := hlong []
        rw [hstep] at he
        cases he
  · next hoff =>
    rw [if_neg hoff]
    exact h.ended hstop

theorem status_collect {fails : Bool} (h : DrainedInv id s)
    (hf : finished id (act id s (.collect fails)).db = true) :
    (act id s (.collect fails)).collecting = false := by
  simp only [act] at hf ⊢
  split
  · next hon =>
    rw [if_pos hon] at hf
    cases hn : nextLine s with
    | token line rest =>
      simp only [hn] at hf
      exact h.status ((finished_store fails _ s.db).symm.trans hf)
    | blocked =>
      simp only [hn] at hf
      exact h.status hf
    | stopped => rfl
  · next hoff =>
    rw [if_neg hoff] at hf
    exact h.status hf

theorem drainedInv_act (e : Event) (h : DrainedInv id s) (hg : drained id s e = true) :
    DrainedInv id (act id s e) := by
  obtain ⟨hund, hstep⟩ := Bool.and_eq_true_iff.mp hg
  have hcoll := collectorInv_act e h.collector hund
  cases e with
  | write bs =>
    simp only [act] at hcoll ⊢
    split
    · next hr =>
      rw [if_pos hr] at hcoll
      refine ⟨hcoll, fun hstop => ?_, h.status, h.seen⟩
      exact absurd (hr.symm.trans (h.ended hstop).1) (by decide)
    · exact h
  | exit => exact ⟨hcoll, fun hstop => ⟨rfl, (h.ended hstop).2⟩, h.status, fun _ => rfl⟩
  | collect fails =>
    refine ⟨hcoll, ended_collect h hg, status_collect h, ?_⟩
    simp only [act]
    split
    · cases nextLine s <;> exact h.seen
    · exact h.seen
  | detach =>
    refine ⟨hcoll, fun _ => ?_, fun _ => rfl, h.seen⟩
    cases hon : s.collecting with
    | false => exact h.ended hon
    | true =>
      have hend : AtEnd s := atEnd_of_detach hund hon
      exact hend
  | inspect =>
    simp only [act] at hcoll ⊢
    split
    · next hr =>
      rw [if_pos hr] at hcoll
      simp only [Bool.and_eq_true, Bool.not_eq_true'] at hr
      exact ⟨hcoll, h.ended, h.status, fun _ => hr.1⟩
    · exact h
  | finish status fails =>
    simp only [act] at hcoll ⊢
    split
    · next hin =>
      rw [if_pos hin] at hcoll
      refine ⟨hcoll, h.ended, fun hf => ?_, h.seen⟩
      simp only [hin, Bool.not_true, Bool.false_or, Bool.or_eq_true, Bool.not_eq_true',
        beq_iff_eq] at hstep
      rcases hstep with rfl | hstop
      · -- the operation is put back into progress
        exact h.status (finished_inProgress hf)
      · exact hstop
    · exact h
  | remove => exact ⟨hcoll, h.ended, h.status, by simp [act]⟩
  | others d =>
    simp only [act] at hcoll ⊢
    split
    · next hview =>
      rw [if_pos hview] at hcoll
      exact ⟨hcoll, h.ended, fun hf => h.status (finished_of_view hview ▸ hf), h.seen⟩
    · exact h
  | read => exact h

/-- What a complete response says of the state it was given in and of every later one. -/
structure Lasting (id : ℤ) (r : LogResponse) (s : State) : Prop where
  stopped : s.collecting = false
  exited : s.running = false
  content : logText id s.db = r.content
  lines : ∀ l ∈ streamLines s.written, l ∈ logLines r

theorem lasting_act {r : LogResponse} (e : Event) (h : Lasting id r s) :
    Lasting id r (act id s e) := by
  have hcollect : s.collecting = false := h.stopped
  have hrun : s.running = false := h.exited
  cases e with
  | write bs => simpa [act, hrun] using h
  | exit => exact ⟨hcollect, rfl, h.content, h.lines⟩
  | collect fails => simpa [act, hcollect] using h
  | detach => exact ⟨rfl, hrun, h.content, h.lines⟩
  | inspect =>
    simp only [act]
    split
    · exact ⟨hcollect, hrun, h.content, h.lines⟩
    · exact h
  | finish status fails =>
    simp only [act]
    split
    · refine ⟨hcollect, hrun, ?_, h.lines⟩
      rw [← h.content]
      unfold logText
      rw [view_finish]
      cases view id s.db <;> rfl
    · exact h
  | remove => exact ⟨hcollect, hrun, h.content, h.lines⟩
  | others d =>
    simp only [act]
    split
    · next hview =>
      refine ⟨hcollect, hrun, ?_, h.lines⟩
      rw [← h.content]
      unfold logText
      rw [hview]
    · exact h
  | read => exact h

theorem mem_responses {r : LogResponse} (h : DrainedInv id s) (hr : r ∈ responses id s e) :
    act id s e = s ∧ r = ⟨logText id s.db, finished id s.db⟩ := by
  cases e with
  | read =>
    obtain ⟨taken, hc⟩ := h.collector.collected
    rw [responses, getOperationLog_view hc.present] at hr
    exact ⟨rfl, by simpa using hr⟩
  | _ => cases hr

theorem lasting_response {r : LogResponse} (h : DrainedInv id s) (hr : r ∈ responses id s e)
    (hcomplete : r.completed = true) : Lasting id r (act id s e) := by
  obtain ⟨hact, rfl⟩ := mem_responses h hr
  obtain ⟨taken, hc⟩ := h.collector.collected
  have hstop := h.status hcomplete
  have hend := h.ended hstop
  rw [hact]
  refine ⟨hstop, hend.1, rfl, ?_⟩
  intro l hl
  rw [hc.allLines hend] at hl
  rw [hc.logLines rfl]
  exact mem_trimLast hl

/-- In every run in which the collector loses no line and the watcher waits for its end, a
log reported complete is final. -/
theorem complete_log_final {as : List Event} (hs : Fresh id s)
    (hg : Along (act id) (fun s e => drained id s e = true) s as) :
    Final (run (act id) s as).written (trace (act id) (responses id) s as) := by
  have hstep := fun s e (h : DrainedInv id s) hg => drainedInv_act e h hg
  have hlasts : ∀ (r : LogResponse) (s : State) (e : Event), DrainedInv id s →
      drained id s e = true → (r.completed = true → Lasting id r s) →
      r.completed = true → Lasting id r (act id s e) :=
    fun r s e _ _ h hr => lasting_act e (h hr)
  have hemit : ∀ (s : State) (e : Event), DrainedInv id s → drained id s e = true →
      ∀ r ∈ responses id s e, r.completed = true → Lasting id r (act id s e) :=
    fun s e h _ r hr => lasting_response h hr
  constructor
  · refine trace_pairwise hstep hlasts hemit ?_ ?_ (drainedInv_fresh hs) hg
    · intro r s e h hr r' hr' hcomplete
      rw [(mem_responses h hr').2]
      exact (hr hcomplete).content
    · intro s e
      cases e with
      | read => cases h : getOperationLog id s.db <;> simp [responses, h]
      | _ => exact List.Pairwise.nil
  · intro r hr hcomplete
    exact (trace_lasting hstep hlasts hemit (drainedInv_fresh hs) hg r hr hcomplete).lines

/-- The watcher finishes the operation after the collector. -/
theorem complete_log_final_two_lines :
    Final (run (act 1) started (twoLines ++ [.inspect, .finish "success" false, .read, .remove,
        .read])).written
      (trace (act 1) (responses 1) started (twoLines ++ [.inspect, .finish "success" false, .read,
        .remove, .read])) :=
  complete_log_final fresh_started (by decide +kernel)

/-- The watcher finishes the operation while a line is still unread. -/
def overtaken : List Event :=
  [.write [111, 107, 13, 10], .exit, .inspect, .finish "success" false, .remove, .read,
    .collect false, .read]

theorem complete_log_changes : ¬ ∀ (id : ℤ) (s : State) (as : List Event), Fresh id s →
    Final (run (act id) s as).written (trace (act id) (responses id) s as) := by
  intro h
  have hstable := (h 1 started overtaken fresh_started).stable
  revert hstable
  decide +kernel

end ConsoleOperationLog
