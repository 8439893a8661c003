import Autobase.YeditRemoval
import Mathlib.Logic.Function.Basic

/-! # The module yedit

A run loads the file, edits the document and writes the file when something changed. Run again on
what it has written, the module has nothing to do. -/
namespace YeditModule

open ObjectLiterals DocumentTrees DocumentPlaces YeditKeys Yedit YeditEdits YeditRemoval

/-! ## Runs -/

abbrev Files := String → Option String

inductive ContentType where
  | yaml
  | json
  deriving DecidableEq

def ContentType.name : ContentType → String
  | .yaml => "yaml"
  | .json => "json"

/-- The loaders and the dumpers. -/
structure Formats extends Library where
  load : ContentType → String → Option Value
  dump : ContentType → Value → String

/-- What is written is not empty and is read as an equal document. -/
def Formats.ReadsBack (F : Formats) (type : ContentType) (d : Value) : Prop :=
  F.dump type d ≠ "" ∧ ∃ e, F.load type (F.dump type d) = some e ∧ equal e d = true

inductive State where
  | present
  | absent
  | list
  deriving DecidableEq

/-- A parameter that is not given is null. -/
structure Params where
  state : State
  src : Option String
  content : Value
  contentType : ContentType
  key : String
  value : Value
  valueType : String
  edits : Option (List Edit)
  update : Bool
  append : Bool
  index : Option ℤ
  currValue : Value
  currValueFormat : Option String
  backup : Bool
  backupExt : String
  separator : String
  keyed : value.wellKeyed = true

inductive Result where
  | document (d : Value)
  | edits (keys : List String)

inductive Response where
  | failed (message : String)
  | done (changed : Bool) (result : Result)

/-- `params['src']` when it is neither null nor empty. -/
def Params.file (p : Params) : Option String := p.src.filter fun f => decide (f ≠ "")

/-- The contents of the file, of which the empty ones count as none. -/
def Params.contents (p : Params) (files : Files) : Option String :=
  (p.file.bind files).filter fun text => decide (text ≠ "")

/-- What `load` returns. -/
def Params.load (F : Formats) (p : Params) (files : Files) : Outcome Value :=
  match p.contents files with
  | none => .ok null
  | some text =>
    match F.load p.contentType text with
    | some d => .ok d
    | none => .error (if p.contentType = .yaml then .yamlError else .valueError)

/-- The document after loading: an empty mapping without a file, but null for a file with null. -/
def Params.document (F : Formats) (p : Params) (files : Files) : Outcome Value :=
  if p.contents files = none then .ok (.dict []) else p.load F files

def errorOpening (file : String) : String :=
  "Error opening file [" ++ file ++ "].  Verify that the " ++
    "file exists, that it is has correct permissions, and is valid yaml."

def Params.write (F : Formats) (p : Params) (f : String) (d : Value) (files : Files) : Files :=
  let saved := match p.backup, files f with
    | true, some old => Function.update files (f ++ p.backupExt) (some old)
    | _, _ => files
  Function.update saved f (some (F.dump p.contentType d))

/-- The file is written when there is one. -/
def Params.store (F : Formats) (p : Params) (d : Value) (files : Files) : Files :=
  match p.file with
  | some f => p.write F f d files
  | none => files

/-- The document of the content parameter, if that is given. -/
def Params.replaced (F : Formats) (p : Params) (d : Value) : Outcome Value :=
  if truthy p.content then parseValue F.toLibrary p.content p.contentType.name else .ok d

def Params.action (p : Params) : Action :=
  if p.update then .update p.index p.currValue p.currValueFormat
  else if p.append then .append
  else .put

/-- A value is one edit and takes the place of the list. -/
def Params.editList (p : Params) : List Edit :=
  if isNull p.value then p.edits.getD []
  else [⟨p.key, p.value, p.valueType, p.action, p.keyed⟩]

def listed (F : Formats) (p : Params) (files : Files) (d : Value) : Outcome Response :=
  (p.replaced F d).bind fun d =>
    if p.key ≠ "" then (getEntry d p.key p.separator).map fun v => .done false (.document v)
    else if p.file.isSome then (p.load F files).map fun v => .done false (.document v)
    else .error .unboundLocal

def removed (F : Formats) (p : Params) (files : Files) (d : Value) : Outcome (Response × Files) :=
  (p.replaced F d).bind fun d =>
    (if p.update then pop p.separator p.key p.value d
      else delete p.separator p.key p.index p.value d).map fun result =>
        (.done result.1 (.document result.2),
          if result.1 then p.store F result.2 files else files)

def presented (F : Formats) (p : Params) (files : Files) (d : Value) : Outcome (Response × Files) :=
  (p.replaced F d).bind fun content =>
    if truthy p.content = true ∧ equal d content = true ∧ isNull p.value = true then
      .ok (.done false (.document d), files)
    else if p.editList = [] then
      .ok (.done p.file.isSome (.document content), p.store F content files)
    else
      (processEdits F.toLibrary p.separator p.editList content).map fun result =>
        (.done (!result.1.isEmpty) (.edits result.1),
          if result.1.isEmpty then files else p.store F result.2 files)

def runAnsible (F : Formats) (p : Params) (files : Files) : Outcome (Response × Files) :=
  (p.document F files).bind fun d =>
    if p.file.isSome ∧ isNull d ∧ p.state ≠ .present then
      .ok (.failed (errorOpening (p.file.getD "")), files)
    else
      match p.state with
      | .list => (listed F p files d).map fun response => (response, files)
      | .absent => removed F p files d
      | .present => presented F p files d

/-! ## Documents that were written and read again -/

variable {F : Formats} {p : Params} {files : Files} {f sep path : String} {d d' e v value : Value}
  {q : List Step} {keys : List String}

theorem eq_null_of_equal {w : Value} (h : equal w null = true) : w = null := by
  cases w with
  | scalar a =>
    cases a with
    | none => rfl
    | bool b => cases h
    | int n => cases h
    | float r => cases h
    | str s => cases h
  | list xs => cases h
  | dict m => cases h

theorem isContainer_of_equal (h : equal e d = true) : isContainer e = isContainer d := by
  cases e with
  | scalar a =>
    cases d with
    | scalar b => rfl
    | list xs => cases h
    | dict m => cases h
  | list xs =>
    cases d with
    | scalar b => cases h
    | list ys => rfl
    | dict m => cases h
  | dict m =>
    cases d with
    | scalar b => cases h
    | list ys => cases h
    | dict n => rfl

/-- The same steps find equal values in equal documents. -/
theorem descend_equal (h : equal e d = true) (hd : descend q d = .ok v) :
    ∃ w, descend q e = .ok w ∧ equal w v = true := by
  induction q generalizing d e with
  | nil =>
    obtain rfl := Except.ok.inj hd
    exact ⟨e, rfl, h⟩
  | cons s q ih =>
    have hnull : ∃ w, (Except.ok null : Outcome Value) = .ok w ∧ equal w null = true :=
      ⟨null, rfl, rfl⟩
    have hchild := child_eqv h s
    cases d with
    | scalar b =>
      have hv : null = v := by cases s <;> exact Except.ok.inj hd
      subst hv
      cases e with
      | scalar a => cases s <;> exact hnull
      | list xs => cases h
      | dict m => cases h
    | list ys =>
      cases e with
      | scalar a => cases h
      | dict m => cases h
      | list xs =>
        have hlength := eqvList_length h
        cases s with
        | key k =>
          obtain rfl := Except.ok.inj hd
          exact hnull
        | index i =>
          rw [descend] at hd ⊢
          rw [hlength]
          split at hd
          · next hi =>
            rw [if_pos hi]
            split at hd
            · next y hy =>
              rw [hy] at hchild
              split
              · next x hx =>
                rw [hx] at hchild
                cases hchild with
                | some hxy => exact ih hxy hd
              · next hx =>
                rw [hx] at hchild
                cases hchild
            · cases hd
          · next hi =>
            rw [if_neg hi]
            obtain rfl := Except.ok.inj hd
            exact hnull
    | dict n =>
      cases e with
      | scalar a => cases h
      | list xs => cases h
      | dict m =>
        cases s with
        | index i =>
          obtain rfl := Except.ok.inj hd
          exact hnull
        | key k =>
          rw [descend] at hd ⊢
          rw [child, child] at hchild
          cases hm : m.lookup k with
          | none =>
            rw [hm] at hchild
            cases hn : n.lookup k with
            | none =>
              rw [hn, Option.getD_none, descend_null] at hd
              obtain rfl := Except.ok.inj hd
              exact ⟨null, descend_null q, rfl⟩
            | some y => rw [hn] at hchild; cases hchild
          | some x =>
            rw [hm] at hchild
            cases hn : n.lookup k with
            | none => rw [hn] at hchild; cases hchild
            | some y =>
              rw [hn] at hchild hd
              cases hchild with
              | some hxy => exact ih hxy hd

theorem getEntry_equal (h : equal e d = true) (hd : getEntry d path sep = .ok v) :
    ∃ w, getEntry e path sep = .ok w ∧ equal w v = true := by
  rw [getEntry] at hd ⊢
  rw [isContainer_of_equal h]
  split at hd
  · next hinvalid =>
    obtain rfl := Except.ok.inj hd
    exact ⟨null, by rw [if_pos hinvalid], rfl⟩
  · next hinvalid =>
    rw [if_neg hinvalid]
    exact descend_equal h hd

/-- A value that is set in a document is set in every equal one. -/
theorem idle_equal (h : equal e d = true) (hidle : Idle sep path value d) :
    Idle sep path value e := by
  rcases idle_cases hidle with ⟨entry, hentry, hequal⟩ | ⟨rfl, hvalue⟩ | ⟨hpath, hvalid, hd⟩
  · obtain ⟨w, hw, hwe⟩ := getEntry_equal h hentry
    exact idle_of_found hw (w.eqv_trans Scalar.same_trans _ _ hwe hequal)
  · rw [Idle, put, getEntry_empty, addEntry]
    simp only [Except.bind, if_true, Except.map, hvalue, Bool.false_eq_true, if_false]
    split <;> rfl
  · exact idle_of_invalid hpath hvalid ((isContainer_of_equal h).trans hd)

theorem settled_equal {edits : List Edit} (h : equal e d = true)
    (hsettled : Settled F.toLibrary sep edits d) : Settled F.toLibrary sep edits e := by
  intro edit hedit
  obtain ⟨value, hvalue, hidle⟩ := hsettled edit hedit
  exact ⟨value, hvalue, idle_equal h hidle⟩

theorem write_self (F : Formats) (p : Params) (f : String) (d : Value) (files : Files) :
    p.write F f d files f = some (F.dump p.contentType d) :=
  Function.update_self f _ _

/-- After a run that wrote it, the document is loaded up to the order of its mappings. -/
theorem document_store (files : Files) (hf : p.file = some f)
    (hback : F.ReadsBack p.contentType d) :
    ∃ e, p.document F (p.store F d files) = .ok e ∧ equal e d = true := by
  obtain ⟨hne, e, he, hequal⟩ := hback
  have hcontents : p.contents (p.store F d files) = some (F.dump p.contentType d) := by
    rw [Params.contents, Params.store, hf]
    simp [write_self, hne]
  refine ⟨e, ?_, hequal⟩
  rw [Params.document, hcontents, if_neg (by simp), Params.load, hcontents]
  simp only [he]

/-! ## Running again -/

/-- The task sets values in a file: no content is given, and the places are apart. -/
structure SetsValues (p : Params) (f : String) : Prop where
  present : p.state = .present
  file : p.file = some f
  noContent : truthy p.content = false
  edits : p.editList ≠ []
  apart : SetsApart p.separator p.editList

theorem run_present (hset : SetsValues p f) (hload : p.document F files = .ok d)
    (hedits : processEdits F.toLibrary p.separator p.editList d = .ok (keys, d')) :
    runAnsible F p files =
      .ok (.done (!keys.isEmpty) (.edits keys),
        if keys.isEmpty then files else p.store F d' files) := by
  rw [runAnsible, hload]
  simp only [Except.bind]
  rw [if_neg (fun h => h.2.2 hset.present), hset.present]
  simp only [presented, Params.replaced, hset.noContent, Bool.false_eq_true, if_false, Except.bind,
    false_and, if_neg hset.edits, hedits, Except.map]

/-- A task that sets values and succeeded reports no change when it is run again, and leaves the
files as they are. -/
theorem present_again (hset : SetsValues p f) (hload : p.document F files = .ok d)
    (hedits : processEdits F.toLibrary p.separator p.editList d = .ok (keys, d'))
    (hback : F.ReadsBack p.contentType d') :
    ∃ files', runAnsible F p files = .ok (.done (!keys.isEmpty) (.edits keys), files') ∧
      runAnsible F p files' = .ok (.done false (.edits []), files') := by
  refine ⟨_, run_present hset hload hedits, ?_⟩
  cases keys with
  | nil =>
    obtain rfl := processEdits_unchanged hedits
    exact run_present hset hload hedits
  | cons k ks =>
    obtain ⟨e, he, hequal⟩ := document_store files hset.file hback
    have hsettled := (settled_processEdits hset.apart hedits).1
    exact run_present hset he
      (processEdits_settled (settled_equal hequal hsettled) hset.apart.puts)

/-- The formats of one file that holds the key `a`. -/
def plainFormats : Formats where
  toLibrary := plainLibrary
  load _ text :=
    if text = "a: 0\n" then some (.dict [("a", .scalar (.int 0))])
    else if text = "a: 1\n" then some (.dict [("a", one)])
    else if text = "{}\n" then some (.dict [])
    else none
  dump _ d :=
    if equal d (.dict [("a", one)]) then "a: 1\n"
    else if equal d (.dict []) then "{}\n"
    else "a: 0\n"

def settingA : Params where
  state := .present
  src := some "patroni.yml"
  content := null
  contentType := .yaml
  key := "a"
  value := .scalar (.str "1")
  valueType := ""
  edits := none
  update := false
  append := false
  index := none
  currValue := null
  currValueFormat := some "yaml"
  backup := false
  backupExt := ".bak"
  separator := "."
  keyed := rfl

def filesWithA : Files := fun f => if f = "patroni.yml" then some "a: 0\n" else none

theorem setting_again :
    ∃ files', runAnsible plainFormats settingA filesWithA =
        .ok (.done true (.edits ["a"]), files') ∧
      runAnsible plainFormats settingA files' = .ok (.done false (.edits []), files') := by
  have hset : SetsValues settingA "patroni.yml" := by
    refine ⟨rfl, rfl, rfl, List.cons_ne_nil _ _, ⟨?_, List.pairwise_singleton _ _⟩⟩
    simp only [Params.editList, settingA, isNull, Bool.false_eq_true, if_false,
      List.forall_mem_singleton]
    rfl
  have hback : plainFormats.ReadsBack .yaml (.dict [("a", one)]) :=
    ⟨by decide, _, rfl, rfl⟩
  have hload : settingA.document plainFormats filesWithA =
      .ok (.dict [("a", .scalar (.int 0))]) := rfl
  exact present_again hset hload rfl hback

/-- The task removes one key of a mapping in a file. -/
structure RemovesKey (p : Params) (f : String) : Prop where
  absent : p.state = .absent
  file : p.file = some f
  noContent : truthy p.content = false
  entry : p.update = false
  key : ∃ q k, parseKey p.key p.separator = q ++ [.key k]

theorem run_absent {changed : Bool} (hremoves : RemovesKey p f) (hload : p.document F files = .ok d)
    (hnull : isNull d = false)
    (hdelete : delete p.separator p.key p.index p.value d = .ok (changed, d')) :
    runAnsible F p files =
      .ok (.done changed (.document d'), if changed then p.store F d' files else files) := by
  rw [runAnsible, hload]
  simp only [Except.bind]
  rw [if_neg (fun h => by simp [hnull] at h), hremoves.absent]
  simp only [removed, Params.replaced, hremoves.noContent, Bool.false_eq_true, if_false,
    Except.bind, hremoves.entry, hdelete, Except.map]

/-- A removed key of a mapping stays removed: run again, the task reports no change and leaves the
files as they are. -/
theorem absent_again {changed : Bool} (hremoves : RemovesKey p f)
    (hload : p.document F files = .ok d) (hnull : isNull d = false)
    (hdelete : delete p.separator p.key p.index p.value d = .ok (changed, d'))
    (hback : F.ReadsBack p.contentType d') :
    ∃ files' result, runAnsible F p files = .ok (.done changed (.document d'), files') ∧
      runAnsible F p files' = .ok (.done false result, files') := by
  obtain ⟨q, k, hkey⟩ := hremoves.key
  cases changed with
  | false =>
    obtain rfl := delete_unchanged hdelete
    exact ⟨_, _, run_absent hremoves hload hnull hdelete, run_absent hremoves hload hnull hdelete⟩
  | true =>
    obtain ⟨e, he, hequal⟩ := document_store files hremoves.file hback
    obtain ⟨w, hw, hwnull⟩ := getEntry_equal hequal (delete_key hdelete hkey).1
    obtain rfl := eq_null_of_equal hwnull
    have hcontainer : isNull e = false := by
      have hd := isContainer_delete hdelete hkey
      rw [← isContainer_of_equal hequal] at hd
      cases e with
      | scalar a => cases hd
      | list xs => rfl
      | dict m => rfl
    refine ⟨_, .document e, run_absent hremoves hload hnull hdelete, ?_⟩
    exact run_absent hremoves he hcontainer (delete_missing hw)

def removingA : Params := { settingA with state := .absent, value := null, keyed := rfl }

theorem removing_again :
    ∃ files' result, runAnsible plainFormats removingA filesWithA =
        .ok (.done true (.document (.dict [])), files') ∧
      runAnsible plainFormats removingA files' = .ok (.done false result, files') := by
  have hremoves : RemovesKey removingA "patroni.yml" :=
    ⟨rfl, rfl, rfl, rfl, [], "a", by decide⟩
  have hback : plainFormats.ReadsBack .yaml (.dict []) := ⟨by decide, _, rfl, rfl⟩
  have hload : removingA.document plainFormats filesWithA =
      .ok (.dict [("a", .scalar (.int 0))]) := rfl
  exact absent_again hremoves hload rfl rfl hback

end YeditModule
