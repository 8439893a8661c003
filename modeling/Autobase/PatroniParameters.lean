import Autobase.PatroniTemplate
import Autobase.PatroniDynamicConfig
import Autobase.QuotedScalars
import Autobase.LineFilters

/-! # Parameters in the file and in the dynamic configuration

One list of parameters is rendered into patroni.yml and sent to Patroni, and the options with the
value null are taken out of both afterwards. In the file the value has been quoted by then. -/
namespace PatroniParameters

open LineEdits PatroniConfigBackup PatroniTemplate PatroniDynamicConfig QuotedScalars MergePatch
open JsonText JsonRoundTrip JsonAscii ObjectLiterals

/-! ## The file -/

/-- An option has the name of a setting, and its value is any text. -/
structure PostgresqlParameter where
  option : Line
  value : Line
  identifier : option.all isIdentifier = true

def nullText : Line := "null".toList

/-- What the template has around the parameters of bootstrap.dcs. -/
structure Surroundings where
  before : List Line
  standbyCluster : StandbyCluster
  slots : List Slot
  remaining : List Line
  unmarked : parametersLine ∉ before

def PostgresqlParameter.line (p : PostgresqlParameter) : Line := keyed 8 p.option (inQuotes p.value)

/-- A line feed in the value breaks the line. -/
def PostgresqlParameter.lines (p : PostgresqlParameter) : List Line :=
  p.line.splitOnP fun c => decide (c = '\n')

def Surroundings.after (f : Surroundings) : List Line :=
  f.standbyCluster.section ++ slotsSection f.slots ++ [] :: f.remaining

def render (f : Surroundings) (ps : List PostgresqlParameter) : List Line :=
  f.before ++ parametersLine :: (ps.flatMap PostgresqlParameter.lines ++ f.after)

/-- A dot in the name of an option is any character. -/
def nameClass (c : Char) : Char → Bool := if c = '.' then fun _ => true else fun d => decide (d = c)

/-- The part of the regular expression that ends the line. -/
def nullRegexp (option : Line) : List (Char → Bool) :=
  option.map nameClass ++ (':' :: ' ' :: nullText).map fun c d => decide (d = c)

def matchesNull (option line : Line) : Bool :=
  fits (nullRegexp option) (line.drop (line.length - (nullRegexp option).length))

def deleteNull (lines : List Line) (p : PostgresqlParameter) : List Line :=
  if p.value = nullText then lines.filter fun l => !matchesNull p.option l else lines

/-- The file after the tasks: rendered, and then freed of the options with the value null. -/
def patroniYml (f : Surroundings) (ps : List PostgresqlParameter) : List Line :=
  ps.foldl deleteNull (render f ps)

/-! ## What is read in the file -/

def isEntryLine (l : Line) : Bool := (List.replicate 8 ' ').isPrefixOf l

/-- Behind a scalar there is nothing but blanks or a comment. -/
def closesLine : Line → Bool
  | [] => true
  | c :: l =>
    isBlank c && match l.dropWhile isBlank with
      | [] => true
      | d :: _ => decide (d = '#')

def readEntry (l : Line) : Option (String × Line) :=
  match (l.drop 8).dropWhile isIdentifier with
  | ':' :: ' ' :: '"' :: r =>
    (readQuoted (r.length + 1) .text r).bind fun q =>
      if closesLine q.2 then some (String.ofList ((l.drop 8).takeWhile isIdentifier), q.1) else none
  | _ => none

/-- The mapping below the first key `parameters` at its place. -/
def parametersIn (lines : List Line) : Option (List (String × Line)) :=
  (((lines.dropWhile fun l => decide (l ≠ parametersLine)).drop 1).takeWhile isEntryLine).mapM
    readEntry

/-! ## Requests -/

def parametersBody (option text : Line) : List Char :=
  braced (entry "postgresql".toList
    (braced (entry "parameters".toList (braced (entry option text)))))

def updateBody (p : PostgresqlParameter) : List Char := parametersBody p.option (inQuotes p.value)

def deleteBody (p : PostgresqlParameter) : List Char := parametersBody p.option nullText

def listed (ps : List PostgresqlParameter) : List PostgresqlParameter :=
  ps.filter fun p => decide (p.value ≠ nullText)

def nulled (ps : List PostgresqlParameter) : List PostgresqlParameter :=
  ps.filter fun p => decide (p.value = nullText)

/-- The requests in turn; the play ends at the first that is refused. -/
def requests (bodies : List (List Char)) (config : Members) : Option Members :=
  bodies.foldlM (fun c body => patch body c) config

def parameterTasks (ps : List PostgresqlParameter) (config : Members) : Option Members :=
  requests ((listed ps).map updateBody ++ (nulled ps).map deleteBody) config

def parametersOf (config : Members) : Members :=
  mapping ((mapping (config.lookup "postgresql")).lookup "parameters")

/-! ## What both stores should hold -/

def PostgresqlParameter.name (p : PostgresqlParameter) : String := String.ofList p.option

def declared (ps : List PostgresqlParameter) : List (String × Line) :=
  (listed ps).map fun p => (p.name, p.value)

def FileHolds (ps : List PostgresqlParameter) (lines : List Line) : Prop :=
  ∃ entries, parametersIn lines = some entries ∧
    ∀ name, entries.lookup name = (declared ps).lookup name

/-- The listed options have their values, those with null are absent, and no other changed. -/
structure ConfigHolds (ps : List PostgresqlParameter) (config config' : Members) : Prop where
  values : ∀ p ∈ ps, (parametersOf config').lookup p.name =
    if p.value = nullText then none else some (.str (String.ofList p.value))
  others : ∀ name, name ∉ ps.map PostgresqlParameter.name →
    (parametersOf config').lookup name = (parametersOf config).lookup name

/-- The tasks succeed if Patroni takes the rendered file as valid and all the requests. -/
def Held (validateConfig : List Line → Bool) (f : Surroundings) (ps : List PostgresqlParameter) :
    Prop :=
  validateConfig (render f ps) = true → ∀ config config', parameterTasks ps config = some config' →
    FileHolds ps (patroniYml f ps) ∧ ConfigHolds ps config config'

/-- The value makes a body that Patroni does not read. -/
def Refused (p : PostgresqlParameter) : Prop :=
  p.value ≠ nullText ∧ bodyMembers (updateBody p) = none

/-! ## Deletions -/

variable {f : Surroundings} {ps : List PostgresqlParameter} {p : PostgresqlParameter}
variable {l option : Line}

theorem getLast?_of_fits {classes : List (Char → Bool)} {q : Char → Bool} {text : Line}
    (h : fits (classes ++ [q]) text = true) (hlength : text.length ≤ classes.length + 1) :
    ∃ c, text.getLast? = some c ∧ q c = true := by
  obtain ⟨a, b, rfl, ha, -, hb⟩ := fits_append_left.mp h
  cases b with
  | nil => cases hb
  | cons c b =>
    obtain ⟨hc, -⟩ := Bool.and_eq_true_iff.mp hb
    simp only [List.length_append, List.length_cons] at hlength
    have hnil : b = [] := List.eq_nil_of_length_eq_zero (by omega)
    exact ⟨c, by simp [hnil], hc⟩

theorem getLast?_of_drop {k : ℕ} {c : Char} (h : (l.drop k).getLast? = some c) :
    l.getLast? = some c := by
  have hne : l.drop k ≠ [] := by
    intro hnil
    rw [hnil] at h
    cases h
  rw [← List.take_append_drop k l, List.getLast?_append_of_ne_nil _ hne, h]

/-- Only a line that ends as null does is deleted. -/
theorem matchesNull_last (h : matchesNull option l = true) : l.getLast? = some 'l' := by
  have hsplit : nullRegexp option = (option.map nameClass ++
      [':', ' ', 'n', 'u', 'l'].map fun c d => decide (d = c)) ++ [fun d => decide (d = 'l')] := by
    simp [nullRegexp, nullText]
  rw [matchesNull, hsplit] at h
  obtain ⟨c, hlast, hc⟩ := getLast?_of_fits h (by simp; omega)
  obtain rfl := of_decide_eq_true hc
  exact getLast?_of_drop hlast

def survives (ps : List PostgresqlParameter) (l : Line) : Bool :=
  (nulled ps).all fun p => !matchesNull p.option l

theorem foldl_deleteNull (ps : List PostgresqlParameter) (lines : List Line) :
    ps.foldl deleteNull lines = lines.filter (survives ps) := by
  induction ps generalizing lines with
  | nil => exact (List.filter_eq_self.mpr fun _ _ => rfl).symm
  | cons p ps ih =>
    rw [List.foldl_cons, ih, deleteNull]
    split
    · rename_i hnull
      rw [List.filter_filter]
      apply List.filter_congr
      intro l _
      simp [survives, nulled, hnull, Bool.and_comm]
    · rename_i hvalue
      apply List.filter_congr
      intro l _
      simp [survives, nulled, hvalue]

theorem survives_of_last (h : l.getLast? ≠ some 'l') (ps : List PostgresqlParameter) :
    survives ps l = true := by
  apply List.all_eq_true.mpr
  intro p _
  simp only [Bool.not_eq_true']
  by_contra hmatch
  exact h (matchesNull_last (by simpa using hmatch))

theorem survives_line (p : PostgresqlParameter) (ps : List PostgresqlParameter) :
    survives ps p.line = true := by
  have hline : p.line = indented 8 (p.option ++ ':' :: ' ' :: '"' :: p.value) ++ ['"'] := by
    simp [PostgresqlParameter.line, keyed, indented, inQuotes]
  apply survives_of_last
  rw [hline, List.getLast?_concat]
  decide

/-! ## The section of the parameters -/

/-- The template goes on with a line that ends the section. -/
theorem after_head (f : Surroundings) : ∃ l ls, f.after = l :: ls ∧ isEntryLine l = false ∧
    l.getLast? ≠ some 'l' := by
  rw [Surroundings.after, StandbyCluster.section, slotsSection]
  split
  · split
    · exact ⟨[], _, rfl, rfl, by decide⟩
    · exact ⟨indented 4 "slots:".toList, _, rfl, by decide, by decide⟩
  · exact ⟨standbyClusterLine, _, rfl, by decide, by decide⟩

theorem patroniYml_eq (f : Surroundings) (ps : List PostgresqlParameter) :
    ∃ before l after, patroniYml f ps = before ++ parametersLine ::
        ((ps.flatMap PostgresqlParameter.lines).filter (survives ps) ++ l :: after) ∧
      parametersLine ∉ before ∧ isEntryLine l = false := by
  obtain ⟨l, ls, hafter, hentry, hlast⟩ := after_head f
  have hkey : survives ps parametersLine = true := survives_of_last (by decide) ps
  refine ⟨f.before.filter (survives ps), l, ls.filter (survives ps), ?_, ?_, hentry⟩
  · rw [patroniYml, foldl_deleteNull, render, hafter, List.filter_append,
      List.filter_cons_of_pos hkey, List.filter_append,
      List.filter_cons_of_pos (survives_of_last hlast ps)]
  · intro hmem
    exact f.unmarked (List.mem_filter.mp hmem).1

/-- Where the entries are read. -/
def entryLines (ps : List PostgresqlParameter) : List Line :=
  ((ps.flatMap PostgresqlParameter.lines).filter (survives ps)).takeWhile isEntryLine

theorem takeWhile_stop {α : Type*} {q : α → Bool} {x : α} (hx : q x = false) (a b : List α) :
    (a ++ x :: b).takeWhile q = a.takeWhile q := by
  induction a with
  | nil => rw [List.nil_append, List.takeWhile_cons_of_neg (by simp [hx])]; rfl
  | cons y a ih =>
    rw [List.cons_append, List.takeWhile_cons, List.takeWhile_cons, ih]

theorem parametersIn_patroniYml (f : Surroundings) (ps : List PostgresqlParameter) :
    parametersIn (patroniYml f ps) = (entryLines ps).mapM readEntry := by
  obtain ⟨before, l, after, hfile, hbefore, hentry⟩ := patroniYml_eq f ps
  have hskip : ∀ line ∈ before, decide (line ≠ parametersLine) = true := by
    intro line hline
    apply decide_eq_true
    rintro rfl
    exact hbefore hline
  rw [parametersIn, hfile, List.dropWhile_append_of_pos hskip, List.dropWhile_cons_of_neg (by simp),
    List.drop_succ_cons, List.drop_zero, takeWhile_stop hentry, entryLines]

theorem isEntryLine_line (p : PostgresqlParameter) : isEntryLine p.line = true :=
  List.isPrefixOf_iff_prefix.mpr ⟨_, rfl⟩

theorem line_eq (p : PostgresqlParameter) :
    p.line = keyed 8 p.option ('"' :: (p.value ++ ['"'])) := by
  simp [PostgresqlParameter.line, inQuotes]

theorem noFeed_keyed (p : PostgresqlParameter) {text : Line} (h : '\n' ∉ text) :
    ∀ c ∈ keyed 8 p.option ('"' :: text), decide (c = '\n') = false := by
  intro c hc
  apply decide_eq_false
  rintro rfl
  have hoption : '\n' ∉ p.option := fun hmem =>
    absurd (List.all_eq_true.mp p.identifier '\n' hmem) (by decide)
  simp [keyed, indented, hoption, h] at hc

theorem lines_of_notMem (h : '\n' ∉ p.value) : p.lines = [p.line] := by
  have htext : '\n' ∉ p.value ++ ['"'] := by simpa using h
  rw [PostgresqlParameter.lines, line_eq]
  exact List.splitOnP_eq_singleton (noFeed_keyed p htext)

/-- Without a line feed every option has its line, and none is deleted. -/
theorem entryLines_of_notMem (h : ∀ p ∈ ps, '\n' ∉ p.value) :
    entryLines ps = ps.map PostgresqlParameter.line := by
  have hlines : ps.flatMap PostgresqlParameter.lines = ps.map PostgresqlParameter.line := by
    rw [List.map_eq_flatMap]
    exact List.flatMap_congr fun p hp => lines_of_notMem (h p hp)
  have hsurvive : (ps.map PostgresqlParameter.line).filter (survives ps) =
      ps.map PostgresqlParameter.line := by
    apply List.filter_eq_self.mpr
    intro line hline
    obtain ⟨p, -, rfl⟩ := List.mem_map.mp hline
    exact survives_line p ps
  have hentry : ∀ line ∈ ps.map PostgresqlParameter.line, isEntryLine line = true := by
    intro line hline
    obtain ⟨p, -, rfl⟩ := List.mem_map.mp hline
    exact isEntryLine_line p
  have htake : (ps.map PostgresqlParameter.line ++ []).takeWhile isEntryLine =
      ps.map PostgresqlParameter.line ++ ([] : List Line).takeWhile isEntryLine :=
    List.takeWhile_append_of_pos hentry
  rw [List.takeWhile_nil, List.append_nil] at htake
  rw [entryLines, hlines, hsurvive, htake]

/-! ## The entry of an option -/

/-- A line with the key of an option and what stands behind the opening quote. -/
theorem readEntry_keyed (p : PostgresqlParameter) (text : Line) :
    readEntry (keyed 8 p.option ('"' :: text)) =
      (readQuoted (text.length + 1) .text text).bind fun q =>
        if closesLine q.2 then some (p.name, q.1) else none := by
  have hdrop : (keyed 8 p.option ('"' :: text)).drop 8 = p.option ++ ':' :: ' ' :: '"' :: text := by
    simp [keyed, indented]
  have hall := List.all_eq_true.mp p.identifier
  have htake : ((keyed 8 p.option ('"' :: text)).drop 8).takeWhile isIdentifier = p.option := by
    rw [hdrop, List.takeWhile_append_of_pos hall, List.takeWhile_cons_of_neg (by decide),
      List.append_nil]
  have hrest : ((keyed 8 p.option ('"' :: text)).drop 8).dropWhile isIdentifier =
      ':' :: ' ' :: '"' :: text := by
    rw [hdrop, List.dropWhile_append_of_pos hall, List.dropWhile_cons_of_neg (by decide)]
  rw [readEntry, hrest]
  simp only [htake]
  rfl

theorem readEntry_kept (h : isKept p.value = true) :
    readEntry p.line = some (p.name, p.value) := by
  have hlength : p.value.length < (p.value ++ ['"']).length + 1 := by
    rw [List.length_append]
    omega
  have hread := readQuoted_kept h (by decide : Place.text ≠ .due)
    (fun hs => absurd hs (by decide)) hlength []
  rw [line_eq, readEntry_keyed, hread, Option.bind_some]
  rfl

theorem name_of_readEntry {text : Line} {e : String × Line}
    (h : readEntry (keyed 8 p.option ('"' :: text)) = some e) : e.1 = p.name := by
  rw [readEntry_keyed] at h
  obtain ⟨q, -, hclose⟩ := Option.bind_eq_some_iff.mp h
  split at hclose
  · exact congrArg Prod.fst (Option.some.inj hclose).symm
  · cases hclose

theorem kept_of_readEntry (hfeed : '\n' ∉ p.value) {k : String}
    (h : readEntry p.line = some (k, p.value)) : isKept p.value = true := by
  rw [line_eq, readEntry_keyed] at h
  obtain ⟨q, hq, hclose⟩ := Option.bind_eq_some_iff.mp h
  split at hclose
  · have hvalue : q.1 = p.value := congrArg Prod.snd (Option.some.inj hclose)
    exact (readQuoted_iff p.value hfeed).mp
      ⟨_, q.2, hq.trans (congrArg some (Prod.ext hvalue rfl))⟩
  · cases hclose

/-- The entries stand in the order of the lines. -/
theorem mapM_readEntry {lines : List Line} {entries : List (String × Line)} :
    lines.mapM readEntry = some entries ↔
      List.Forall₂ (fun l e => readEntry l = some e) lines entries := by
  induction lines generalizing entries with
  | nil =>
    simp only [List.mapM_nil, List.forall₂_nil_left_iff]
    exact ⟨fun h => (Option.some.inj h).symm, fun h => congrArg some h.symm⟩
  | cons l lines ih =>
    simp only [List.mapM_cons, List.forall₂_cons_left_iff]
    constructor
    · intro h
      obtain ⟨e, he, hrest⟩ := Option.bind_eq_some_iff.mp h
      obtain ⟨es, hes, heq⟩ := Option.bind_eq_some_iff.mp hrest
      exact ⟨e, es, he, ih.mp hes, (Option.some.inj heq).symm⟩
    · rintro ⟨e, es, he, hes, rfl⟩
      apply Option.bind_eq_some_iff.mpr
      exact ⟨e, he, Option.bind_eq_some_iff.mpr ⟨es, ih.mpr hes, rfl⟩⟩

theorem exists_line {lines : List Line} {entries : List (String × Line)} {e : String × Line}
    (h : lines.mapM readEntry = some entries) (he : e ∈ entries) :
    ∃ l ∈ lines, readEntry l = some e := by
  have hforall := mapM_readEntry.mp h
  clear h
  induction hforall with
  | nil => cases he
  | @cons l e' lines entries hread _ ih =>
    rcases List.mem_cons.mp he with rfl | he
    · exact ⟨l, List.mem_cons_self, hread⟩
    · obtain ⟨l', hl', hread'⟩ := ih he
      exact ⟨l', List.mem_cons_of_mem l hl', hread'⟩

theorem entries_kept (h : ∀ p ∈ ps, isKept p.value = true) :
    (ps.map PostgresqlParameter.line).mapM readEntry =
      some (ps.map fun p => (p.name, p.value)) := by
  rw [mapM_readEntry, List.forall₂_map_left_iff, List.forall₂_map_right_iff, List.forall₂_same]
  intro p hp
  exact readEntry_kept (h p hp)

/-- With distinct options an option is found in the entry of its own line. -/
theorem lookup_entries {entries : List (String × Line)}
    (h : List.Forall₂ (fun p e => readEntry (PostgresqlParameter.line p) = some e) ps entries)
    (hdistinct : (ps.map PostgresqlParameter.name).Nodup) (hp : p ∈ ps) :
    ∃ text, entries.lookup p.name = some text ∧ readEntry p.line = some (p.name, text) := by
  induction h with
  | nil => cases hp
  | @cons q e ps entries he hes ih =>
    obtain ⟨hq, hrest⟩ := List.nodup_cons.mp hdistinct
    have hkey : e.1 = q.name := by
      rw [line_eq] at he
      exact name_of_readEntry he
    rcases List.mem_cons.mp hp with rfl | hp
    · refine ⟨e.2, ?_, ?_⟩
      · rw [lookup_cons_eq, if_pos hkey.symm]
      · rw [he, ← hkey]
    · have hne : p.name ≠ q.name := by
        intro heq
        exact hq (heq ▸ List.mem_map_of_mem hp)
      rw [lookup_cons_eq, if_neg (hkey.symm ▸ hne)]
      exact ih hrest hp

/-! ## Values with a line feed -/

theorem text_shorter {e : String × Line} (hfeed : '\n' ∉ l) (h : readEntry l = some e) :
    e.2.length < l.length := by
  rw [readEntry] at h
  split at h
  · rename_i r hr
    obtain ⟨q, hq, hclose⟩ := Option.bind_eq_some_iff.mp h
    have hsuffix : r <:+ l := by
      have hdrop := (List.dropWhile_suffix (l := l.drop 8) isIdentifier).trans
        (List.drop_suffix 8 l)
      rw [hr] at hdrop
      exact (List.suffix_append [':', ' ', '"'] r).trans hdrop
    have hshorter := readQuoted_shorter (fun hmem => hfeed (hsuffix.subset hmem)) hq
    split at hclose
    · obtain rfl := Option.some.inj hclose
      exact Nat.lt_of_lt_of_le hshorter hsuffix.length_le
    · cases hclose
  · cases h

/-- No line of a value with a line feed reads as a text of its length. -/
theorem value_shorter {e : String × Line} (hl : l ∈ p.lines) (hfeed : '\n' ∈ p.value)
    (h : readEntry l = some e) : e.2.length < p.value.length := by
  obtain ⟨first, others, hvalue, hfirst⟩ := List.eq_append_cons_of_mem hfeed
  have hline : p.line = keyed 8 p.option ('"' :: first) ++ '\n' :: (others ++ ['"']) := by
    rw [line_eq, hvalue]
    simp [keyed, indented]
  have hlines : p.lines = keyed 8 p.option ('"' :: first) ::
      (others ++ ['"']).splitOnP fun c => decide (c = '\n') := by
    rw [PostgresqlParameter.lines, hline]
    exact List.splitOnP_append_cons_of_forall_mem (noFeed_keyed p hfirst) '\n' rfl _
  have hlength : p.value.length = first.length + (others.length + 1) := by
    rw [hvalue, List.length_append, List.length_cons]
  rw [hlines] at hl
  rcases List.mem_cons.mp hl with rfl | hl
  · rw [readEntry_keyed] at h
    obtain ⟨q, hq, hclose⟩ := Option.bind_eq_some_iff.mp h
    have hshorter := readQuoted_shorter hfirst hq
    split at hclose
    · obtain rfl := Option.some.inj hclose
      exact Nat.lt_of_lt_of_le hshorter (by omega)
    · cases hclose
  · obtain ⟨hnot, hle⟩ := LineFilters.mem_splitOnP hl
    have hmem : '\n' ∉ l := fun hmem => absurd (hnot '\n' hmem) (by decide)
    have hshorter := text_shorter hmem h
    rw [List.length_append, List.length_singleton] at hle
    omega

theorem lookup_declared (hdistinct : (ps.map PostgresqlParameter.name).Nodup) (hp : p ∈ ps) :
    (declared ps).lookup p.name = if p.value = nullText then none else some p.value := by
  have hkeys : keys (declared ps) = (listed ps).map PostgresqlParameter.name := by
    simp [keys, declared]
  have hnodup : (keys (declared ps)).Nodup := by
    rw [hkeys]
    exact (List.filter_sublist.map _).nodup hdistinct
  split
  · rename_i hnull
    apply lookup_of_notMem
    rw [hkeys]
    intro hmem
    obtain ⟨q, hq, heq⟩ := List.mem_map.mp hmem
    obtain ⟨hqps, hvalue⟩ := List.mem_filter.mp hq
    obtain rfl := List.inj_on_of_nodup_map hdistinct hqps hp heq
    exact of_decide_eq_true hvalue hnull
  · rename_i hvalue
    apply lookup_of_mem hnodup
    exact List.mem_map.mpr ⟨p, List.mem_filter.mpr ⟨hp, decide_eq_true hvalue⟩, rfl⟩

/-- A value with a line feed would have to be read in a line of a longer one. -/
theorem exists_longer (hdistinct : (ps.map PostgresqlParameter.name).Nodup)
    (h : FileHolds ps (patroniYml f ps)) (hp : p ∈ ps) (hfeed : '\n' ∈ p.value) :
    ∃ q ∈ ps, '\n' ∈ q.value ∧ p.value.length < q.value.length := by
  have hvalue : p.value ≠ nullText := by
    intro hnull
    rw [hnull] at hfeed
    exact absurd hfeed (by decide)
  obtain ⟨entries, hentries, hlookup⟩ := h
  rw [parametersIn_patroniYml] at hentries
  have hread := hlookup p.name
  rw [lookup_declared hdistinct hp, if_neg hvalue] at hread
  obtain ⟨before, after, hsplit, -⟩ := List.lookup_eq_some_iff.mp hread
  have hmem : (p.name, p.value) ∈ entries := by
    rw [hsplit]
    exact List.mem_append_right _ List.mem_cons_self
  obtain ⟨l, hl, hentry⟩ := exists_line hentries hmem
  have hflat := (List.mem_filter.mp ((List.takeWhile_sublist _).subset hl)).1
  obtain ⟨q, hq, hlq⟩ := List.mem_flatMap.mp hflat
  by_cases hqfeed : '\n' ∈ q.value
  · exact ⟨q, hq, hqfeed, value_shorter hlq hqfeed hentry⟩
  · rw [lines_of_notMem hqfeed, List.mem_singleton, line_eq] at hlq
    rw [hlq] at hentry
    have hname : p.name = q.name := name_of_readEntry hentry
    obtain rfl := List.inj_on_of_nodup_map hdistinct hp hq hname
    exact absurd hfeed hqfeed

theorem noFeed_of_fileHolds (hdistinct : (ps.map PostgresqlParameter.name).Nodup)
    (h : FileHolds ps (patroniYml f ps)) : ∀ p ∈ ps, '\n' ∉ p.value := by
  intro p hp hfeed
  have hlong : ∀ n, ∃ q ∈ ps, '\n' ∈ q.value ∧ n ≤ q.value.length := by
    intro n
    induction n with
    | zero => exact ⟨p, hp, hfeed, Nat.zero_le _⟩
    | succ n ih =>
      obtain ⟨q, hq, hqfeed, hn⟩ := ih
      obtain ⟨q', hq', hqfeed', hlonger⟩ := exists_longer hdistinct h hq hqfeed
      exact ⟨q', hq', hqfeed', Nat.lt_of_le_of_lt hn hlonger⟩
  obtain ⟨q, hq, -, hn⟩ := hlong ((ps.map PostgresqlParameter.value).flatten.length + 1)
  have hmem : q.value ∈ ps.map PostgresqlParameter.value := List.mem_map_of_mem hq
  have hle := (List.sublist_flatten_of_mem hmem).length_le
  exact absurd hle (Nat.not_le.mpr hn)

/-- The file has the declared values exactly when all of them are read as themselves and none
is null: the lines of those options are still there. -/
theorem fileHolds_iff (f : Surroundings)
    (hdistinct : (ps.map PostgresqlParameter.name).Nodup) :
    FileHolds ps (patroniYml f ps) ↔
      ∀ p ∈ ps, p.value ≠ nullText ∧ isKept p.value = true := by
  constructor
  · intro h p hp
    have hfeed := noFeed_of_fileHolds hdistinct h
    obtain ⟨entries, hentries, hlookup⟩ := h
    rw [parametersIn_patroniYml, entryLines_of_notMem hfeed, mapM_readEntry,
      List.forall₂_map_left_iff] at hentries
    obtain ⟨text, htext, hread⟩ := lookup_entries hentries hdistinct hp
    have hvalue := (hlookup p.name).symm.trans htext
    rw [lookup_declared hdistinct hp] at hvalue
    split at hvalue
    · cases hvalue
    · rename_i hne
      obtain rfl := Option.some.inj hvalue
      exact ⟨hne, kept_of_readEntry (hfeed p hp) hread⟩
  · intro h
    have hfeed : ∀ p ∈ ps, '\n' ∉ p.value := fun p hp => feed_notMem_of_isKept (h p hp).2
    refine ⟨ps.map fun p => (p.name, p.value), ?_, ?_⟩
    · rw [parametersIn_patroniYml, entryLines_of_notMem hfeed]
      exact entries_kept fun p hp => (h p hp).2
    · have hlisted : listed ps = ps :=
        List.filter_eq_self.mpr fun p hp => decide_eq_true (h p hp).1
      intro name
      rw [declared, hlisted]

/-! ## The requests -/

variable {option text : Line} {config config' : Members}

/-- A body of one option is taken and stores it, or takes it out. -/
def Sends (e : String × Option Json) (body : List Char) : Prop :=
  ∃ v, bodyMembers body =
      some [("postgresql", .obj [("parameters", .obj [(e.1, v)])])] ∧
    ∀ old, patchValue old v = e.2

theorem standsForItself_of_isIdentifier {c : Char} (h : isIdentifier c = true) :
    standsForItself c = true := by
  rcases code_of_isIdentifier h with hcode | rfl | rfl
  · have hne : ∀ b : Char, (b = '"' ∨ b = '\\') → c ≠ b := by
      rintro b (rfl | rfl) rfl
      all_goals exact absurd hcode (by decide)
    have hquote := hne '"' (Or.inl rfl)
    have hescape := hne '\\' (Or.inr rfl)
    have hcontrol : 32 ≤ c.toNat := by omega
    simp [standsForItself, hquote, hescape, hcontrol]
  · decide
  · decide

theorem option_standsForItself (p : PostgresqlParameter) :
    p.option.all standsForItself = true := by
  apply List.all_eq_true.mpr
  intro c hc
  exact standsForItself_of_isIdentifier (List.all_eq_true.mp p.identifier c hc)

theorem sends_of_written {v : Json} {w : Option Json} (p : PostgresqlParameter)
    (h : Written text v) (hpatch : ∀ old, patchValue old v = w) :
    Sends (p.name, w) (parametersBody p.option text) := by
  refine ⟨v, bodyMembers_of_written ?_, hpatch⟩
  apply written_braced rfl
  apply written_braced rfl
  exact written_braced (option_standsForItself p) h

theorem sends_deleteBody (p : PostgresqlParameter) : Sends (p.name, none) (deleteBody p) :=
  sends_of_written p written_null fun _ => by rw [patchValue]

theorem sends_updateBody (h : p.value.all standsForItself = true) :
    Sends (p.name, some (.str (String.ofList p.value))) (updateBody p) :=
  sends_of_written p (written_inQuotes h) fun _ => by rw [patchValue] <;> simp

theorem parametersOf_patch {e : String × Option Json} {body : List Char} (h : Sends e body)
    (hpatch : patch body config = some config') :
    parametersOf config' = store e.1 e.2 (parametersOf config) := by
  obtain ⟨v, hbody, hvalue⟩ := h
  rw [patch, hbody, Option.map_some, Option.some.injEq] at hpatch
  rw [← hpatch, parametersOf, patchMembers_single, lookup_store_self, mapping_patchValue_obj,
    patchMembers_single, lookup_store_self, mapping_patchValue_obj, patchMembers_single, hvalue]
  rfl

theorem parametersOf_requests {edits : List (String × Option Json)} {bodies : List (List Char)}
    (h : List.Forall₂ Sends edits bodies) (hrequests : requests bodies config = some config') :
    parametersOf config' = storeAll edits (parametersOf config) := by
  induction h generalizing config with
  | nil =>
    obtain rfl := Option.some.inj hrequests
    rfl
  | cons hsends _ ih =>
    obtain ⟨c, hpatch, hrest⟩ := Option.bind_eq_some_iff.mp hrequests
    rw [ih hrest, parametersOf_patch hsends hpatch]
    rfl

theorem requests_isSome {bodies : List (List Char)} :
    (requests bodies config).isSome ↔ ∀ body ∈ bodies, (bodyMembers body).isSome := by
  induction bodies generalizing config with
  | nil => simp [requests]
  | cons body bodies ih =>
    rw [requests, List.foldlM_cons, List.forall_mem_cons]
    cases hbody : bodyMembers body with
    | none => simp [patch, hbody]
    | some members =>
      rw [patch, hbody, Option.map_some]
      simp only [Option.isSome_some, true_and]
      exact ih

/-- What the requests store, in their order. -/
def edits (ps : List PostgresqlParameter) : List (String × Option Json) :=
  (listed ps).map (fun p => (p.name, some (.str (String.ofList p.value)))) ++
    (nulled ps).map fun p => (p.name, none)

theorem keys_edits (ps : List PostgresqlParameter) :
    (keys (edits ps)).Perm (ps.map PostgresqlParameter.name) := by
  have hperm := (List.filter_append_perm (fun p => decide (p.value ≠ nullText)) ps).map
    PostgresqlParameter.name
  refine (List.Perm.of_eq ?_).trans hperm
  simp [keys, edits, listed, nulled, Function.comp_def]

theorem mem_edits (hp : p ∈ ps) :
    (p.name, if p.value = nullText then none else some (.str (String.ofList p.value))) ∈
      edits ps := by
  split
  · rename_i hnull
    apply List.mem_append_right
    exact List.mem_map.mpr ⟨p, List.mem_filter.mpr ⟨hp, decide_eq_true hnull⟩, rfl⟩
  · rename_i hvalue
    apply List.mem_append_left
    exact List.mem_map.mpr ⟨p, List.mem_filter.mpr ⟨hp, decide_eq_true hvalue⟩, rfl⟩

theorem configHolds (h : ∀ p ∈ ps, p.value.all standsForItself = true)
    (hdistinct : (ps.map PostgresqlParameter.name).Nodup)
    (htasks : parameterTasks ps config = some config') : ConfigHolds ps config config' := by
  have hsends : List.Forall₂ Sends (edits ps)
      ((listed ps).map updateBody ++ (nulled ps).map deleteBody) := by
    apply List.rel_append
    · rw [List.forall₂_map_left_iff, List.forall₂_map_right_iff, List.forall₂_same]
      exact fun p hp => sends_updateBody (h p (List.mem_filter.mp hp).1)
    · rw [List.forall₂_map_left_iff, List.forall₂_map_right_iff, List.forall₂_same]
      exact fun p _ => sends_deleteBody p
  have hstored := parametersOf_requests hsends htasks
  have hnodup : (keys (edits ps)).Nodup := (keys_edits ps).nodup_iff.mpr hdistinct
  constructor
  · intro p hp
    rw [hstored, lookup_storeAll hnodup (mem_edits hp)]
  · intro name hname
    rw [hstored, lookup_storeAll_other]
    rwa [(keys_edits ps).mem_iff]

/-! ## Both stores -/

theorem refused_of_control (hkept : isKept p.value = true)
    (h : p.value.all standsForItself = false) : bodyMembers (updateBody p) = none := by
  have hnotMem : ∀ c, isPlain c = false → isSeparator c = false → c ∉ p.value :=
    fun c hplain hseparator hmem => by
      simpa [hplain, hseparator] using plain_or_separator hkept hmem
  apply bodyMembers_of_unread
  apply unread_braced rfl
  apply unread_braced rfl
  apply unread_braced (option_standsForItself p)
  exact unread_inQuotes h (hnotMem '"' (by decide) (by decide))
    (hnotMem '\\' (by decide) (by decide))

/-- Both stores hold what is declared exactly when the play fails, at the file or at a body, or no
value is null and each is read as itself between quotes. -/
theorem parameters_held_iff (validateConfig : List Line → Bool) (f : Surroundings)
    (ps : List PostgresqlParameter) (hdistinct : (ps.map PostgresqlParameter.name).Nodup) :
    Held validateConfig f ps ↔ validateConfig (render f ps) = false ∨ (∃ p ∈ ps, Refused p) ∨
      ∀ p ∈ ps, p.value ≠ nullText ∧ isKept p.value = true := by
  have hbodies : ∀ config, (parameterTasks ps config).isSome ↔ ¬ ∃ p ∈ ps, Refused p := by
    intro config
    rw [parameterTasks, requests_isSome, List.forall_mem_append, List.forall_mem_map,
      List.forall_mem_map]
    constructor
    · rintro ⟨hupdate, -⟩ ⟨p, hp, hvalue, hnone⟩
      have hsome := hupdate p (List.mem_filter.mpr ⟨hp, decide_eq_true hvalue⟩)
      rw [hnone] at hsome
      cases hsome
    · intro hnot
      constructor
      · intro p hp
        obtain ⟨hp, hvalue⟩ := List.mem_filter.mp hp
        by_contra hnone
        exact hnot ⟨p, hp, of_decide_eq_true hvalue, by simpa using hnone⟩
      · intro p _
        obtain ⟨v, hbody, -⟩ := sends_deleteBody p
        rw [hbody]
        rfl
  cases hvalid : validateConfig (render f ps) with
  | false => simp [Held, hvalid]
  | true =>
    simp only [Held, hvalid, forall_const, Bool.true_eq_false, false_or]
    by_cases hrefused : ∃ p ∈ ps, Refused p
    · simp only [hrefused, true_or, iff_true]
      intro config config' htasks
      have hsome : (parameterTasks ps config).isSome := by rw [htasks]; rfl
      exact absurd hrefused ((hbodies config).mp hsome)
    · simp only [hrefused, false_or]
      constructor
      · intro h
        obtain ⟨config', htasks⟩ := Option.isSome_iff_exists.mp ((hbodies []).mpr hrefused)
        exact (fileHolds_iff f hdistinct).mp (h [] config' htasks).1
      · intro h config config' htasks
        refine ⟨(fileHolds_iff f hdistinct).mpr h, configHolds ?_ hdistinct htasks⟩
        intro p hp
        by_contra hcontrol
        exact hrefused
          ⟨p, hp, (h p hp).1, refused_of_control (h p hp).2 (by simpa using hcontrol)⟩

/-- A file that Patroni takes as valid; the parameters below are of no type to it. -/
def sampleSurroundings : Surroundings where
  before :=
    ["scope: postgres-cluster".toList, "name: pgnode01".toList,
      "restapi:".toList, "  listen: 10.0.1.1:8008".toList,
      "  connect_address: 10.0.1.1:8008".toList,
      "etcd3:".toList, "  hosts: 10.0.1.1:2379".toList,
      "bootstrap:".toList, "  dcs:".toList, "    postgresql:".toList]
  standbyCluster := ⟨[], [], [], [], []⟩
  slots := []
  remaining :=
    ["postgresql:".toList, "  listen: 10.0.1.1:5432".toList,
      "  connect_address: 10.0.1.1:5432".toList, "  data_dir: /var/lib/postgresql/17/main".toList,
      "  bin_dir: /usr/lib/postgresql/17/bin".toList, "  authentication:".toList,
      "    replication:".toList, "      username: replicator".toList,
      "      password: replicator-pass".toList, "    superuser:".toList,
      "      username: postgres".toList, "      password: postgres-pass".toList]
  unmarked := by decide +kernel

def workMem (value : String) : PostgresqlParameter where
  option := "work_mem".toList
  value := value.toList
  identifier := by decide

theorem work_mem_held : Held (fun _ => true) sampleSurroundings [workMem "128MB"] := by
  have hdistinct : ([workMem "128MB"].map PostgresqlParameter.name).Nodup :=
    List.nodup_singleton _
  refine (parameters_held_iff _ _ _ hdistinct).mpr (Or.inr (Or.inr ?_))
  intro p hp
  rw [List.mem_singleton.mp hp]
  decide +kernel

/-- The line of an option with null has quotes, and the regular expression does not find it. -/
theorem null_option_kept : ¬ ∀ (validateConfig : List Line → Bool) (f : Surroundings)
    (ps : List PostgresqlParameter), (ps.map PostgresqlParameter.name).Nodup →
      Held validateConfig f ps := by
  intro h
  have hdistinct : ([workMem "null"].map PostgresqlParameter.name).Nodup := List.nodup_singleton _
  have htasks : (parameterTasks [workMem "null"] []).isSome := by
    rw [parameterTasks, requests_isSome]
    intro body hbody
    have hdelete : body ∈ [deleteBody (workMem "null")] := hbody
    obtain ⟨v, hmembers, -⟩ := sends_deleteBody (workMem "null")
    rw [List.mem_singleton.mp hdelete, hmembers]
    rfl
  obtain ⟨config', htasks⟩ := Option.isSome_iff_exists.mp htasks
  have hfile := (h (fun _ => true) sampleSurroundings [workMem "null"] hdistinct rfl [] config'
    htasks).1
  have hplain := (fileHolds_iff sampleSurroundings hdistinct).mp hfile
  exact (hplain (workMem "null") List.mem_cons_self).1 rfl

end PatroniParameters
