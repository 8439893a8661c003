import Autobase.CompletedLists

/-! # The libraries that the enabled extensions preload

The pre-checks add the libraries of the enabled extensions to shared_preload_libraries, one after
the other: citus to the front, the others to the end. Whether a library is there is looked up in
the pieces between the commas as they are written, with their blanks. -/
namespace SharedPreloadLibraries

open CompletedLists

abbrev Text := List Char

/-! ## The list of libraries -/

def isSpace (ch : Char) : Bool := [' ', '\t', '\n', '\r', '\x0b', '\x0c'].contains ch

def trim (t : Text) : Text := ((t.dropWhile isSpace).reverse.dropWhile isSpace).reverse

/-- The libraries that the server reads. A blank text has none. -/
def elements (value : Text) : List Text :=
  if (value.splitOn ',').map trim = [[]] then [] else (value.splitOn ',').map trim

/-! ## Extensions -/

/-- The variables of the extensions that preload a library. -/
structure Variables where
  enableTimescale : Bool
  enableTimescaledb : Bool
  enableCitus : Bool
  enablePgCron : Bool
  enablePgaudit : Bool
  enablePgStatKcache : Bool
  enablePgWaitSampling : Bool
  enablePgPartman : Bool
  enableParadedb : Bool
  enablePgSearch : Bool
  enablePgAnalytics : Bool
  postgresqlVersion : ℕ
  ansibleArchitecture : Text

def citus : Text := "citus".toList

namespace Variables

variable (v : Variables)

def timescaledbRequired : Bool := v.enableTimescale || v.enableTimescaledb

def citusRequired : Bool :=
  v.enableCitus && decide (11 ≤ v.postgresqlVersion) &&
    ["x86_64".toList, "amd64".toList].contains v.ansibleArchitecture

def appended : List Text :=
  (if v.enablePgCron then ["pg_cron".toList] else []) ++
  (if v.enablePgaudit then ["pgaudit".toList] else []) ++
  (if v.enablePgStatKcache then ["pg_stat_statements".toList] else []) ++
  (if v.enablePgStatKcache then ["pg_stat_kcache".toList] else []) ++
  (if v.enablePgWaitSampling then ["pg_wait_sampling".toList] else []) ++
  (if v.enablePgPartman then ["pg_partman_bgw".toList] else []) ++
  (if v.enableParadedb || v.enablePgSearch then ["pg_search".toList] else []) ++
  (if v.enableParadedb || v.enablePgAnalytics then ["pg_analytics".toList] else [])

def required : List Text :=
  (if v.timescaledbRequired then ["timescaledb".toList] else []) ++
  (if v.citusRequired then [citus] else []) ++ v.appended

/-- The fact grows with every run of the task on a host. -/
def extensions (facts : List Text) : List Text := facts ++ v.required

end Variables

/-! ## The parameter -/

structure Parameter where
  option : Text
  value : Text
  deriving DecidableEq

def sharedPreloadLibraries : Text := "shared_preload_libraries".toList

def isShared (p : Parameter) : Bool := p.option == sharedPreloadLibraries

/-- The value of the last item for the option. -/
def currentValue (parameters : List Parameter) : Text :=
  ((parameters.filter isShared).getLast?.map Parameter.value).getD []

def newValue (item value : Text) : Text :=
  (if item = citus ∧ item ∉ value.splitOn ',' then item ++ ',' :: value
  else if item ∉ value.splitOn ',' then value ++ (if value ≠ [] then [','] else [])
  else value) ++
    if item ∉ value.splitOn ',' ∧ item ≠ citus then item else []

def addExtension (parameters : List Parameter) (item : Text) : List Parameter :=
  parameters.filter (fun p => !isShared p) ++
    [⟨sharedPreloadLibraries, newValue item (currentValue parameters)⟩]

/-- Both tasks, with the fact of an earlier run. -/
def setup (facts : List Text) (v : Variables) (parameters : List Parameter) : List Parameter :=
  (v.extensions facts).eraseDups.foldl addExtension parameters

/-- What the merge should make of the parameter. -/
structure Merged (v : Variables) (parameters : List Parameter) : Prop where
  wellFormed : WellFormed [] (elements (currentValue (setup [] v parameters)))
  keeps : (elements (currentValue parameters)).Sublist
    (elements (currentValue (setup [] v parameters)))
  contains : ∀ x ∈ v.required, x ∈ elements (currentValue (setup [] v parameters))
  citusFirst : citus ∈ v.required →
    (elements (currentValue (setup [] v parameters))).head? = some citus
  again : setup (v.extensions []) v (setup [] v parameters) = setup [] v parameters

/-- The value that the merge works for: well formed and more than blanks, with every required
library written without blanks around it, citus in front if it is there, and not empty when citus
is the first library that is added. -/
structure Mergeable (v : Variables) (value : Text) : Prop where
  wellFormed : WellFormed [] (elements value)
  notBlank : v.required ≠ [] → value ≠ [] → elements value ≠ []
  spelled : ∀ x ∈ v.required, x ∈ elements value → x ∈ value.splitOn ','
  citusFirst : citus ∈ v.required → citus ∈ elements value → (elements value).head? = some citus
  notEmpty : value = [] → v.citusRequired = true → v.timescaledbRequired = true

/-! ## The required libraries -/

def appendedLibraries : List Text :=
  ["pg_cron".toList, "pgaudit".toList, "pg_stat_statements".toList, "pg_stat_kcache".toList,
    "pg_wait_sampling".toList, "pg_partman_bgw".toList, "pg_search".toList, "pg_analytics".toList]

def libraries : List Text := ["timescaledb".toList, citus] ++ appendedLibraries

theorem libraries_words : libraries.Nodup ∧ ∀ x ∈ libraries, trim x = x ∧ ',' ∉ x ∧ x ≠ [] := by
  decide +kernel

theorem libraries_nodup : libraries.Nodup := libraries_words.1

theorem libraries_trim : ∀ x ∈ libraries, trim x = x := fun x hx => (libraries_words.2 x hx).1

theorem libraries_comma : ∀ x ∈ libraries, ',' ∉ x := fun x hx => (libraries_words.2 x hx).2.1

theorem libraries_ne_nil : [] ∉ libraries := fun hx => (libraries_words.2 [] hx).2.2 rfl

theorem enabled_sublist (b : Bool) (x : Text) :
    (if b then [x] else []).Sublist [x] := by
  cases b
  · exact List.nil_sublist _
  · exact List.Sublist.refl _

theorem appended_sublist (v : Variables) : v.appended.Sublist appendedLibraries := by
  have h := enabled_sublist
  exact (((((((h _ _).append (h _ _)).append (h _ _)).append (h _ _)).append (h _ _)).append
    (h _ _)).append (h _ _)).append (h _ _)

theorem required_sublist (v : Variables) : v.required.Sublist libraries :=
  ((enabled_sublist _ _).append (enabled_sublist _ _)).append (appended_sublist v)

theorem required_nodup (v : Variables) : v.required.Nodup :=
  libraries_nodup.sublist (required_sublist v)

theorem timescaledb_ne_citus : "timescaledb".toList ≠ citus := by
  have hout : "timescaledb".toList ∉ citus :: appendedLibraries :=
    (List.nodup_cons.mp libraries_nodup).1
  exact List.ne_of_not_mem_cons hout

theorem citus_notMem_appended (v : Variables) : citus ∉ v.appended := by
  have hnodup : (citus :: appendedLibraries).Nodup := (List.nodup_cons.mp libraries_nodup).2
  exact fun h => (List.nodup_cons.mp hnodup).1 ((appended_sublist v).subset h)

theorem head_required (v : Variables) : v.required.head? = some citus ↔
    ¬ (v.citusRequired = true → v.timescaledbRequired = true) := by
  rw [Variables.required]
  by_cases ht : v.timescaledbRequired = true
  · rw [if_pos ht, List.append_assoc, List.singleton_append, List.head?_cons, Option.some_inj]
    exact iff_of_false timescaledb_ne_citus fun h => h fun _ => ht
  · rw [if_neg ht, List.nil_append]
    by_cases hc : v.citusRequired = true
    · rw [if_pos hc]
      exact iff_of_true rfl fun h => ht (h hc)
    · rw [if_neg hc, List.nil_append]
      exact iff_of_false (fun h => citus_notMem_appended v (List.mem_of_head? h))
        fun h => h fun hreq => absurd hreq hc

/-! ## One library -/

variable {item value : Text} {items : List Text} {parameters : List Parameter} {v : Variables}

theorem newValue_present (h : item ∈ value.splitOn ',') : newValue item value = value := by
  simp [newValue, h]

theorem newValue_citus (h : citus ∉ value.splitOn ',') :
    newValue citus value = citus ++ ',' :: value := by
  simp [newValue, h]

theorem newValue_other (hne : item ≠ citus) (h : item ∉ value.splitOn ',') :
    newValue item value = value ++ (if value ≠ [] then [','] else []) ++ item := by
  simp [newValue, h, hne]

theorem newValue_ne_nil (hitem : item ≠ []) : newValue item value ≠ [] := by
  by_cases h : item ∈ value.splitOn ','
  · rw [newValue_present h]
    rintro rfl
    rw [List.splitOn_nil, List.mem_singleton] at h
    exact hitem h
  · by_cases hc : item = citus
    · subst hc
      rw [newValue_citus h]
      exact List.append_ne_nil_of_right_ne_nil _ (List.cons_ne_nil _ _)
    · rw [newValue_other hc h]
      exact List.append_ne_nil_of_right_ne_nil _ hitem

/-- Behind a value that is not empty, one piece is added to its pieces. -/
theorem splitOn_newValue (hcomma : ',' ∉ item) (hvalue : value ≠ []) :
    (newValue item value).splitOn ',' = add citus (value.splitOn ',') item := by
  rw [add]
  by_cases h : item ∈ value.splitOn ','
  · rw [newValue_present h, if_pos h]
  · rw [if_neg h]
    by_cases hc : item = citus
    · subst hc
      rw [newValue_citus h, if_pos rfl, List.splitOn_append_cons_self_of_not_mem hcomma]
    · rw [newValue_other hc h, if_neg hc, if_pos hvalue, List.append_assoc, List.singleton_append,
        List.splitOn_append_cons_self, List.splitOn_eq_singleton hcomma]

/-- The first library that an empty value gets stands alone, or with the comma of citus. -/
theorem newValue_nil (hitem : item ≠ []) :
    newValue item [] = if item = citus then citus ++ [','] else item := by
  have hout : item ∉ ([] : Text).splitOn ',' := by
    rw [List.splitOn_nil, List.mem_singleton]
    exact hitem
  split
  · next hc =>
    subst hc
    exact newValue_citus hout
  · next hc =>
    rw [newValue_other hc hout]
    rfl

theorem mem_newValue (hitem : item ≠ []) (hcomma : ',' ∉ item) :
    item ∈ (newValue item value).splitOn ',' := by
  by_cases hvalue : value = []
  · subst hvalue
    rw [newValue_nil hitem]
    split
    · next hc =>
      rw [← hc, List.splitOn_append_cons_self_of_not_mem hcomma]
      exact List.mem_cons_self
    · rw [List.splitOn_eq_singleton hcomma]
      exact List.mem_singleton.mpr rfl
  · rw [splitOn_newValue hcomma hvalue]
    exact mem_add.mpr (Or.inr rfl)

/-! ## The value after all libraries -/

def mergeValue (items : List Text) (value : Text) : Text :=
  items.foldl (fun value item => newValue item value) value

theorem mergeValue_cons (item : Text) (items : List Text) (value : Text) :
    mergeValue (item :: items) value = mergeValue items (newValue item value) := rfl

theorem ne_nil_of_library (h : item ∈ libraries) : item ≠ [] := by
  rintro rfl
  exact libraries_ne_nil h

theorem splitOn_mergeValue (hitems : items.Sublist libraries) (hvalue : value ≠ []) :
    (mergeValue items value).splitOn ',' = complete citus items (value.splitOn ',') := by
  rw [← foldl_add (libraries_nodup.sublist hitems)]
  induction items generalizing value with
  | nil => rfl
  | cons item items ih =>
    have hitem : item ∈ libraries := hitems.subset List.mem_cons_self
    rw [mergeValue_cons, ih ((List.sublist_cons_self item items).trans hitems)
      (newValue_ne_nil (ne_nil_of_library hitem)),
      splitOn_newValue (libraries_comma item hitem) hvalue]
    rfl

theorem elements_eq_of_mem (hitem : item ∈ libraries) (h : item ∈ value.splitOn ',') :
    elements value = (value.splitOn ',').map trim := by
  rw [elements, if_neg]
  intro hblank
  have hmem := List.mem_map_of_mem (f := trim) h
  rw [hblank, libraries_trim item hitem, List.mem_singleton] at hmem
  exact libraries_ne_nil (hmem ▸ hitem)

theorem mem_elements (hitem : item ∈ libraries) (h : item ∈ value.splitOn ',') :
    item ∈ elements value := by
  rw [elements_eq_of_mem hitem h]
  exact List.mem_map.mpr ⟨item, h, libraries_trim item hitem⟩

theorem elements_sublist (value : Text) :
    (elements value).Sublist ((value.splitOn ',').map trim) := by
  rw [elements]
  split
  · exact List.nil_sublist _
  · exact List.Sublist.refl _

/-- Every library is a piece of the result. -/
theorem mem_mergeValue (hitems : items.Sublist libraries) (h : item ∈ items) :
    item ∈ (mergeValue items value).splitOn ',' := by
  cases items with
  | nil => exact absurd h List.not_mem_nil
  | cons first rest =>
    have hfirst : first ∈ libraries := hitems.subset List.mem_cons_self
    have hrest := (List.sublist_cons_self first rest).trans hitems
    rw [mergeValue_cons, splitOn_mergeValue hrest (newValue_ne_nil (ne_nil_of_library hfirst)),
      ← foldl_add (libraries_nodup.sublist hrest), mem_foldl_add]
    rcases List.mem_cons.mp h with rfl | hmem
    · exact Or.inl (mem_newValue (ne_nil_of_library hfirst) (libraries_comma _ hfirst))
    · exact Or.inr hmem

theorem elements_mergeValue (hitems : items.Sublist libraries) (hne : items ≠ [])
    (hvalue : value ≠ []) : elements (mergeValue items value) =
      (complete citus items (value.splitOn ',')).map trim := by
  obtain ⟨item, hmem⟩ := List.exists_mem_of_ne_nil items hne
  rw [elements_eq_of_mem (hitems.subset hmem) (mem_mergeValue hitems hmem),
    splitOn_mergeValue hitems hvalue]

theorem elements_keep (hitems : items.Sublist libraries) (hvalue : value ≠ []) :
    (elements value).Sublist (elements (mergeValue items value)) := by
  by_cases hne : items = []
  · subst hne
    exact List.Sublist.refl _
  · rw [elements_mergeValue hitems hne hvalue]
    exact (elements_sublist value).trans
      (sublist_map_complete fun x hx => libraries_trim x (hitems.subset hx))

/-- What the libraries ask of a value that is not empty. -/
theorem formed_iff (hitems : items.Sublist libraries) (hne : items ≠ []) (hvalue : value ≠ []) :
    (WellFormed [] (elements (mergeValue items value)) ∧
        (citus ∈ items → (elements (mergeValue items value)).head? = some citus)) ↔
      elements value ≠ [] ∧ WellFormed [] (elements value) ∧
        (∀ x ∈ items, x ∈ elements value → x ∈ value.splitOn ',') ∧
        (citus ∈ items → citus ∈ elements value → (elements value).head? = some citus) := by
  rw [elements_mergeValue hitems hne hvalue,
    wellFormed_complete_iff (libraries_nodup.sublist hitems)
      (fun x hx => libraries_trim x (hitems.subset hx))
      (fun h => libraries_ne_nil (hitems.subset h))]
  by_cases hblank : (value.splitOn ',').map trim = [[]]
  · have hnone : elements value = [] := if_pos hblank
    rw [hnone, hblank]
    refine iff_of_false (fun h => h.1.1 (List.mem_singleton.mpr rfl)) fun h => h.1 rfl
  · have hsome : elements value = (value.splitOn ',').map trim := if_neg hblank
    rw [hsome]
    refine (and_iff_right ?_).symm
    simp

/-- An empty value only goes wrong when citus comes first: its comma stays. -/
theorem formed_nil_iff (hitems : (item :: items).Sublist libraries) :
    (WellFormed [] (elements (mergeValue (item :: items) [])) ∧
        (citus ∈ item :: items →
          (elements (mergeValue (item :: items) [])).head? = some citus)) ↔ item ≠ citus := by
  have hitem : item ∈ libraries := hitems.subset List.mem_cons_self
  have hrest := (List.sublist_cons_self item items).trans hitems
  rw [mergeValue_cons, newValue_nil (ne_nil_of_library hitem)]
  by_cases hc : item = citus
  · rw [if_pos hc]
    refine iff_of_false ?_ (not_not_intro hc)
    rintro ⟨⟨hblank, -⟩, -⟩
    have helements : [] ∈ elements (citus ++ [',']) := by
      decide +kernel
    exact hblank ((elements_keep hrest (by decide +kernel)).subset helements)
  · rw [if_neg hc]
    refine iff_of_true ?_ hc
    have hpieces : item.splitOn ',' = [item] := List.splitOn_eq_singleton (libraries_comma item hitem)
    have helements : elements item = [item] := by
      rw [elements_eq_of_mem hitem (hpieces ▸ List.mem_singleton.mpr rfl), hpieces,
        List.map_singleton, libraries_trim item hitem]
    have hformed : WellFormed [] [item] :=
      ⟨fun h => ne_nil_of_library hitem (List.mem_singleton.mp h).symm, List.nodup_singleton _⟩
    have hciti : citus ∈ item :: items → citus ∈ items := fun h =>
      (List.mem_cons.mp h).resolve_left fun he => hc he.symm
    by_cases hnone : items = []
    · subst hnone
      rw [show mergeValue [] item = item from rfl, helements]
      exact ⟨hformed, fun h => absurd (hciti h) List.not_mem_nil⟩
    · refine ((formed_iff hrest hnone (ne_nil_of_library hitem)).mpr ?_).imp_right
        fun h hmem => h (hciti hmem)
      rw [helements, hpieces]
      refine ⟨List.cons_ne_nil _ _, hformed, fun _ _ h => h, fun _ h => ?_⟩
      exact absurd (List.mem_singleton.mp h).symm hc

/-! ## The parameters -/

theorem currentValue_concat {others : List Parameter} (value : Text) :
    currentValue (others ++ [⟨sharedPreloadLibraries, value⟩]) = value := by
  have hshared : isShared ⟨sharedPreloadLibraries, value⟩ = true := beq_self_eq_true _
  rw [currentValue, List.filter_append, List.filter_singleton, hshared, cond_true,
    List.getLast?_concat]
  rfl

theorem currentValue_addExtension (parameters : List Parameter) (item : Text) :
    currentValue (addExtension parameters item) = newValue item (currentValue parameters) :=
  currentValue_concat _

theorem currentValue_foldl (items : List Text) (parameters : List Parameter) :
    currentValue (items.foldl addExtension parameters) =
      mergeValue items (currentValue parameters) := by
  induction items generalizing parameters with
  | nil => rfl
  | cons item items ih => rw [List.foldl_cons, ih, currentValue_addExtension, mergeValue_cons]

/-- A library that is there leaves the parameters of an earlier task as they are. -/
theorem addExtension_again (h : item ∈ (newValue x (currentValue parameters)).splitOn ',') :
    addExtension (addExtension parameters x) item = addExtension parameters x := by
  have hothers : (addExtension parameters x).filter (fun p => !isShared p) =
      parameters.filter fun p => !isShared p := by
    have hshared : isShared ⟨sharedPreloadLibraries, newValue x (currentValue parameters)⟩ = true :=
      beq_self_eq_true _
    rw [addExtension, List.filter_append, List.filter_filter, List.filter_singleton, hshared,
      Bool.not_true, cond_false, List.append_nil]
    simp only [Bool.and_self]
  conv_lhs => rw [addExtension, hothers, currentValue_addExtension, newValue_present h]
  rfl

theorem foldl_addExtension_again {others : List Text}
    (h : ∀ y ∈ others, y ∈ (newValue x (currentValue parameters)).splitOn ',') :
    others.foldl addExtension (addExtension parameters x) = addExtension parameters x := by
  induction others with
  | nil => rfl
  | cons y others ih =>
    rw [List.foldl_cons, addExtension_again (h y List.mem_cons_self)]
    exact ih fun z hz => h z (List.mem_cons_of_mem _ hz)

theorem eraseDups_eq_self {xs : List Text} (h : xs.Nodup) : xs.eraseDups = xs := by
  induction xs with
  | nil => rfl
  | cons x xs ih =>
    obtain ⟨hx, hxs⟩ := List.nodup_cons.mp h
    have hfilter : xs.filter (fun y => !y == x) = xs := by
      refine List.filter_eq_self.mpr fun y hy => ?_
      simp only [Bool.not_eq_true', beq_eq_false_iff_ne]
      rintro rfl
      exact hx hy
    rw [List.eraseDups_cons, hfilter, ih hxs]

theorem setup_first (v : Variables) (parameters : List Parameter) :
    setup [] v parameters = v.required.foldl addExtension parameters := by
  rw [setup, Variables.extensions, List.nil_append, eraseDups_eq_self (required_nodup v)]

theorem setup_second (v : Variables) (parameters : List Parameter) :
    setup (v.extensions []) v parameters = v.required.foldl addExtension parameters := by
  rw [setup, Variables.extensions, Variables.extensions, List.nil_append, List.eraseDups_append,
    eraseDups_eq_self (required_nodup v)]
  have hnone : v.required.removeAll v.required = [] :=
    List.filter_eq_nil_iff.mpr fun x hx => by simp [hx]
  rw [hnone, List.eraseDups_nil, List.append_nil]

/-- The merge on its own result changes nothing. -/
theorem setup_again (v : Variables) (parameters : List Parameter) :
    setup (v.extensions []) v (setup [] v parameters) = setup [] v parameters := by
  rw [setup_second, setup_first]
  rcases List.eq_nil_or_concat' v.required with hnil | ⟨items, x, hconcat⟩
  · rw [hnil]
    rfl
  · have hpieces : ∀ y ∈ v.required,
        y ∈ (newValue x (currentValue (items.foldl addExtension parameters))).splitOn ',' := by
      intro y hy
      have hmem : y ∈ (mergeValue v.required (currentValue parameters)).splitOn ',' :=
        mem_mergeValue (required_sublist v) hy
      rwa [← currentValue_foldl, hconcat, List.foldl_append, List.foldl_cons, List.foldl_nil,
        currentValue_addExtension] at hmem
    have hresult : v.required.foldl addExtension parameters =
        addExtension (items.foldl addExtension parameters) x := by
      rw [hconcat, List.foldl_append]
      rfl
    rw [hresult]
    exact foldl_addExtension_again hpieces

/-! ## The merge -/

theorem keeps_mergeValue (hitems : items.Sublist libraries) (value : Text) :
    (elements value).Sublist (elements (mergeValue items value)) := by
  by_cases hvalue : value = []
  · subst hvalue
    exact List.nil_sublist _
  · exact elements_keep hitems hvalue

theorem currentValue_setup : currentValue (setup [] v parameters) =
    mergeValue v.required (currentValue parameters) := by
  rw [setup_first, currentValue_foldl]

/-- The other requirements on the merge always hold. -/
theorem merged_iff_formed : Merged v parameters ↔
    WellFormed [] (elements (mergeValue v.required (currentValue parameters))) ∧
      (citus ∈ v.required →
        (elements (mergeValue v.required (currentValue parameters))).head? = some citus) := by
  have hsub := required_sublist v
  constructor
  · rintro ⟨hformed, -, -, hfirst, -⟩
    rw [currentValue_setup] at hformed hfirst
    exact ⟨hformed, hfirst⟩
  · rintro ⟨hformed, hfirst⟩
    rw [← currentValue_setup] at hformed hfirst
    refine ⟨hformed, ?_, fun x hx => ?_, hfirst, setup_again v parameters⟩
    · rw [currentValue_setup]
      exact keeps_mergeValue hsub _
    · rw [currentValue_setup]
      exact mem_elements (hsub.subset hx) (mem_mergeValue hsub hx)

theorem mergeable_nothing (hnone : v.required = []) {value : Text} :
    Mergeable v value ↔ WellFormed [] (elements value) := by
  have hempty := head_required v
  rw [hnone] at hempty
  constructor
  · intro h
    exact h.wellFormed
  · intro hformed
    refine ⟨hformed, fun h => absurd hnone h, ?_, ?_, fun _ => ?_⟩
    · rw [hnone]
      exact fun x hx => absurd hx List.not_mem_nil
    · rw [hnone]
      exact fun h => absurd h List.not_mem_nil
    · exact not_not.mp fun h => by cases hempty.mpr h

theorem elements_nil : elements [] = [] := by
  decide +kernel

/-- The merge does what it should exactly on the values that it works for. -/
theorem merged_iff : Merged v parameters ↔ Mergeable v (currentValue parameters) := by
  have hsub := required_sublist v
  have hempty := head_required v
  rw [merged_iff_formed]
  by_cases hnone : v.required = []
  · rw [mergeable_nothing hnone, hnone]
    exact and_iff_left fun hmem => absurd hmem List.not_mem_nil
  · by_cases hvalue : currentValue parameters = []
    · obtain ⟨item, items, hcons⟩ := List.exists_cons_of_ne_nil hnone
      rw [hcons, List.head?_cons, Option.some_inj] at hempty
      rw [hcons] at hsub
      rw [hcons, hvalue, formed_nil_iff hsub, ne_eq, hempty, not_not]
      constructor
      · intro h
        refine ⟨?_, fun _ h => absurd rfl h, ?_, ?_, fun _ => h⟩
        · rw [elements_nil]
          exact ⟨List.not_mem_nil, List.nodup_nil⟩
        · rw [elements_nil]
          exact fun x _ hx => absurd hx List.not_mem_nil
        · rw [elements_nil]
          exact fun _ h => absurd h List.not_mem_nil
      · intro h
        exact h.notEmpty rfl
    · rw [formed_iff hsub hnone hvalue]
      constructor
      · rintro ⟨hne, hformed, hspelled, hfirst⟩
        exact ⟨hformed, fun _ _ => hne, hspelled, hfirst, fun h => absurd h hvalue⟩
      · intro h
        exact ⟨h.notBlank hnone hvalue, h.wellFormed, h.spelled, h.citusFirst⟩

def noExtensions : Variables where
  enableTimescale := false
  enableTimescaledb := false
  enableCitus := false
  enablePgCron := false
  enablePgaudit := false
  enablePgStatKcache := false
  enablePgWaitSampling := false
  enablePgPartman := false
  enableParadedb := false
  enablePgSearch := false
  enablePgAnalytics := false
  postgresqlVersion := 17
  ansibleArchitecture := "x86_64".toList

def preloading (value : String) : List Parameter := [⟨sharedPreloadLibraries, value.toList⟩]

/-- A blank in front of a library makes a second one of it, citus alone leaves its comma, and
citus stays where it is when it is there. -/
theorem merge_malformed :
    currentValue (setup [] { noExtensions with enablePgCron := true }
      (preloading "pg_stat_statements, pg_cron")) =
        "pg_stat_statements, pg_cron,pg_cron".toList ∧
    currentValue (setup [] { noExtensions with enableCitus := true } (preloading "")) =
      "citus,".toList ∧
    currentValue (setup [] { noExtensions with enableCitus := true }
      (preloading "pg_stat_statements,citus")) = "pg_stat_statements,citus".toList ∧
    ¬ Merged { noExtensions with enablePgCron := true }
      (preloading "pg_stat_statements, pg_cron") ∧
    ¬ Merged { noExtensions with enableCitus := true } (preloading "") ∧
    ¬ Merged { noExtensions with enableCitus := true }
      (preloading "pg_stat_statements,citus") := by
  refine ⟨by decide +kernel, by decide +kernel, by decide +kernel, fun h => ?_, fun h => ?_,
    fun h => ?_⟩
  · exact absurd h.wellFormed (by decide +kernel)
  · exact absurd h.wellFormed (by decide +kernel)
  · exact absurd (h.citusFirst (by decide +kernel)) (by decide +kernel)

end SharedPreloadLibraries
