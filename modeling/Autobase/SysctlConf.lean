import Autobase.TemplateValues
import Mathlib.Data.List.Nodup
import Mathlib.Data.List.Induction

/-! # Kernel parameters of the groups of a host

The mapping sysctl_conf has a list of settings for a group. The role sysctl applies the lists of
all groups of a host one after the other, every setting once, so the last one for a kernel
parameter stays. A setting gives its parameter as a name or as an option. -/
namespace SysctlConf

open TemplateValues

inductive Key where
  | name (t : Text)
  | option (t : Text)
  deriving DecidableEq

structure Entry where
  key : Key
  value : Value
  deriving DecidableEq

namespace Entry

/-- `item.option | default(item.name)` -/
def parameter (e : Entry) : Text :=
  match e.key with
  | .name t => t
  | .option t => t

/-- The attribute `name`, which an option does not have. -/
def name (e : Entry) : Option Text :=
  match e.key with
  | .name t => some t
  | .option _ => none

theorem name_eq_parameter {e : Entry} {t : Text} (h : e.name = some t) : e.parameter = t := by
  obtain ⟨key, value⟩ := e
  cases key with
  | name s => exact Option.some_inj.mp h
  | option s => cases h

end Entry

abbrev Conf := Text → Option (List Entry)

/-! ## The role sysctl -/

def sysctlConfDynamicVar (conf : Conf) (groupNames : List Text) : List Entry :=
  groupNames.flatMap fun group => (conf group).getD []

/-- The settings in the order in which they are applied. -/
def settings (conf : Conf) (groupNames : List Text) : List Entry :=
  (sysctlConfDynamicVar conf groupNames).eraseDups

def settingsFor (conf : Conf) (groupNames : List Text) (parameter : Text) : List Entry :=
  (settings conf groupNames).filter fun e => e.parameter = parameter

/-- The value that a kernel parameter has at the end. -/
def applied (conf : Conf) (groupNames : List Text) (parameter : Text) : Option Value :=
  (settingsFor conf groupNames parameter).getLast?.map Entry.value

/-- A mapping for one group alone. -/
def single (group : Text) (entries : List Entry) : Conf :=
  fun g => if g = group then some entries else none

variable {groupNames : List Text} {group : Text} {entries : List Entry}

theorem dynamicVar_single (hnodup : groupNames.Nodup) (h : group ∈ groupNames) :
    sysctlConfDynamicVar (single group entries) groupNames = entries := by
  induction groupNames with
  | nil => exact absurd h List.not_mem_nil
  | cons g groups ih =>
    obtain ⟨hg, hgroups⟩ := List.nodup_cons.mp hnodup
    rw [sysctlConfDynamicVar, List.flatMap_cons, ← sysctlConfDynamicVar]
    by_cases hgroup : g = group
    · subst hgroup
      have hrest : sysctlConfDynamicVar (single g entries) groups = [] := by
        refine List.flatMap_eq_nil_iff.mpr fun g' hg' => ?_
        have hne : g' ≠ g := fun he => hg (he ▸ hg')
        rw [single, if_neg hne, Option.getD_none]
      rw [hrest, single, if_pos rfl, Option.getD_some, List.append_nil]
    · rw [single, if_neg hgroup, Option.getD_none, List.nil_append]
      exact ih hgroups ((List.mem_cons.mp h).resolve_left (Ne.symm hgroup))

/-! ## Every setting once -/

theorem eraseDups_concat (l : List Entry) (e : Entry) :
    (l ++ [e]).eraseDups = if e ∈ l then l.eraseDups else l.eraseDups ++ [e] := by
  rw [List.eraseDups_append, List.removeAll]
  by_cases he : e ∈ l
  · rw [if_pos he, List.filter_cons_of_neg (by simp [he]), List.filter_nil, List.eraseDups_nil,
      List.append_nil]
  · rw [if_neg he, List.filter_cons_of_pos (by simp [he]), List.filter_nil]
    rfl

theorem eraseDups_filter (p : Entry → Bool) (l : List Entry) :
    (l.filter p).eraseDups = l.eraseDups.filter p := by
  induction l using List.reverseRecOn with
  | nil => rfl
  | append_singleton l e ih =>
    rw [List.filter_append, eraseDups_concat]
    by_cases hp : p e = true
    · rw [List.filter_cons_of_pos hp, List.filter_nil, eraseDups_concat, ih]
      by_cases he : e ∈ l
      · rw [if_pos he, if_pos (List.mem_filter.mpr ⟨he, hp⟩)]
      · rw [if_neg he, if_neg fun h => he (List.mem_filter.mp h).1, List.filter_append,
          List.filter_cons_of_pos hp, List.filter_nil]
    · rw [List.filter_cons_of_neg hp, List.filter_nil, List.append_nil, ih]
      split
      · rfl
      · rw [List.filter_append, List.filter_cons_of_neg hp, List.filter_nil, List.append_nil]

theorem settingsFor_single (hnodup : groupNames.Nodup) (h : group ∈ groupNames)
    (parameter : Text) : settingsFor (single group entries) groupNames parameter =
      (entries.filter fun e => e.parameter = parameter).eraseDups := by
  rw [settingsFor, settings, dynamicVar_single hnodup h, eraseDups_filter]

/-! ## Looking a setting up by its name -/

/-- A task stops on an attribute that is undefined, or because there are too few pages. -/
inductive Stop where
  | undefined
  | insufficient
  deriving DecidableEq

/-- `selectattr('name', 'equalto', name)` and, for those left over, `rejectattr`. What a filter
gives is made a list at once, so the names of all settings are read. -/
def attrNamed (selected : Bool) (name : Text) : List Entry → Except Stop (List Entry)
  | [] => .ok []
  | e :: entries =>
    match e.name with
    | none => .error .undefined
    | some n => do
      let rest ← attrNamed selected name entries
      if decide (n = name) = selected then pure (e :: rest) else pure rest

/-- `selectattr('name', 'equalto', name) | map(attribute='value') | first` -/
def firstNamed (name : Text) (entries : List Entry) : Except Stop (Option Value) := do
  let found ← attrNamed true name entries
  pure ((found.map Entry.value).head?)

/-- `rejectattr('name', 'equalto', name) | list` -/
def rejectNamed (name : Text) (entries : List Entry) : Except Stop (List Entry) :=
  attrNamed false name entries

def Named (entries : List Entry) : Prop := ∀ e ∈ entries, e.name.isSome

def listed (name : Text) (entries : List Entry) : Option Value :=
  (entries.find? fun e => e.name = some name).map Entry.value

instance (entries : List Entry) : Decidable (Named entries) :=
  inferInstanceAs (Decidable (∀ e ∈ entries, _))

theorem named_cons {e : Entry} : Named (e :: entries) ↔ e.name.isSome ∧ Named entries :=
  List.forall_mem_cons

theorem attrNamed_eq (selected : Bool) (name : Text) (entries : List Entry) :
    attrNamed selected name entries =
      if Named entries then .ok (entries.filter fun e => decide (e.name = some name) = selected)
      else .error .undefined := by
  induction entries with
  | nil => rfl
  | cons e entries ih =>
    cases hname : e.name with
    | none => simp [attrNamed, hname, named_cons]
    | some n =>
      by_cases hall : Named entries
      · by_cases hn : decide (n = name) = selected
        · rw [List.filter_cons_of_pos (by simpa [hname] using hn)]
          simp only [attrNamed, hname, ih, if_pos hall, if_pos hn,
            if_pos (named_cons.mpr ⟨by rw [hname]; rfl, hall⟩)]
          rfl
        · rw [List.filter_cons_of_neg (by simpa [hname] using hn)]
          simp only [attrNamed, hname, ih, if_pos hall, if_neg hn,
            if_pos (named_cons.mpr ⟨by rw [hname]; rfl, hall⟩)]
          rfl
      · have hnot : ¬ Named (e :: entries) := fun h => hall (named_cons.mp h).2
        rw [attrNamed, hname, if_neg hnot]
        simp only [ih, if_neg hall]
        rfl

theorem firstNamed_eq (name : Text) (entries : List Entry) : firstNamed name entries =
    if Named entries then .ok (listed name entries) else .error .undefined := by
  rw [firstNamed, attrNamed_eq]
  split
  · rw [listed, ← List.head?_filter, ← List.head?_map]
    simp only [decide_eq_true_eq]
    rfl
  · rfl

theorem rejectNamed_eq (name : Text) (entries : List Entry) : rejectNamed name entries =
    if Named entries then .ok (entries.filter fun e => e.name ≠ some name)
    else .error .undefined := by
  rw [rejectNamed, attrNamed_eq]
  simp only [decide_eq_false_iff_not, ne_eq]

/-! ## Replacing one parameter -/

/-- The settings without those of the name, and then the new one. -/
def withSetting (name : Text) (value : Value) (entries : List Entry) : List Entry :=
  (entries.filter fun e => e.name ≠ some name) ++ [⟨.name name, value⟩]

variable {name parameter : Text} {value : Value}

theorem filter_withSetting_other (h : parameter ≠ name) :
    (withSetting name value entries).filter (fun e => e.parameter = parameter) =
      entries.filter fun e => e.parameter = parameter := by
  have hnew : [(⟨.name name, value⟩ : Entry)].filter (fun e => decide (e.parameter = parameter)) =
      [] := by
    simp [Entry.parameter, h.symm]
  rw [withSetting, List.filter_append, List.filter_filter, hnew, List.append_nil]
  refine List.filter_congr fun e _ => ?_
  by_cases he : e.parameter = parameter
  · have hname : e.name ≠ some name := fun hn => h (he ▸ Entry.name_eq_parameter hn)
    simp [he, hname]
  · simp [he]

theorem filter_withSetting_self (h : Named entries) :
    (withSetting name value entries).filter (fun e => e.parameter = name) =
      [⟨.name name, value⟩] := by
  have hold : (entries.filter fun e => decide (e.name ≠ some name)).filter
      (fun e => decide (e.parameter = name)) = [] := by
    refine List.filter_eq_nil_iff.mpr fun e he => ?_
    obtain ⟨hmem, hne⟩ := List.mem_filter.mp he
    obtain ⟨n, hn⟩ := Option.isSome_iff_exists.mp (h e hmem)
    have hparameter := Entry.name_eq_parameter hn
    simp only [decide_eq_true_eq] at hne ⊢
    rintro rfl
    exact hne (hparameter ▸ hn)
  rw [withSetting, List.filter_append, hold]
  simp [Entry.parameter]

theorem settingsFor_withSetting_other (hnodup : groupNames.Nodup) (hgroup : group ∈ groupNames)
    (h : parameter ≠ name) :
    settingsFor (single group (withSetting name value entries)) groupNames parameter =
      settingsFor (single group entries) groupNames parameter := by
  rw [settingsFor_single hnodup hgroup, settingsFor_single hnodup hgroup,
    filter_withSetting_other h]

theorem settingsFor_withSetting_self (hnodup : groupNames.Nodup) (hgroup : group ∈ groupNames)
    (h : Named entries) :
    settingsFor (single group (withSetting name value entries)) groupNames name =
      [⟨.name name, value⟩] := by
  rw [settingsFor_single hnodup hgroup, filter_withSetting_self h]
  rfl

end SysctlConf
