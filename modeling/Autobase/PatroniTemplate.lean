import Autobase.PatroniPaths

/-! # The template of patroni.yml

The sections in which parameters, the standby cluster, the slots and the directories stand are
rendered as the template does it; what stands between them is kept as lines. -/
namespace PatroniTemplate

open LineEdits PatroniConfigBackup PatroniPaths

/-! ## Variables -/

def isIdentifier (c : Char) : Bool := c.isAlphanum || c = '_' || c = '.'

/-- A parameter has the name of a setting and any text in one line. -/
structure Parameter where
  option : Line
  value : Line
  named : option ≠ []
  identifier : option.all isIdentifier = true
  oneLine : '\n' ∉ value

/-- A standby cluster without a host is none; the other texts may be empty. -/
structure StandbyCluster where
  host : Line
  port : Line
  primarySlotName : Line
  restoreCommand : Line
  recoveryMinApplyDelay : Line

structure Slot where
  slot : Line
  type : Line
  plugin : Line
  database : Line

structure Template where
  beginning : List Line
  postgresqlParameters : List Parameter
  patroniStandbyCluster : StandbyCluster
  patroniSlots : List Slot
  initdb : List Line
  paths : Directory → Path
  postgresql : List Line
  localPostgresqlParameters : List Parameter
  statsTempDirectory : Option Line
  ending : List Line

/-! ## Lines -/

def indented (indent : ℕ) (text : Line) : Line := List.replicate indent ' ' ++ text

def keyed (indent : ℕ) (key text : Line) : Line := indented indent (key ++ ':' :: ' ' :: text)

/-- Nothing is rendered for an empty text. -/
def optional (indent : ℕ) (key text : Line) : List Line :=
  if text = [] then [] else [keyed indent key text]

def Parameter.line (indent : ℕ) (p : Parameter) : Line :=
  keyed indent p.option ('"' :: (p.value ++ ['"']))

def StandbyCluster.lines (s : StandbyCluster) : List Line :=
  [keyed 6 "host".toList s.host, keyed 6 "port".toList s.port] ++
    optional 6 "primary_slot_name".toList s.primarySlotName ++
    optional 6 "restore_command".toList s.restoreCommand ++
    optional 6 "recovery_min_apply_delay".toList s.recoveryMinApplyDelay

def standbyClusterLine : Line := indented 4 "standby_cluster:".toList

def StandbyCluster.section (s : StandbyCluster) : List Line :=
  if s.host = [] then [] else standbyClusterLine :: s.lines

def Slot.lines (s : Slot) : List Line :=
  [indented 6 (s.slot ++ [':']), keyed 8 "type".toList s.type] ++
    optional 8 "plugin".toList s.plugin ++ optional 8 "database".toList s.database

def slotsSection (slots : List Slot) : List Line :=
  if slots = [] then [] else indented 4 "slots:".toList :: slots.flatMap Slot.lines

theorem mem_slotsSection {slots : List Slot} {l : Line} (h : l ∈ slotsSection slots) :
    l = indented 4 "slots:".toList ∨ l ∈ slots.flatMap Slot.lines := by
  rw [slotsSection] at h
  split at h
  · exact absurd h List.not_mem_nil
  · exact List.mem_cons.mp h

def parametersLine : Line := indented 6 "parameters:".toList

def initdbLine : Line := indented 2 "initdb:  # List options to be passed on to initdb".toList

namespace Template

variable (t : Template)

/-- The sections of bootstrap.dcs up to the standby cluster. -/
def dcsLines : List Line :=
  t.beginning ++ parametersLine :: t.postgresqlParameters.map (Parameter.line 8)

/-- The lines from the key of the standby cluster to the one of initdb. -/
def optionalLines : List Line :=
  t.patroniStandbyCluster.section ++ slotsSection t.patroniSlots ++ [[]]

def directoryLines : List Line :=
  [Directory.data, .bin, .config].map fun d => directoryLine 2 d (t.paths d)

def statsLines : List Line :=
  (t.statsTempDirectory.map (keyed 4 "stats_temp_directory".toList)).toList

/-- The lines below the key of initdb. -/
def remainingLines : List Line :=
  t.initdb ++ t.directoryLines ++ t.postgresql ++
    t.localPostgresqlParameters.map (Parameter.line 4) ++ t.statsLines ++ t.ending

def render : List Line := t.dcsLines ++ t.optionalLines ++ initdbLine :: t.remainingLines

end Template

/-! ## Keys of lines -/

variable {n : ℕ} {key name text : Line} {blank : Char → Bool} {p : Parameter}

theorem isPrefixOf_keyed (hname : ':' ∉ name) (hkey : ':' ∉ key) :
    (name ++ [':']).isPrefixOf (key ++ ':' :: text) = true ↔ name = key := by
  constructor
  · intro h
    obtain ⟨rest, hrest⟩ := List.isPrefixOf_iff_prefix.mp h
    rw [List.append_assoc, List.singleton_append] at hrest
    induction name generalizing key with
    | nil =>
      cases key with
      | nil => rfl
      | cons k key =>
        obtain ⟨rfl, -⟩ := List.cons.inj hrest
        exact absurd List.mem_cons_self hkey
    | cons c name ih =>
      cases key with
      | nil =>
        obtain ⟨rfl, -⟩ := List.cons.inj hrest
        exact absurd List.mem_cons_self hname
      | cons k key =>
        obtain ⟨rfl, htail⟩ := List.cons.inj hrest
        refine congrArg (c :: ·) (ih (fun hm => hname (List.mem_cons_of_mem _ hm))
          (fun hm => hkey (List.mem_cons_of_mem _ hm)) ?_ htail)
        exact List.isPrefixOf_iff_prefix.mpr ⟨rest, by simpa using htail⟩
  · rintro rfl
    refine List.isPrefixOf_iff_prefix.mpr ⟨text, ?_⟩
    rw [List.append_assoc, List.singleton_append]

theorem dropWhile_indented (hspace : blank ' ' = true) {c : Char} (hc : blank c = false)
    (rest : Line) : (indented n (c :: rest)).dropWhile blank = c :: rest := by
  have hall : ∀ x ∈ List.replicate n ' ', blank x = true := by
    intro x hx
    rw [List.eq_of_mem_replicate hx]
    exact hspace
  rw [indented, List.dropWhile_append_of_pos hall, List.dropWhile_cons, if_neg (by simp [hc])]

theorem code_of_isIdentifier {c : Char} (h : isIdentifier c = true) :
    (48 ≤ c.toNat ∧ c.toNat ≤ 57 ∨ 65 ≤ c.toNat ∧ c.toNat ≤ 90 ∨
      97 ≤ c.toNat ∧ c.toNat ≤ 122) ∨ c = '_' ∨ c = '.' := by
  have halpha : c.isAlpha = (c.isUpper || c.isLower) := rfl
  have hupper : c.isUpper = decide (65 ≤ c.val ∧ c.val ≤ 90) := rfl
  have hlower : c.isLower = (decide (97 ≤ c.val) && decide (c.val ≤ 122)) := rfl
  simp only [isIdentifier, Char.isAlphanum, halpha, hupper, hlower, Char.isDigit,
    Bool.or_eq_true, Bool.and_eq_true, decide_eq_true_eq, ge_iff_le,
    UInt32.le_iff_toNat_le] at h
  rcases h with (((h | h) | h) | h) | h
  · exact Or.inl (Or.inr (Or.inl h))
  · exact Or.inl (Or.inr (Or.inr h))
  · exact Or.inl (Or.inl h)
  · exact Or.inr (Or.inl h)
  · exact Or.inr (Or.inr h)

theorem isSpace_of_isIdentifier {c : Char} (h : isIdentifier c = true) : isSpace c = false := by
  have hcode := code_of_isIdentifier h
  rcases hcode with hcode | rfl | rfl
  · have hblank : ∀ b : Char, (b = ' ' ∨ b = '\t' ∨ b = '\n' ∨ b = '\r') → c ≠ b := by
      rintro b (rfl | rfl | rfl | rfl) rfl
      all_goals exact absurd hcode (by decide)
    simp only [isSpace, isBlankByte, Bool.or_eq_false_iff, Bool.and_eq_false_iff,
      decide_eq_false_iff_not]
    have h1 := hblank ' ' (by simp)
    have h2 := hblank '\t' (by simp)
    have h3 := hblank '\n' (by simp)
    have h4 := hblank '\r' (by simp)
    simp only [h1, h2, h3, h4, not_false_eq_true, true_and]
    omega
  · decide
  · decide

end PatroniTemplate
