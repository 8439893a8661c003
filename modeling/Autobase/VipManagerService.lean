import Autobase.PatroniConfigBackup
import Mathlib.Logic.Function.Iterate

/-! # The service file of vip-manager

During an upgrade the line that releases the virtual address when the service stops is commented
out, and afterwards it is uncommented. Both tasks replace the text of the line wherever they
find it. -/
namespace VipManagerService

open LineEdits
open PatroniConfigBackup (Line regexp fits_regexp_self)

def portable (c : Char) : Bool := c.isAlphanum || c = '/' || c = '.' || c = '_' || c = '-'

/-- The path of the configuration of vip-manager. -/
structure Path where
  text : Line
  portable : text.all portable = true

def addressable (c : Char) : Bool := portable c || c = ':' || c = '%' || c = '@'

/-- An address, a mask or an interface; of its characters only the dot has a meaning in a regular
expression. -/
structure Word where
  text : Line
  addressable : text.all addressable = true

structure Vars where
  withHaproxyLoadBalancing : Bool
  clusterVip : Line
  pgbouncerInstall : Bool
  pgbouncerPoolPause : Bool
  vipManagerConf : Path
  vipManagerIp : Word
  vipManagerMask : Word
  vipManagerIface : Word

namespace Vars

variable (v : Vars)

def release : Line :=
  "ExecStopPost=/sbin/ip addr del ".toList ++ (v.vipManagerIp.text ++ ('/' ::
    (v.vipManagerMask.text ++ (" dev ".toList ++ v.vipManagerIface.text))))

def execStart : Line := "ExecStart=/usr/bin/vip-manager --config=".toList ++ v.vipManagerConf.text

/-- The lines that no variable is part of, above the start of the service, before the line of the
address and behind it. -/
def unit : List Line :=
  ["[Unit]".toList,
    "Description=Manages Virtual IP for Patroni".toList,
    "After=network-online.target".toList,
    "Before=patroni.service".toList,
    [],
    "[Service]".toList,
    "Type=simple".toList,
    []]

def note : List Line :=
  [[],
    ("# VIP not released when service stopped " ++
      "https://github.com/cybertec-postgresql/vip-manager/issues/19").toList]

def install : List Line :=
  [[], "Restart=on-failure".toList, [], "[Install]".toList, "WantedBy=multi-user.target".toList]

/-- vip-manager.service.j2, with a text for the line of the address. -/
def serviceWith (line : Line) : List Line :=
  unit ++ v.execStart :: (note ++ line :: install)

def service : List Line := v.serviceWith v.release

/-- The condition of the tasks, in maintenance_enable.yml as in maintenance_disable.yml. -/
def schemeB : Bool :=
  !v.withHaproxyLoadBalancing && !v.clusterVip.isEmpty && v.pgbouncerInstall &&
    v.pgbouncerPoolPause

def commentOut : Line → Line := replace (ofClasses (regexp v.release)) ('#' :: v.release)

def uncomment : Line → Line := replace (ofClasses (regexp ('#' :: v.release))) v.release

def maintenanceEnable (file : List Line) : List Line :=
  if v.schemeB then file.map v.commentOut else file

def maintenanceDisable (file : List Line) : List Line :=
  if v.schemeB then file.map v.uncomment else file

end Vars

/-! ## The line of the address -/

variable {v : Vars}

/-- The line with `k` signs in front of it. -/
def Vars.commented (v : Vars) (k : ℕ) : Line := List.replicate k '#' ++ v.release

theorem release_cons (v : Vars) : ∃ rest, v.release = 'E' :: rest := by
  have hkey : "ExecStopPost=/sbin/ip addr del ".toList.head? = some 'E' := by decide +kernel
  have hhead : v.release.head? = some 'E' := by
    unfold Vars.release
    rw [List.head?_append, hkey]
    exact Option.some_or
  exact List.head?_eq_some_iff.mp hhead

theorem fits_release_sign (v : Vars) (text : Line) :
    fits (regexp v.release) ('#' :: text) = false := by
  obtain ⟨rest, hrest⟩ := release_cons v
  rw [hrest]
  rfl

theorem matches_self (p : Line) : ofClasses (regexp p) (p ++ []) = some p.length := by
  rw [List.append_nil, ofClasses, if_pos (fits_regexp_self p), regexp, List.length_map]

theorem commentOut_commented (k : ℕ) : v.commentOut (v.commented k) = v.commented (k + 1) := by
  obtain ⟨rest, hrest⟩ := release_cons v
  have hne : v.release ≠ [] := hrest ▸ List.cons_ne_nil 'E' rest
  have hbefore : ∀ a c b, List.replicate k '#' = a ++ c :: b →
      ofClasses (regexp v.release) (c :: b ++ (v.release ++ [])) = none := by
    intro a c b hab
    have hmem : c ∈ List.replicate k '#' := by simp [hab]
    obtain rfl := List.eq_of_mem_replicate hmem
    rw [List.cons_append, ofClasses, fits_release_sign]
    rfl
  have h := replace_at ('#' :: v.release) [] hne hbefore (matches_self v.release)
  rw [replace_nil, List.append_nil, List.append_nil] at h
  rw [Vars.commented, Vars.commentOut, h, Vars.commented, List.replicate_succ', List.append_assoc,
    List.singleton_append]

theorem uncomment_commented (k : ℕ) : v.uncomment (v.commented (k + 1)) = v.commented k := by
  have hbefore : ∀ a c b, List.replicate k '#' = a ++ c :: b →
      ofClasses (regexp ('#' :: v.release)) (c :: b ++ (('#' :: v.release) ++ [])) = none := by
    intro a c b hab
    -- behind the sign stands another sign
    obtain ⟨text, htext⟩ : ∃ text, b ++ (('#' :: v.release) ++ []) = '#' :: text := by
      cases b with
      | nil => exact ⟨_, rfl⟩
      | cons ch b =>
        have hmem : ch ∈ List.replicate k '#' := by simp [hab]
        obtain rfl := List.eq_of_mem_replicate hmem
        exact ⟨_, rfl⟩
    refine if_neg ?_
    rw [Bool.not_eq_true, List.cons_append, htext]
    exact Bool.and_eq_false_iff.mpr (Or.inr (fits_release_sign v text))
  have h := replace_at v.release [] (List.cons_ne_nil _ _) hbefore (matches_self ('#' :: v.release))
  rw [replace_nil, List.append_nil, List.append_nil] at h
  rw [Vars.commented, List.replicate_succ', List.append_assoc, List.singleton_append,
    Vars.uncomment, h, Vars.commented]

/-! ## The other lines -/

/-- A part of a pattern that has no dot is found as it is. -/
theorem infix_of_found {before key behind line : Line} (hdot : '.' ∉ key)
    (h : found (ofClasses (regexp (before ++ (key ++ behind)))) line = true) : key <:+: line := by
  obtain ⟨a, b, rfl, hsome⟩ := exists_of_found h
  have hfits : fits (regexp (before ++ (key ++ behind))) b = true := by
    by_contra hfits
    rw [ofClasses, if_neg hfits] at hsome
    cases hsome
  rw [regexp, List.map_append] at hfits
  obtain ⟨skipped, b, rfl, -, -, hfits⟩ := fits_append_left.mp hfits
  rw [List.map_append] at hfits
  obtain ⟨found, rest, rfl, hlength, hkey, -⟩ := fits_append_left.mp hfits
  rw [List.length_map] at hlength
  obtain rfl := PatroniConfigBackup.eq_of_fits hdot hlength hkey
  exact ⟨a ++ skipped, rest, by simp⟩

def key : Line := "ExecStopPost=/sbin/ip addr del ".toList

theorem key_chars : 'E' ∈ key ∧ '.' ∉ key ∧ key.count ' ' = 3 := by
  decide +kernel

/-- The path of the configuration has no blank, and the key has three of them. -/
theorem key_notInfix_execStart (v : Vars) : ¬ key <:+: v.execStart := by
  intro h
  have hconf : v.vipManagerConf.text.count ' ' = 0 := List.count_eq_zero.mpr fun hmem =>
    absurd (List.all_eq_true.mp v.vipManagerConf.portable ' ' hmem) (by decide)
  have hstart : "ExecStart=/usr/bin/vip-manager --config=".toList.count ' ' = 1 := by
    decide +kernel
  have hkey := key_chars.2.2
  have hline : v.execStart.count ' ' = 1 := by
    unfold Vars.execStart
    rw [List.count_append, hstart, hconf]
  have hcount := h.sublist.count_le ' '
  omega

/-- The key begins with a letter that no other fixed line has. -/
theorem key_notInfix_fixed :
    ∀ line ∈ Vars.unit ++ (Vars.note ++ Vars.install), ¬ key <:+: line := by
  have hletter : ∀ line ∈ Vars.unit ++ (Vars.note ++ Vars.install), 'E' ∉ line := by
    decide +kernel
  exact fun line hline h => hletter line hline (h.subset key_chars.1)

theorem map_around {edit : Line → Line} {above between below : List Line} {start : Line}
    (hlines : ∀ l ∈ above ++ (between ++ below), edit l = l) (hstart : edit start = start)
    (line : Line) : (above ++ start :: (between ++ line :: below)).map edit =
      above ++ start :: (between ++ edit line :: below) := by
  have hfixed : ∀ lines : List Line, (∀ l ∈ lines, edit l = l) → lines.map edit = lines :=
    fun lines h => (List.map_congr_left h).trans (List.map_id' lines)
  obtain ⟨habove, hrest⟩ := List.forall_mem_append.mp hlines
  obtain ⟨hbetween, hbelow⟩ := List.forall_mem_append.mp hrest
  rw [List.map_append, List.map_cons, List.map_append, List.map_cons, hfixed _ habove,
    hfixed _ hbetween, hfixed _ hbelow, hstart]

/-- An edit of what has the key leaves the other lines alone. -/
theorem map_serviceWith {edit : Line → Line} (hedit : ∀ line, ¬ key <:+: line → edit line = line)
    (line : Line) : (v.serviceWith line).map edit = v.serviceWith (edit line) :=
  map_around (fun l hl => hedit l (key_notInfix_fixed l hl))
    (hedit _ (key_notInfix_execStart v)) line

theorem release_eq (v : Vars) : ∃ behind, v.release = key ++ behind := ⟨_, rfl⟩

theorem commentOut_eq_self {line : Line} (h : ¬ key <:+: line) : v.commentOut line = line := by
  obtain ⟨behind, hrelease⟩ := release_eq v
  refine replace_eq_self (Bool.not_eq_true _ ▸ fun hfound => h ?_)
  rw [hrelease, ← List.nil_append (key ++ behind)] at hfound
  exact infix_of_found key_chars.2.1 hfound

theorem uncomment_eq_self {line : Line} (h : ¬ key <:+: line) : v.uncomment line = line := by
  obtain ⟨behind, hrelease⟩ := release_eq v
  refine replace_eq_self (Bool.not_eq_true _ ▸ fun hfound => h ?_)
  rw [hrelease, ← List.singleton_append] at hfound
  exact infix_of_found key_chars.2.1 hfound

/-! ## Enabling and disabling -/

theorem maintenanceEnable_commented (h : v.schemeB = true) (k : ℕ) :
    v.maintenanceEnable (v.serviceWith (v.commented k)) = v.serviceWith (v.commented (k + 1)) := by
  rw [Vars.maintenanceEnable, if_pos h, map_serviceWith (fun _ => commentOut_eq_self),
    commentOut_commented]

theorem maintenanceDisable_commented (h : v.schemeB = true) (k : ℕ) :
    v.maintenanceDisable (v.serviceWith (v.commented (k + 1))) = v.serviceWith (v.commented k) := by
  rw [Vars.maintenanceDisable, if_pos h, map_serviceWith (fun _ => uncomment_eq_self),
    uncomment_commented]

/-- Every run puts one more sign in front of the line. -/
theorem iterate_maintenanceEnable (h : v.schemeB = true) (n : ℕ) :
    v.maintenanceEnable^[n] v.service = v.serviceWith (v.commented n) := by
  induction n with
  | zero => rfl
  | succ n ih => rw [Function.iterate_succ_apply', ih, maintenanceEnable_commented h]

theorem serviceWith_inj {a b : Line} (h : v.serviceWith a = v.serviceWith b) : a = b :=
  (List.cons.inj (List.append_cancel_left (List.cons.inj (List.append_cancel_left h)).2)).1

/-- Disabling gives the original back after one run only, unless neither task applies. -/
theorem maintenance_reversible_iff (v : Vars) (n : ℕ) :
    v.maintenanceDisable (v.maintenanceEnable^[n + 1] v.service) = v.service ↔
      v.schemeB = false ∨ n = 0 := by
  cases hb : v.schemeB with
  | false =>
    have henable : v.maintenanceEnable = id := funext fun file => if_neg (by simp [hb])
    rw [henable, Function.iterate_id, Vars.maintenanceDisable, hb]
    simp
  | true =>
    rw [iterate_maintenanceEnable hb, maintenanceDisable_commented hb]
    constructor
    · intro h
      have hline := congrArg List.length (serviceWith_inj h)
      rw [Vars.commented, List.length_append, List.length_replicate] at hline
      exact Or.inr (by omega)
    · rintro (h | rfl)
      · cases h
      · rfl

/-- The address 10.0.0.10 on eth0. -/
def sampleVars : Vars where
  withHaproxyLoadBalancing := false
  clusterVip := "10.0.0.10".toList
  pgbouncerInstall := true
  pgbouncerPoolPause := true
  vipManagerConf := ⟨"/etc/patroni/vip-manager.yml".toList, by decide +kernel⟩
  vipManagerIp := ⟨"10.0.0.10".toList, by decide +kernel⟩
  vipManagerMask := ⟨"24".toList, by decide +kernel⟩
  vipManagerIface := ⟨"eth0".toList, by decide +kernel⟩

/-- After a second attempt the line stays commented out. -/
theorem second_attempt_stays_commented : ¬ ∀ (v : Vars) (n : ℕ), 1 ≤ n →
    v.maintenanceDisable (v.maintenanceEnable^[n] v.service) = v.service := by
  intro h
  have htwice := h sampleVars 2 (by decide)
  revert htwice
  decide +kernel

end VipManagerService
