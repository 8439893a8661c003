import Mathlib.Data.List.Basic

/-! # The guard of remove_node

Before a node is removed, the name of the target is searched as a regular expression in the table
of patronictl. The tasks of the guard run once and are decided on the first host of the group; the
removal runs on the target. -/
namespace RemoveNodeGuard

/-! ## Patterns and texts -/

def special : List Char := "\\^$*+?\x7b\x7d[]|()\n".toList

/-- A name whose characters stand for themselves, but for the dot. -/
def Plain (name : List Char) : Prop := ∀ c ∈ name, c ∉ special

instance (name : List Char) : Decidable (Plain name) :=
  List.decidableBAll _ name

/-- The rest of a line after the name, where a dot stands for any character. -/
def afterName : List Char → List Char → Option (List Char)
  | [], cs => some cs
  | _ :: _, [] => none
  | p :: ps, c :: cs => if p = '.' ∨ p = c then afterName ps cs else none

/-- Some place of the text satisfies the test. -/
def anywhere (test : List Char → Bool) (text : List Char) : Bool := text.tails.any test

def leaderWord : List Char := "Leader".toList

/-- The name, and somewhere behind it the word. -/
def matchesLine (name line : List Char) : Bool :=
  anywhere (fun cs => (afterName name cs).any (anywhere leaderWord.isPrefixOf)) line

def joinLines (lines : List (List Char)) : List Char := ['\n'].intercalate lines

def guardPattern (target : List Char) : List Char := target ++ ".*Leader".toList

/-- `re.search`: no result for a pattern that does not compile. A dot matches any character but
the end of a line. -/
structure PythonRe where
  search : List Char → List Char → Option Bool
  search_plain : ∀ target lines, Plain target → (∀ l ∈ lines, '\n' ∉ l) →
    search (guardPattern target) (joinLines lines) = some (lines.any (matchesLine target))

/-! ## The table -/

inductive Role where
  | leader | standbyLeader | replica | syncStandby | quorumStandby
  deriving DecidableEq

def Role.text : Role → String
  | .leader => "Leader"
  | .standbyLeader => "Standby Leader"
  | .replica => "Replica"
  | .syncStandby => "Sync Standby"
  | .quorumStandby => "Quorum Standby"

def Role.leads : Role → Bool
  | .leader | .standbyLeader => true
  | _ => false

/-- A member as patronictl lists it, with the text of the columns behind the role. -/
structure Member where
  name : String
  host : String
  role : Role
  rest : String
  oneLine : '\n' ∉ name.toList ∧ '\n' ∉ host.toList ∧ '\n' ∉ rest.toList

def cell (width : ℕ) (text : String) : List Char :=
  ' ' :: (text.toList ++ (List.replicate (width - text.length) ' ' ++ [' ', '|']))

def row (widths : ℕ × ℕ × ℕ) (m : Member) : List Char :=
  '|' :: (cell widths.1 m.name ++ (cell widths.2.1 m.host ++ (cell widths.2.2 m.role.text ++
    m.rest.toList)))

/-- A removal: the group in the order of the inventory, the target, the parts of the table, the
member that runs on the target, and what is deleted. -/
structure Removal where
  hosts : List String
  target : String
  heading : List (List Char)
  widths : ℕ × ℕ × ℕ
  members : List Member
  own : Option Member
  removePostgresData : Bool
  directories : List String
  target_mem : target ∈ hosts
  heading_lines : ∀ l ∈ heading, '\n' ∉ l
  own_mem : ∀ m, own = some m → m ∈ members

def Removal.lines (r : Removal) (ms : List Member) : List (List Char) :=
  r.heading ++ ms.map (row r.widths)

/-- The target is the leader or the standby leader. -/
def Removal.TargetLeads (r : Removal) : Prop := ∃ m, r.own = some m ∧ m.role.leads = true

/-! ## The play -/

inductive Verdict where
  | error | refused | passed
  deriving DecidableEq

/-- The condition of the guard on the table of some members. -/
def Removal.found (R : PythonRe) (r : Removal) (ms : List Member) : Option Bool :=
  R.search (guardPattern r.target.toList) (joinLines (r.lines ms))

/-- The run-once tasks. On the target the members are not fetched, and the condition on the
missing output is an error. -/
def Removal.verdict (R : PythonRe) (r : Removal) (ms : List Member) : Verdict :=
  if r.hosts.head? = some r.target then .error
  else match r.found R ms with
    | none => .error
    | some true => .refused
    | some false => .passed

structure Effects where
  stopped : List String
  deleted : List (String × String)

def Removal.play (R : PythonRe) (r : Removal) : Effects :=
  match r.verdict R r.members with
  | .passed =>
    let nodes := r.hosts.filter fun h => h = r.target
    ⟨nodes, if r.removePostgresData then
      nodes.flatMap fun h => (r.directories.filter fun d => d ≠ "").map fun d => (h, d) else []⟩
  | _ => ⟨[], []⟩

/-- A leader is left alone, and a replica is refused only where its own row is enough. -/
structure ProtectsLeader (R : PythonRe) (r : Removal) : Prop where
  leader : r.TargetLeads → r.target ∉ (r.play R).stopped ∧ ∀ d, (r.target, d) ∉ (r.play R).deleted
  replica : ∀ m, r.own = some m → m.role.leads = false →
    r.verdict R r.members = .refused → r.verdict R [m] = .refused

/-- The target is the first host, or its name is found as it should be. -/
def NameFits (R : PythonRe) (r : Removal) : Prop :=
  r.hosts.head? = some r.target ∨
    (r.TargetLeads → r.found R r.members ≠ some false) ∧
      ∀ m, r.own = some m → m.role.leads = false →
        r.found R r.members = some true → r.found R [m] = some true

/-- The same for a name without special characters, by the lines of the table. -/
def RowsFit (r : Removal) : Prop :=
  r.hosts.head? = some r.target ∨
    (r.TargetLeads → ∃ l ∈ r.lines r.members, matchesLine r.target.toList l = true) ∧
      ∀ m, r.own = some m → m.role.leads = false →
        (∃ l ∈ r.lines r.members, matchesLine r.target.toList l = true) →
          ∃ l ∈ r.lines [m], matchesLine r.target.toList l = true

variable {R : PythonRe} {r : Removal}

theorem verdict_passed {ms : List Member} :
    r.verdict R ms = .passed ↔ r.hosts.head? ≠ some r.target ∧ r.found R ms = some false := by
  rw [Removal.verdict]
  by_cases hfirst : r.hosts.head? = some r.target
  · simp [hfirst]
  · rw [if_neg hfirst]
    rcases r.found R ms with _ | _ | _ <;> simp [hfirst]

theorem verdict_refused {ms : List Member} :
    r.verdict R ms = .refused ↔ r.hosts.head? ≠ some r.target ∧ r.found R ms = some true := by
  rw [Removal.verdict]
  by_cases hfirst : r.hosts.head? = some r.target
  · simp [hfirst]
  · rw [if_neg hfirst]
    rcases r.found R ms with _ | _ | _ <;> simp [hfirst]

theorem target_stopped :
    r.target ∈ (r.play R).stopped ↔ r.verdict R r.members = .passed := by
  rw [Removal.play]
  cases r.verdict R r.members <;> simp [r.target_mem]

theorem deleted_stopped {h d : String} (hd : (h, d) ∈ (r.play R).deleted) :
    h ∈ (r.play R).stopped := by
  rw [Removal.play] at hd ⊢
  cases hv : r.verdict R r.members with
  | error => simp [hv] at hd
  | refused => simp [hv] at hd
  | passed =>
    simp only [hv] at hd
    split at hd
    · obtain ⟨node, hnode, hmem⟩ := List.mem_flatMap.mp hd
      obtain ⟨dir, -, he⟩ := List.mem_map.mp hmem
      obtain rfl : node = h := congrArg Prod.fst he
      exact hnode
    · cases hd

theorem untouched_iff :
    (r.target ∉ (r.play R).stopped ∧ ∀ d, (r.target, d) ∉ (r.play R).deleted) ↔
      r.verdict R r.members ≠ .passed := by
  rw [ne_eq, ← target_stopped]
  exact ⟨And.left, fun h => ⟨h, fun _ hd => h (deleted_stopped hd)⟩⟩

theorem protects_iff_nameFits : ProtectsLeader R r ↔ NameFits R r := by
  by_cases hfirst : r.hosts.head? = some r.target
  · refine iff_of_true ⟨fun _ => untouched_iff.mpr ?_, ?_⟩ (Or.inl hfirst)
    · rw [ne_eq, verdict_passed]
      exact fun h => h.1 hfirst
    · intro m _ _ h
      exact absurd hfirst (verdict_refused.mp h).1
  · have hrefused : ∀ ms, r.verdict R ms = .refused ↔ r.found R ms = some true := by
      intro ms
      rw [verdict_refused]
      exact and_iff_right hfirst
    have hpassed : r.verdict R r.members ≠ .passed ↔ r.found R r.members ≠ some false := by
      rw [ne_eq, verdict_passed, ne_eq, and_iff_right hfirst]
    constructor
    · rintro ⟨hleader, hreplica⟩
      refine Or.inr ⟨fun hl => hpassed.mp (untouched_iff.mp (hleader hl)), ?_⟩
      intro m hm hrole hfound
      exact (hrefused [m]).mp (hreplica m hm hrole ((hrefused _).mpr hfound))
    · intro h
      obtain ⟨hleader, hreplica⟩ := h.resolve_left hfirst
      refine ⟨fun hl => untouched_iff.mpr (hpassed.mpr (hleader hl)), ?_⟩
      intro m hm hrole hv
      exact (hrefused [m]).mpr (hreplica m hm hrole ((hrefused _).mp hv))

/-! ## Names without special characters -/

theorem cell_oneLine {width : ℕ} {text : String} (h : '\n' ∉ text.toList) :
    '\n' ∉ cell width text := by
  simp only [cell, List.mem_cons, List.mem_append, List.mem_replicate, not_or]
  exact ⟨by decide, h, fun hn => absurd hn.2 (by decide), by decide, by decide, List.not_mem_nil⟩

theorem row_oneLine (widths : ℕ × ℕ × ℕ) (m : Member) : '\n' ∉ row widths m := by
  obtain ⟨hname, hhost, hrest⟩ := m.oneLine
  have hrole : '\n' ∉ m.role.text.toList := by
    cases m.role <;> decide
  simp only [row, List.mem_cons, List.mem_append, not_or]
  exact ⟨by decide, cell_oneLine hname, cell_oneLine hhost, cell_oneLine hrole, hrest⟩

theorem lines_oneLine (r : Removal) (ms : List Member) : ∀ l ∈ r.lines ms, '\n' ∉ l := by
  intro l hl
  rcases List.mem_append.mp hl with hl | hl
  · exact r.heading_lines l hl
  · obtain ⟨m, -, rfl⟩ := List.mem_map.mp hl
    exact row_oneLine r.widths m

theorem found_plain (h : Plain r.target.toList) (ms : List Member) :
    r.found R ms = some true ↔ ∃ l ∈ r.lines ms, matchesLine r.target.toList l = true := by
  rw [Removal.found, R.search_plain _ _ h (lines_oneLine r ms), Option.some.injEq, List.any_eq_true]

theorem nameFits_plain (h : Plain r.target.toList) : NameFits R r ↔ RowsFit r := by
  have hfound : r.found R r.members ≠ some false ↔
      ∃ l ∈ r.lines r.members, matchesLine r.target.toList l = true := by
    rw [← found_plain (R := R) h]
    have hsome := R.search_plain _ _ h (lines_oneLine r r.members)
    rw [← Removal.found] at hsome
    rw [hsome, ne_eq, Option.some.injEq, Option.some.injEq, Bool.not_eq_false]
  rw [NameFits, RowsFit]
  simp only [found_plain h, hfound]

/-- The play protects exactly the leader when its target is the first host of the group, or the
pattern made of its name is found in the table of a leader, and in the table of a replica only if
the row of the replica gives it. A name without special characters is found where a line holds
it before the word. -/
theorem protects_leader_iff :
    (ProtectsLeader R r ↔ NameFits R r) ∧
      (Plain r.target.toList → (ProtectsLeader R r ↔ RowsFit r)) :=
  ⟨protects_iff_nameFits, fun h => protects_iff_nameFits.trans (nameFits_plain h)⟩

/-! ## An alias -/

theorem matchesLine_nil (name : List Char) : matchesLine name [] = false := by
  cases name <;> rfl

/-- An engine for names without special characters. -/
def plainRe : PythonRe where
  search pattern text :=
    let name := pattern.take (pattern.length - 8)
    if pattern = guardPattern name ∧ Plain name then
      some ((text.splitOn '\n').any (matchesLine name))
    else none
  search_plain target lines h hlines := by
    have hname : (guardPattern target).take ((guardPattern target).length - 8) = target := by
      simp [guardPattern]
    simp only [hname, h, and_self, if_true]
    cases lines with
    | nil => simp [joinLines, matchesLine_nil]
    | cons l ls => rw [joinLines, List.splitOn_intercalate '\n' hlines (by simp)]

def node01 : Member := ⟨"pgnode01", "10.0.1.1", .replica, " streaming | 1 | 0 |", by decide⟩

def node02 : Member := ⟨"pgnode02", "10.0.1.2", .leader, " running | 1 | |", by decide⟩

/-- The inventory names the leader by an alias. -/
def aliasedLeader : Removal where
  hosts := ["db-a", "db-b"]
  target := "db-b"
  heading := ["+ Cluster: postgres-cluster (7341) +".toList,
    "| Member | Host | Role | State | TL | Lag in MB |".toList]
  widths := (8, 8, 7)
  members := [node01, node02]
  own := some node02
  removePostgresData := true
  directories := ["/var/lib/postgresql/18/main", "/etc/postgresql/18/main", ""]
  target_mem := by decide
  heading_lines := by simp
  own_mem := by
    rintro m ⟨⟩
    exact List.mem_cons_of_mem _ List.mem_cons_self

theorem aliased_leader_rows : ProtectsLeader plainRe aliasedLeader ↔ RowsFit aliasedLeader := by
  have hplain : Plain aliasedLeader.target.toList := by
    decide
  exact protects_leader_iff.2 hplain

theorem aliased_leader_removed : ¬ ProtectsLeader plainRe aliasedLeader := by
  intro h
  have hstopped : "db-b" ∈ (aliasedLeader.play plainRe).stopped := by
    decide +kernel
  exact (h.leader ⟨node02, rfl, rfl⟩).1 hstopped

end RemoveNodeGuard
