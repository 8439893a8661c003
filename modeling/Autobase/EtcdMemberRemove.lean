import Autobase.AnsiblePlays

/-! # Removing a node from etcd

The play looks for the member of the target, removes it from another host and deletes the data on
the target. Only the deletion is sure to take place: the other tasks run once and are decided on
the first host of the group. -/
namespace EtcdMemberRemove

open AnsiblePlays

/-! ## The inventory and the cluster -/

/-- A member that has not started yet has no name; the identifier zero is never used. -/
structure Member where
  id : ℕ
  name : Option String
  peerURLs : List String
  positive : 0 < id

structure Inventory where
  etcdCluster : List String
  targetNode : String
  patroniEtcdProtocol : String
  ansibleHostname : Option String
  removeEtcdData : Bool
  distinct : etcdCluster.Nodup
  listed : targetNode ∈ etcdCluster

inductive Command where
  | fetchMembers | memberList | memberRemove | stopService | deleteContent

/-- A command that fails may have had its effect. -/
structure Outcome where
  ok : Bool
  effect : Bool
  ok_effect : ok = true → effect = true

/-- The members of etcd, the facts that were set, and the service and the data on the target. -/
structure Etcd where
  members : List Member
  membersJson : List Member
  targetMemberID : Option ℕ
  running : Bool
  data : Bool

def start (members : List Member) : Etcd := ⟨members, [], none, true, true⟩

/-! ## The tasks -/

section Tasks

variable (i : Inventory) (outcome : Command → Outcome)

def targetName : String := i.ansibleHostname.getD i.targetNode

def targetPeerUrl : String := i.patroniEtcdProtocol ++ "://" ++ i.targetNode ++ ":2380"

def named (m : Member) : Bool := decide (m.name = some (targetName i))

def reached (m : Member) : Bool := decide (targetPeerUrl i ∈ m.peerURLs)

/-- The expression cannot be evaluated when a member has no name. -/
def extractID (members : List Member) : Option ℕ :=
  if members.all fun m => m.name.isSome then
    some ((((members.filter (named i) ++ members.filter (reached i)).map
      Member.id).eraseDups.head?).getD 0)
  else none

def doCommand (c : Command) (effect : Etcd → Etcd) (s : Etcd) : Etcd × Bool :=
  (if (outcome c).effect then effect s else s, (outcome c).ok)

def elsewhere (host : String) : Bool := decide (host ≠ i.targetNode)

def fetchMembers : Task String Etcd where
  runOnce := true
  condition host _ := elsewhere i host
  action _ := doCommand outcome .fetchMembers id

def getMemberList : Task String Etcd where
  runOnce := true
  condition host _ := elsewhere i host
  action _ := doCommand outcome .memberList fun s => { s with membersJson := s.members }

def extractTargetID : Task String Etcd where
  runOnce := true
  condition host _ := elsewhere i host
  action _ s :=
    match extractID i s.membersJson with
    | none => (s, false)
    | some id => ({ s with targetMemberID := some id }, true)

def removeMember (id : ℕ) (s : Etcd) : Etcd :=
  { s with members := s.members.filter fun m => decide (m.id ≠ id) }

def removeNode : Task String Etcd where
  runOnce := true
  condition host s := elsewhere i host && decide (0 < s.targetMemberID.getD 0)
  action _ s := doCommand outcome .memberRemove (removeMember (s.targetMemberID.getD 0)) s

def stopService : Task String Etcd where
  runOnce := false
  condition host _ := !elsewhere i host
  action _ := doCommand outcome .stopService fun s => { s with running := false }

def deleteContent : Task String Etcd where
  runOnce := false
  condition host _ := !elsewhere i host && i.removeEtcdData
  action _ := doCommand outcome .deleteContent fun s => { s with data := false }

def searchTasks : List (Task String Etcd) :=
  [fetchMembers i outcome, getMemberList i outcome, extractTargetID i]

def deletionTasks : List (Task String Etcd) := [stopService i outcome, deleteContent i outcome]

def removal (members : List Member) : Play String Etcd :=
  runAll (searchTasks i outcome ++ removeNode i outcome :: deletionTasks i outcome)
    ⟨i.etcdCluster, start members⟩

end Tasks

/-! ## What should hold -/

/-- The identifier of the member that runs on the target, if there is one. -/
abbrev Own := Option ℕ

/-- When the data is deleted the member of the target is gone, and no other member ever is. -/
structure Consistent (own : Own) (members : List Member) (s : Etcd) : Prop where
  deleted : s.data = false → ∀ m ∈ s.members, own ≠ some m.id
  others : ∀ m ∈ members, m ∉ s.members → own = some m.id

/-- The first member with the name of the target, else the first with its peer address. -/
def firstMatch (i : Inventory) (members : List Member) : Option Member :=
  (members.find? (named i)).or (members.find? (reached i))

def KeepsData (i : Inventory) (own : Own) (members : List Member) : Prop :=
  i.removeEtcdData = true → ∀ m ∈ members, own ≠ some m.id

/-- The target does not come first, and the member that is found is its own; or no member of the
target would be left behind. -/
def Safe (i : Inventory) (own : Own) (members : List Member) : Prop :=
  if i.etcdCluster.head? = some i.targetNode then KeepsData i own members
  else (∀ m ∈ members, m.name.isSome = true) →
    match firstMatch i members with
    | none => KeepsData i own members
    | some m => own = some m.id

/-! ## The tasks one by one -/

variable {i : Inventory} {outcome : Command → Outcome} {own : Own} {members : List Member}

theorem elsewhere_iff {host : String} : elsewhere i host = true ↔ host ≠ i.targetNode := by
  simp [elsewhere]

theorem extractID_eq (h : ∀ m ∈ members, m.name.isSome = true) :
    extractID i members = some (((firstMatch i members).map Member.id).getD 0) := by
  have hhead : ∀ ids : List ℕ, ids.eraseDups.head? = ids.head? := by
    intro ids
    cases ids with
    | nil => rfl
    | cons a ids => rw [List.eraseDups_cons, List.head?_cons, List.head?_cons]
  rw [extractID, if_pos (List.all_eq_true.mpr h), hhead, List.head?_map, List.head?_append,
    List.head?_filter, List.head?_filter, firstMatch]

theorem extractID_none {m : Member} (hm : m ∈ members) (h : m.name = none) :
    extractID i members = none := by
  rw [extractID, if_neg]
  intro hall
  have hsome := List.all_eq_true.mp hall m hm
  rw [h] at hsome
  cases hsome

/-- The deletion leaves the members as they are, and there is none when it is not wanted. -/
theorem deletion_members (p : Play String Etcd) :
    (runAll (deletionTasks i outcome) p).state.members = p.state.members := by
  refine runAll_keeps (I := fun s : Etcd => s.members = p.state.members) ?_ rfl
  intro t ht h s _ hs
  simp only [deletionTasks, List.mem_cons, List.not_mem_nil, or_false] at ht
  rcases ht with rfl | rfl
  · simp only [stopService, doCommand]
    split <;> exact hs
  · simp only [deleteContent, doCommand]
    split <;> exact hs

theorem deletion_data {p : Play String Etcd} (hp : p.state.data = true)
    (h : (runAll (deletionTasks i outcome) p).state.data = false) : i.removeEtcdData = true := by
  by_contra hkeep
  have hdata : (runAll (deletionTasks i outcome) p).state.data = true := by
    refine runAll_keeps (I := fun s : Etcd => s.data = true) ?_ hp
    intro t ht h s hcondition hs
    simp only [deletionTasks, List.mem_cons, List.not_mem_nil, or_false] at ht
    rcases ht with rfl | rfl
    · simp only [stopService, doCommand]
      split <;> exact hs
    · simp only [deleteContent, Bool.and_eq_true] at hcondition
      exact absurd hcondition.2 hkeep
  rw [hdata] at h
  cases h

theorem consistent_kept {s : Etcd} (hmembers : s.members = members)
    (hdata : s.data = false → ∀ m ∈ members, own ≠ some m.id) : Consistent own members s := by
  constructor
  · rw [hmembers]
    exact hdata
  · intro m hm hgone
    rw [hmembers] at hgone
    exact absurd hm hgone

/-! ## The target comes first -/

/-- Every task that runs once is skipped on the target. -/
theorem removal_skipped (hfirst : i.etcdCluster.head? = some i.targetNode) :
    removal i outcome members =
      runAll (deletionTasks i outcome) ⟨i.etcdCluster, start members⟩ := by
  obtain ⟨hs, hhosts⟩ : ∃ hs, i.etcdCluster = i.targetNode :: hs := by
    cases hcluster : i.etcdCluster with
    | nil => rw [hcluster] at hfirst; cases hfirst
    | cons h hs =>
      rw [hcluster] at hfirst
      exact ⟨hs, by rw [Option.some.inj hfirst]⟩
  have htarget : elsewhere i i.targetNode = false := by simp [elsewhere]
  have hfetch : (fetchMembers i outcome).run ⟨i.etcdCluster, start members⟩ =
      ⟨i.etcdCluster, start members⟩ := Task.run_first_skipped rfl hhosts htarget
  have hlist : (getMemberList i outcome).run ⟨i.etcdCluster, start members⟩ =
      ⟨i.etcdCluster, start members⟩ := Task.run_first_skipped rfl hhosts htarget
  have hextract : (extractTargetID i).run ⟨i.etcdCluster, start members⟩ =
      ⟨i.etcdCluster, start members⟩ := Task.run_first_skipped rfl hhosts htarget
  have hremove : (removeNode i outcome).run ⟨i.etcdCluster, start members⟩ =
      ⟨i.etcdCluster, start members⟩ :=
    Task.run_first_skipped (h := i.targetNode) rfl hhosts (by simp [removeNode, htarget])
  simp only [removal, searchTasks, List.cons_append, List.nil_append, runAll_cons, hfetch, hlist,
    hextract, hremove]

/-! ## Another host comes first -/

section Elsewhere

variable {h : String} {hs : List String}

/-- What the search arrives at. -/
def found (i : Inventory) (members : List Member) (id : ℕ) : Play String Etcd :=
  ⟨i.etcdCluster, members, members, some id, true, true⟩

/-- The play has ended and nothing was changed. -/
structure EndedUnchanged (members : List Member) (p : Play String Etcd) : Prop where
  hosts : p.hosts = []
  members : p.state.members = members
  data : p.state.data = true

theorem fetchMembers_run (hhosts : i.etcdCluster = h :: hs) (hne : h ≠ i.targetNode) :
    (fetchMembers i outcome).run ⟨i.etcdCluster, start members⟩ =
      if (outcome .fetchMembers).ok then ⟨i.etcdCluster, start members⟩
      else ⟨[], start members⟩ := by
  rw [Task.run_first (h := h) rfl hhosts (elsewhere_iff.mpr hne)]
  simp [fetchMembers, doCommand]

theorem getMemberList_run (hhosts : i.etcdCluster = h :: hs) (hne : h ≠ i.targetNode) :
    (getMemberList i outcome).run ⟨i.etcdCluster, start members⟩ =
      if (outcome .memberList).ok then ⟨i.etcdCluster, members, members, none, true, true⟩
      else ⟨[], if (outcome .memberList).effect then ⟨members, members, none, true, true⟩
        else start members⟩ := by
  rw [Task.run_first (h := h) rfl hhosts (elsewhere_iff.mpr hne)]
  simp only [getMemberList, doCommand]
  split
  · rename_i hok
    rw [if_pos ((outcome .memberList).ok_effect hok)]
    rfl
  · rfl

theorem extractTargetID_run (hhosts : i.etcdCluster = h :: hs) (hne : h ≠ i.targetNode) :
    (extractTargetID i).run ⟨i.etcdCluster, members, members, none, true, true⟩ =
      match extractID i members with
      | none => ⟨[], members, members, none, true, true⟩
      | some id => found i members id := by
  rw [Task.run_first (h := h) rfl hhosts (elsewhere_iff.mpr hne)]
  cases hid : extractID i members with
  | none => simp [extractTargetID, hid]
  | some id => simp [extractTargetID, hid, found]

/-- The search ends the play, or it leaves the identifier and nothing else behind. -/
theorem search_cases (outcome : Command → Outcome) (members : List Member)
    (hhosts : i.etcdCluster = h :: hs) (hne : h ≠ i.targetNode) :
    EndedUnchanged members (runAll (searchTasks i outcome) ⟨i.etcdCluster, start members⟩) ∨
    ∃ id, extractID i members = some id ∧
      runAll (searchTasks i outcome) ⟨i.etcdCluster, start members⟩ = found i members id := by
  rw [searchTasks, runAll_cons, fetchMembers_run hhosts hne]
  split
  · rw [runAll_cons, getMemberList_run hhosts hne]
    split
    · rw [runAll_cons, extractTargetID_run hhosts hne]
      cases extractID i members with
      | none => exact Or.inl ⟨rfl, rfl, rfl⟩
      | some id => exact Or.inr ⟨id, rfl, rfl⟩
    · rw [runAll_ended rfl]
      refine Or.inl ⟨rfl, ?_, ?_⟩
      · simp only
        split <;> rfl
      · simp only
        split <;> rfl
  · rw [runAll_ended rfl]
    exact Or.inl ⟨rfl, rfl, rfl⟩

/-- With zero nothing is removed. -/
theorem removeNode_zero (outcome : Command → Outcome) (members : List Member)
    (hhosts : i.etcdCluster = h :: hs) :
    (removeNode i outcome).run (found i members 0) = found i members 0 := by
  refine Task.run_first_skipped (h := h) rfl hhosts ?_
  simp [removeNode, found]

/-- With another identifier the removal ends the play or has taken place. -/
theorem removeNode_cases (outcome : Command → Outcome) (members : List Member)
    (hhosts : i.etcdCluster = h :: hs) (hne : h ≠ i.targetNode) {id : ℕ} (hpos : 0 < id) :
    ((outcome .memberRemove).ok = true ∧
      (removeNode i outcome).run (found i members id) =
        ⟨i.etcdCluster, removeMember id (found i members id).state⟩) ∨
    ((outcome .memberRemove).ok = false ∧
      ((removeNode i outcome).run (found i members id)).hosts = [] ∧
      (((removeNode i outcome).run (found i members id)).state = (found i members id).state ∨
        ((removeNode i outcome).run (found i members id)).state =
          removeMember id (found i members id).state)) := by
  have helse : elsewhere i h = true := elsewhere_iff.mpr hne
  have hcondition : (removeNode i outcome).condition h (found i members id).state = true := by
    simp [removeNode, found, helse, hpos]
  have hrun : (removeNode i outcome).run (found i members id) =
      if (outcome .memberRemove).ok then
        ⟨i.etcdCluster, if (outcome .memberRemove).effect then
          removeMember id (found i members id).state else (found i members id).state⟩
      else ⟨[], if (outcome .memberRemove).effect then
        removeMember id (found i members id).state else (found i members id).state⟩ :=
    Task.run_first (h := h) rfl hhosts hcondition
  by_cases hok : (outcome .memberRemove).ok = true
  · rw [if_pos hok, if_pos ((outcome .memberRemove).ok_effect hok)] at hrun
    exact Or.inl ⟨hok, hrun⟩
  · rw [if_neg hok] at hrun
    refine Or.inr ⟨by simpa using hok, by rw [hrun], ?_⟩
    rw [hrun]
    split
    · exact Or.inr rfl
    · exact Or.inl rfl

/-- The removal of the own member of the target alone is consistent. -/
theorem consistent_removed {m : Member} {s : Etcd} (hown : own = some m.id)
    (hmembers : s.members = members.filter fun n => decide (n.id ≠ m.id)) :
    Consistent own members s := by
  subst hown
  constructor
  · intro _ n hn
    rw [hmembers] at hn
    have hne := of_decide_eq_true (List.mem_filter.mp hn).2
    exact fun heq => hne (Option.some.inj heq).symm
  · intro n hn hgone
    by_contra hother
    apply hgone
    rw [hmembers]
    exact List.mem_filter.mpr ⟨hn, decide_eq_true fun heq => hother (congrArg some heq.symm)⟩

end Elsewhere

/-! ## All outcomes -/

theorem deletion_consistent {p : Play String Etcd} (hp : p.state.members = members)
    (hdata : p.state.data = true) (hkeeps : KeepsData i own members) :
    Consistent own members (runAll (deletionTasks i outcome) p).state := by
  apply consistent_kept ((deletion_members p).trans hp)
  intro hdeleted
  exact hkeeps (deletion_data hdata hdeleted)

theorem exists_other_first (hfirst : i.etcdCluster.head? ≠ some i.targetNode) :
    ∃ g gs, i.etcdCluster = g :: gs ∧ g ≠ i.targetNode := by
  obtain ⟨g, gs, hhosts⟩ := List.exists_cons_of_ne_nil (List.ne_nil_of_mem i.listed)
  refine ⟨g, gs, hhosts, ?_⟩
  rintro rfl
  exact hfirst (by rw [hhosts, List.head?_cons])

/-- The tasks behind the search, with the identifier that it has found. -/
theorem consistent_found {g : String} {gs : List String} (hhosts : i.etcdCluster = g :: gs)
    (hne : g ≠ i.targetNode) (hmatch : match firstMatch i members with
      | none => KeepsData i own members
      | some m => own = some m.id) (outcome : Command → Outcome) :
    Consistent own members (runAll (deletionTasks i outcome) ((removeNode i outcome).run
      (found i members (((firstMatch i members).map Member.id).getD 0)))).state := by
  cases hfirst : firstMatch i members with
  | none =>
    rw [hfirst] at hmatch
    have hrun : (removeNode i outcome).run (found i members ((none.map Member.id).getD 0)) =
        found i members 0 := removeNode_zero outcome members hhosts
    rw [hrun]
    exact deletion_consistent rfl rfl hmatch
  | some m =>
    rw [hfirst] at hmatch
    rcases removeNode_cases outcome members hhosts hne m.positive with
      ⟨-, hrun⟩ | ⟨-, hend, hstate⟩
    · rw [Option.map_some, Option.getD_some, hrun]
      exact consistent_removed hmatch (deletion_members _)
    · rw [Option.map_some, Option.getD_some, runAll_ended hend]
      rcases hstate with hstate | hstate
      · rw [hstate]
        exact consistent_kept rfl fun hfalse => Bool.noConfusion hfalse
      · rw [hstate]
        exact consistent_removed hmatch rfl

theorem consistent_of_safe (h : Safe i own members) (outcome : Command → Outcome) :
    Consistent own members (removal i outcome members).state := by
  rw [Safe] at h
  split at h
  · rename_i hfirst
    rw [removal_skipped hfirst]
    exact deletion_consistent rfl rfl h
  · rename_i hfirst
    obtain ⟨g, gs, hhosts, hne⟩ := exists_other_first hfirst
    rw [removal, runAll_append, runAll_cons]
    rcases search_cases outcome members hhosts hne with hended | ⟨id, hid, hfound⟩
    · rw [Task.run_ended hended.hosts, runAll_ended hended.hosts]
      apply consistent_kept hended.members
      rw [hended.data]
      exact fun hfalse => Bool.noConfusion hfalse
    · have hnames : ∀ m ∈ members, m.name.isSome = true := by
        intro m hm
        by_contra hnone
        rw [extractID_none hm (by simpa using hnone)] at hid
        cases hid
      rw [extractID_eq hnames, Option.some.injEq] at hid
      rw [hfound, ← hid]
      exact consistent_found hhosts hne (h hnames) outcome

/-! ## A play in which nothing fails -/

def succeeds : Command → Outcome := fun _ => ⟨true, true, fun _ => rfl⟩

theorem deletion_done {s : Etcd} (hremove : i.removeEtcdData = true) :
    (runAll (deletionTasks i succeeds) ⟨i.etcdCluster, s⟩).state.data = false := by
  have htarget : elsewhere i i.targetNode = false := by simp [elsewhere]
  have honly : ∀ g, g ≠ i.targetNode → elsewhere i g = true := fun g => elsewhere_iff.mpr
  have hstop : (stopService i succeeds).run ⟨i.etcdCluster, s⟩ =
      ⟨i.etcdCluster, { s with running := false }⟩ := by
    rw [Task.run_only (h := i.targetNode) rfl i.listed i.distinct]
    · simp [Task.runOn, stopService, htarget, doCommand, succeeds]
    · intro g t hg
      simp [stopService, honly g hg]
  rw [deletionTasks, runAll_cons, hstop, runAll_cons,
    Task.run_only (h := i.targetNode) rfl i.listed i.distinct]
  · simp [Task.runOn, deleteContent, htarget, hremove, doCommand, succeeds, runAll]
  · intro g t hg
    simp [deleteContent, honly g hg]

theorem keepsData_of_consistent {s : Etcd} (hmembers : s.members = members)
    (h : Consistent own members (runAll (deletionTasks i succeeds) ⟨i.etcdCluster, s⟩).state) :
    KeepsData i own members := by
  intro hremove
  have hgone := h.deleted (deletion_done hremove)
  rwa [deletion_members, hmembers] at hgone

theorem search_succeeds {h : String} {hs : List String} (hhosts : i.etcdCluster = h :: hs)
    (hne : h ≠ i.targetNode) {id : ℕ} (hid : extractID i members = some id) :
    runAll (searchTasks i succeeds) ⟨i.etcdCluster, start members⟩ = found i members id := by
  have hok : ∀ c, (succeeds c).ok = true := fun _ => rfl
  rw [searchTasks, runAll_cons, fetchMembers_run hhosts hne, if_pos (hok _), runAll_cons,
    getMemberList_run hhosts hne, if_pos (hok _), runAll_cons, extractTargetID_run hhosts hne, hid]
  rfl

theorem mem_of_firstMatch {m : Member} (h : firstMatch i members = some m) : m ∈ members := by
  rw [firstMatch, Option.or_eq_some_iff] at h
  rcases h with hname | ⟨-, hpeer⟩
  · exact List.mem_of_find?_eq_some hname
  · exact List.mem_of_find?_eq_some hpeer

theorem safe_of_consistent (h : Consistent own members (removal i succeeds members).state) :
    Safe i own members := by
  rw [Safe]
  split
  · rename_i hfirst
    rw [removal_skipped hfirst] at h
    exact keepsData_of_consistent rfl h
  · rename_i hfirst
    intro hnames
    obtain ⟨g, gs, hhosts, hne⟩ := exists_other_first hfirst
    rw [removal, runAll_append, runAll_cons, search_succeeds hhosts hne (extractID_eq hnames)] at h
    cases hmatch : firstMatch i members with
    | none =>
      have hrun : (removeNode i succeeds).run (found i members ((none.map Member.id).getD 0)) =
          found i members 0 := removeNode_zero succeeds members hhosts
      rw [hmatch, hrun] at h
      exact keepsData_of_consistent rfl h
    | some m =>
      rw [hmatch, Option.map_some, Option.getD_some] at h
      apply h.others m (mem_of_firstMatch hmatch)
      rcases removeNode_cases succeeds members hhosts hne m.positive with
        ⟨-, hrun⟩ | ⟨hfails, -⟩
      · rw [hrun, deletion_members]
        simp [removeMember, found]
      · cases hfails

/-- Whatever fails, the removal is consistent exactly when the target is not the first host and
the member found for it is its own, or when no member of the target is left without data. -/
theorem removal_consistent_iff (i : Inventory) (own : Own) (members : List Member) :
    (∀ outcome, Consistent own members (removal i outcome members).state) ↔ Safe i own members := by
  constructor
  · exact fun h => safe_of_consistent (h succeeds)
  · exact consistent_of_safe

def ownMember : Member := ⟨1, some "node1", ["http://10.0.0.1:2380"], Nat.one_pos⟩

/-- The target comes first. -/
def firstTarget : Inventory where
  etcdCluster := ["10.0.0.1", "10.0.0.2"]
  targetNode := "10.0.0.1"
  patroniEtcdProtocol := "http"
  ansibleHostname := some "node1"
  removeEtcdData := true
  distinct := by decide
  listed := List.mem_cons_self

/-- The data is deleted and the member stays. -/
theorem first_target_left_behind : ¬ ∀ i own members outcome,
    Consistent own members (removal i outcome members).state := by
  intro h
  have hconsistent := h firstTarget (some 1) [ownMember] succeeds
  have hskipped : removal firstTarget succeeds [ownMember] =
      runAll (deletionTasks firstTarget succeeds) ⟨firstTarget.etcdCluster, start [ownMember]⟩ :=
    removal_skipped rfl
  rw [hskipped] at hconsistent
  have hkeeps : KeepsData firstTarget (some 1) [ownMember] :=
    keepsData_of_consistent rfl hconsistent
  exact hkeeps rfl ownMember List.mem_cons_self rfl

end EtcdMemberRemove
