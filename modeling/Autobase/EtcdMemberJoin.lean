import Autobase.EtcdMemberAdd

/-! # How an added node joins

The listing of the members is searched for the name of the node. If it is found there only as the
name of a member, a node is started with an empty data directory and with the members that etcd
really has, it has joined when the play goes on, and what it writes from its start on is kept. -/
namespace EtcdMemberJoin

open TransitionRuns SettingLines EtcdMemberAdd

variable {η : Type*} {I : Inventory η} {line : Member → Text} {members₀ : List Member}
  {s : Etcd η} {g h : η}

/-! ## Names in the listing -/

theorem infix_memberList {w : Text} (hne : w ≠ []) (hw : '\n' ∉ w) {members : List Member} :
    w <:+: memberList line members ↔ ∃ m ∈ members, w <:+: line m := by
  induction members with
  | nil => simpa [memberList] using hne
  | cons m members ih =>
    have hsplit : memberList line (m :: members) =
        line m ++ ['\n'] ++ memberList line members := rfl
    have hlast : ∀ {v l : Text}, v <:+ l ++ ['\n'] → v ≠ [] → '\n' ∈ v := by
      intro v l hv hne
      obtain hnil | ⟨t, rfl, -⟩ := List.suffix_concat_iff.mp hv
      · exact absurd hnil hne
      · exact List.mem_append_right t List.mem_cons_self
    rw [hsplit, List.exists_mem_cons_iff, ← ih, List.infix_append_iff, List.infix_concat_iff]
    constructor
    · rintro ((hsuffix | hinside) | hrest | ⟨a, b, rfl, ha, hb⟩)
      · exact absurd (hlast hsuffix hne) hw
      · exact Or.inl hinside
      · exact Or.inr hrest
      · cases a with
        | nil => exact Or.inr hb.isInfix
        | cons c a =>
          exact absurd (List.mem_append_left _ (hlast ha (List.cons_ne_nil c a))) hw
    · rintro (hinside | hrest)
      · exact Or.inl (Or.inr hinside)
      · exact Or.inr (Or.inl hrest)

/-- The members that the role meets. -/
def Known (I : Inventory η) (members₀ : List Member) (m : Member) : Prop :=
  m ∈ members₀ ∨ ∃ h ∈ I.newEtcdNodes,
    m = ⟨I.peerURL h, none⟩ ∨ m = ⟨I.peerURL h, some (I.ansibleHostname h)⟩

/-- The name of a new node is in the line of a member only if it is the name of the member. -/
structure Plain (I : Inventory η) (line : Member → Text) (members₀ : List Member) : Prop where
  name : ∀ h ∈ I.newEtcdNodes, I.ansibleHostname h ≠ [] ∧ '\n' ∉ I.ansibleHostname h
  told : ∀ h ∈ I.newEtcdNodes, ∀ m, Known I members₀ m → I.ansibleHostname h <:+: line m →
    m.name = some (I.ansibleHostname h)

/-- The new nodes are new to a cluster that runs. -/
structure Fresh (I : Inventory η) (s : Etcd η) : Prop where
  settled : Settled s
  addresses : ∀ h ∈ I.newEtcdNodes, ∀ m ∈ s.members, m.peerURL ≠ I.peerURL h
  names : ∀ h ∈ I.newEtcdNodes, ∀ m ∈ s.members, m.name ≠ some (I.ansibleHostname h)
  idle : ∀ h ∈ I.newEtcdNodes, (s.nodes h).running = false

theorem mem_etcdCluster (h : g ∈ I.newEtcdNodes) : g ∈ I.etcdCluster :=
  (mem_newEtcdNodes.mp h).1

/-- The name belongs to the node. -/
theorem peerURL_of_name (hnames : ∀ m ∈ members₀, m.name ≠ some (I.ansibleHostname h)) {m : Member}
    (hh : h ∈ I.newEtcdNodes) (hm : Known I members₀ m)
    (hname : m.name = some (I.ansibleHostname h)) : m.peerURL = I.peerURL h := by
  rcases hm with hm | ⟨g, hg, rfl | rfl⟩
  · exact absurd hname (hnames m hm)
  · cases hname
  · have hsame : I.ansibleHostname g = I.ansibleHostname h := Option.some.inj hname
    rw [I.names g (mem_etcdCluster hg) h (mem_etcdCluster hh) hsame]

/-- Who is found in the listing has joined. -/
theorem joined_of_listed (hplain : Plain I line members₀)
    (hnames : ∀ m ∈ members₀, m.name ≠ some (I.ansibleHostname h)) (hh : h ∈ I.newEtcdNodes)
    (hknown : ∀ m ∈ s.members, Known I members₀ m)
    (hlisted : I.ansibleHostname h <:+: memberList line s.members) : s.Joined I h := by
  obtain ⟨hne, hnewline⟩ := hplain.name h hh
  obtain ⟨m, hm, hinside⟩ := (infix_memberList hne hnewline).mp hlisted
  have hname := hplain.told h hh m (hknown m hm) hinside
  refine ⟨m, hm, peerURL_of_name hnames hh (hknown m hm) hname, ?_⟩
  rw [Member.started, hname]
  rfl

/-! ## What is ready when -/

def Named (I : Inventory η) (s : Etcd η) (g : η) : Prop :=
  setting "ETCD_NAME" (s.nodes g).conf = some (I.ansibleHostname g)

def edited (I : Inventory η) (h : η) (lines : List (String × Text)) : List (String × Text) :=
  lines.foldl (fun c s => lineinfile s c) (template I h)

/-- The lines say who the members are, and all others have started. -/
structure Added (I : Inventory η) (s : Etcd η) (h : η) (lines : List (String × Text)) : Prop where
  lines : lines = memberAddOutput I h s.members
  member : ∃ m ∈ s.members, m.peerURL = I.peerURL h
  others : ∀ m ∈ s.members, m.name = none → m.peerURL = I.peerURL h

/-- What the tasks have done for the node that was added. -/
def Prepared (I : Inventory η) (s : Etcd η) (h : η) (lines : List (String × Text)) :
    JoinTask → Prop
  | .memberList | .memberAdd => True
  | .applyParams => (s.nodes h).conf = template I h ∧ (s.nodes h).running = false
  | .emptyData => (s.nodes h).conf = edited I h lines ∧ (s.nodes h).running = false
  | .startService => (s.nodes h).conf = edited I h lines ∧ (s.nodes h).running = false ∧
      (s.nodes h).data = false
  | .awaitReady => (s.nodes h).conf = edited I h lines
  | .waitPort | .waitHealthy => s.Joined I h

def Work (I : Inventory η) (s : Etcd η) (h : η) : JoinTask → Prop
  | .memberList => (s.nodes h).conf = template I h
  | .memberAdd => (s.nodes h).conf = template I h ∧
      (I.ansibleHostname h <:+: s.listed → s.Joined I h)
  | t => (s.added = none → s.Joined I h) ∧
      ∀ lines, s.added = some lines → Added I s h lines ∧ Prepared I s h lines t

structure Steady (I : Inventory η) (members₀ : List Member) (s : Etcd η) : Prop where
  known : ∀ m ∈ s.members, Known I members₀ m
  running : ∀ h ∈ I.newEtcdNodes, (s.nodes h).running = true →
    Named I s h ∧ ∃ m ∈ s.members, m.peerURL = I.peerURL h
  named : s.todo ≠ [] → ∀ g ∈ I.newEtcdNodes, Named I s g
  work : ∀ h rest, s.todo = h :: rest →
    (∀ g ∈ rest, (s.nodes g).conf = template I g) ∧ Work I s h s.task

/-! ## The settings of a node -/

theorem setting_template_name (h : η) :
    setting "ETCD_NAME" (template I h) = some (I.ansibleHostname h) := by
  have htls : setting "ETCD_NAME" ((I.tls.map Tls.settings).getD []) = none := by
    cases I.tls with
    | none => rfl
    | some t => simp [Tls.settings, setting]
  rw [template, setting_append, htls]
  simp [setting]

theorem setting_template_peer (h : η) :
    setting "ETCD_INITIAL_ADVERTISE_PEER_URLS" (template I h) = some (I.peerURL h) := by
  have htls : setting "ETCD_INITIAL_ADVERTISE_PEER_URLS" ((I.tls.map Tls.settings).getD []) =
      none := by
    cases I.tls with
    | none => rfl
    | some t => simp [Tls.settings, setting]
  rw [template, setting_append, htls]
  simp [setting]

/-- The settings of a node that was added are those of the template, but for the members. -/
theorem setting_edited (k : String) (members : List Member) :
    setting k (edited I h (memberAddOutput I h members)) =
      if k = "ETCD_INITIAL_CLUSTER" then some (clusterWith I h members)
      else if k = "ETCD_INITIAL_CLUSTER_STATE" then some "existing".toList
      else setting k (template I h) := by
  rw [edited, setting_edits]
  by_cases hcluster : k = "ETCD_INITIAL_CLUSTER"
  · subst hcluster
    simp [memberAddOutput, setting]
  · by_cases hstate : k = "ETCD_INITIAL_CLUSTER_STATE"
    · subst hstate
      simp [memberAddOutput, setting]
    · rw [if_neg hcluster, if_neg hstate]
      by_cases hname : k = "ETCD_NAME"
      · subst hname
        rw [setting_template_name]
        simp [memberAddOutput, setting]
      · by_cases hpeer : k = "ETCD_INITIAL_ADVERTISE_PEER_URLS"
        · subst hpeer
          rw [setting_template_peer]
          simp [memberAddOutput, setting]
        · have hnone : setting k (memberAddOutput I h members) = none := by
            simp [memberAddOutput, setting, Ne.symm hcluster, Ne.symm hstate, Ne.symm hname,
              Ne.symm hpeer]
          rw [hnone]
          rfl

theorem setting_applied_name {made : ℕ → Bool} {conf : List (String × Text)}
    {members : List Member} (hconf : setting "ETCD_NAME" conf = some (I.ansibleHostname h)) :
    setting "ETCD_NAME" (applied made (memberAddOutput I h members) conf) =
      some (I.ansibleHostname h) := by
  rw [applied, setting_edits, hconf]
  have hvalue : ∀ edits : List (String × Text), edits.Sublist (memberAddOutput I h members) →
      (setting "ETCD_NAME" edits).or (some (I.ansibleHostname h)) =
        some (I.ansibleHostname h) := by
    intro edits hsub
    induction edits with
    | nil => rfl
    | cons e edits ih =>
      have hmem : e ∈ memberAddOutput I h members := hsub.subset List.mem_cons_self
      rw [setting, Option.or_assoc]
      split
      · rename_i hkey
        have hname : e.2 = I.ansibleHostname h := by
          rw [memberAddOutput] at hmem
          rcases List.mem_cons.mp hmem with rfl | hmem
          · rfl
          · rcases List.mem_cons.mp hmem with rfl | hmem
            · exact absurd hkey (by simp)
            · rcases List.mem_cons.mp hmem with rfl | hmem
              · exact absurd hkey (by simp)
              · rw [List.mem_singleton.mp hmem] at hkey
                exact absurd hkey (by simp)
        rw [hname]
        exact ih ((List.sublist_cons_self e edits).trans hsub)
      · exact ih ((List.sublist_cons_self e edits).trans hsub)
  refine hvalue _ ?_
  have hsub := (List.filter_sublist (p := fun l => made l.2)
    (l := (memberAddOutput I h members).zipIdx)).map Prod.fst
  rwa [List.zipIdx_map_fst] at hsub

/-- Without a failure all lines are put in. -/
theorem applied_all {made : ℕ → Bool} (hmade : ∀ i, made i = true)
    (lines conf : List (String × Text)) :
    applied made lines conf = lines.foldl (fun c s => lineinfile s c) conf := by
  have hall : lines.zipIdx.filter (fun l => made l.2) = lines.zipIdx :=
    List.filter_eq_self.mpr fun l _ => hmade l.2
  rw [applied, hall, List.zipIdx_map_fst]

/-! ## The tasks -/

section Tasks

variable {t : JoinTask} {o : Outcome} {rest : List η} {n : ℕ}

/-- Once the addition is behind, the node is a member. -/
theorem member_of_work (hwork : Work I s h t) (ht : t ≠ .memberList ∧ t ≠ .memberAdd) :
    ∃ m ∈ s.members, m.peerURL = I.peerURL h := by
  have hcases : (s.added = none → s.Joined I h) ∧
      ∀ lines, s.added = some lines → Added I s h lines ∧ Prepared I s h lines t := by
    cases t
    case memberList => exact absurd rfl ht.1
    case memberAdd => exact absurd rfl ht.2
    all_goals exact hwork
  cases hadded : s.added with
  | none =>
    obtain ⟨m, hm, hurl, -⟩ := hcases.1 hadded
    exact ⟨m, hm, hurl⟩
  | some lines => exact (hcases.2 lines hadded).1.member

theorem Added.congr {s' : Etcd η} {lines : List (String × Text)} (h : Added I s g lines)
    (hmembers : s'.members = s.members) : Added I s' g lines :=
  ⟨hmembers ▸ h.lines, hmembers ▸ h.member, hmembers ▸ h.others⟩

/-- A node is listed under its own name before and after it has joined. -/
theorem clusterWith_naming (name : Text) (members : List Member) :
    clusterWith I h (members.map (naming I h name)) = clusterWith I h members := by
  rw [clusterWith, clusterWith, List.map_map]
  refine congrArg initialCluster (List.map_congr_left fun m _ => ?_)
  rw [Function.comp_apply, naming_peerURL]
  split
  · rfl
  · rename_i hne
    rw [naming, if_neg]
    rintro rfl
    exact hne rfl

theorem Added.named {s' : Etcd η} {lines : List (String × Text)} {name : Text}
    (hadded : Added I s h lines) (hmembers : s'.members = s.members.map (naming I h name)) :
    Added I s' h lines := by
  constructor
  · rw [hadded.lines, hmembers, memberAddOutput, memberAddOutput, clusterWith_naming]
  · obtain ⟨m, hm, hurl⟩ := hadded.member
    refine ⟨naming I h name m, ?_, (naming_peerURL name m).trans hurl⟩
    rw [hmembers]
    exact List.mem_map_of_mem hm
  · intro m hm hnone
    rw [hmembers] at hm
    obtain ⟨m', hm', rfl⟩ := List.mem_map.mp hm
    have hsame : naming I h name m' = m' := naming_unnamed hnone
    rw [hsame] at hnone ⊢
    exact hadded.others m' hm' hnone

theorem work_frame (todo : List η) (task : JoinTask) (hwork : Work I s h t) :
    Work I { s with todo := todo, task := task } h t := by
  cases t
  case memberList | memberAdd => exact hwork
  all_goals
    refine ⟨hwork.1, fun lines hlines => ?_⟩
    obtain ⟨hafter, hprepared⟩ := hwork.2 lines hlines
    exact ⟨hafter.congr rfl, hprepared⟩

/-- The nodes ahead of the one that waits have joined. -/
theorem joined_ahead {before after : List η} (horderly : Orderly I n s)
    (hmember : ⟨I.peerURL h, none⟩ ∈ s.members) (hsplit : I.newEtcdNodes = before ++ h :: after)
    (hg : g ∈ before) : s.Joined I g := by
  obtain ⟨k, hurl, before', after', hsplit', hjoined⟩ := horderly.waiting _ hmember rfl
  have hk : k ∈ I.newEtcdNodes := by
    rw [hsplit']
    exact List.mem_append_right _ List.mem_cons_self
  have hh : h ∈ I.newEtcdNodes := by
    rw [hsplit]
    exact List.mem_append_right _ List.mem_cons_self
  obtain rfl := peerURL_inj (mem_etcdCluster hh) (mem_etcdCluster hk) hurl
  have hnodup : (before ++ h :: after).Nodup := hsplit ▸ nodup_newEtcdNodes
  obtain ⟨-, hright, hdisjoint⟩ := List.nodup_append.mp hnodup
  have hleft : h ∉ before := fun hmem => hdisjoint h hmem h List.mem_cons_self rfl
  have hbefore := (List.append_cons_inj_of_notMem hleft (List.nodup_cons.mp hright).1).mp
    (hsplit.symm.trans hsplit')
  exact hjoined g (hbefore.1 ▸ hg)

/-- When the node at work is added, all other members have started. -/
theorem started_of_add (horderly : Orderly I n s) (htodo : s.todo = h :: rest)
    (hnew : ∀ m ∈ s.members, m.peerURL ≠ I.peerURL h) {m : Member} (hm : m ∈ s.members) :
    m.name ≠ none := by
  intro hnone
  obtain ⟨g, hurl, hturn⟩ := horderly.waiting m hm hnone
  obtain ⟨done, hdone, hjoined⟩ := horderly.behind (by rw [htodo]; exact List.cons_ne_nil _ _)
  rw [htodo] at hdone
  have hg : ¬ s.Joined I g := not_joined horderly.unique hm hnone hurl
  have hh : ¬ s.Joined I h := by
    rintro ⟨m', hm', hurl', -⟩
    exact hnew m' hm' hurl'
  obtain rfl := turn_unique hturn ⟨done, rest, hdone, hjoined⟩ hg hh
  exact hnew m hm hurl

variable [DecidableEq η]

theorem perform_nodes (hne : g ≠ h) : (perform I line t h s o).1.nodes g = s.nodes g := by
  cases t
  case memberAdd =>
    rw [perform]
    (repeat' split) <;> rfl
  case applyParams | emptyData =>
    rw [perform]
    cases s.added with
    | none => rfl
    | some lines =>
      dsimp only
      (repeat' split) <;> first | exact Etcd.setNode_of_ne hne | rfl
  case startService =>
    rw [perform]
    dsimp only
    split
    · exact Etcd.setNode_of_ne hne
    · rfl
  all_goals rfl

theorem perform_known (hh : h ∈ I.newEtcdNodes) (hknown : ∀ m ∈ s.members, Known I members₀ m) :
    ∀ m ∈ (perform I line t h s o).1.members, Known I members₀ m := by
  intro m hm
  rcases perform_members I line t h s o with
    hsame | ⟨-, -, -, hadd, -⟩
  · rw [hsame] at hm
    exact hknown m hm
  · rw [hadd] at hm
    rcases List.mem_cons.mp ((insertAt_perm _ _ _).mem_iff.mp hm) with rfl | hm
    · exact Or.inr ⟨h, hh, Or.inl rfl⟩
    · exact hknown m hm

theorem perform_member {url : Text} (hm : ∃ m ∈ s.members, m.peerURL = url) :
    ∃ m ∈ (perform I line t h s o).1.members, m.peerURL = url := by
  obtain ⟨m, hm, hurl⟩ := hm
  rcases perform_members I line t h s o with
    hsame | ⟨-, -, -, hadd, -⟩
  · exact ⟨m, hsame ▸ hm, hurl⟩
  · refine ⟨m, ?_, hurl⟩
    rw [hadd]
    exact (insertAt_perm _ _ _).mem_iff.mpr (List.mem_cons_of_mem _ hm)

/-- The service of the node runs only after the task that starts it. -/
theorem perform_running (hrunning : ((perform I line t h s o).1.nodes h).running = true) :
    (s.nodes h).running = true ∨ t = .startService := by
  cases t
  case startService => exact Or.inr rfl
  case memberAdd =>
    rw [perform] at hrunning
    left
    revert hrunning
    (repeat' split) <;> exact id
  case applyParams | emptyData =>
    rw [perform] at hrunning
    left
    cases hadded : s.added with
    | none =>
      rw [hadded] at hrunning
      exact hrunning
    | some lines =>
      rw [hadded] at hrunning
      dsimp only at hrunning
      revert hrunning
      first
        | rw [Etcd.setNode_self]
          exact id
        | split
          · rw [Etcd.setNode_self]
            exact id
          · exact id
  all_goals exact Or.inl hrunning

/-- The settings of the node keep its name. -/
theorem perform_named (hwork : Work I s h t) (hnamed : Named I s h) :
    Named I (perform I line t h s o).1 h := by
  cases t
  case applyParams =>
    rw [perform]
    cases hadded : s.added with
    | none => exact hnamed
    | some lines =>
      rw [Named, Etcd.setNode_self, (hwork.2 lines hadded).1.lines]
      exact setting_applied_name hnamed
  case memberAdd =>
    rw [perform]
    (repeat' split) <;> exact hnamed
  case emptyData =>
    rw [perform]
    cases s.added with
    | none => exact hnamed
    | some lines =>
      dsimp only
      split
      · rw [Named, Etcd.setNode_self]
        exact hnamed
      · exact hnamed
  case startService =>
    rw [perform]
    dsimp only
    split
    · rw [Named, Etcd.setNode_self]
      exact hnamed
    · exact hnamed
  all_goals exact hnamed

theorem made_of_ok (hok : o.ok = true) (i : ℕ) : o.made i = true := by
  rw [Outcome.made, hok, Bool.true_or]

/-- The addition succeeds where the node is listed, or where it is new to etcd. -/
theorem memberAdd_cases (hok : (perform I line .memberAdd h s o).2 = true) :
    (I.ansibleHostname h <:+: s.listed ∧
      (perform I line .memberAdd h s o).1 = { s with added := none }) ∨
    ((∀ m ∈ s.members, m.peerURL ≠ I.peerURL h) ∧
      (perform I line .memberAdd h s o).1 =
        { s with
          members := insertAt o.place ⟨I.peerURL h, none⟩ s.members
          added := some (memberAddOutput I h
            (insertAt o.place ⟨I.peerURL h, none⟩ s.members)) }) := by
  rw [perform] at hok ⊢
  split
  · rename_i hlisted
    exact Or.inl ⟨hlisted, rfl⟩
  · rename_i hlisted
    rw [if_neg hlisted] at hok
    split
    · rename_i hmember
      rw [if_pos hmember] at hok
      cases hok
    · rename_i hnew
      rw [if_neg hnew] at hok
      split
      · exact Or.inr ⟨fun m hm hurl => hnew ⟨m, hm, hurl⟩, rfl⟩
      · rename_i hmade
        rw [if_neg hmade] at hok
        exact absurd (made_of_ok hok 0) hmade

/-- A task that succeeds leaves everything ready for the next one. -/
theorem perform_work {u : JoinTask} (hplain : Plain I line members₀)
    (hnames : ∀ m ∈ members₀, m.name ≠ some (I.ansibleHostname h)) (hh : h ∈ I.newEtcdNodes)
    (hs : Steady I members₀ s) (horderly : Orderly I n s) (htodo : s.todo = h :: rest)
    (hwork : Work I s h t) (hok : (perform I line t h s o).2 = true) (hnext : t.next = some u) :
    Work I (perform I line t h s o).1 h u := by
  cases t <;> cases hnext
  case memberList =>
    exact ⟨hwork, fun hlisted => joined_of_listed hplain hnames hh hs.known hlisted⟩
  case memberAdd =>
    rcases memberAdd_cases hok with ⟨hlisted, hskipped⟩ | ⟨hnew, hadded⟩
    · rw [hskipped]
      exact ⟨fun _ => hwork.2 hlisted, fun lines hlines => absurd hlines.symm (by simp)⟩
    · rw [hadded]
      refine ⟨fun hnone => absurd hnone (by simp), fun lines hlines => ?_⟩
      obtain rfl := Option.some.inj hlines
      have hperm := insertAt_perm o.place ⟨I.peerURL h, none⟩ s.members
      refine ⟨⟨rfl, ?_, ?_⟩, hwork.1, ?_⟩
      · exact ⟨_, hperm.mem_iff.mpr List.mem_cons_self, rfl⟩
      · intro m hm hnone
        rcases List.mem_cons.mp (hperm.mem_iff.mp hm) with rfl | hm
        · rfl
        · exact absurd hnone (started_of_add horderly htodo hnew hm)
      · refine Bool.eq_false_iff.mpr fun hrunning => ?_
        obtain ⟨-, m, hm, hurl⟩ := hs.running h hh hrunning
        exact hnew m hm hurl
  case applyParams =>
    rw [perform] at hok ⊢
    cases hadded : s.added with
    | none =>
      exact ⟨fun _ => hwork.1 hadded, fun lines hlines =>
        absurd (hadded.symm.trans hlines) (by simp)⟩
    | some lines =>
      rw [hadded] at hok
      refine ⟨fun hnone => absurd (hadded.symm.trans hnone) (by simp), ?_⟩
      intro lines' hlines
      obtain rfl := Option.some.inj (hadded.symm.trans hlines)
      obtain ⟨hafter, hconf, hrunning⟩ := hwork.2 lines hadded
      refine ⟨hafter.congr rfl, ?_, ?_⟩
      · dsimp only
        rw [Etcd.setNode_self, applied_all (made_of_ok hok), hconf]
        rfl
      · dsimp only
        rw [Etcd.setNode_self]
        exact hrunning
  case emptyData =>
    rw [perform] at hok ⊢
    cases hadded : s.added with
    | none =>
      exact ⟨fun _ => hwork.1 hadded, fun lines hlines =>
        absurd (hadded.symm.trans hlines) (by simp)⟩
    | some lines =>
      rw [hadded] at hok
      dsimp only
      rw [if_pos (made_of_ok hok 0)]
      refine ⟨fun hnone => absurd (hadded.symm.trans hnone) (by simp), ?_⟩
      intro lines' hlines
      obtain rfl := Option.some.inj (hadded.symm.trans hlines)
      obtain ⟨hafter, hconf, hrunning⟩ := hwork.2 lines hadded
      refine ⟨hafter.congr rfl, ?_, ?_, ?_⟩
      · rw [Etcd.setNode_self]
        exact hconf
      · rw [Etcd.setNode_self]
        exact hrunning
      · rw [Etcd.setNode_self]
  case startService =>
    have hok : o.ok = true := hok
    rw [perform]
    dsimp only
    rw [if_pos (made_of_ok hok 0)]
    refine ⟨hwork.1, fun lines hlines => ?_⟩
    obtain ⟨hafter, hconf, -, -⟩ := hwork.2 lines hlines
    refine ⟨hafter.congr rfl, ?_⟩
    rw [Prepared, Etcd.setNode_self]
    exact hconf
  case awaitReady =>
    have hjoined : s.Joined I h := of_decide_eq_true (Bool.and_eq_true_iff.mp hok).2
    exact ⟨hwork.1, fun lines hlines => ⟨(hwork.2 lines hlines).1, hjoined⟩⟩
  case waitPort => exact hwork

/-- No task takes away what etcd has written. -/
theorem perform_data (hwork : Work I s h t)
    (hdata : (s.nodes h).running = true ∧ (s.nodes h).data = true) :
    ((perform I line t h s o).1.nodes h).running = true ∧
      ((perform I line t h s o).1.nodes h).data = true := by
  cases t
  case memberAdd =>
    rw [perform]
    (repeat' split) <;> exact hdata
  case applyParams =>
    rw [perform]
    cases s.added with
    | none => exact hdata
    | some lines =>
      dsimp only
      rw [Etcd.setNode_self]
      exact hdata
  case emptyData =>
    rw [perform]
    cases hadded : s.added with
    | none => exact hdata
    | some lines =>
      obtain ⟨-, -, hidle⟩ := hwork.2 lines hadded
      exact absurd (hidle.symm.trans hdata.1) (by simp)
  case startService =>
    rw [perform]
    dsimp only
    split
    · rw [Etcd.setNode_self]
      exact ⟨rfl, hdata.2⟩
    · exact hdata
  all_goals exact hdata

/-- No new node has the name of a member that was there before. -/
def Unnamed (I : Inventory η) (members₀ : List Member) : Prop :=
  ∀ h ∈ I.newEtcdNodes, ∀ m ∈ members₀, m.name ≠ some (I.ansibleHostname h)

theorem steady_task (hplain : Plain I line members₀) (hnames : Unnamed I members₀)
    (hs : Steady I members₀ s) (horderly : Orderly I n s) (htodo : s.todo = h :: rest)
    (o : Outcome) : Steady I members₀ (act I line s (.task o)) := by
  have hne : s.todo ≠ [] := by
    rw [htodo]
    exact List.cons_ne_nil _ _
  obtain ⟨done, hdone, -⟩ := horderly.behind hne
  rw [htodo] at hdone
  have hh : h ∈ I.newEtcdNodes := by
    rw [hdone]
    exact List.mem_append_right _ List.mem_cons_self
  have hrest : ∀ g ∈ rest, g ≠ h := by
    have hnodup : (done ++ h :: rest).Nodup := hdone ▸ nodup_newEtcdNodes
    rintro g hg rfl
    exact (List.nodup_cons.mp hnodup.of_append_right).1 hg
  obtain ⟨hconf, hwork⟩ := hs.work h rest htodo
  have hnamed : ∀ g ∈ I.newEtcdNodes, Named I (perform I line s.task h s o).1 g := by
    intro g hg
    by_cases hgh : g = h
    · rw [hgh]
      exact perform_named hwork (hs.named hne h hh)
    · rw [Named, perform_nodes hgh]
      exact hs.named hne g hg
  have hknown : ∀ m ∈ (perform I line s.task h s o).1.members, Known I members₀ m :=
    perform_known hh hs.known
  have hrunning : ∀ g ∈ I.newEtcdNodes, ((perform I line s.task h s o).1.nodes g).running = true →
      Named I (perform I line s.task h s o).1 g ∧
        ∃ m ∈ (perform I line s.task h s o).1.members, m.peerURL = I.peerURL g := by
    intro g hg hrun
    refine ⟨hnamed g hg, perform_member ?_⟩
    by_cases hgh : g = h
    · subst hgh
      rcases perform_running hrun with hbefore | hstart
      · exact (hs.running g hg hbefore).2
      · refine member_of_work hwork ?_
        rw [hstart]
        exact ⟨by decide, by decide⟩
    · rw [perform_nodes hgh] at hrun
      exact (hs.running g hg hrun).2
  have hconf' : ∀ g ∈ rest, ((perform I line s.task h s o).1.nodes g).conf = template I g := by
    intro g hg
    rw [perform_nodes (hrest g hg)]
    exact hconf g hg
  rw [act, htodo]
  dsimp only
  split
  · exact ⟨hknown, hrunning, fun hnil => absurd rfl hnil, fun g rest' hnil => by cases hnil⟩
  · rename_i t hok hnext
    refine ⟨hknown, hrunning, fun _ => hnamed, fun g rest' htodo' => ?_⟩
    have hkeeps : (perform I line s.task h s o).1.todo = s.todo := perform_todo
    obtain ⟨rfl, rfl⟩ := List.cons.inj (htodo.symm.trans (hkeeps.symm.trans htodo'))
    have hnextWork := perform_work hplain (hnames h hh) hh hs horderly htodo hwork hok hnext
    exact ⟨hconf', work_frame _ _ hnextWork⟩
  · refine ⟨hknown, hrunning, fun _ => hnamed, fun g rest' htodo' => ?_⟩
    have htodo' : rest = g :: rest' := htodo'
    rw [htodo'] at hconf'
    exact ⟨fun k hk => hconf' k (List.mem_cons_of_mem _ hk), hconf' g List.mem_cons_self⟩

theorem steady_attempt (hs : Steady I members₀ s) (ok : Bool) (written : η → Bool) :
    Steady I members₀ (act I line s (.attempt ok written)) := by
  rw [act]
  split
  · constructor
    · exact hs.known
    · intro g hg hrunning
      have hbefore : (s.nodes g).running = true := by
        dsimp only at hrunning
        split at hrunning <;> exact hrunning
      refine ⟨?_, (hs.running g hg hbefore).2⟩
      rw [Named]
      dsimp only
      split
      · exact setting_template_name g
      · exact (hs.running g hg hbefore).1
    · intro hne g hg
      cases ok with
      | false => exact absurd rfl hne
      | true =>
        rw [Named]
        dsimp only
        rw [if_pos ⟨mem_etcdCluster hg, Bool.true_or _⟩]
        exact setting_template_name g
    · intro h rest htodo
      cases ok with
      | false => cases htodo
      | true =>
        have hall : ∀ g ∈ h :: rest, (if g ∈ I.etcdCluster ∧ (true || written g) = true then
            { s.nodes g with conf := template I g } else s.nodes g).conf = template I g := by
          intro g hg
          have hmem : g ∈ I.newEtcdNodes := by
            have htodo : I.newEtcdNodes = h :: rest := htodo
            rw [htodo]
            exact hg
          rw [if_pos ⟨mem_etcdCluster hmem, Bool.true_or _⟩]
        exact ⟨fun g hg => hall g (List.mem_cons_of_mem _ hg), hall h List.mem_cons_self⟩
  · exact hs

/-- What etcd writes to its data directory changes nothing of the work. -/
theorem work_write (k : η) (hrunning : (s.nodes h).running = true) (hwork : Work I s k t) :
    Work I (s.write h) k t := by
  cases t
  case memberList => exact Etcd.write_conf.trans hwork
  case memberAdd => exact ⟨Etcd.write_conf.trans hwork.1, hwork.2⟩
  all_goals
    refine ⟨hwork.1, fun lines hlines => ?_⟩
    obtain ⟨hadded, hprepared⟩ := hwork.2 lines hlines
    refine ⟨hadded.congr rfl, ?_⟩
  case applyParams =>
    exact ⟨Etcd.write_conf.trans hprepared.1, Etcd.write_running.trans hprepared.2⟩
  case emptyData =>
    exact ⟨Etcd.write_conf.trans hprepared.1, Etcd.write_running.trans hprepared.2⟩
  case startService =>
    obtain ⟨hconf, hidle, hdata⟩ := hprepared
    have hkh : k ≠ h := by
      rintro rfl
      exact absurd (hidle.symm.trans hrunning) (by simp)
    refine ⟨Etcd.write_conf.trans hconf, Etcd.write_running.trans hidle, ?_⟩
    rw [Etcd.write, Etcd.setNode_of_ne hkh]
    exact hdata
  case awaitReady => exact Etcd.write_conf.trans hprepared
  all_goals exact hprepared

omit [DecidableEq η] in
/-- A node that joins changes nothing of the work for another one. -/
theorem work_naming {k : η} {name : Text} (hh : h ∈ I.newEtcdNodes) (hk : k ∈ I.newEtcdNodes)
    (hmember : ⟨I.peerURL h, none⟩ ∈ s.members) (hwork : Work I s k t) :
    Work I { s with members := s.members.map (naming I h name) } k t := by
  have hjoined : s.Joined I k →
      Etcd.Joined { s with members := s.members.map (naming I h name) } I k :=
    fun hk => joined_of_naming rfl hk
  cases t
  case memberList => exact hwork
  case memberAdd => exact ⟨hwork.1, fun hlisted => hjoined (hwork.2 hlisted)⟩
  all_goals
    refine ⟨fun hnone => hjoined (hwork.1 hnone), fun lines hlines => ?_⟩
    obtain ⟨hadded, hprepared⟩ := hwork.2 lines hlines
    have hkh : k = h := (peerURL_inj (mem_etcdCluster hh) (mem_etcdCluster hk)
      (hadded.others _ hmember rfl)).symm
    subst hkh
    refine ⟨hadded.named rfl, ?_⟩
  case waitPort | waitHealthy => exact hjoined hprepared
  all_goals exact hprepared

theorem steady_write (hs : Steady I members₀ s) (hrunning : (s.nodes h).running = true) :
    Steady I members₀ (s.write h) := by
  constructor
  · exact hs.known
  · intro g hg hrun
    obtain ⟨hnamed, hmember⟩ := hs.running g hg (Etcd.write_running.symm.trans hrun)
    refine ⟨?_, hmember⟩
    rw [Named, Etcd.write_conf]
    exact hnamed
  · intro hne g hg
    rw [Named, Etcd.write_conf]
    exact hs.named hne g hg
  · intro k rest htodo
    obtain ⟨hconf, hwork⟩ := hs.work k rest htodo
    exact ⟨fun g hg => Etcd.write_conf.trans (hconf g hg), work_write k hrunning hwork⟩

omit [DecidableEq η] in
theorem steady_naming (hs : Steady I members₀ s) (horderly : Orderly I n s)
    (hh : h ∈ I.newEtcdNodes) (hmember : ⟨I.peerURL h, none⟩ ∈ s.members) :
    Steady I members₀
      { s with members := s.members.map (naming I h (I.ansibleHostname h)) } := by
  constructor
  · intro m hm
    obtain ⟨m', hm', rfl⟩ := List.mem_map.mp hm
    rw [naming]
    split
    · exact Or.inr ⟨h, hh, Or.inr rfl⟩
    · exact hs.known m' hm'
  · intro g hg hrun
    obtain ⟨hnamed, m, hm, hurl⟩ := hs.running g hg hrun
    exact ⟨hnamed, _, List.mem_map_of_mem hm, (naming_peerURL _ m).trans hurl⟩
  · exact hs.named
  · intro k rest htodo
    obtain ⟨hconf, hwork⟩ := hs.work k rest htodo
    have htodo : s.todo = k :: rest := htodo
    have hk : k ∈ I.newEtcdNodes := by
      obtain ⟨done, hdone, -⟩ := horderly.behind (by rw [htodo]; exact List.cons_ne_nil _ _)
      rw [hdone, htodo]
      exact List.mem_append_right _ List.mem_cons_self
    exact ⟨hconf, work_naming hh hk hmember hwork⟩

theorem steady_join (hs : Steady I members₀ s) (horderly : Orderly I n s) (h : η) :
    Steady I members₀ (act I line s (.join h)) := by
  rw [act]
  split
  · rename_i hjoin
    obtain ⟨hh, hrunning, hmember⟩ := hjoin
    have hname : (setting "ETCD_NAME" (s.nodes h).conf).getD [] = I.ansibleHostname h := by
      rw [(hs.running h hh hrunning).1]
      rfl
    rw [hname]
    exact steady_naming (s := s.write h) (steady_write hs hrunning)
      (orderly_same horderly rfl horderly.behind) hh hmember
  · exact hs

end Tasks

/-! ## The runs -/

section Runs

variable [DecidableEq η] {n : ℕ} {rest : List η}

/-- The two invariants hold together. -/
structure Sound (I : Inventory η) (members₀ : List Member) (s : Etcd η) : Prop where
  orderly : Orderly I members₀.length s
  steady : Steady I members₀ s

theorem sound_act (hplain : Plain I line members₀) (hnames : Unnamed I members₀)
    (hs : Sound I members₀ s) (a : Act η) : Sound I members₀ (act I line s a) := by
  refine ⟨orderly_act hs.orderly a, ?_⟩
  cases a with
  | attempt ok written => exact steady_attempt hs.steady ok written
  | task o =>
    cases htodo : s.todo with
    | nil =>
      rw [act, htodo]
      exact hs.steady
    | cons h rest => exact steady_task hplain hnames hs.steady hs.orderly htodo o
  | write h =>
    rw [act]
    split
    · exact steady_write hs.steady ‹_›
    · exact hs.steady
  | join h => exact steady_join hs.steady hs.orderly h

theorem sound_run (hplain : Plain I line s.members) (hs : Fresh I s) (as : List (Act η)) :
    Sound I s.members (run (act I line) s as) := by
  refine run_of (I := Sound I s.members) (fun _ a h => sound_act hplain hs.names h a) ?_ as
  refine ⟨orderly_settled hs.settled, ?_⟩
  constructor
  · exact fun m hm => Or.inl hm
  · intro h hh hrunning
    exact absurd ((hs.idle h hh).symm.trans hrunning) (by simp)
  · intro hne
    exact absurd hs.settled.todo hne
  · intro h rest htodo
    rw [hs.settled.todo] at htodo
    cases htodo

/-- etcd.conf is the template with the members that etcd has, all of which have started but the
node. -/
structure Configured (I : Inventory η) (s : Etcd η) (h : η) : Prop where
  member : ∃ m ∈ s.members, m.peerURL = I.peerURL h
  others : ∀ m ∈ s.members, m.name = none → m.peerURL = I.peerURL h
  name : setting "ETCD_NAME" (s.nodes h).conf = some (I.ansibleHostname h)
  cluster : setting "ETCD_INITIAL_CLUSTER" (s.nodes h).conf = some (clusterWith I h s.members)
  state : setting "ETCD_INITIAL_CLUSTER_STATE" (s.nodes h).conf = some "existing".toList
  rest : ∀ k, k ≠ "ETCD_INITIAL_CLUSTER" → k ≠ "ETCD_INITIAL_CLUSTER_STATE" →
    setting k (s.nodes h).conf = setting k (template I h)

/-- Nothing runs on the node yet, and its data directory is empty. -/
structure Ready (I : Inventory η) (s : Etcd η) (h : η) : Prop extends Configured I s h where
  idle : (s.nodes h).running = false
  data : (s.nodes h).data = false

omit [DecidableEq η] in
theorem configured_of_added {lines : List (String × Text)} (hadded : Added I s h lines)
    (hconf : (s.nodes h).conf = edited I h lines) : Configured I s h := by
  obtain ⟨rfl, hmember, hothers⟩ := hadded
  constructor
  · exact hmember
  · exact hothers
  · rw [hconf, setting_edited, if_neg (by decide), if_neg (by decide)]
    exact setting_template_name h
  · rw [hconf, setting_edited, if_pos rfl]
  · rw [hconf, setting_edited, if_neg (by decide), if_pos rfl]
  · intro k hcluster hstate
    rw [hconf, setting_edited, if_neg hcluster, if_neg hstate]

/-- When the service is started on a node, the node has joined or is ready to. It stays configured
until it has joined, and only then the play goes on. -/
theorem started_ready (hplain : Plain I line s.members) (hs : Fresh I s) (as : List (Act η))
    (htodo : (run (act I line) s as).todo = h :: rest) :
    ((run (act I line) s as).task = .startService →
      (run (act I line) s as).Joined I h ∨ Ready I (run (act I line) s as) h) ∧
    ((run (act I line) s as).task = .awaitReady →
      (run (act I line) s as).Joined I h ∨ Configured I (run (act I line) s as) h) ∧
    ((run (act I line) s as).task = .waitPort ∨ (run (act I line) s as).task = .waitHealthy →
      (run (act I line) s as).Joined I h) := by
  obtain ⟨-, hwork⟩ := (sound_run hplain hs as).steady.work h rest htodo
  generalize run (act I line) s as = s' at hwork ⊢
  refine ⟨fun htask => ?_, fun htask => ?_, fun htask => ?_⟩
  · rw [htask] at hwork
    cases hadded : s'.added with
    | none => exact Or.inl (hwork.1 hadded)
    | some lines =>
      obtain ⟨hafter, hconf, hidle, hdata⟩ := hwork.2 lines hadded
      exact Or.inr ⟨configured_of_added hafter hconf, hidle, hdata⟩
  · rw [htask] at hwork
    cases hadded : s'.added with
    | none => exact Or.inl (hwork.1 hadded)
    | some lines =>
      obtain ⟨hafter, hconf⟩ := hwork.2 lines hadded
      exact Or.inr (configured_of_added hafter hconf)
  · rcases htask with htask | htask <;> rw [htask] at hwork
    all_goals
      cases hadded : s'.added with
      | none => exact hwork.1 hadded
      | some lines => exact (hwork.2 lines hadded).2

/-- The data directory of a node is made empty only before the service is started there. -/
theorem data_act (hs : Sound I members₀ s) (hdata : (s.nodes h).running = true ∧
    (s.nodes h).data = true) (a : Act η) : ((act I line s a).nodes h).running = true ∧
    ((act I line s a).nodes h).data = true := by
  have hwrite : ∀ k, ((s.write k).nodes h).running = true ∧ ((s.write k).nodes h).data = true := by
    intro k
    refine ⟨Etcd.write_running.trans hdata.1, ?_⟩
    by_cases hk : h = k
    · rw [hk, Etcd.write_self]
    · rw [Etcd.write, Etcd.setNode_of_ne hk]
      exact hdata.2
  cases a with
  | attempt ok written =>
    rw [act]
    split
    · dsimp only
      split <;> exact hdata
    · exact hdata
  | task o =>
    cases htodo : s.todo with
    | nil =>
      rw [act, htodo]
      exact hdata
    | cons k rest =>
      have hnodes : (act I line s (.task o)).nodes = (perform I line s.task k s o).1.nodes := by
        rw [act, htodo]
        dsimp only
        split <;> rfl
      rw [hnodes]
      by_cases hk : h = k
      · subst hk
        exact perform_data (hs.steady.work h rest htodo).2 hdata
      · rw [perform_nodes hk]
        exact hdata
  | write k =>
    rw [act]
    split
    · exact hwrite k
    · exact hdata
  | join k =>
    rw [act]
    split
    · exact hwrite k
    · exact hdata

/-- What etcd has written on a node once it was started there is never deleted. -/
theorem data_kept (hplain : Plain I line s.members) (hs : Fresh I s) (as bs : List (Act η))
    (hrunning : ((run (act I line) s as).nodes h).running = true)
    (hdata : ((run (act I line) s as).nodes h).data = true) :
    ((run (act I line) s (as ++ bs)).nodes h).data = true := by
  rw [run_append]
  have hkept := run_of (I := fun t : Etcd η => Sound I s.members t ∧
    (t.nodes h).running = true ∧ (t.nodes h).data = true)
    (fun t a ht => ⟨sound_act hplain hs.names ht.1 a, data_act ht.1 ht.2 a⟩)
    ⟨sound_run hplain hs as, hrunning, hdata⟩ bs
  exact hkept.2.2

/-- A node is a member but was not started, and no task is left that would start it. -/
structure Halted (I : Inventory η) (members : List Member) (h : η) (s : Etcd η) : Prop where
  members : s.members = members
  idle : (s.nodes h).running = false
  todo : s.todo = [] ∨ ∃ before after, s.todo = before ++ h :: after ∧
    (before = [] → s.task = .memberList ∨ s.task = .memberAdd)

/-- A member is not added again. -/
theorem perform_refused {t : JoinTask} {o : Outcome}
    (hmember : ∃ m ∈ s.members, m.peerURL = I.peerURL g) :
    (perform I line t g s o).1.members = s.members := by
  rcases perform_members I line t g s o with
    hsame | ⟨-, hnew, -⟩
  · exact hsame
  · obtain ⟨m, hm, hurl⟩ := hmember
    exact absurd hurl (hnew m hm)

theorem halted_task {members : List Member} (hs : Sound I members₀ s)
    (hmember : ⟨I.peerURL h, none⟩ ∈ s.members) (hhalted : Halted I members h s) (o : Outcome) :
    Halted I members h (act I line s (.task o)) := by
  have hnot : ¬ s.Joined I h := not_joined hs.orderly.unique hmember rfl rfl
  obtain ⟨hmembers, hidle, hnil | ⟨before, after, htodo, hfirst⟩⟩ := hhalted
  · rw [act, hnil]
    exact ⟨hmembers, hidle, Or.inl hnil⟩
  · cases before with
    | nil =>
      have htodo : s.todo = h :: after := htodo
      obtain ⟨-, hwork⟩ := hs.steady.work h after htodo
      rw [act, htodo]
      rcases hfirst rfl with htask | htask
      · rw [htask]
        dsimp only [perform, JoinTask.next]
        split
        · exact ⟨hmembers, hidle, Or.inl rfl⟩
        · rename_i hnext
          obtain rfl := Option.some.inj hnext
          exact ⟨hmembers, hidle, Or.inr ⟨[], after, htodo, fun _ => Or.inr rfl⟩⟩
        · contradiction
      · rw [htask] at hwork
        have hrefused : perform I line s.task h s o = (s, false) := by
          rw [htask, perform, if_neg fun hlisted => hnot (hwork.2 hlisted),
            if_pos ⟨_, hmember, rfl⟩]
        dsimp only
        rw [hrefused]
        exact ⟨hmembers, hidle, Or.inl rfl⟩
    | cons g before =>
      have htodo : s.todo = g :: (before ++ h :: after) := htodo
      obtain ⟨done, hdone, -⟩ := hs.orderly.behind (by rw [htodo]; exact List.cons_ne_nil _ _)
      rw [htodo] at hdone
      have hsplit : I.newEtcdNodes = (done ++ g :: before) ++ h :: after := by
        rw [hdone, List.append_assoc]
        rfl
      have hg : s.Joined I g := joined_ahead hs.orderly hmember hsplit
        (List.mem_append_right _ List.mem_cons_self)
      have hne : h ≠ g := by
        rintro rfl
        exact hnot hg
      obtain ⟨m, hm, hurl, -⟩ := hg
      have hsame : (perform I line s.task g s o).1.members = s.members :=
        perform_refused ⟨m, hm, hurl⟩
      have hidle' : ((perform I line s.task g s o).1.nodes h).running = false := by
        rw [perform_nodes hne]
        exact hidle
      rw [act, htodo]
      dsimp only
      split
      · exact ⟨hsame.trans hmembers, hidle', Or.inl rfl⟩
      · have hkeeps : (perform I line s.task g s o).1.todo = s.todo := perform_todo
        refine ⟨hsame.trans hmembers, hidle', Or.inr ⟨g :: before, after, ?_, ?_⟩⟩
        · exact hkeeps.trans htodo
        · intro hnil
          cases hnil
      · exact ⟨hsame.trans hmembers, hidle', Or.inr ⟨before, after, rfl, fun _ => Or.inl rfl⟩⟩

theorem halted_act {members : List Member} (hs : Sound I members₀ s)
    (hmember : ⟨I.peerURL h, none⟩ ∈ s.members) (hh : h ∈ I.newEtcdNodes)
    (hhalted : Halted I members h s) (a : Act η) : Halted I members h (act I line s a) := by
  cases a with
  | attempt ok written =>
    rw [act]
    split
    · refine ⟨hhalted.members, ?_, ?_⟩
      · dsimp only
        split <;> exact hhalted.idle
      · cases ok with
        | false => exact Or.inl rfl
        | true =>
          obtain ⟨before, after, hsplit⟩ := List.append_of_mem hh
          exact Or.inr ⟨before, after, hsplit, fun _ => Or.inl rfl⟩
    · exact hhalted
  | task o => exact halted_task hs hmember hhalted o
  | write k =>
    rw [act]
    split
    · exact ⟨hhalted.members, Etcd.write_running.trans hhalted.idle, hhalted.todo⟩
    · exact hhalted
  | join k =>
    rw [act, if_neg]
    · exact hhalted
    · rintro ⟨hk, hrunning, hunnamed⟩
      have hsame := unstarted_unique hs.orderly hunnamed hmember rfl rfl
      have hkh : k = h := peerURL_inj (mem_etcdCluster hk) (mem_etcdCluster hh)
        (congrArg Member.peerURL hsame)
      rw [hkh] at hrunning
      exact absurd (hhalted.idle.symm.trans hrunning) (by simp)

/-- A node that was added and is not started before the play stops is never started by the play,
however often it is run again, and no other node is added any more. -/
theorem never_repaired (hplain : Plain I line s.members) (hs : Fresh I s) (as bs : List (Act η))
    (hh : h ∈ I.newEtcdNodes) (htodo : (run (act I line) s as).todo = [])
    (hmember : ⟨I.peerURL h, none⟩ ∈ (run (act I line) s as).members)
    (hidle : ((run (act I line) s as).nodes h).running = false) :
    (run (act I line) s (as ++ bs)).members = (run (act I line) s as).members ∧
      ((run (act I line) s (as ++ bs)).nodes h).running = false := by
  rw [run_append]
  have hhalted := run_of (I := fun t : Etcd η => Sound I s.members t ∧
    Halted I (run (act I line) s as).members h t)
    (fun t a ht => ⟨sound_act hplain hs.names ht.1 a,
      halted_act ht.1 (ht.2.members ▸ hmember) hh ht.2 a⟩)
    ⟨sound_run hplain hs as, rfl, hidle, Or.inl htodo⟩ bs
  exact ⟨hhalted.2.members, hhalted.2.idle⟩

/-! ## Two new nodes -/

theorem plain_four_nodes : Plain fourNodes listLine running.members := by
  have hall : ∀ h ∈ fourNodes.newEtcdNodes, ∀ m ∈ running.members ++
      fourNodes.newEtcdNodes.flatMap fun h => [⟨fourNodes.peerURL h, none⟩,
        ⟨fourNodes.peerURL h, some (fourNodes.ansibleHostname h)⟩],
      fourNodes.ansibleHostname h <:+: listLine m →
        m.name = some (fourNodes.ansibleHostname h) := by decide +kernel
  constructor
  · decide +kernel
  · rintro h hh m (hm | ⟨g, hg, hm⟩)
    · exact hall h hh m (List.mem_append_left _ hm)
    · refine hall h hh m (List.mem_append_right _ (List.mem_flatMap.mpr ⟨g, hg, ?_⟩))
      rcases hm with rfl | rfl
      · exact List.mem_cons_self
      · exact List.mem_cons_of_mem _ List.mem_cons_self

theorem fresh_four_nodes : Fresh fourNodes running :=
  ⟨⟨by decide, by decide, rfl⟩, by decide +kernel, by decide +kernel, by decide +kernel⟩

theorem started_ready_four_nodes :
    let s := run (act fourNodes listLine) running (attempt :: List.replicate 4 success)
    let s' := run (act fourNodes listLine) running
      (attempt :: List.replicate 5 success ++ [.write 2])
    (s.task = .startService ∧ (s.Joined fourNodes 2 ∨ Ready fourNodes s 2)) ∧
      s'.task = .awaitReady ∧ (s'.nodes 2).data = true ∧
      (s'.Joined fourNodes 2 ∨ Configured fourNodes s' 2) := by
  have hstart : (run (act fourNodes listLine) running
      (attempt :: List.replicate 4 success)).todo = 2 :: [3] := by decide +kernel
  have hawait : (run (act fourNodes listLine) running
      (attempt :: List.replicate 5 success ++ [.write 2])).todo = 2 :: [3] := by decide +kernel
  refine ⟨⟨by decide +kernel, ?_⟩, by decide +kernel, by decide +kernel, ?_⟩
  · exact (started_ready plain_four_nodes fresh_four_nodes _ hstart).1 (by decide +kernel)
  · exact (started_ready plain_four_nodes fresh_four_nodes _ hawait).2.1 (by decide +kernel)

/-- The first new node writes its data but does not join before the play stops. -/
def written : List (Act ℕ) := attempt :: List.replicate 5 success ++ [.write 2, failed]

/-- It joins, and the playbook is run again. -/
def again : List (Act ℕ) := .join 2 :: attempt :: List.replicate 4 success

theorem data_kept_four_nodes :
    ((run (act fourNodes listLine) running (written ++ again)).nodes 2).data = true :=
  data_kept plain_four_nodes fresh_four_nodes written again (by decide +kernel) (by decide +kernel)

theorem never_repaired_four_nodes :
    let s := run (act fourNodes listLine) running [attempt, success, success, failed]
    let s' := run (act fourNodes listLine) running
      ([attempt, success, success, failed] ++ [attempt, success, success, success])
    s'.members = s.members ∧ (s'.nodes 2).running = false :=
  never_repaired plain_four_nodes fresh_four_nodes [attempt, success, success, failed]
    [attempt, success, success, success] (by decide +kernel) (by decide +kernel)
    (by decide +kernel) (by decide +kernel)

end Runs

end EtcdMemberJoin
