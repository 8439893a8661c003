import Mathlib.Data.List.Infix
import Mathlib.Data.List.Nodup
import Autobase.TransitionRuns
import Autobase.SettingLines

/-! # Adding nodes to etcd

New nodes join a running etcd cluster one after another. Every task may fail, the playbook may be
run again, and a node that was started writes its data and may join at any later time. -/
namespace EtcdMemberAdd

open TransitionRuns SettingLines

abbrev Text := List Char

/-! ## The inventory and the cluster -/

structure Tls where
  etcdTlsDir : Text
  caCrt : Text
  serverCrt : Text
  serverKey : Text
  peerClientCertAuth : Text
  clientCertAuth : Text

structure Inventory (η : Type*) where
  etcdCluster : List η
  newNode : η → Bool
  ansibleHostname : η → Text
  etcdBindAddress : η → Text
  patroniEtcdProtocol : Text
  etcdClusterName : Text
  etcdDataDir : Text
  tls : Option Tls
  distinct : etcdCluster.Nodup
  addresses : ∀ g ∈ etcdCluster, ∀ h ∈ etcdCluster, etcdBindAddress g = etcdBindAddress h → g = h
  names : ∀ g ∈ etcdCluster, ∀ h ∈ etcdCluster, ansibleHostname g = ansibleHostname h → g = h

/-- A member has no name until its node has joined. -/
structure Member where
  peerURL : Text
  name : Option Text
  deriving DecidableEq, Repr

def Member.started (m : Member) : Bool := m.name.isSome

/-- The unit is `Type=notify`: systemd starts the process and then waits for it to be ready. -/
inductive JoinTask
  | memberList
  | memberAdd
  | applyParams
  | emptyData
  | startService
  | awaitReady
  | waitPort
  | waitHealthy
  deriving DecidableEq, Repr

def JoinTask.next : JoinTask → Option JoinTask
  | .memberList => some .memberAdd
  | .memberAdd => some .applyParams
  | .applyParams => some .emptyData
  | .emptyData => some .startService
  | .startService => some .awaitReady
  | .awaitReady => some .waitPort
  | .waitPort => some .waitHealthy
  | .waitHealthy => none

/-- etcd.conf, whether the data directory holds anything, and whether the service was started, which
systemd does again as long as it fails. -/
structure Node where
  conf : List (String × Text)
  data : Bool
  running : Bool

/-- `todo` begins with the node at work; `listed` and `added` are `etcd_member_list` and
`etcd_member_add_result`, which has no lines when the task was skipped. -/
structure Etcd (η : Type*) where
  members : List Member
  nodes : η → Node
  todo : List η
  task : JoinTask
  listed : Text
  added : Option (List (String × Text))

/-- A task that fails may have made its changes; `place` is where etcd lists a new member. -/
structure Outcome where
  ok : Bool
  took : ℕ → Bool
  place : ℕ

def Outcome.made (o : Outcome) (i : ℕ) : Bool := o.ok || o.took i

/-! ## The texts -/

namespace Inventory

variable {η : Type*} (I : Inventory η)

/-- `new_etcd_nodes` -/
def newEtcdNodes : List η := I.etcdCluster.filter I.newNode

def url (h : η) (port : String) : Text :=
  I.patroniEtcdProtocol ++ ("://".toList ++ (I.etcdBindAddress h ++ port.toList))

def peerURL (h : η) : Text := I.url h ":2380"

def clientURL (h : η) : Text := I.url h ":2379"

end Inventory

def initialCluster (nodes : List (Text × Text)) : Text :=
  List.intercalate [','] (nodes.map fun n => n.1 ++ '=' :: n.2)

def Tls.settings (t : Tls) : List (String × Text) :=
  let file (name : Text) : Text := t.etcdTlsDir ++ '/' :: name
  [("ETCD_CERT_FILE", file t.serverCrt), ("ETCD_KEY_FILE", file t.serverKey),
    ("ETCD_TRUSTED_CA_FILE", file t.caCrt), ("ETCD_PEER_CERT_FILE", file t.serverCrt),
    ("ETCD_PEER_KEY_FILE", file t.serverKey), ("ETCD_PEER_TRUSTED_CA_FILE", file t.caCrt),
    ("ETCD_PEER_CLIENT_CERT_AUTH", t.peerClientCertAuth),
    ("ETCD_CLIENT_CERT_AUTH", t.clientCertAuth), ("ETCD_TLS_MIN_VERSION", "TLS1.2".toList)]

section Model

variable {η : Type*} (I : Inventory η) (line : Member → Text)

/-- `etcd.conf.j2` -/
def template (h : η) : List (String × Text) :=
  [("ETCD_NAME", I.ansibleHostname h),
    ("ETCD_LISTEN_CLIENT_URLS", I.clientURL h ++ ',' :: (I.patroniEtcdProtocol ++
      "://127.0.0.1:2379".toList)),
    ("ETCD_ADVERTISE_CLIENT_URLS", I.clientURL h),
    ("ETCD_LISTEN_PEER_URLS", I.peerURL h),
    ("ETCD_INITIAL_ADVERTISE_PEER_URLS", I.peerURL h),
    ("ETCD_INITIAL_CLUSTER_TOKEN", I.etcdClusterName),
    ("ETCD_INITIAL_CLUSTER",
      initialCluster (I.etcdCluster.map fun g => (I.ansibleHostname g, I.peerURL g))),
    ("ETCD_INITIAL_CLUSTER_STATE", if I.newNode h then "existing".toList else "new".toList),
    ("ETCD_DATA_DIR", I.etcdDataDir),
    ("ETCD_ELECTION_TIMEOUT", "5000".toList),
    ("ETCD_HEARTBEAT_INTERVAL", "1000".toList),
    ("ETCD_INITIAL_ELECTION_TICK_ADVANCE", "false".toList),
    ("ETCD_AUTO_COMPACTION_RETENTION", "1".toList)] ++ (I.tls.map Tls.settings).getD []

/-- `etcdctl member list` -/
def memberList (members : List Member) : Text := members.flatMap fun m => line m ++ ['\n']

/-- Every member under its name, and the node that is added under its own. -/
def clusterWith (h : η) (members : List Member) : Text :=
  initialCluster (members.map fun m =>
    (if m.peerURL = I.peerURL h then I.ansibleHostname h else m.name.getD [], m.peerURL))

/-- The settings that `etcdctl member add` prints. -/
def memberAddOutput (h : η) (members : List Member) : List (String × Text) :=
  [("ETCD_NAME", I.ansibleHostname h), ("ETCD_INITIAL_CLUSTER", clusterWith I h members),
    ("ETCD_INITIAL_ADVERTISE_PEER_URLS", I.peerURL h),
    ("ETCD_INITIAL_CLUSTER_STATE", "existing".toList)]

def insertAt (n : ℕ) (m : Member) (members : List Member) : List Member :=
  members.take n ++ m :: members.drop n

def applied (made : ℕ → Bool) (lines conf : List (String × Text)) : List (String × Text) :=
  ((lines.zipIdx.filter fun l => made l.2).map Prod.fst).foldl (fun c s => lineinfile s c) conf

/-- A node that has joined gives its name. -/
def naming (h : η) (name : Text) (m : Member) : Member :=
  if m = ⟨I.peerURL h, none⟩ then ⟨I.peerURL h, some name⟩ else m

section Texts

variable {I} {g h : η}

theorem peerURL_inj (hg : g ∈ I.etcdCluster) (hh : h ∈ I.etcdCluster)
    (hurl : I.peerURL g = I.peerURL h) : g = h := by
  refine I.addresses g hg h hh ?_
  have hrest := List.append_cancel_left (List.append_cancel_left hurl)
  exact List.append_cancel_right hrest

theorem mem_newEtcdNodes : h ∈ I.newEtcdNodes ↔ h ∈ I.etcdCluster ∧ I.newNode h = true :=
  List.mem_filter

theorem nodup_newEtcdNodes : I.newEtcdNodes.Nodup := I.distinct.filter _

theorem insertAt_perm (n : ℕ) (m : Member) (members : List Member) :
    (insertAt n m members).Perm (m :: members) := by
  rw [insertAt]
  refine List.perm_middle.trans (List.Perm.cons m ?_)
  rw [List.take_append_drop]

theorem naming_peerURL (name : Text) (m : Member) :
    (naming I h name m).peerURL = m.peerURL := by
  rw [naming]
  split
  · rename_i hm
    rw [hm]
  · rfl

theorem naming_started {name : Text} (hm : m.started = true) : naming I h name m = m := by
  rw [naming, if_neg]
  rintro rfl
  cases hm

theorem naming_unnamed {name : Text} (hm : (naming I h name m).name = none) :
    naming I h name m = m := by
  rw [naming] at hm ⊢
  split at hm
  · cases hm
  · rename_i hne
    rw [if_neg hne]

end Texts

variable [DecidableEq η]

namespace Etcd

variable {I} (s : Etcd η)

def Joined (I : Inventory η) (h : η) : Prop :=
  ∃ m ∈ s.members, m.peerURL = I.peerURL h ∧ m.started = true

instance (I : Inventory η) (h : η) : Decidable (s.Joined I h) :=
  inferInstanceAs (Decidable (∃ m ∈ s.members, m.peerURL = I.peerURL h ∧ m.started = true))

def setNode (h : η) (n : Node) : Etcd η := { s with nodes := Function.update s.nodes h n }

/-- etcd writes to the data directory of a node. -/
def write (h : η) : Etcd η := s.setNode h { s.nodes h with data := true }

variable {s} {n : Node} {g h : η}

@[simp] theorem setNode_self : (s.setNode h n).nodes h = n := by
  rw [setNode]
  exact Function.update_self ..

theorem setNode_of_ne (hne : g ≠ h) : (s.setNode h n).nodes g = s.nodes g := by
  rw [setNode]
  exact Function.update_of_ne hne ..

@[simp] theorem write_self : ((s.write h).nodes h).data = true := by
  rw [write, setNode_self]

@[simp] theorem write_conf : ((s.write h).nodes g).conf = (s.nodes g).conf := by
  by_cases hgh : g = h
  · rw [write, hgh, setNode_self]
  · rw [write, setNode_of_ne hgh]

@[simp] theorem write_running : ((s.write h).nodes g).running = (s.nodes g).running := by
  by_cases hgh : g = h
  · rw [write, hgh, setNode_self]
  · rw [write, setNode_of_ne hgh]

end Etcd

/-- One task for the node at work, and whether the next one follows. -/
def perform (t : JoinTask) (h : η) (s : Etcd η) (o : Outcome) : Etcd η × Bool :=
  match t with
  | .memberList => ({ s with listed := memberList line s.members }, o.ok)
  | .memberAdd =>
    if I.ansibleHostname h <:+: s.listed then ({ s with added := none }, true)
    else if ∃ m ∈ s.members, m.peerURL = I.peerURL h then (s, false)
    else if o.made 0 then
      let members := insertAt o.place ⟨I.peerURL h, none⟩ s.members
      ({ s with members := members, added := some (memberAddOutput I h members) }, o.ok)
    else (s, o.ok)
  | .applyParams =>
    match s.added with
    | none => (s, true)
    | some lines =>
      (s.setNode h { s.nodes h with conf := applied o.made lines (s.nodes h).conf }, o.ok)
  | .emptyData =>
    match s.added with
    | none => (s, true)
    | some _ =>
      (if o.made 0 then s.setNode h { s.nodes h with data := false } else s, o.ok)
  | .startService =>
    (if o.made 0 then s.setNode h { s.nodes h with running := true } else s, o.ok)
  | .waitPort => (s, o.ok)
  -- etcd reports that it is ready, and is healthy, only when it has joined
  | .awaitReady | .waitHealthy => (s, o.ok && decide (s.Joined I h))

/-- `attempt` writes etcd.conf from the template and goes on to the new nodes; `write` and `join`
are what a node that was started does. -/
inductive Act (η : Type*)
  | attempt (ok : Bool) (written : η → Bool)
  | task (o : Outcome)
  | write (h : η)
  | join (h : η)

def act (s : Etcd η) : Act η → Etcd η
  | .attempt ok written =>
    match s.todo with
    | [] =>
      { s with
        nodes := fun h =>
          if h ∈ I.etcdCluster ∧ (ok || written h) = true then
            { s.nodes h with conf := template I h }
          else s.nodes h
        todo := if ok then I.newEtcdNodes else []
        task := .memberList }
    | _ :: _ => s
  | .task o =>
    match s.todo with
    | [] => s
    | h :: rest =>
      let result := perform I line s.task h s o
      match result.2, s.task.next with
      | false, _ => { result.1 with todo := [] }
      | true, some t => { result.1 with task := t }
      | true, none => { result.1 with todo := rest, task := .memberList }
  | .write h => if (s.nodes h).running = true then s.write h else s
  | .join h =>
    if h ∈ I.newEtcdNodes ∧ (s.nodes h).running = true ∧
        ⟨I.peerURL h, none⟩ ∈ s.members then
      { s.write h with
        members := s.members.map (naming I h ((setting "ETCD_NAME" (s.nodes h).conf).getD [])) }
    else s

variable {I line} {s : Etcd η} {g h : η}

/-! ## What an action does to the members -/

/-- A task other than the addition leaves the members as they are. -/
theorem perform_members (I : Inventory η) (line : Member → Text) (t : JoinTask) (h : η)
    (s : Etcd η) (o : Outcome) :
    (perform I line t h s o).1.members = s.members ∨
      (t = .memberAdd ∧ (∀ m ∈ s.members, m.peerURL ≠ I.peerURL h) ∧
        ¬ I.ansibleHostname h <:+: s.listed ∧
        (perform I line t h s o).1.members = insertAt o.place ⟨I.peerURL h, none⟩ s.members ∧
        (perform I line t h s o).1.added = some (memberAddOutput I h
          (insertAt o.place ⟨I.peerURL h, none⟩ s.members))) := by
  cases t
  case memberAdd =>
    rw [perform]
    split
    · exact Or.inl rfl
    · rename_i hlisted
      split
      · exact Or.inl rfl
      · rename_i hnew
        split
        · refine Or.inr ⟨rfl, fun m hm hurl => hnew ⟨m, hm, hurl⟩, hlisted, rfl, rfl⟩
        · exact Or.inl rfl
  case applyParams | emptyData =>
    rw [perform]
    cases s.added with
    | none => exact Or.inl rfl
    | some lines =>
      dsimp only
      (repeat' split) <;> exact Or.inl rfl
  case startService =>
    rw [perform]
    dsimp only
    split <;> exact Or.inl rfl
  all_goals exact Or.inl rfl

theorem perform_todo {t : JoinTask} {o : Outcome} :
    (perform I line t h s o).1.todo = s.todo := by
  cases t <;> rw [perform]
  all_goals dsimp only
  all_goals (repeat' split) <;> rfl

/-- After a task the play stops, goes on, or turns to the next node once the last one has joined. -/
theorem task_cases (I : Inventory η) (line : Member → Text) {rest : List η}
    (htodo : s.todo = h :: rest) (o : Outcome) :
    (act I line s (.task o)).members = (perform I line s.task h s o).1.members ∧
      ((act I line s (.task o)).todo = [] ∨ (act I line s (.task o)).todo = h :: rest ∨
        (s.task = .waitHealthy ∧ (act I line s (.task o)).todo = rest ∧ s.Joined I h)) := by
  have hkeeps : (perform I line s.task h s o).1.todo = s.todo := perform_todo
  rw [act, htodo]
  dsimp only
  split
  · exact ⟨rfl, Or.inl rfl⟩
  · exact ⟨rfl, Or.inr (Or.inl (hkeeps.trans htodo))⟩
  · rename_i hok hnext
    refine ⟨rfl, Or.inr (Or.inr ?_)⟩
    cases htask : s.task <;> rw [htask] at hnext <;> cases hnext
    rw [htask] at hok
    exact ⟨rfl, rfl, of_decide_eq_true (Bool.and_eq_true_iff.mp hok).2⟩

theorem write_members (I : Inventory η) (line : Member → Text) (s : Etcd η) (h : η) :
    (act I line s (.write h)).members = s.members ∧
      (act I line s (.write h)).todo = s.todo := by
  rw [act]
  split <;> exact ⟨rfl, rfl⟩

theorem join_members (I : Inventory η) (line : Member → Text) (s : Etcd η) (h : η) :
    (act I line s (.join h)).todo = s.todo ∧ ∃ name,
      (act I line s (.join h)).members = s.members ∨
        (act I line s (.join h)).members = s.members.map (naming I h name) := by
  rw [act]
  split
  · exact ⟨rfl, _, Or.inr rfl⟩
  · exact ⟨rfl, [], Or.inl rfl⟩

end Model

/-! ## One node at a time -/

section Order

variable {η : Type*} {I : Inventory η} {n : ℕ} {s s' : Etcd η} {g h : η}

/-- The nodes that join before `h` have joined. -/
def Turn (I : Inventory η) (s : Etcd η) (h : η) : Prop :=
  ∃ before after, I.newEtcdNodes = before ++ h :: after ∧ ∀ g ∈ before, s.Joined I g

/-- At least `n` members have started. Whoever has not, has its turn, and so has the node at
work. -/
structure Orderly (I : Inventory η) (n : ℕ) (s : Etcd η) : Prop where
  unique : (s.members.map Member.peerURL).Nodup
  started : n ≤ s.members.countP Member.started
  waiting : ∀ m ∈ s.members, m.name = none → ∃ h, m.peerURL = I.peerURL h ∧ Turn I s h
  behind : s.todo ≠ [] → ∃ done, I.newEtcdNodes = done ++ s.todo ∧ ∀ g ∈ done, s.Joined I g

theorem joined_of_perm {m : Member} (hs' : s'.members.Perm (m :: s.members))
    (h : s.Joined I g) : s'.Joined I g := by
  obtain ⟨m', hm', hurl⟩ := h
  exact ⟨m', hs'.mem_iff.mpr (List.mem_cons_of_mem _ hm'), hurl⟩

theorem joined_of_naming {name : Text} (hs' : s'.members = s.members.map (naming I h name))
    (hg : s.Joined I g) : s'.Joined I g := by
  obtain ⟨m, hm, hurl, hstarted⟩ := hg
  refine ⟨m, ?_, hurl, hstarted⟩
  rw [hs']
  exact List.mem_map.mpr ⟨m, hm, naming_started hstarted⟩

/-- The addition of the node at work. -/
theorem orderly_add {rest : List η} {k : ℕ} (hs : Orderly I n s) (htodo : s.todo = h :: rest)
    (hnew : ∀ m ∈ s.members, m.peerURL ≠ I.peerURL h)
    (hmembers : s'.members = insertAt k ⟨I.peerURL h, none⟩ s.members)
    (hjoined : ∀ g, s.Joined I g → s'.Joined I g)
    (hbehind : s'.todo = [] ∨ s'.todo = s.todo) : Orderly I n s' := by
  have hperm : s'.members.Perm (⟨I.peerURL h, none⟩ :: s.members) :=
    hmembers ▸ insertAt_perm _ _ _
  obtain ⟨done, hdone, hdoneJoined⟩ := hs.behind (by rw [htodo]; exact List.cons_ne_nil _ _)
  constructor
  · refine (hperm.map Member.peerURL).nodup_iff.mpr (List.nodup_cons.mpr ⟨?_, hs.unique⟩)
    intro hmem
    obtain ⟨m, hm, hurl⟩ := List.mem_map.mp hmem
    exact hnew m hm hurl
  · rw [hperm.countP_eq, List.countP_cons]
    exact hs.started.trans (Nat.le_add_right _ _)
  · intro m hm hnone
    rcases List.mem_cons.mp (hperm.mem_iff.mp hm) with rfl | hm
    · refine ⟨h, rfl, done, rest, ?_, fun g hg => hjoined g (hdoneJoined g hg)⟩
      rw [hdone, htodo]
    · obtain ⟨g, hurl, before, after, hsplit, hbefore⟩ := hs.waiting m hm hnone
      exact ⟨g, hurl, before, after, hsplit, fun g hg => hjoined g (hbefore g hg)⟩
  · intro hne
    rcases hbehind with hnil | hsame
    · exact absurd hnil hne
    · exact ⟨done, hsame ▸ hdone, fun g hg => hjoined g (hdoneJoined g hg)⟩

/-- No member comes or goes. -/
theorem orderly_same (hs : Orderly I n s) (hmembers : s'.members = s.members)
    (hbehind : s'.todo ≠ [] →
      ∃ done, I.newEtcdNodes = done ++ s'.todo ∧ ∀ g ∈ done, s.Joined I g) :
    Orderly I n s' := by
  have hjoined : ∀ g, s.Joined I g → s'.Joined I g := by
    intro g hg
    rw [Etcd.Joined, hmembers]
    exact hg
  constructor
  · rw [hmembers]
    exact hs.unique
  · rw [hmembers]
    exact hs.started
  · intro m hm hnone
    rw [hmembers] at hm
    obtain ⟨g, hurl, before, after, hsplit, hbefore⟩ := hs.waiting m hm hnone
    exact ⟨g, hurl, before, after, hsplit, fun g hg => hjoined g (hbefore g hg)⟩
  · intro hne
    obtain ⟨done, hdone, hall⟩ := hbehind hne
    exact ⟨done, hdone, fun g hg => hjoined g (hall g hg)⟩

theorem orderly_naming {name : Text} (hs : Orderly I n s)
    (hmembers : s'.members = s.members.map (naming I h name)) (htodo : s'.todo = s.todo) :
    Orderly I n s' := by
  have hjoined : ∀ g, s.Joined I g → s'.Joined I g := fun g hg => joined_of_naming hmembers hg
  constructor
  · rw [hmembers, List.map_map]
    have hsame : Member.peerURL ∘ naming I h name = Member.peerURL :=
      funext fun m => naming_peerURL name m
    rw [hsame]
    exact hs.unique
  · rw [hmembers, List.countP_map]
    refine hs.started.trans (List.countP_mono_left ?_)
    intro m _ hstarted
    rw [Function.comp_apply, naming_started hstarted]
    exact hstarted
  · intro m hm hnone
    rw [hmembers] at hm
    obtain ⟨m', hm', rfl⟩ := List.mem_map.mp hm
    have hsame : naming I h name m' = m' := naming_unnamed hnone
    rw [hsame] at hnone ⊢
    obtain ⟨g, hurl, before, after, hsplit, hbefore⟩ := hs.waiting m' hm' hnone
    exact ⟨g, hurl, before, after, hsplit, fun g hg => hjoined g (hbefore g hg)⟩
  · intro hne
    rw [htodo] at hne ⊢
    obtain ⟨done, hdone, hall⟩ := hs.behind hne
    exact ⟨done, hdone, fun g hg => hjoined g (hall g hg)⟩

/-- A member that has joined is no other one. -/
theorem not_joined {m : Member} (hs : (s.members.map Member.peerURL).Nodup) (hm : m ∈ s.members)
    (hnone : m.name = none) (hurl : m.peerURL = I.peerURL h) : ¬ s.Joined I h := by
  rintro ⟨m', hm', hurl', hstarted⟩
  have heq : m' = m := List.inj_on_of_nodup_map hs hm' hm (hurl'.trans hurl.symm)
  rw [heq, Member.started, hnone] at hstarted
  cases hstarted

/-- Of two nodes that have their turn one has joined. -/
theorem turn_unique (hg : Turn I s g) (hh : Turn I s h) (hgj : ¬ s.Joined I g)
    (hhj : ¬ s.Joined I h) : g = h := by
  obtain ⟨before, after, hsplit, hbefore⟩ := hg
  obtain ⟨before', after', hsplit', hbefore'⟩ := hh
  rcases List.append_eq_append_iff.mp (hsplit.symm.trans hsplit') with
    ⟨mid, rfl, hmid⟩ | ⟨mid, rfl, hmid⟩
  · cases mid with
    | nil => exact (List.cons.inj hmid).1
    | cons c mid =>
      obtain ⟨rfl, -⟩ := List.cons.inj hmid
      exact absurd (hbefore' _ (List.mem_append_right _ List.mem_cons_self)) hgj
  · cases mid with
    | nil => exact (List.cons.inj hmid).1.symm
    | cons c mid =>
      obtain ⟨rfl, -⟩ := List.cons.inj hmid
      exact absurd (hbefore _ (List.mem_append_right _ List.mem_cons_self)) hhj

/-- The member that has not started. -/
theorem unstarted_unique (hs : Orderly I n s) {m m' : Member} (hm : m ∈ s.members)
    (hm' : m' ∈ s.members) (hnone : m.name = none) (hnone' : m'.name = none) : m = m' := by
  obtain ⟨g, hg, hturn⟩ := hs.waiting m hm hnone
  obtain ⟨h, hh, hturn'⟩ := hs.waiting m' hm' hnone'
  obtain rfl := turn_unique hturn hturn' (not_joined hs.unique hm hnone hg)
    (not_joined hs.unique hm' hnone' hh)
  exact List.inj_on_of_nodup_map hs.unique hm hm' (hg.trans hh.symm)

theorem unstarted_le_one (hs : Orderly I n s) :
    s.members.countP (fun m => !m.started) ≤ 1 := by
  rw [List.countP_eq_length_filter]
  have hnodup : (s.members.filter fun m => !m.started).Nodup :=
    (List.Nodup.of_map _ hs.unique).filter _
  have hunstarted : ∀ m ∈ s.members.filter (fun m => !m.started),
      m ∈ s.members ∧ m.name = none := by
    intro m hm
    obtain ⟨hmem, hnot⟩ := List.mem_filter.mp hm
    exact ⟨hmem, by simpa [Member.started] using hnot⟩
  cases hlist : s.members.filter fun m => !m.started with
  | nil => exact Nat.zero_le 1
  | cons m ms =>
    cases ms with
    | nil => exact Nat.le_refl 1
    | cons m' ms =>
      rw [hlist] at hnodup hunstarted
      obtain ⟨hm, hnone⟩ := hunstarted m List.mem_cons_self
      obtain ⟨hm', hnone'⟩ := hunstarted m' (List.mem_cons_of_mem _ List.mem_cons_self)
      have heq := unstarted_unique hs hm hm' hnone hnone'
      exact absurd (heq ▸ List.mem_cons_self) (List.nodup_cons.mp hnodup).1

/-- A cluster that runs: all members have started, and no node is being added. -/
structure Settled (s : Etcd η) : Prop where
  unique : (s.members.map Member.peerURL).Nodup
  started : ∀ m ∈ s.members, m.started = true
  todo : s.todo = []

theorem orderly_settled (hs : Settled s) : Orderly I s.members.length s := by
  constructor
  · exact hs.unique
  · exact (List.countP_eq_length.mpr hs.started).ge
  · intro m hm hnone
    have hstarted := hs.started m hm
    rw [Member.started, hnone] at hstarted
    cases hstarted
  · intro hne
    exact absurd hs.todo hne

end Order

section Runs

variable {η : Type*} [DecidableEq η] {I : Inventory η} {line : Member → Text} {n : ℕ} {s : Etcd η}
  {g : η}

/-- No action takes a member away. -/
theorem joined_act (hg : s.Joined I g) (a : Act η) : (act I line s a).Joined I g := by
  cases a with
  | attempt ok written =>
    rw [act]
    split <;> exact hg
  | task o =>
    cases htodo : s.todo with
    | nil =>
      rw [act, htodo]
      exact hg
    | cons h rest =>
      obtain ⟨hmembers, -⟩ := task_cases I line htodo o
      rcases perform_members I line s.task h s o with
        hsame | ⟨-, -, -, hadd, -⟩
      · rw [Etcd.Joined, hmembers, hsame]
        exact hg
      · refine joined_of_perm (s := s) (m := ⟨I.peerURL h, none⟩) ?_ hg
        rw [hmembers, hadd]
        exact insertAt_perm _ _ _
  | write h =>
    rw [Etcd.Joined, (write_members I line s h).1]
    exact hg
  | join h =>
    obtain ⟨-, name, hsame | hnaming⟩ := join_members I line s h
    · rw [Etcd.Joined, hsame]
      exact hg
    · exact joined_of_naming hnaming hg

theorem orderly_act (hs : Orderly I n s) (a : Act η) : Orderly I n (act I line s a) := by
  cases a with
  | attempt ok written =>
    rw [act]
    split
    · refine orderly_same hs rfl ?_
      intro _
      cases ok with
      | true => exact ⟨[], rfl, fun g hg => absurd hg List.not_mem_nil⟩
      | false => contradiction
    · exact hs
  | task o =>
    cases htodo : s.todo with
    | nil =>
      rw [act, htodo]
      exact hs
    | cons h rest =>
      obtain ⟨hmembers, hnext⟩ := task_cases I line htodo o
      rcases perform_members I line s.task h s o with
        hsame | ⟨htask, hnew, -, hadd, -⟩
      · refine orderly_same hs (hmembers.trans hsame) ?_
        intro hne
        obtain ⟨done, hdone, hall⟩ := hs.behind (by rw [htodo]; exact List.cons_ne_nil _ _)
        rcases hnext with hnil | hstay | ⟨-, hon, hjoined⟩
        · exact absurd hnil hne
        · exact ⟨done, by rw [hstay, ← htodo, hdone], hall⟩
        · refine ⟨done ++ [h], by rw [hon, hdone, htodo, List.append_cons], ?_⟩
          intro g hg
          rcases List.mem_append.mp hg with hg | hg
          · exact hall g hg
          · rw [List.mem_singleton.mp hg]
            exact hjoined
      · refine orderly_add hs htodo hnew (hmembers.trans hadd)
          (fun g hg => joined_act hg (.task o)) ?_
        rcases hnext with hnil | hstay | ⟨hhealthy, -⟩
        · exact Or.inl hnil
        · exact Or.inr (hstay.trans htodo.symm)
        · rw [htask] at hhealthy
          cases hhealthy
  | write h =>
    obtain ⟨hmembers, htodo⟩ := write_members I line s h
    refine orderly_same hs hmembers ?_
    rw [htodo]
    exact hs.behind
  | join h =>
    obtain ⟨htodo, name, hsame | hnaming⟩ := join_members I line s h
    · refine orderly_same hs hsame ?_
      rw [htodo]
      exact hs.behind
    · exact orderly_naming hs hnaming htodo

/-- In every state of every run, whatever fails and however often the playbook is run, at most one
member has not started, and a cluster of two members or more keeps its quorum. -/
theorem one_unstarted (hs : Settled s) (as : List (Act η)) :
    let s' := run (act I line) s as
    s'.members.countP (fun m => !m.started) ≤ 1 ∧
      (2 ≤ s.members.length →
        s'.members.length / 2 + 1 ≤ s'.members.countP Member.started) := by
  intro s'
  have horderly : Orderly I s.members.length s' :=
    run_of (I := Orderly I s.members.length) (fun _ a hs => orderly_act hs a)
      (orderly_settled hs) as
  have hone := unstarted_le_one horderly
  refine ⟨hone, fun htwo => ?_⟩
  have hall : s'.members.length =
      s'.members.countP Member.started + s'.members.countP (fun m => !m.started) := by
    have hcount := List.length_eq_countP_add_countP Member.started (l := s'.members)
    simpa using hcount
  have hstarted := horderly.started
  omega

/-! ## Two old members and two new nodes -/

def fourNodes : Inventory ℕ where
  etcdCluster := [0, 1, 2, 3]
  newNode h := decide (2 ≤ h)
  ansibleHostname h := 'n' :: (Nat.repr h).toList
  etcdBindAddress h := "10.0.0.".toList ++ (Nat.repr h).toList
  patroniEtcdProtocol := "http".toList
  etcdClusterName := "etcd-postgres-cluster".toList
  etcdDataDir := "/var/lib/etcd".toList
  tls := none
  distinct := by decide
  addresses := by decide
  names := by decide

def listLine (m : Member) : Text :=
  match m.name with
  | none => "8e9e05c52164694d, unstarted, , ".toList ++ m.peerURL ++ ", , false".toList
  | some name => "8e9e05c52164694d, started, ".toList ++ name ++ ", ".toList ++ m.peerURL ++
      ", ".toList ++ m.peerURL.dropLast.dropLast ++ "79, false".toList

def running : Etcd ℕ where
  members := [0, 1].map fun h => ⟨fourNodes.peerURL h, some (fourNodes.ansibleHostname h)⟩
  nodes h := ⟨[], decide (h < 2), decide (h < 2)⟩
  todo := []
  task := .memberList
  listed := []
  added := none

def success : Act ℕ := .task ⟨true, fun _ => true, 0⟩

def failed : Act ℕ := .task ⟨false, fun _ => false, 0⟩

def attempt : Act ℕ := .attempt true fun _ => true

/-- The first new node joins, and the second one is added but cannot be set up. -/
def halfway : List (Act ℕ) :=
  attempt :: List.replicate 5 success ++ .write 2 :: .join 2 :: List.replicate 5 success ++
    [failed, attempt]

theorem one_unstarted_four_nodes :
    let s := run (act fourNodes listLine) running halfway
    s.members.countP (fun m => !m.started) ≤ 1 ∧
      (2 ≤ running.members.length →
        s.members.length / 2 + 1 ≤ s.members.countP Member.started) :=
  one_unstarted ⟨by decide, by decide, rfl⟩ halfway

end Runs

end EtcdMemberAdd
