import Mathlib.Data.List.Basic
import Mathlib.Data.List.Nodup

/-! # The servers of HAProxy

haproxy.cfg is written from the inventory once, and by confd from the members that Patroni
publishes ever after. -/
namespace HaproxyServers

abbrev Text := List Char

/-! ## The two templates -/

inductive Listen
  | master
  | replicas
  | replicasSync
  | replicasAsync
  deriving DecidableEq, Repr

structure HostVars where
  ansibleHostname : Text
  bindAddress : Text
  patroniBindAddress : Option Text
  postgresqlConnectAddr : Option Text
  patroniRestapiConnectAddr : Option Text

/-- `direct` says for which sections `haproxy_listen_port` has a port with the ending `_direct`. -/
structure Vars where
  pgbouncerInstall : Bool
  pgbouncerListenPort : Text
  postgresqlPort : Text
  patroniRestapiPort : Text
  patroniRestapiProtocol : Text
  direct : Listen → Bool

/-- `default(..., true)` -/
def orDefault (v : Option Text) (d : Text) : Text :=
  match v with
  | some (c :: cs) => c :: cs
  | _ => d

namespace HostVars

variable (h : HostVars)

def patroniAddress : Text := orDefault h.patroniBindAddress h.bindAddress

/-- The host of `postgresql.connect_address` in patroni.yml. -/
def connectAddress : Text := orDefault h.postgresqlConnectAddr h.patroniAddress

/-- The host of `restapi.connect_address` in patroni.yml. -/
def restapiAddress : Text := orDefault h.patroniRestapiConnectAddr h.patroniAddress

end HostVars

structure Server where
  name : Text
  address : Text
  checkPort : Text
  deriving DecidableEq, Repr

/-- A member in the DCS. -/
structure Member where
  key : Text
  connUrl : Text
  apiUrl : Text

/-- A section, and whether its name has the ending `_direct`. -/
abbrev Block := Listen × Bool

def hostPort (host port : Text) : Text := host ++ ':' :: port

section Templates

variable (V : Vars)

def Vars.blocks : List Block :=
  [Listen.master, .replicas, .replicasSync, .replicasAsync].flatMap fun l =>
    (l, false) :: if V.pgbouncerInstall && V.direct l then [(l, true)] else []

/-- Whether the section goes to PostgreSQL without PgBouncer. -/
def Vars.toPostgres (b : Block) : Bool := b.2 || !V.pgbouncerInstall

/-- A line of `haproxy.cfg.j2`. -/
def server (b : Block) (h : HostVars) : Server :=
  ⟨h.ansibleHostname,
    hostPort h.patroniAddress (if V.toPostgres b then V.postgresqlPort else V.pgbouncerListenPort),
    V.patroniRestapiPort⟩

def haproxyCfg (hosts : List HostVars) : List (Block × List Server) :=
  V.blocks.map fun b => (b, hosts.map (server V b))

/-- The last part of a path. -/
def base (path : Text) : Text :=
  if path.isEmpty then ['.']
  else
    let part := ((path.reverse.dropWhile (· = '/')).takeWhile (· ≠ '/')).reverse
    if part.isEmpty then ['/'] else part

/-- `base (replace .. "@" "/" -1)` -/
def baseOfHost (text : Text) : Text := base (text.map fun c => if c = '@' then '/' else c)

def index (parts : List Text) (n : ℕ) : Option Text := parts[n]?

def pooledHost (connUrl : Text) : Option Text := do
  let behind ← index (connUrl.splitOn ':') 1
  let host ← index (behind.splitOn '/') 2
  return baseOfHost host

def directHost (connUrl : Text) : Option Text := do
  let host ← index (connUrl.splitOn '/') 2
  return baseOfHost host

def checkPort (apiUrl : Text) : Option Text := do
  let host ← index (apiUrl.splitOn '/') 2
  index (host.splitOn ':') 1

/-- A line of `haproxy.tmpl.j2`. -/
def memberServer (b : Block) (m : Member) : Option Server := do
  let address ← if V.toPostgres b then directHost m.connUrl
    else (pooledHost m.connUrl).map fun host => hostPort host V.pgbouncerListenPort
  let port ← checkPort m.apiUrl
  return ⟨base m.key, address, port⟩

/-- What confd writes; no template is filled in where an index is out of range. -/
def haproxyTmpl (members : List Member) : Option (List (Block × List Server)) :=
  V.blocks.mapM fun b => (members.mapM (memberServer V b)).map fun servers => (b, servers)

def url (scheme host path : Text) : Text := scheme ++ ':' :: '/' :: '/' :: host ++ '/' :: path

def postgres : Text := ['p', 'o', 's', 't', 'g', 'r', 'e', 's']

/-- What Patroni publishes of a host with this patroni.yml. -/
def published (h : HostVars) : Member :=
  ⟨['/', 'm', 'e', 'm', 'b', 'e', 'r', 's'] ++ '/' :: h.ansibleHostname,
    url postgres (hostPort h.connectAddress V.postgresqlPort) postgres,
    url V.patroniRestapiProtocol (hostPort h.restapiAddress V.patroniRestapiPort)
      ['p', 'a', 't', 'r', 'o', 'n', 'i']⟩

end Templates

/-! ## Parts of an address -/

/-- A text that stands in an address as one part. -/
structure Plain (t : Text) : Prop where
  ne_nil : t ≠ []
  slash : '/' ∉ t
  colon : ':' ∉ t
  sign : '@' ∉ t

theorem plain_of_check {t : Text}
    (ht : (!t.isEmpty && t.all fun c => not (['/', ':', '@'].contains c)) = true) : Plain t := by
  obtain ⟨hne, hall⟩ := Bool.and_eq_true_iff.mp ht
  have hnot : ∀ c, c ∈ ['/', ':', '@'] → c ∉ t := by
    intro c hc hmem
    have hclear := List.all_eq_true.mp hall c hmem
    rw [List.contains_iff_mem.mpr hc] at hclear
    cases hclear
  exact ⟨by simpa using hne, hnot _ (by decide), hnot _ (by decide), hnot _ (by decide)⟩

structure Addressed (V : Vars) (h : HostVars) : Prop where
  name : Plain h.ansibleHostname
  connect : Plain h.connectAddress
  restapi : Plain h.restapiAddress
  port : Plain V.postgresqlPort
  restapiPort : Plain V.patroniRestapiPort
  protocol : Plain V.patroniRestapiProtocol

theorem base_of_not_mem {t : Text} (hne : t ≠ []) (hslash : '/' ∉ t) (path : Text) :
    base (path ++ '/' :: t) = t ∧ base t = t := by
  have hall : ∀ c ∈ t.reverse, decide (c ≠ '/') = true := by
    intro c hc
    refine decide_eq_true fun hcs => hslash ?_
    rw [← hcs]
    exact List.mem_reverse.mp hc
  obtain ⟨c, cs, hrev⟩ := List.exists_cons_of_ne_nil (mt List.reverse_eq_nil_iff.mp hne)
  have hc : c ≠ '/' := of_decide_eq_true (hall c (hrev ▸ List.mem_cons_self))
  have htake : ∀ rest : Text, (rest = [] ∨ rest.head? = some '/') →
      (((t.reverse ++ rest).dropWhile (· = '/')).takeWhile (· ≠ '/')).reverse = t := by
    intro rest hrest
    have hdrop : (t.reverse ++ rest).dropWhile (· = '/') = t.reverse ++ rest := by
      rw [hrev, List.cons_append, List.dropWhile_cons_of_neg (by simpa using hc)]
    rw [hdrop, List.takeWhile_append_of_pos hall]
    have hnil : rest.takeWhile (· ≠ '/') = [] := by
      rcases hrest with rfl | hhead
      · rfl
      · obtain ⟨rest, rfl⟩ := List.head?_eq_some_iff.mp hhead
        exact List.takeWhile_cons_of_neg (by simp)
    rw [hnil, List.append_nil, List.reverse_reverse]
  constructor
  · have hpart : (((path ++ '/' :: t).reverse.dropWhile (· = '/')).takeWhile (· ≠ '/')).reverse =
        t := by
      rw [List.reverse_append, List.reverse_cons, List.append_assoc]
      exact htake _ (Or.inr rfl)
    rw [base, hpart, if_neg (by simp), if_neg (by simpa using hne)]
  · have hpart := htake [] (Or.inl rfl)
    rw [List.append_nil] at hpart
    rw [base, hpart, if_neg (by simpa using hne), if_neg (by simpa using hne)]

theorem baseOfHost_of_not_mem {t : Text} (hne : t ≠ []) (hslash : '/' ∉ t) (hsign : '@' ∉ t) :
    baseOfHost t = t := by
  have hmap : t.map (fun c => if c = '@' then '/' else c) = t := by
    refine (List.map_congr_left fun c hc => if_neg ?_).trans (List.map_id t)
    rintro rfl
    exact hsign hc
  rw [baseOfHost, hmap]
  exact (base_of_not_mem hne hslash []).2

/-- What stands between the scheme and the path of an address. -/
theorem index_of_url {scheme host path : Text} (hscheme : '/' ∉ scheme) (hhost : '/' ∉ host) :
    index ((url scheme host path).splitOn '/') 2 = some host := by
  have hcolon : '/' ∉ scheme ++ [':'] := by simpa using hscheme
  have hsplit : url scheme host path =
      (scheme ++ [':']) ++ '/' :: ([] ++ '/' :: (host ++ '/' :: path)) := by
    simp [url]
  rw [hsplit, List.splitOn_append_cons_self_of_not_mem hcolon,
    List.splitOn_append_cons_self_of_not_mem List.not_mem_nil,
    List.splitOn_append_cons_self_of_not_mem hhost]
  rfl

variable {V : Vars} {h : HostVars}

theorem slash_hostPort {host port : Text} (hhost : Plain host) (hport : Plain port) :
    '/' ∉ hostPort host port ∧ '@' ∉ hostPort host port ∧ hostPort host port ≠ [] := by
  have hslash := hhost.slash
  have hsign := hhost.sign
  have hslash' := hport.slash
  have hsign' := hport.sign
  refine ⟨?_, ?_, ?_⟩ <;> simp [hostPort, hslash, hslash', hsign, hsign']

theorem directHost_published (hh : Addressed V h) :
    directHost (published V h).connUrl =
      some (hostPort h.connectAddress V.postgresqlPort) := by
  obtain ⟨hslash, hsign, hne⟩ := slash_hostPort hh.connect hh.port
  have hscheme : '/' ∉ postgres := by decide
  rw [published, directHost, index_of_url hscheme hslash]
  exact congrArg some (baseOfHost_of_not_mem hne hslash hsign)

theorem pooledHost_published (hh : Addressed V h) :
    pooledHost (published V h).connUrl = some h.connectAddress := by
  have hurl : (published V h).connUrl = postgres ++ ':' ::
      (('/' :: '/' :: h.connectAddress) ++ ':' :: (V.postgresqlPort ++ '/' :: postgres)) := by
    simp [published, url, hostPort]
  have hscheme : ':' ∉ postgres := by decide
  have hcolon : ':' ∉ '/' :: '/' :: h.connectAddress := by simpa using hh.connect.colon
  have hbehind : index ((published V h).connUrl.splitOn ':') 1 =
      some ('/' :: '/' :: h.connectAddress) := by
    rw [hurl, List.splitOn_append_cons_self_of_not_mem hscheme,
      List.splitOn_append_cons_self_of_not_mem hcolon]
    rfl
  have hhost : index (('/' :: '/' :: h.connectAddress).splitOn '/') 2 =
      some h.connectAddress := by
    have hsplit : '/' :: '/' :: h.connectAddress =
        [] ++ '/' :: ([] ++ '/' :: h.connectAddress) := rfl
    rw [hsplit, List.splitOn_append_cons_self_of_not_mem List.not_mem_nil,
      List.splitOn_append_cons_self_of_not_mem List.not_mem_nil,
      List.splitOn_eq_singleton hh.connect.slash]
    rfl
  rw [pooledHost, hbehind, Option.bind_eq_bind, Option.bind_some, hhost]
  exact congrArg some
    (baseOfHost_of_not_mem hh.connect.ne_nil hh.connect.slash hh.connect.sign)

theorem checkPort_published (hh : Addressed V h) :
    checkPort (published V h).apiUrl = some V.patroniRestapiPort := by
  obtain ⟨hslash, -, -⟩ := slash_hostPort hh.restapi hh.restapiPort
  rw [published, checkPort, index_of_url hh.protocol.slash hslash, Option.bind_eq_bind,
    Option.bind_some, hostPort, List.splitOn_append_cons_self_of_not_mem hh.restapi.colon,
    List.splitOn_eq_singleton hh.restapiPort.colon]
  rfl

/-- The line that confd writes for a host that Patroni publishes. -/
def confdServer (V : Vars) (b : Block) (h : HostVars) : Server :=
  ⟨h.ansibleHostname,
    hostPort h.connectAddress
      (if V.toPostgres b then V.postgresqlPort else V.pgbouncerListenPort),
    V.patroniRestapiPort⟩

theorem memberServer_published (hh : Addressed V h) (b : Block) :
    memberServer V b (published V h) = some (confdServer V b h) := by
  have hname : base (published V h).key = h.ansibleHostname :=
    (base_of_not_mem hh.name.ne_nil hh.name.slash _).1
  rw [memberServer, hname, checkPort_published hh, directHost_published hh,
    pooledHost_published hh, confdServer]
  cases V.toPostgres b <;> rfl

/-! ## The two configurations -/

theorem mapM_some {α β : Type*} {f : α → Option β} {g : α → β} {l : List α}
    (hf : ∀ a ∈ l, f a = some (g a)) : l.mapM f = some (l.map g) := by
  induction l with
  | nil => rfl
  | cons a l ih =>
    obtain ⟨ha, hl⟩ := List.forall_mem_cons.mp hf
    rw [List.mapM_cons, ha, ih hl]
    rfl

/-- The same sections, each with the same servers. -/
def Agree (as bs : List (Block × List Server)) : Prop :=
  List.Forall₂ (fun a b => a.1 = b.1 ∧ a.2.Perm b.2) as bs

variable {hosts listed : List HostVars}

theorem haproxyTmpl_published (hlisted : ∀ h ∈ listed, Addressed V h) :
    haproxyTmpl V (listed.map (published V)) =
      some (V.blocks.map fun b => (b, listed.map (confdServer V b))) := by
  rw [haproxyTmpl]
  refine mapM_some fun b _ => ?_
  have hservers : (listed.map (published V)).mapM (memberServer V b) =
      some (listed.map (confdServer V b)) := by
    rw [List.mapM_map]
    exact mapM_some fun h hh => memberServer_published (hlisted h hh) b
  rw [hservers]
  rfl

theorem agree_iff {f g : Block → List Server} :
    Agree (V.blocks.map fun b => (b, f b)) (V.blocks.map fun b => (b, g b)) ↔
      ∀ b ∈ V.blocks, (f b).Perm (g b) := by
  rw [Agree, List.forall₂_map_left_iff, List.forall₂_map_right_iff, List.forall₂_same]
  exact forall₂_congr fun b _ => and_iff_right rfl

/-- Whatever order confd reads the members in, it fills its template in, and it keeps the servers
of the inventory if and only if no host is published at another address than Patroni's own. -/
theorem servers_agree_iff (hhosts : ∀ h ∈ hosts, Addressed V h)
    (hnames : (hosts.map HostVars.ansibleHostname).Nodup) (hlisted : listed.Perm hosts) :
    ∃ sections, haproxyTmpl V (listed.map (published V)) = some sections ∧
      (Agree sections (haproxyCfg V hosts) ↔
        ∀ h ∈ hosts, h.connectAddress = h.patroniAddress) := by
  refine ⟨_, haproxyTmpl_published fun h hh => hhosts h (hlisted.mem_iff.mp hh), ?_⟩
  rw [haproxyCfg, agree_iff]
  constructor
  · intro hagree h hh
    have hmaster : (Listen.master, false) ∈ V.blocks :=
      List.mem_flatMap.mpr ⟨.master, List.mem_cons_self, List.mem_cons_self⟩
    have hmem : confdServer V (.master, false) h ∈ hosts.map (server V (.master, false)) :=
      (hagree _ hmaster).mem_iff.mp (List.mem_map_of_mem (hlisted.mem_iff.mpr hh))
    obtain ⟨h', hh', hserver⟩ := List.mem_map.mp hmem
    have hsame : h' = h := List.inj_on_of_nodup_map hnames hh' hh (congrArg Server.name hserver)
    rw [hsame] at hserver
    exact (List.append_cancel_right (congrArg Server.address hserver)).symm
  · intro hsame b _
    have hservers : listed.map (confdServer V b) = listed.map (server V b) := by
      refine List.map_congr_left fun h hh => ?_
      rw [confdServer, server, hsame h (hlisted.mem_iff.mp hh)]
    rw [hservers]
    exact hlisted.map _

/-! ## A host with an address of its own for connections -/

def pooledVars : Vars := ⟨true, ['6', '4', '3', '2'], ['5', '4', '3', '2'], ['8', '0', '0', '8'],
  ['h', 't', 't', 'p'], fun l => decide (l = .master)⟩

def twoHosts : List HostVars :=
  [⟨['a'], ['1', '0', '.', '1'], none, none, none⟩,
    ⟨['b'], ['1', '0', '.', '2'], none, some ['d', 'b'], none⟩]

theorem servers_agree_two_hosts :
    ∃ sections, haproxyTmpl pooledVars (twoHosts.map (published pooledVars)) = some sections ∧
      (Agree sections (haproxyCfg pooledVars twoHosts) ↔
        ∀ h ∈ twoHosts, h.connectAddress = h.patroniAddress) := by
  refine servers_agree_iff ?_ (by decide) (List.Perm.refl _)
  intro h hh
  rcases List.mem_cons.mp hh with rfl | hh
  · constructor <;> exact plain_of_check (by decide)
  · rw [List.mem_singleton.mp hh]
    constructor <;> exact plain_of_check (by decide)

end HaproxyServers
