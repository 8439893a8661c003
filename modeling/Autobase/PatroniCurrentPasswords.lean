import Autobase.LineFilters
import Autobase.PatroniTemplate

/-! # The current passwords in patroni.yml

When the cluster is maintained, the passwords are read out of the file that the template has
rendered: what stands within ten lines below a section, within three lines below a name, and has
a password in it; the last such line counts. The template has these words in other places too. -/
namespace PatroniCurrentPasswords

open LineEdits LineFilters PatroniConfigBackup PatroniTemplate

/-! ## Variables -/

structure Text where
  chars : Line
  oneLine : '\n' ∉ chars

/-- The blanks between the fields of awk. -/
def separatesFields (c : Char) : Bool := c = ' ' || c = '\t' || c = '\n'

structure Password where
  chars : Line
  nonempty : chars ≠ []
  unbroken : chars.all (fun c => !separatesFields c) = true

structure AuthOption where
  option : Text
  value : Text

/-- The variables of the REST API; without a protocol it is http. -/
structure Restapi where
  listenAddr : Text
  connectAddr : Text
  port : Text
  https : Bool
  certfile : Text
  keyfile : Text
  cafile : Text
  username : Text
  password : Text
  requestQueueSize : Option ℤ

structure User where
  username : Text
  password : Password
  authOptions : List AuthOption

/-- The lines around the two sections are any. -/
structure PatroniYml where
  beginning : List Line
  restapi : Restapi
  between : List Line
  replication : User
  superuser : User
  ending : List Line

/-! ## The file -/

def restapiLine : Line := "restapi:".toList

def authenticationLine : Line := indented 2 "authentication:".toList

/-- The option sslrootcert is left out without a value. -/
def AuthOption.isRendered (o : AuthOption) : Bool :=
  o.option.chars ≠ "sslrootcert".toList || o.value.chars ≠ []

def authOptionLines (options : List AuthOption) : List Line :=
  (options.filter AuthOption.isRendered).map fun o => keyed 6 o.option.chars o.value.chars

namespace Restapi

variable (r : Restapi)

def certificateLines : List Line :=
  (if r.https && (r.certfile.chars ≠ [] && r.keyfile.chars ≠ []) then
    [keyed 2 "certfile".toList r.certfile.chars, keyed 2 "keyfile".toList r.keyfile.chars]
  else []) ++
    if r.https && r.cafile.chars ≠ [] then [keyed 2 "cafile".toList r.cafile.chars] else []

/-- Without a password the section is a comment. -/
def authenticationLines : List Line :=
  if r.password.chars ≠ [] then
    [authenticationLine, keyed 4 "username".toList r.username.chars,
      keyed 4 "password".toList r.password.chars]
  else ["#  authentication:".toList, "#    username: username".toList,
    "#    password: password".toList]

def requestQueueLines : List Line :=
  (r.requestQueueSize.map fun size =>
    keyed 2 "request_queue_size".toList (toString size).toList).toList

def addressLines : List Line :=
  [keyed 2 "listen".toList (r.listenAddr.chars ++ ':' :: r.port.chars),
    keyed 2 "connect_address".toList (r.connectAddr.chars ++ ':' :: r.port.chars)]

def lines : List Line :=
  restapiLine :: (r.addressLines ++ r.certificateLines ++ r.authenticationLines ++
    r.requestQueueLines)

end Restapi

def User.lines (heading : String) (u : User) : List Line :=
  indented 4 heading.toList :: keyed 6 "username".toList u.username.chars ::
    keyed 6 "password".toList u.password.chars :: authOptionLines u.authOptions

def rewindLines : List Line :=
  ["#    rewind:  # Has no effect on postgres 10 and lower".toList,
    "#      username: rewind_user".toList, "#      password: rewind_password".toList]

def PatroniYml.render (y : PatroniYml) : List Line :=
  y.beginning ++ y.restapi.lines ++ y.between ++ authenticationLine ::
    (y.replication.lines "replication:" ++ y.superuser.lines "superuser:" ++ rewindLines ++
      indented 2 "parameters:".toList :: y.ending)

/-! ## The tasks -/

inductive Account where
  | restapi | replication | superuser
  deriving DecidableEq

def has (word : String) : Line → Bool := found (ofClasses (regexp word.toList))

/-- `awk '\x7b print $2 \x7d'` -/
def printSecond (line : Line) : Line := ((fields separatesFields line)[1]?).getD []

/-- With pipefail a grep that finds nothing is a failure of the task. -/
def currentPassword (opening name : String) (file : List Line) : Option Line :=
  ((selected 10 (has opening) 3 (has name) (has "password:") "--".toList file).map
    printSecond).getLast?

def superuserPasswordResult : List Line → Option Line :=
  currentPassword "authentication:" "superuser"

def replicationPasswordResult : List Line → Option Line :=
  currentPassword "authentication:" "replication"

def patroniRestapiPasswordResult : List Line → Option Line :=
  currentPassword "restapi:" "authentication"

def Account.passwordResult : Account → List Line → Option Line
  | .restapi => patroniRestapiPasswordResult
  | .replication => replicationPasswordResult
  | .superuser => superuserPasswordResult

def Account.stdout (a : Account) (file : List Line) : Line := (a.passwordResult file).getD []

def PatroniYml.password (y : PatroniYml) : Account → Line
  | .restapi => y.restapi.password.chars
  | .replication => y.replication.password.chars
  | .superuser => y.superuser.password.chars

/-- Every task prints the password that was rendered. -/
def PatroniYml.Recovered (y : PatroniYml) : Prop := ∀ a : Account, a.stdout y.render = y.password a

/-! ## What stands around a password -/

def Account.opening : Account → String
  | .restapi => "restapi:"
  | .replication => "authentication:"
  | .superuser => "authentication:"

def Account.name : Account → String
  | .restapi => "authentication"
  | .replication => "replication"
  | .superuser => "superuser"

namespace PatroniYml

variable (y : PatroniYml)

/-- The line of the template with the opening word of a task. -/
def openingLine : Account → Line
  | .restapi => restapiLine
  | .replication => authenticationLine
  | .superuser => authenticationLine

def passwordLine : Account → Line
  | .restapi =>
    if y.restapi.password.chars ≠ [] then keyed 4 "password".toList y.restapi.password.chars
    else "#    password: password".toList
  | .replication => keyed 6 "password".toList y.replication.password.chars
  | .superuser => keyed 6 "password".toList y.superuser.password.chars

def before : Account → List Line
  | .restapi => y.beginning
  | .replication => y.beginning ++ y.restapi.lines ++ y.between
  | .superuser => y.beginning ++ y.restapi.lines ++ y.between

def restapiHeading : List Line :=
  if y.restapi.password.chars ≠ [] then
    [authenticationLine, keyed 4 "username".toList y.restapi.username.chars]
  else ["#  authentication:".toList, "#    username: username".toList]

def replicationHeading : List Line :=
  [indented 4 "replication:".toList, keyed 6 "username".toList y.replication.username.chars]

def superuserHeading : List Line :=
  [indented 4 "superuser:".toList, keyed 6 "username".toList y.superuser.username.chars]

def above : Account → List Line
  | .restapi => y.restapi.addressLines ++ y.restapi.certificateLines ++ y.restapiHeading
  | .replication => y.replicationHeading
  | .superuser => y.replicationHeading ++ y.passwordLine .replication ::
      (authOptionLines y.replication.authOptions ++ y.superuserHeading)

def belowSuperuser : List Line :=
  authOptionLines y.superuser.authOptions ++ rewindLines ++
    indented 2 "parameters:".toList :: y.ending

def belowReplication : List Line :=
  authOptionLines y.replication.authOptions ++ y.superuserHeading ++
    y.passwordLine .superuser :: y.belowSuperuser

def below : Account → List Line
  | .restapi => y.restapi.requestQueueLines ++ y.between ++
      authenticationLine :: (y.replicationHeading ++
        y.passwordLine .replication :: y.belowReplication)
  | .replication => y.belowReplication
  | .superuser => y.belowSuperuser

theorem render_eq (a : Account) : y.render =
    y.before a ++ openingLine a :: (y.above a ++ y.passwordLine a :: y.below a) := by
  have hrestapi : y.restapi.authenticationLines =
      y.restapiHeading ++ [y.passwordLine .restapi] := by
    rw [Restapi.authenticationLines, restapiHeading, passwordLine]
    split <;> rfl
  cases a with
  | restapi =>
    simp only [render, Restapi.lines, hrestapi, before, openingLine, above, below, passwordLine,
      belowReplication, belowSuperuser, replicationHeading, superuserHeading, User.lines,
      List.append_assoc, List.cons_append, List.nil_append]
  | replication =>
    simp only [render, before, openingLine, above, below, passwordLine, belowReplication,
      belowSuperuser, replicationHeading, superuserHeading, User.lines, List.append_assoc,
      List.cons_append, List.nil_append]
  | superuser =>
    simp only [render, before, openingLine, above, below, passwordLine, belowSuperuser,
      replicationHeading, superuserHeading, User.lines, List.append_assoc, List.cons_append,
      List.nil_append]

/-! ## The condition -/

/-- What the first grep prints below a password that it prints: the lines that are due there, and
those behind each line that opens the context again. -/
def printedBelow (a : Account) : List Line :=
  contextAfter 10 (has a.opening) "--".toList
    (.due (due 10 (has a.opening) (y.passwordLine a :: (y.above a).reverse ++ [openingLine a])))
    (y.below a)

/-- The lines below a password that the task reads under the same name. -/
def disturbing (a : Account) : List Line :=
  (within 3 (has a.name) (y.passwordLine a :: (y.above a).reverse) (y.printedBelow a)).filter
    (has "password:")

/-- The password of the REST API is set and in one word, few options stand above the password of
the superuser, and no task finds its words again below. -/
structure Held : Prop where
  set : y.restapi.password.chars ≠ []
  unbroken : ∀ c ∈ y.restapi.password.chars, separatesFields c = false
  options : (authOptionLines y.replication.authOptions).length ≤ 4
  undisturbed : ∀ a, y.disturbing a = []

/-- No line down to the password of the superuser opens the context again. -/
def OpenedOnce : Prop :=
  ∀ l ∈ y.above .superuser ++ [y.passwordLine .superuser], has "authentication:" l = false

/-- No other line with a password in it repeats the one that was rendered. -/
def Unrepeated : Prop :=
  ∀ a, ∀ l ∈ y.before a ++ openingLine a :: y.above a ++ y.below a,
    has "password:" l = true → printSecond l ≠ y.password a

end PatroniYml

/-! ## Lines -/

theorem Password.separatesFields_eq (p : Password) : ∀ c ∈ p.chars, separatesFields c = false :=
  fun c hc => by simpa using List.all_eq_true.mp p.unbroken c hc

theorem has_password_keyed (n : ℕ) (text : Line) :
    has "password:" (keyed n "password".toList text) = true := by
  have hmatch : fits (regexp "password:".toList) ("password:".toList ++ ' ' :: text) = true :=
    fits_append (fits_regexp_self _) _
  rw [keyed, indented, has]
  refine found_of (List.append_ne_nil_of_left_ne_nil (by decide) _) ?_
  rw [ofClasses, if_pos]
  · rfl
  · exact hmatch

theorem printSecond_keyed (n : ℕ) (text : Line) :
    printSecond (keyed n "password".toList text) =
      ((fields separatesFields text).head?).getD [] := by
  have hindented : ∀ m l, fields separatesFields (indented m l) = fields separatesFields l := by
    intro m l
    induction m with
    | zero => rfl
    | succ m ih => exact (fields_blank_cons rfl).trans ih
  have hkey : ∀ c ∈ "password".toList ++ [':'], separatesFields c = false := by
    have hall : ("password".toList ++ [':']).all (fun c => !separatesFields c) = true := by
      decide
    exact fun c hc => by simpa using List.all_eq_true.mp hall c hc
  have hword : fields separatesFields (("password".toList ++ [':']) ++ ' ' :: text) =
      ("password".toList ++ [':']) :: fields separatesFields text :=
    fields_word_cons (List.append_ne_nil_of_right_ne_nil _ (List.cons_ne_nil _ _)) hkey rfl
  rw [List.append_assoc, List.singleton_append] at hword
  rw [printSecond, keyed, hindented, hword, List.getElem?_cons_succ, List.head?_eq_getElem?]

namespace PatroniYml

variable {y : PatroniYml}

theorem has_openingLine (a : Account) : has a.opening (openingLine a) = true := by
  cases a <;> decide +kernel

theorem has_passwordLine (a : Account) : has "password:" (y.passwordLine a) = true := by
  cases a with
  | restapi =>
    rw [passwordLine]
    split
    · exact has_password_keyed _ _
    · decide +kernel
  | replication => exact has_password_keyed _ _
  | superuser => exact has_password_keyed _ _

/-- The line of the name stands two lines above the password. -/
theorem any_heading {p : Line → Bool} {heading user : Line} (h : p heading = true)
    (others : List Line) : ((others ++ [heading, user]).reverse.take 3).any p = true := by
  rw [List.reverse_append]
  simp [h]

theorem name_above (a : Account) : ((y.above a).reverse.take 3).any (has a.name) = true := by
  cases a with
  | restapi =>
    rw [above, restapiHeading]
    split
    · exact any_heading (by decide +kernel) _
    · exact any_heading (by decide +kernel) _
  | replication => exact any_heading (by decide +kernel) []
  | superuser =>
    have hassoc : y.above .superuser = (y.replicationHeading ++ y.passwordLine .replication ::
        authOptionLines y.replication.authOptions) ++ y.superuserHeading := by
      rw [above, List.append_assoc, List.cons_append]
    rw [hassoc]
    exact any_heading (by decide +kernel) _

theorem length_restapiHeading : y.restapiHeading.length = 2 := by
  rw [restapiHeading]
  split <;> rfl

theorem length_certificateLines (r : Restapi) : r.certificateLines.length ≤ 3 := by
  rw [Restapi.certificateLines, List.length_append]
  split <;> split <;> simp

theorem two_le_length_above (a : Account) : 2 ≤ (y.above a).length := by
  cases a with
  | restapi =>
    rw [above, List.length_append, length_restapiHeading]
    omega
  | replication => exact le_rfl
  | superuser =>
    rw [above, List.length_append]
    exact Nat.le_add_right 2 _

theorem length_above_superuser : (y.above .superuser).length =
    (authOptionLines y.replication.authOptions).length + 5 := by
  simp only [above, replicationHeading, superuserHeading, List.length_append, List.length_cons,
    List.length_nil]
  omega

/-- Only the password of the superuser may stand too far below its opening line. -/
theorem length_above_lt {a : Account}
    (h : a = .superuser → (authOptionLines y.replication.authOptions).length ≤ 4) :
    (y.above a).length < 10 := by
  cases a with
  | restapi =>
    have hcertificate := length_certificateLines y.restapi
    have haddress : y.restapi.addressLines.length = 2 := rfl
    rw [above, List.length_append, List.length_append, length_restapiHeading, haddress]
    omega
  | replication => exact (by decide : 2 < 10)
  | superuser =>
    have hoptions := h rfl
    rw [length_above_superuser]
    omega

/-! ## What the tasks read -/

/-- The lines of which a task takes the last. -/
def candidates (y : PatroniYml) (a : Account) : List Line :=
  selected 10 (has a.opening) 3 (has a.name) (has "password:") "--".toList y.render

theorem stdout_render (a : Account) :
    a.stdout y.render = (((y.candidates a).map printSecond).getLast?).getD [] := by
  cases a <;> rfl

theorem has_of_mem_candidates {a : Account} {l : Line} (h : l ∈ y.candidates a) :
    has "password:" l = true :=
  (List.mem_filter.mp h).2

theorem separator_passed : has "password:" "--".toList = false := by
  decide +kernel

theorem candidates_eq {a : Account} (hlt : (y.above a).length < 10) :
    ∃ earlier, y.candidates a = earlier ++ y.passwordLine a :: y.disturbing a := by
  rw [candidates, render_eq y a]
  exact selected_own separator_passed (has_openingLine a) hlt
    (Nat.succ_le_succ (two_le_length_above a)) (name_above a) (has_passwordLine a) _

theorem stdout_undisturbed {a : Account} (hlt : (y.above a).length < 10)
    (h : y.disturbing a = []) : a.stdout y.render = printSecond (y.passwordLine a) := by
  obtain ⟨earlier, heq⟩ := candidates_eq hlt
  rw [stdout_render, heq, h, List.map_append, List.map_singleton, List.getLast?_concat]
  rfl

/-- What the task prints is in the last line that it reads, or it reads none. -/
theorem stdout_candidates (a : Account) : y.candidates a = [] ∧ a.stdout y.render = [] ∨
    ∃ l, (y.candidates a).getLast? = some l ∧ a.stdout y.render = printSecond l := by
  rw [stdout_render, List.getLast?_map]
  cases hlast : (y.candidates a).getLast? with
  | none => exact Or.inl ⟨List.getLast?_eq_none_iff.mp hlast, rfl⟩
  | some l => exact Or.inr ⟨l, rfl, rfl⟩

theorem mem_below_of_disturbing {a : Account} {l : Line} (h : l ∈ y.disturbing a) :
    l ∈ y.below a :=
  mem_of_passes separator_passed (fun _ => mem_contextAfter) h

theorem undisturbed_of_stdout (hu : y.Unrepeated) {a : Account}
    (hlt : (y.above a).length < 10) (h : a.stdout y.render = y.password a) :
    y.disturbing a = [] := by
  obtain ⟨earlier, heq⟩ := candidates_eq hlt
  rcases List.eq_nil_or_concat' (y.disturbing a) with hnil | ⟨ls, l, hd⟩
  · exact hnil
  · have hmem : l ∈ y.disturbing a := by
      rw [hd]
      exact List.mem_append_right _ (List.mem_singleton_self l)
    have hpassword := (List.mem_filter.mp hmem).2
    have hbelow := mem_below_of_disturbing hmem
    have hstdout : a.stdout y.render = printSecond l := by
      rw [stdout_render, heq, hd, ← List.cons_append, ← List.append_assoc, List.map_append,
        List.map_singleton, List.getLast?_concat]
      rfl
    exact absurd (hstdout.symm.trans h) (hu a l (List.mem_append_right _ hbelow) hpassword)

/-- The password of the superuser is read only if it stands close enough. -/
theorem options_of_stdout (ho : y.OpenedOnce) (hu : y.Unrepeated)
    (h : Account.superuser.stdout y.render = y.password .superuser) :
    (authOptionLines y.replication.authOptions).length ≤ 4 := by
  by_contra hmany
  have hbeyond : 10 ≤ (y.above .superuser).length := by
    rw [length_above_superuser]
    omega
  obtain ⟨habove, hown⟩ := List.forall_mem_append.mp ho
  have hmem : ∀ l ∈ y.candidates .superuser,
      l ∈ y.before .superuser ++ openingLine .superuser :: y.above .superuser ++
        y.below .superuser := by
    rw [candidates, render_eq y .superuser]
    exact selected_beyond separator_passed (has_openingLine .superuser) habove
      (hown _ (List.mem_singleton_self _)) hbeyond _
  rcases stdout_candidates (y := y) .superuser with ⟨-, hnone⟩ | ⟨l, hlast, hl⟩
  · exact y.superuser.password.nonempty (h.symm.trans hnone)
  · have hcandidate := List.mem_of_getLast? hlast
    exact hu .superuser l (hmem l hcandidate) (has_of_mem_candidates hcandidate) (hl.symm.trans h)

/-! ## Recovery -/

theorem printSecond_passwordLine {a : Account} (h : a = .restapi → y.restapi.password.chars ≠ [] ∧
    ∀ c ∈ y.restapi.password.chars, separatesFields c = false) :
    printSecond (y.passwordLine a) = y.password a := by
  cases a with
  | restapi =>
    obtain ⟨hset, hunbroken⟩ := h rfl
    rw [passwordLine, if_pos hset, printSecond_keyed]
    exact head_fields_iff.mpr hunbroken
  | replication =>
    rw [passwordLine, printSecond_keyed]
    exact head_fields_iff.mpr y.replication.password.separatesFields_eq
  | superuser =>
    rw [passwordLine, printSecond_keyed]
    exact head_fields_iff.mpr y.superuser.password.separatesFields_eq

theorem restapi_of_printSecond (h : printSecond (y.passwordLine .restapi) = y.password .restapi) :
    y.restapi.password.chars ≠ [] ∧
      ∀ c ∈ y.restapi.password.chars, separatesFields c = false := by
  rw [passwordLine] at h
  split at h
  · rw [printSecond_keyed] at h
    exact ⟨‹_›, head_fields_iff.mp h⟩
  · have hempty : y.password .restapi = [] := by
      rw [password]
      exact not_not.mp ‹_›
    rw [hempty] at h
    exact absurd h (by decide +kernel)

/-- Every password is recovered under the condition, and if no other line repeats one and the
context of the superuser is opened once, then only under it. -/
theorem recovered_iff (y : PatroniYml) : (y.Held → y.Recovered) ∧
    (y.OpenedOnce → y.Unrepeated → y.Recovered → y.Held) := by
  constructor
  · intro h a
    rw [stdout_undisturbed (length_above_lt fun _ => h.options) (h.undisturbed a)]
    exact printSecond_passwordLine fun _ => ⟨h.set, h.unbroken⟩
  · intro ho hu h
    have hoptions := options_of_stdout ho hu (h .superuser)
    have hlt : ∀ a, (y.above a).length < 10 := fun a => length_above_lt fun _ => hoptions
    have hundisturbed : ∀ a, y.disturbing a = [] := fun a =>
      undisturbed_of_stdout hu (hlt a) (h a)
    obtain ⟨hset, hunbroken⟩ := restapi_of_printSecond
      ((stdout_undisturbed (hlt .restapi) (hundisturbed .restapi)).symm.trans (h .restapi))
    exact ⟨hset, hunbroken, hoptions, hundisturbed⟩

end PatroniYml

/-! ## Samples -/

def oneLine (s : String) : Text := ⟨s.toList.filter fun c => c ≠ '\n', by simp⟩

/-- A file as the defaults of the role render it. -/
def sampleYml (restapiPassword superuserName : String) (replicationOptions superuserOptions :
    List AuthOption) : PatroniYml where
  beginning := ["scope: postgres-cluster", "name: pgnode01", "namespace: /service", ""].map
    String.toList
  restapi :=
    { listenAddr := oneLine "0.0.0.0"
      connectAddr := oneLine "10.0.0.1"
      port := oneLine "8008"
      https := false
      certfile := oneLine ""
      keyfile := oneLine ""
      cafile := oneLine ""
      username := oneLine "patroni"
      password := oneLine restapiPassword
      requestQueueSize := none }
  between := ["", "etcd3:", "  hosts: 10.0.0.1:2379", "", "", "", "bootstrap:",
    "  method: initdb", "  dcs:", "    ttl: 30", "    loop_wait: 10", "    postgresql:",
    "      use_slots: true", "      parameters:", "", "  pg_hba:",
    "    - host replication replicator 127.0.0.1/32 md5", "", "postgresql:",
    "  listen: 0.0.0.0:5432", "  pgpass: /var/lib/postgresql/.pgpass_patroni"].map String.toList
  replication :=
    { username := oneLine "replicator"
      password := ⟨"replicator-pass".toList, by decide, by decide +kernel⟩
      authOptions := replicationOptions }
  superuser :=
    { username := oneLine superuserName
      password := ⟨"postgres-pass".toList, by decide, by decide +kernel⟩
      authOptions := superuserOptions }
  ending := ["    unix_socket_directories: /var/run/postgresql".toList]

def sslOption (name value : String) : AuthOption := ⟨oneLine ("ssl" ++ name), oneLine value⟩

def defaultYml : PatroniYml :=
  sampleYml "patroni-pass" "postgres" [sslOption "mode" "disable"] [sslOption "mode" "disable"]

/-- The condition holds of the defaults. -/
theorem defaultYml_held : defaultYml.Held := by
  have hundisturbed : ∀ a ∈ [Account.restapi, .replication, .superuser],
      defaultYml.disturbing a = [] := by
    decide +kernel
  have hmem : ∀ a : Account, a ∈ [Account.restapi, .replication, .superuser] := by
    intro a
    cases a <;> decide
  have hall : defaultYml.restapi.password.chars.all (fun c => !separatesFields c) = true := by
    decide +kernel
  constructor
  · decide +kernel
  · exact fun c hc => by simpa using List.all_eq_true.mp hall c hc
  · decide +kernel
  · exact fun a => hundisturbed a (hmem a)

/-- (a) Without a password of the REST API the comment is read. (b) Five options of replication
hide the password of the superuser. (c) An option sslpassword is read in its place. (d) The name
of the superuser has its password read as the one of replication. -/
theorem comment_read_as_password :
    (Account.restapi.stdout (sampleYml "" "postgres" [] []).render = "password:".toList ∧
      superuserPasswordResult (sampleYml "patroni-pass" "postgres"
        (["mode", "key", "cert", "rootcert", "crl"].map (sslOption · "x")) []).render = none ∧
      superuserPasswordResult (sampleYml "patroni-pass" "postgres" []
        [sslOption "password" "key-pass"]).render = some "key-pass".toList ∧
      replicationPasswordResult (sampleYml "patroni-pass" "replication_admin" [] []).render =
        some "postgres-pass".toList) ∧
      ¬ ∀ y : PatroniYml, y.Recovered := by
  refine (and_iff_left_of_imp ?_).mpr (by decide +kernel)
  rintro ⟨hcomment, -⟩ h
  have hempty := (h (sampleYml "" "postgres" [] []) .restapi).symm.trans hcomment
  exact absurd hempty (by decide +kernel)

end PatroniCurrentPasswords
