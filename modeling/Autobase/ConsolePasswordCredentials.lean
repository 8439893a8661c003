import Autobase.ConsoleFormInventory
import Autobase.ConsoleSecretFlow

/-! # A user and a password on their way to the playbook

The form writes both into the inventory and, unless a stored secret has them, into the extra
vars. The server writes the ones of a stored secret into the extra vars. -/
namespace ConsolePasswordCredentials

open ConsoleClusterForm ConsoleFormExtraVars ConsoleFormInventory ConsoleParameters
  ConsolePostCluster ConsoleSecretFlow JsonText ObjectLiterals

/-- What each variable should hold. -/
def expected (u p : String) : List (String × String) :=
  [("ansible_user", u), ("ansible_ssh_pass", p), ("ansible_sudo_pass", p)]

/-- A path to the playbook gives some variables a value. -/
abbrev Path := String → Option Json

def inventoryPath (values : ClusterFormValues) : Path := fun name =>
  member name (record (inventoryVars values))

def extraVarsPath (expert : Bool) (values : ClusterFormValues) (secretId : Option ℕ) : Path :=
  fun name => member name (record (getLocalMachineExtraVars expert values secretId))

def formPaths (expert : Bool) (values : ClusterFormValues) (secretId : Option ℕ) : List Path :=
  [inventoryPath values, extraVarsPath expert values secretId]

def serverPath (b : Body) (secret : List String × ParamLocation) (proxy : Option Json) : Path :=
  fun name => (allExtraVars b secret proxy).lookup name

/-- No path gives a wrong value, and both the form and the server give every value. -/
structure PathsAgree (form : List Path) (server : Path) (u p : String) : Prop where
  right : ∀ path ∈ server :: form, ∀ a ∈ expected u p, ∀ v ∈ path a.1, v = .str a.2
  form : ∀ a ∈ expected u p, ∃ path ∈ form, (path a.1).isSome
  server : ∀ a ∈ expected u p, (server a.1).isSome

def PathsAssign (form : List Path) (server : Path) (u p : String) : Prop :=
  ∀ path ∈ server :: form, ∀ a ∈ expected u p, path a.1 = some (.str a.2)

/-! ## The extra vars of the form -/

variable {expert : Bool} {values : ClusterFormValues} {secretId : Option ℕ} {u p : String}

def credentialNames : List String := ["ansible_user", "ansible_ssh_pass", "ansible_sudo_pass"]

/-- Fields on either side do not matter to the names of a user and a password. -/
theorem member_between {before fields after : Fields} (hb : Avoids credentialNames before)
    (ha : Avoids credentialNames after)
    {name : String} (hname : name ∈ credentialNames) :
    member name (record (before ++ (fields ++ after))) = member name (record fields) := by
  rw [member_record, member_record, List.reverse_append, List.reverse_append, List.lookup_append,
    List.lookup_append, ha.lookup hname, hb.lookup hname, Option.none_or, Option.or_none]

def credentialFields (values : ClusterFormValues) (secretId : Option ℕ) : Fields :=
  if sendsCredentials values secretId then
    [("ansible_user", text values.username), ("ansible_ssh_pass", text values.password)]
  else []

theorem avoids_dcsExtraVars : Avoids credentialNames (dcsExtraVars values) := by
  rw [dcsExtraVars]
  refine .ite avoids_nil (.append ?_ (.ite ?_ ?_)) <;>
    exact avoids_of_keys (by simp [setTrue, credentialNames])

theorem avoids_common : Avoids credentialNames (getCommonExtraVars values) :=
  avoids_of_keys (by simp [getCommonExtraVars, credentialNames])

theorem extraVarsPath_eq {name : String} (hname : name ∈ credentialNames) :
    extraVarsPath expert values secretId name =
      member name (record (credentialFields values secretId)) := by
  rw [extraVarsPath, getLocalMachineExtraVars, ← List.append_assoc, ← List.append_assoc,
    ← List.append_assoc]
  refine member_between (.append (.append (.append avoids_common (.ite ?_ avoids_nil))
    (.ite ?_ avoids_nil)) (.ite ?_ avoids_nil)) (.ite (avoids_cons ?_ (.append
      avoids_dcsExtraVars ?_)) avoids_nil) hname
  · exact avoids_of_keys (by simp [credentialNames])
  · exact avoids_of_keys (by simp [setTrue, credentialNames])
  · exact avoids_of_keys (by simp [setTrue, credentialNames])
  · simp [credentialNames]
  · exact avoids_of_keys (by simp [credentialNames])

/-! ## What goes to the server -/

/-! ## Agreement -/

theorem inventoryPath_eq (hmethod : values.authenticationMethod = some "password")
    (hu : values.username = some u) (hp : values.password = some p) :
    inventoryPath values "ansible_user" = some (.str u) ∧
    inventoryPath values "ansible_ssh_pass" = some (.str u) ∧
    inventoryPath values "ansible_sudo_pass" = some (.str p) := by
  simp only [inventoryPath, inventoryVars, if_pos hmethod, hu, hp]
  exact ⟨rfl, rfl, rfl⟩

theorem extraVarsPath_cases (hu : values.username = some u) (hp : values.password = some p)
    (a : String × String) (ha : a ∈ expected u p) :
    extraVarsPath expert values secretId a.1 = none ∨
      extraVarsPath expert values secretId a.1 = some (.str a.2) := by
  have hnames : ∀ a ∈ expected u p, a.1 ∈ credentialNames := by
    simp [expected, credentialNames]
  rw [extraVarsPath_eq (hnames a ha), credentialFields, hu, hp]
  simp only [expected, List.mem_cons, List.not_mem_nil, or_false] at ha
  split
  · rcases ha with rfl | rfl | rfl
    · exact Or.inr rfl
    · exact Or.inr rfl
    · exact Or.inl rfl
  · exact Or.inl rfl

/-- The extra vars of the form never say how to become root. -/
theorem extraVarsPath_sudo : extraVarsPath expert values secretId "ansible_sudo_pass" = none := by
  rw [extraVarsPath_eq (by decide), credentialFields, member_record]
  split <;> rfl

theorem serverPath_eq {value : Json} (hv : credentials value = some [u, p])
    {secret : List String × ParamLocation} (hs : secretEnvs passwordType value = some secret)
    (b : Body) (proxy : Option Json) (a : String × String) (ha : a ∈ expected u p) :
    serverPath b secret proxy a.1 = some (.str a.2) := by
  rw [secretEnvs_password, hv] at hs
  obtain rfl := Option.some.inj hs
  obtain ⟨huser, hssh, hsudo⟩ := password_vars b proxy u p
  simp only [expected, List.mem_cons, List.not_mem_nil, or_false] at ha
  rcases ha with rfl | rfl | rfl
  · exact huser
  · exact hssh
  · exact hsudo

/-- The paths agree exactly when the password is the user's name, and some path always leaves a
variable out. -/
theorem credentials_agree_iff (expert : Bool) (values : ClusterFormValues) (secretId : Option ℕ)
    (u p : String) (value : Json) (secret : List String × ParamLocation) (b : Body)
    (proxy : Option Json) (hmethod : values.authenticationMethod = some "password")
    (hu : values.username = some u) (hp : values.password = some p)
    (hv : credentials value = some [u, p]) (hs : secretEnvs passwordType value = some secret) :
    (PathsAgree (formPaths expert values secretId) (serverPath b secret proxy) u p ↔ u = p) ∧
      ¬ PathsAssign (formPaths expert values secretId) (serverPath b secret proxy) u p := by
  obtain ⟨huser, hssh, hsudo⟩ := inventoryPath_eq hmethod hu hp
  have hserver := serverPath_eq hv hs b proxy
  refine ⟨⟨fun h => ?_, ?_⟩, fun h => ?_⟩
  · have hright := h.right (inventoryPath values) (by simp [formPaths])
      ("ansible_ssh_pass", p) (by simp [expected]) (.str u) hssh
    exact Json.str.inj hright
  · rintro rfl
    have hinventory : ∀ a ∈ expected u u, inventoryPath values a.1 = some (.str a.2) := by
      simp only [expected, List.forall_mem_cons]
      exact ⟨huser, hssh, hsudo, List.forall_mem_nil _⟩
    refine ⟨fun path hpath a ha v hav => ?_, fun a ha => ?_, fun a ha => ?_⟩
    · simp only [formPaths, List.mem_cons, List.not_mem_nil, or_false] at hpath
      rcases hpath with rfl | rfl | rfl
      · exact Option.some.inj (hav.symm.trans (hserver a ha))
      · exact Option.some.inj (hav.symm.trans (hinventory a ha))
      · rcases extraVarsPath_cases hu hp a ha with hnone | hsome
        · exact absurd (hnone.symm.trans hav) (Option.some_ne_none v).symm
        · exact Option.some.inj (hav.symm.trans hsome)
    · exact ⟨inventoryPath values, List.mem_cons_self, by simp [hinventory a ha]⟩
    · rw [hserver a ha]
      rfl
  · have hassign := h (extraVarsPath expert values secretId) (by simp [formPaths])
      ("ansible_sudo_pass", p) (by simp [expected])
    exact absurd (extraVarsPath_sudo.symm.trans hassign) (Option.some_ne_none _).symm

def passwordForm (u p : String) : ClusterFormValues :=
  filledIn false false [.provider ⟨some "local"⟩ none none none,
    .databaseServers ⟨false, some [⟨some "pg1", some "10.0.0.1", some "", none⟩]⟩,
    .authentication
      { authenticationMethod := some "password", username := some u, password := some p }]

def passwordSecret (u p : String) : List String × ParamLocation :=
  (passwordKind.envs [u, p], .extraVars)

theorem credentials_root : credentials (passwordValue "root") = some ["root", "root"] := by
  decide +kernel

/-- A user whose password is its name. -/
theorem credentials_agree_root :
    (PathsAgree (formPaths false (passwordForm "root" "root") none)
        (serverPath deployBody (passwordSecret "root" "root") none) "root" "root" ↔
          "root" = "root") ∧
      ¬ PathsAssign (formPaths false (passwordForm "root" "root") none)
        (serverPath deployBody (passwordSecret "root" "root") none) "root" "root" :=
  credentials_agree_iff false (passwordForm "root" "root") none "root" "root"
    (passwordValue "root") (passwordSecret "root" "root") deployBody none rfl rfl rfl
    credentials_root (by rw [secretEnvs_password, credentials_root]; rfl)

/-- The inventory logs in with the user's name for a password. -/
theorem user_sent_as_password : ¬ ∀ values : ClusterFormValues, isLocal values = true →
    localFormSchema dottedQuad false values = true →
    values.authenticationMethod = some "password" → ∀ u p, values.username = some u →
    values.password = some p → PathsAgree (formPaths false values none)
      (serverPath deployBody (passwordSecret u p) none) u p := by
  intro h
  have hagree := h (passwordForm "root" "secret") rfl (by decide +kernel) rfl "root" "secret"
    rfl rfl
  have hssh : inventoryPath (passwordForm "root" "secret") "ansible_ssh_pass" =
      some (.str "root") := (inventoryPath_eq rfl rfl rfl).2.1
  have hvalue := hagree.right _ (List.mem_cons_of_mem _ List.mem_cons_self)
    ("ansible_ssh_pass", "secret") (by simp [expected]) _ hssh
  exact absurd (Json.str.inj hvalue) (by decide)

end ConsolePasswordCredentials
