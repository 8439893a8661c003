import Autobase.ConsoleFormInventory

/-! # Building a request

A request is built from the values of the form and, when it comes from the YAML editor, from an
object of custom extra vars. The object is handed over by reference and two of its fields are
deleted on the way, so a call has a result and leaves its arguments behind. -/
namespace ConsoleRequestFields

open ConsoleClusterForm ConsoleFormExtraVars ConsoleFormInventory ConsoleInventoryUpload JsonText
  ObjectLiterals
open ConsoleFormInventory (member getLocalMachineEnvs)

inductive CreationType where
  | form | yaml
  deriving DecidableEq

abbrev Object := List (String × Json)

/-- What a caller hands over. -/
structure RequestArguments where
  creationType : CreationType
  values : ClusterFormValues
  secretId : Option ℕ
  projectId : ℕ
  secretsInfo : Option (List (String × String))
  customExtraVars : Option Object

structure BaseObject where
  name : Option Json
  environmentId : Option Json
  description : Option Json
  authInfo : Option ℕ
  projectId : ℕ

structure RequestParams where
  envs : List String
  extraVars : Json
  existingCluster : Option Bool

structure RequestClusterCreate extends BaseObject, RequestParams

/-! ## Parameters -/

mutual
/-- Whether the text of a value is `true`; an object with a field of that name has no text. -/
def printsTrue : Json → Option Bool
  | .bool b => some b
  | .str s => some (s == "true")
  | .arr xs => (elementsPrintTrue xs).map fun bs => bs == [true]
  | .obj kvs => if (keys kvs).contains "toString" then none else some false
  | .null | .num _ => some false

def elementsPrintTrue : List Json → Option (List Bool)
  | [] => some []
  | x :: xs => (printsTrue x).bind fun b => (elementsPrintTrue xs).map (b :: ·)
end

/-- The fields of a secret, and what every object answers to. -/
def secretBodyFields : List String :=
  ["AWS_ACCESS_KEY_ID", "AWS_SECRET_ACCESS_KEY", "GCP_SERVICE_ACCOUNT_CONTENTS", "DO_API_TOKEN",
    "AZURE_SUBSCRIPTION_ID", "AZURE_CLIENT_ID", "AZURE_SECRET", "AZURE_TENANT",
    "HCLOUD_API_TOKEN", "SSH_PRIVATE_KEY", "USERNAME", "PASSWORD",
    "constructor", "toString", "toLocaleString", "valueOf", "hasOwnProperty", "isPrototypeOf",
    "propertyIsEnumerable", "__proto__", "__defineGetter__", "__defineSetter__",
    "__lookupGetter__", "__lookupSetter__"]

/-- Custom extra vars take the place of those that are made of the form. -/
def extraVarsOr (customExtraVars : Option Object) (made : Option Json) : Option Json :=
  customExtraVars.elim made fun custom => some (.obj custom)

def getRequestCloudParams (expert : Bool) (values : ClusterFormValues)
    (secretsInfo : Option (List (String × String))) (customExtraVars : Option Object) :
    Option RequestParams :=
  let secretsObject := (secretsInfo.getD []).filter fun kv =>
    secretBodyFields.contains kv.1 && kv.2 != ""
  let envs :=
    if values.provider.bind Provider.code = some "gcp" then
      convertObjectValueToBase64Format (secretsObject.map fun kv => (kv.1, .text kv.2))
    else some (secretsObject.map fun kv => kv.1 ++ ("=" ++ kv.2))
  envs.bind fun envs =>
    (extraVarsOr customExtraVars ((getBaseClusterExtraVars expert values).bind fun base =>
      (getCloudProviderExtraVars expert values).map fun cloud => record (base ++ cloud))).map
      fun extraVars => ⟨envs, extraVars, none⟩

def getRequestLocalMachineParams (expert : Bool) (creationType : CreationType)
    (values : ClusterFormValues) (secretId : Option ℕ) (customExtraVars : Option Object) :
    Option RequestParams :=
  (getLocalMachineEnvs expert values secretId).bind fun localEnvs =>
  (convertObjectValueToBase64Format localEnvs).bind fun envs =>
  (extraVarsOr customExtraVars (requestExtraVars expert values secretId)).bind fun extraVars =>
    let existingCluster : Option Bool :=
      match creationType with
      | .yaml =>
        (customExtraVars.bind fun c => c.lookup "existing_cluster").elim (some false) printsTrue
      | .form => some values.databaseServerExistingCluster
    existingCluster.map fun existing => ⟨envs, extraVars, some existing⟩

/-! ## The request -/

/-- The fields that are deleted from the custom extra vars. -/
def deletedFields : List String := ["environment_id", "description"]

def delete (field : String) (custom : Object) : Object := custom.filter fun kv => kv.1 != field

/-- Nothing is deleted from an empty object. -/
def deleteFields (custom : Object) : Object :=
  deletedFields.foldl (fun c field => if c.isEmpty then c else delete field c) custom

def baseObject (a : RequestArguments) : BaseObject :=
  let custom (field : String) := a.customExtraVars.bind fun c => c.lookup field
  let secretId := a.secretId.filter (· ≠ 0)
  match a.creationType with
  | .yaml => ⟨custom "patroni_cluster_name", custom "environment_id", custom "description",
      secretId, a.projectId⟩
  | .form => ⟨text a.values.clusterName, a.values.environment.map natural,
      text a.values.description, secretId, a.projectId⟩

/-- Custom extra vars tell the provider in the editor, and the form does otherwise. -/
def forCloud (a : RequestArguments) : Bool :=
  match a.creationType with
  | .yaml => truthy (a.customExtraVars.bind fun c => c.lookup "cloud_provider")
  | .form => !isLocal a.values

/-- The request, unless the mapping throws, and the arguments after the call. -/
def mapFormValuesToRequestFields (expert : Bool) (a : RequestArguments) :
    Option RequestClusterCreate × RequestArguments :=
  let base := baseObject a
  let a := { a with customExtraVars := a.customExtraVars.map deleteFields }
  let params :=
    if forCloud a then
      getRequestCloudParams expert a.values a.secretsInfo a.customExtraVars
    else
      getRequestLocalMachineParams expert a.creationType a.values a.secretId a.customExtraVars
  (params.map fun params => ⟨base, params⟩, a)

/-- What the second of two calls with the same objects gives. -/
def calledAgain (expert : Bool) (a : RequestArguments) : Option RequestClusterCreate :=
  (mapFormValuesToRequestFields expert (mapFormValuesToRequestFields expert a).2).1

/-- The second call gives the same request, and the arguments are as they were. -/
structure Reusable (expert : Bool) (a : RequestArguments) : Prop where
  equal : calledAgain expert a = (mapFormValuesToRequestFields expert a).1
  unchanged : (mapFormValuesToRequestFields expert a).2 = a

/-! ## Deletion -/

variable {custom : Object}

theorem deleteFields_eq (custom : Object) :
    deleteFields custom = custom.filter fun kv => !deletedFields.contains kv.1 := by
  have hskip : ∀ (field : String) (c : Object),
      (if c.isEmpty then c else delete field c) = delete field c := by
    intro field c
    cases c with
    | nil => rfl
    | cons a c => rfl
  simp only [deleteFields, deletedFields, List.foldl_cons, List.foldl_nil, hskip]
  rw [delete, delete, List.filter_filter]
  refine List.filter_congr fun kv _ => ?_
  by_cases h : kv.1 = "environment_id" <;> by_cases k : kv.1 = "description" <;> simp [h, k]

/-- Objects without the fields stay as they are, and the other ones do not. -/
theorem deleteFields_eq_self_iff :
    deleteFields custom = custom ↔ ∀ field ∈ deletedFields, field ∉ keys custom := by
  rw [deleteFields_eq, List.filter_eq_self]
  constructor
  · intro h field hfield hmem
    obtain ⟨kv, hkv, rfl⟩ := List.mem_map.mp hmem
    have hkept := h kv hkv
    rw [List.contains_iff_mem.mpr hfield] at hkept
    cases hkept
  · intro h kv hkv
    rw [Bool.not_eq_true', List.contains_eq_mem, decide_eq_false_iff_not]
    exact fun hmem => h kv.1 hmem (List.mem_map_of_mem hkv)

theorem lookup_deleteFields {field : String} (h : field ∈ deletedFields) (custom : Object) :
    (deleteFields custom).lookup field = none := by
  refine lookup_of_notMem fun hmem => ?_
  obtain ⟨kv, hkv, rfl⟩ := List.mem_map.mp hmem
  rw [deleteFields_eq, List.mem_filter, List.contains_iff_mem.mpr h] at hkv
  exact absurd hkv.2 Bool.false_ne_true

theorem lookup_deleteFields_other {field : String} (h : field ∉ deletedFields)
    (custom : Object) : (deleteFields custom).lookup field = custom.lookup field := by
  rw [deleteFields_eq]
  induction custom with
  | nil => rfl
  | cons kv custom ih =>
    rw [List.filter_cons]
    split
    · rw [lookup_cons_eq, lookup_cons_eq, ih]
    · next hdeleted =>
      have hmem : kv.1 ∈ deletedFields := by simpa using hdeleted
      rw [ih, lookup_cons_eq, if_neg]
      rintro rfl
      exact h hmem

theorem deleteFields_deleteFields (custom : Object) :
    deleteFields (deleteFields custom) = deleteFields custom := by
  rw [deleteFields_eq_self_iff]
  intro field hfield hmem
  obtain ⟨kv, hkv, rfl⟩ := List.mem_map.mp hmem
  rw [deleteFields_eq, List.mem_filter, List.contains_iff_mem.mpr hfield] at hkv
  exact absurd hkv.2 Bool.false_ne_true

/-! ## Two calls -/

variable {expert : Bool} {a : RequestArguments}

theorem after_eq_self_iff : (mapFormValuesToRequestFields expert a).2 = a ↔
    ∀ custom ∈ a.customExtraVars, ∀ field ∈ deletedFields, field ∉ keys custom := by
  obtain ⟨creationType, values, secretId, projectId, secretsInfo, customExtraVars⟩ := a
  cases customExtraVars with
  | none => simp [mapFormValuesToRequestFields]
  | some custom =>
    simp only [mapFormValuesToRequestFields, Option.map_some, RequestArguments.mk.injEq, true_and,
      Option.some.injEq, Option.mem_def, forall_eq']
    exact deleteFields_eq_self_iff

/-- A second call from the editor no longer knows the environment and the description. -/
theorem calledAgain_yaml (h : a.creationType = .yaml) : calledAgain expert a =
    (mapFormValuesToRequestFields expert a).1.map fun r =>
      { r with environmentId := none, description := none } := by
  obtain ⟨creationType, values, secretId, projectId, secretsInfo, customExtraVars⟩ := a
  obtain rfl : creationType = .yaml := h
  cases customExtraVars with
  | none =>
    simp only [calledAgain, mapFormValuesToRequestFields, Option.map_none, Option.map_map]
    rfl
  | some custom =>
    simp only [calledAgain, mapFormValuesToRequestFields, Option.map_some,
      deleteFields_deleteFields, Option.map_map]
    refine congrArg (Option.map · _) (funext fun params => ?_)
    simp only [Function.comp_apply, baseObject, Option.bind_some]
    have henvironment : "environment_id" ∈ deletedFields := by
      decide
    have hdescription : "description" ∈ deletedFields := by
      decide
    have hname : "patroni_cluster_name" ∉ deletedFields := by
      decide
    rw [lookup_deleteFields henvironment, lookup_deleteFields hdescription,
      lookup_deleteFields_other hname]

/-- From the editor the requests are equal exactly when the deleted fields were not there. -/
theorem requests_equal_iff (h : a.creationType = .yaml) {r : RequestClusterCreate}
    (hr : (mapFormValuesToRequestFields expert a).1 = some r) :
    calledAgain expert a = some r ↔
      ∀ custom ∈ a.customExtraVars, ∀ field ∈ deletedFields, custom.lookup field = none := by
  rw [calledAgain_yaml h, hr, Option.map_some, Option.some.injEq]
  obtain ⟨params, -, rfl⟩ := Option.map_eq_some_iff.mp hr
  obtain ⟨creationType, values, secretId, projectId, secretsInfo, customExtraVars⟩ := a
  obtain rfl : creationType = .yaml := h
  rw [RequestClusterCreate.mk.injEq]
  cases customExtraVars with
  | none => simp [baseObject]
  | some custom => simp [baseObject, deletedFields, eq_comm (a := (none : Option Json))]

/-- A call leaves its arguments fit for another one exactly when there is nothing to delete. -/
theorem reusable_iff (expert : Bool) (a : RequestArguments) : Reusable expert a ↔
    ∀ custom ∈ a.customExtraVars, ∀ field ∈ deletedFields, field ∉ keys custom := by
  have hself : (mapFormValuesToRequestFields expert a).2 = a ↔ _ := after_eq_self_iff
  rw [← hself]
  constructor
  · intro h
    exact h.unchanged
  · intro h
    refine ⟨?_, h⟩
    rw [calledAgain, h]

/-- What the editor makes of a form of one local machine, with an environment. -/
def editedForm : RequestArguments where
  creationType := .yaml
  values := { provider := some ⟨some "local"⟩, databaseServers := some [{}] }
  secretId := some 1
  projectId := 1
  secretsInfo := none
  customExtraVars := some [("patroni_cluster_name", .str "postgres-cluster-01"),
    ("environment_id", natural 1)]

/-- Submitting again loses the environment. -/
theorem environment_lost : ¬ ∀ (expert : Bool) (a : RequestArguments), Reusable expert a := by
  intro h
  have hmade : (mapFormValuesToRequestFields false editedForm).1.isSome = true := by
    decide +kernel
  obtain ⟨r, hr⟩ := Option.isSome_iff_exists.mp hmade
  have hequal := (h false editedForm).equal.trans hr
  have hlost := (requests_equal_iff rfl hr).mp hequal _ rfl "environment_id" (by decide)
  cases hlost

end ConsoleRequestFields
