import Autobase.Base64Text
import Autobase.Utf8Text
import Autobase.JsonNewline
import Autobase.ConsoleLogPaths
import Autobase.ConsoleSecretFlow

/-! # The inventory of a deployment

The handler of POST /clusters looks for the inventory under any spelling of its name and takes
the first one. The entrypoint of the container has the variable of this very name, with the
last value that was assigned to it, and a test of its own for base64. -/
namespace ConsoleInventoryFile

open ConsoleSchema ConsoleStatements ConsolePostCluster ConsolePostClusterFailure
open ConsoleSecretFlow ConsoleLogPaths JsonText JsonNewline Utf8Text
open Base64Text hiding digit?

def inventoryJsonEnv : String := "ANSIBLE_INVENTORY_JSON"

/-! ## The entrypoint -/

/-- What `base64 -d` has written when it stops at input that is no base64. -/
structure Shell where
  salvage : List Char → List UInt8

def base64Char (c : Char) : Bool := (Base64Text.digit? c).isSome || c = '='

def isBase64 (value : List Char) : Bool := !value.isEmpty && value.all base64Char

/-- An argument that `echo` takes for its options. -/
def echoOptions : List Char → Bool
  | '-' :: c :: cs => (c :: cs).all fun c => c = 'n' || c = 'e' || c = 'E'
  | _ => false

def echo (value : List Char) : List Char :=
  if echoOptions value then (if value.contains 'n' then [] else ['\n']) else ended value

def base64D (S : Shell) (input : List Char) : List UInt8 := (decode input).getD (S.salvage input)

/-- The text of inventory.json, if the file is created. -/
def inventoryFile (S : Shell) (envs : List String) : Option (List Char) :=
  let value := ((envValue inventoryJsonEnv envs).getD "").toList
  if value = [] then none
  else if isBase64 value then some (readText (base64D S (echo value)))
  else some (echo value)

/-! ## Readers of an inventory -/

/-- The value of a text the handler takes for an inventory. -/
def inventoryIn (text : List Char) : Option Json :=
  (parse text).filter fun v => (unmarshalInventory v).isSome

def handlerReads (raw : List Char) : Option Json :=
  if raw = [] then none else inventoryIn (((decode raw).map readText).getD raw)

/-- The decoder of the handler is the one of the standard alphabet. -/
def Standard (C : Circumstances) : Prop :=
  ∀ s : String, C.decodeBase64 s = (decode s.toList).map fun bs => String.ofList (readText bs)

/-- What the row records, the container is given; where a local deployment records nothing,
the container is given no inventory. -/
structure Deployed (S : Shell) (a : Answer) (envs : List String) : Prop where
  recorded : ∀ row v, writtenRow a = some row → row.inventory = some v →
    (inventoryFile S envs).bind parse = some v
  unrecorded : ∀ row m, writtenRow a = some row → row.inventory = none →
    row.extraVars = some (.obj m) → getValFromExtraVars m "cloud_provider" = "" →
    (inventoryFile S envs).bind inventoryIn = none

/-- Base64 written in lines: the decoder of the handler passes over the line breaks. -/
def lined (value : List Char) : Bool := (decode value).isSome && value.any isBreak

/-- The letters of base64, which do not decode. -/
def damaged (value : List Char) : Bool := isBase64 value && !(decode value).isSome

/-- The first assignment in any case reads as what the container makes of the last exact one.
The container takes base64 in lines for plain text and keeps what is decoded of a damaged one. -/
structure ReadsAlike (S : Shell) (envs : List String) : Prop where
  whole : ∀ value, ((envValue inventoryJsonEnv envs).getD "").toList = value →
    lined value = false → damaged value = false →
    handlerReads (getValFromVars inventoryJsonEnv envs).toList = handlerReads value
  lined : ∀ value, ((envValue inventoryJsonEnv envs).getD "").toList = value →
    lined value = true → handlerReads (getValFromVars inventoryJsonEnv envs).toList =
      inventoryIn value
  damaged : ∀ value, ((envValue inventoryJsonEnv envs).getD "").toList = value →
    damaged value = true → handlerReads (getValFromVars inventoryJsonEnv envs).toList =
      inventoryIn (readText (S.salvage (ended value)))

/-! ## One value in the container -/

theorem base64Char_iff (c : Char) :
    base64Char c = true ↔ (Base64Text.digit? c).isSome ∨ c = '=' := by
  simp [base64Char]

theorem solid_of_base64Char {c : Char} (h : base64Char c = true) : isBreak c = false := by
  cases hb : isBreak c with
  | false => rfl
  | true =>
    simp only [isBreak, Bool.or_eq_true, decide_eq_true_eq] at hb
    rcases hb with rfl | rfl
    · revert h; decide
    · revert h; decide

theorem isBase64_of_decodes {value : List Char} (hne : value ≠ [])
    (hd : (decode value).isSome) (hs : value.any isBreak = false) : isBase64 value = true := by
  obtain ⟨bs, hbs⟩ := Option.isSome_iff_exists.mp hd
  simp only [isBase64, Bool.and_eq_true, Bool.not_eq_true', List.isEmpty_eq_false_iff,
    List.all_eq_true]
  refine ⟨hne, fun c hc => (base64Char_iff c).mpr ?_⟩
  rcases decode_chars hbs hc with h | h | h
  · exact Or.inl h
  · exact Or.inr h
  · exact absurd h (by simpa using List.any_eq_false.mp hs c hc)

theorem not_isBase64_of_break {value : List Char} (h : value.any isBreak = true) :
    isBase64 value = false := by
  obtain ⟨c, hc, hb⟩ := List.any_eq_true.mp h
  rw [Bool.eq_false_iff]
  intro hv
  simp only [isBase64, Bool.and_eq_true, List.all_eq_true] at hv
  rw [solid_of_base64Char (hv.2 c hc)] at hb
  cases hb

theorem echo_base64 {value : List Char} (h : isBase64 value = true) : echo value = ended value := by
  have hno : echoOptions value = false := by
    rw [Bool.eq_false_iff]
    intro ho
    unfold echoOptions at ho
    split at ho
    · simp [isBase64, base64Char, Base64Text.digit?] at h
    · cases ho
  simp [echo, hno]

/-- The argument of `echo` that is lost for its options is no JSON text. -/
theorem parse_echo (value : List Char) : parse (echo value) = parse value := by
  rw [echo]
  split
  · next ho =>
    have hlost : parse (if value.contains 'n' then [] else ['\n']) = none := by
      split <;> rfl
    rw [hlost]
    unfold echoOptions at ho
    split at ho
    · next c cs =>
      have hc := List.all_eq_true.mp ho c List.mem_cons_self
      simp only [Bool.or_eq_true, decide_eq_true_eq] at hc
      rcases hc with (rfl | rfl) | rfl
      · rfl
      · rfl
      · rfl
    · cases ho
  · exact parse_ended value

theorem inventoryIn_echo (value : List Char) : inventoryIn (echo value) = inventoryIn value := by
  rw [inventoryIn, inventoryIn, parse_echo]

theorem decode_ended (value : List Char) : decode (ended value) = decode value :=
  decode_break value rfl

/-- What the container reads for an inventory when the variable has the value. -/
def containerReads (S : Shell) (value : List Char) : Option Json :=
  if lined value then inventoryIn value
  else if damaged value then inventoryIn (readText (S.salvage (ended value)))
  else handlerReads value

theorem inventoryFile_reads (S : Shell) (envs : List String) :
    (inventoryFile S envs).bind inventoryIn =
      containerReads S ((envValue inventoryJsonEnv envs).getD "").toList := by
  rw [inventoryFile]
  generalize ((envValue inventoryJsonEnv envs).getD "").toList = value
  by_cases hne : value = []
  · subst hne
    rfl
  simp only [hne, if_false]
  cases hb : isBase64 value with
  | true =>
    have hline : lined value = false := by
      cases hany : value.any isBreak with
      | true => rw [not_isBase64_of_break hany] at hb; cases hb
      | false => simp [lined, hany]
    simp only [containerReads, hline, damaged, hb, base64D, echo_base64 hb, decode_ended,
      if_true, Bool.true_and, Option.bind_some, handlerReads, hne, if_false, Bool.false_eq_true]
    cases decode value with
    | none => simp
    | some bs => simp
  | false =>
    have hwhole : damaged value = false := by simp [damaged, hb]
    simp only [containerReads, hwhole, Bool.false_eq_true, if_false, Option.bind_some,
      inventoryIn_echo]
    cases hline : lined value with
    | true => simp
    | false =>
      -- without a line break it would have been taken for base64
      have hnone : decode value = none := by
        cases hd : decode value with
        | none => rfl
        | some bs =>
          have hsome : (decode value).isSome := by simp [hd]
          have hany : value.any isBreak = false := by simpa [lined, hd] using hline
          rw [isBase64_of_decodes hne hsome hany] at hb
          cases hb
      simp [handlerReads, hne, hnone]

theorem readsAlike_iff (S : Shell) (envs : List String) :
    ReadsAlike S envs ↔ handlerReads (getValFromVars inventoryJsonEnv envs).toList =
      containerReads S ((envValue inventoryJsonEnv envs).getD "").toList := by
  constructor
  · intro h
    rw [containerReads]
    split
    · next hl => exact h.lined _ rfl hl
    · next hl =>
      split
      · next hd => exact h.damaged _ rfl hd
      · next hd => exact h.whole _ rfl (by simpa using hl) (by simpa using hd)
  · intro h
    refine ⟨?_, ?_, ?_⟩
    · rintro _ rfl hl hd
      simpa [containerReads, hl, hd] using h
    · rintro _ rfl hl
      simpa [containerReads, hl] using h
    · rintro _ rfl hd
      have hl : lined ((envValue inventoryJsonEnv envs).getD "").toList = false := by
        cases hany : List.any ((envValue inventoryJsonEnv envs).getD "").toList isBreak with
        | true => simp [damaged, not_isBase64_of_break hany] at hd
        | false => simp [lined, hany]
      simpa [containerReads, hl, hd] using h

/-! ## The envs of the container -/

theorem envValue_append (key : String) (xs ys : List String) :
    envValue key (xs ++ ys) = (envValue key ys).or (envValue key xs) := by
  simp [envValue, List.findSome?_append]

theorem envValue_eq_none {key : String} {kvs : List String}
    (h : ∀ kv ∈ kvs, ∀ k v, splitAssignment kv.toList = some (k, v) → k ≠ key.toList) :
    envValue key kvs = none := by
  rw [envValue, List.findSome?_eq_none_iff]
  intro kv hkv
  cases hs : splitAssignment kv.toList with
  | none => rfl
  | some p =>
    obtain ⟨k, v⟩ := p
    simp [h kv (List.mem_reverse.mp hkv) k v hs]

theorem splitAssignment_var (name : String) (hname : '=' ∉ name.toList) (v : String) :
    splitAssignment (name ++ ("=" ++ v)).toList = some (name.toList, v.toList) := by
  rw [String.toList_append, String.toList_append]
  exact splitAssignment_append hname

theorem kind_names : ∀ k ∈ secretKinds, ∀ v ∈ k.2.vars, '=' ∉ v.1.toList ∧
    v.1.toList ≠ inventoryJsonEnv.toList ∧ v.1 ≠ "cloud_provider" := by
  decide

variable {C : Circumstances} {b : Body} {d : Db} {r : List String × ParamLocation}

/-- Neither the secret nor the log file touches the variable. -/
theorem envValue_inventory (h : secretOf C b d = .ok r) :
    envValue inventoryJsonEnv (allEnvs b r) = envValue inventoryJsonEnv b.envs := by
  obtain ⟨type, v, hr⟩ := secretOf_envs h
  have hadded : envValue inventoryJsonEnv
      ((if r.2 = .env then r.1 else []) ++ getAnsibleLogEnv b.name) = none := by
    apply envValue_eq_none
    intro kv hkv k v hs hk
    rcases List.mem_append.mp hkv with hkv | hkv
    · rcases secretEnvs_cases hr with rfl | ⟨kind, values, hkind, -, rfl⟩
      · simp at hkv
      · split at hkv
        · obtain ⟨u, hu, rfl⟩ := List.mem_map.mp hkv
          obtain ⟨heq, hname, -⟩ := kind_names _ hkind u hu
          rw [splitAssignment_var _ heq] at hs
          exact hname ((Prod.mk.inj (Option.some.inj hs)).1.trans hk)
        · cases hkv
    · obtain rfl := List.mem_singleton.mp hkv
      have hlog := splitAssignment_var "ANSIBLE_JSON_LOG_FILE" (by decide)
        (ansibleLogDir ++ ("/" ++ (b.name ++ ".json")))
      have heq : "ANSIBLE_JSON_LOG_FILE" ++
          ("=" ++ (ansibleLogDir ++ ("/" ++ (b.name ++ ".json")))) =
          "ANSIBLE_JSON_LOG_FILE=" ++ (ansibleLogDir ++ ("/" ++ (b.name ++ ".json"))) := by
        rw [← String.append_assoc]
        rfl
      rw [heq, hs] at hlog
      rw [(Prod.mk.inj (Option.some.inj hlog)).1] at hk
      exact absurd hk (by decide)
  rw [allEnvs, envValue_append, hadded, Option.none_or]

theorem getValFromVars_inventory (h : secretOf C b d = .ok r) :
    getValFromVars inventoryJsonEnv (allEnvs b r) = getValFromVars inventoryJsonEnv b.envs := by
  obtain ⟨type, v, hr⟩ := secretOf_envs h
  have hlog : ∀ kv ∈ getAnsibleLogEnv b.name,
      ((inventoryJsonEnv.toList.map toLowerRune) ++ ['=']).isPrefixOf
        (kv.toList.map toLowerRune) = false := by
    intro kv hkv
    obtain rfl := List.mem_singleton.mp hkv
    rw [Bool.eq_false_iff]
    intro hp
    have htake := prefix_take hp (n := 9) (by decide)
    rw [String.toList_append, List.map_append, List.take_append_of_le_length (by decide)] at htake
    exact absurd htake (by decide)
  have hskip := getValFromVars_skip hlog b.envs []
  rw [List.append_nil, List.append_nil] at hskip
  exact (getValFromVars_secret b hr).trans hskip

/-- The cloud provider of a request is the one of its body. -/
theorem cloud_provider_body (h : secretOf C b d = .ok r) (proxy : Option Json) :
    getValFromExtraVars (allExtraVars b r proxy) "cloud_provider" =
      getValFromExtraVars (bodyVars b) "cloud_provider" := by
  obtain ⟨type, v, hr⟩ := secretOf_envs h
  have hlookup : (if r.2 = .extraVars then r.1.foldl setAssignment (bodyVars b)
      else bodyVars b).lookup "cloud_provider" = (bodyVars b).lookup "cloud_provider" := by
    rcases secretEnvs_cases hr with rfl | ⟨kind, values, hkind, -, rfl⟩
    · rfl
    · split
      · apply lookup_setAssignments
        intro u hu
        obtain ⟨heq, -, hne⟩ := kind_names _ hkind u hu
        exact ⟨heq, hne⟩
      · rfl
  have hall : (allExtraVars b r proxy).lookup "cloud_provider" =
      (bodyVars b).lookup "cloud_provider" := by
    rw [← hlookup]
    cases proxy with
    | none => rfl
    | some v =>
      simp only [allExtraVars, lookup_setVar]
      rw [if_neg (by decide)]
  simp only [getValFromExtraVars, hall]

/-! ## The request -/

theorem readInventory_handlerReads (hC : Standard C) (envs : List String) :
    (readInventory C envs).map Prod.fst =
      handlerReads (getValFromVars inventoryJsonEnv envs).toList := by
  have hempty : ∀ s : String, s = "" ↔ s.toList = [] := by
    intro s
    rw [← String.toList_inj]
    rfl
  rw [readInventory, handlerReads]
  rw [show "ANSIBLE_INVENTORY_JSON" = inventoryJsonEnv from rfl]
  generalize getValFromVars inventoryJsonEnv envs = raw
  by_cases hraw : raw.toList = []
  · simp [(hempty raw).mpr hraw]
  · have htext : ((C.decodeBase64 raw).getD raw).toList =
        ((decode raw.toList).map readText).getD raw.toList := by
      rw [hC raw]
      cases decode raw.toList with
      | none => rfl
      | some bs => simp
    simp only [(hempty raw).not.mpr hraw, hraw, if_false, htext, inventoryIn]
    cases parse (((decode raw.toList).map readText).getD raw.toList) with
    | none => rfl
    | some v =>
      cases hv : unmarshalInventory v <;> simp [Option.filter, hv]

/-- A deployment without a cloud provider. -/
def isLocal (b : Body) : Prop := getValFromExtraVars (bodyVars b) "cloud_provider" = ""

theorem prepare_inventory (hC : Standard C) (h : secretOf C b d = .ok r) (proxy : Option Json) :
    (isLocal b → (prepare C b r proxy).inventory.map Prod.fst =
        handlerReads (getValFromVars inventoryJsonEnv b.envs).toList) ∧
      (¬ isLocal b → (prepare C b r proxy).inventory = none) := by
  have hcloud := cloud_provider_body h proxy
  rw [prepare, isLocal]
  constructor
  · intro hlocal
    rw [← hcloud] at hlocal
    simp only [hlocal, if_true]
    rw [readInventory_handlerReads hC, getValFromVars_inventory h]
  · intro hcloudy
    rw [← hcloud] at hcloudy
    simp only [hcloudy, if_false]

theorem recorded_iff {p : Json → Bool} (o stored : Option Json)
    (hp : ∀ v, stored = some v → p v = true) :
    ((∀ v, stored = some v → o = some v) ∧ (stored = none → o.filter p = none)) ↔
      stored = o.filter p := by
  cases stored with
  | none =>
    exact ⟨fun h => (h.2 rfl).symm, fun h => ⟨fun v hv => (nomatch hv), fun _ => h.symm⟩⟩
  | some v =>
    have hv := hp v rfl
    constructor
    · rintro ⟨hsome, -⟩
      rw [hsome v rfl]
      simp [Option.filter, hv]
    · intro h
      refine ⟨fun w hw => ?_, fun hno => nomatch hno⟩
      obtain rfl := Option.some.inj hw
      cases o with
      | none => cases h
      | some u =>
        by_cases hu : p u = true
        · exact (h.trans (by simp [Option.filter, hu])).symm
        · simp [Option.filter, hu] at h

theorem handlerReads_fits {raw : List Char} {v : Json} (h : handlerReads raw = some v) :
    (unmarshalInventory v).isSome := by
  rw [handlerReads] at h
  split at h
  · cases h
  · exact (Option.filter_eq_some_iff.mp h).2

/-- In a deployment that starts a container, the inventory of the row is the deployed one
exactly when the deployment has a cloud provider or the container reads the variable as the
handler does. -/
theorem inventory_deployed_iff {S : Shell} {code : String} {envs : List String}
    (hC : Standard C) (h : (handle C b d).container = some (code, envs)) :
    Deployed S (handle C b d) envs ↔ (isLocal b → ReadsAlike S b.envs) := by
  obtain ⟨p, d', hw, rfl⟩ := container_written h
  obtain ⟨r, hr, rfl⟩ := hw.secret
  have hrow := written_column (g := fun c => (c.inventory, c.extraVars)) (fun _ _ => rfl)
    (fun _ _ _ => rfl) hw
  obtain ⟨row, hmem, hcolumns⟩ := Option.map_eq_some_iff.mp hrow
  obtain ⟨hinv, hvars⟩ := Prod.mk.inj hcolumns
  simp only [createReq, CreateClusterReq.row] at hinv hvars
  have hfile : inventoryFile S (prepare C b r (getProxySetting C d)).envs =
      inventoryFile S b.envs := by
    rw [prepare_envs, inventoryFile, inventoryFile, envValue_inventory hr]
  obtain ⟨hstored, hcloudy⟩ := prepare_inventory hC hr (getProxySetting C d)
  have hrowIs : ∀ row', writtenRow (handle C b d) = some row' → row' = row :=
    fun row' h' => Option.some.inj (h'.symm.trans hmem)
  have hcloud : ∀ m, row.extraVars = some (.obj m) →
      (getValFromExtraVars m "cloud_provider" = "" ↔ isLocal b) := by
    intro m hm
    rw [hvars] at hm
    obtain rfl := Json.obj.inj (Option.some.inj hm)
    rw [prepare_extraVars, cloud_provider_body hr, isLocal]
  by_cases hlocal : isLocal b
  · have hiff := recorded_iff (p := fun v => (unmarshalInventory v).isSome)
      ((inventoryFile S b.envs).bind parse)
      (handlerReads (getValFromVars inventoryJsonEnv b.envs).toList)
      fun v hv => handlerReads_fits hv
    have hbind : ((inventoryFile S b.envs).bind parse).filter
        (fun v => (unmarshalInventory v).isSome) =
        (inventoryFile S b.envs).bind inventoryIn := by
      cases inventoryFile S b.envs <;> rfl
    rw [hbind, inventoryFile_reads, ← readsAlike_iff, ← hstored hlocal, ← hinv] at hiff
    rw [forall_prop_of_true hlocal, ← hiff]
    constructor
    · intro hd
      refine ⟨fun v hv => hfile ▸ hd.recorded row v hmem hv, fun hnone => ?_⟩
      have hun := hd.unrecorded row _ hmem hnone hvars ((hcloud _ hvars).mpr hlocal)
      rw [← inventoryFile_reads, ← hfile]
      exact hun
    · rintro ⟨hrec, hun⟩
      refine ⟨fun row' v h' hv => ?_, fun row' m h' hnone _ _ => ?_⟩
      · rw [hfile]
        exact hrec v (hrowIs row' h' ▸ hv)
      · rw [hfile, inventoryFile_reads]
        exact hun (hrowIs row' h' ▸ hnone)
  · rw [hcloudy hlocal] at hinv
    refine iff_of_true ⟨fun row' v h' hv => ?_, fun row' m h' _ hm hempty => ?_⟩
      fun hl => absurd hl hlocal
    · rw [hrowIs row' h', hinv] at hv
      cases hv
    · exact absurd ((hcloud m (hrowIs row' h' ▸ hm)).mp hempty) hlocal

/-- Nothing fails, and the decoder is the standard one. -/
def standard : Circumstances :=
  { smooth with decodeBase64 := fun s => (decode s.toList).map fun bs => String.ofList (readText bs) }

def shell : Shell := ⟨fun _ => []⟩

def inventoryBody (envs : List String) : Body :=
  { ConsoleSecretFlow.deployBody with authInfo := none, envs := envs }

def plainInventory : String :=
  "\x7b\"all\": \x7b\"children\": \x7b\"master\": \x7b\"hosts\": \x7b\"10.0.0.1\": \x7b\x7d\x7d\x7d\x7d\x7d\x7d"

def logFileEnv : String := "ANSIBLE_JSON_LOG_FILE=/tmp/ansible/postgres-cluster-01.json"

/-- The same text in base64. -/
def base64Env : String :=
  "ANSIBLE_INVENTORY_JSON=eyJhbGwiOiB7ImNoaWxkcmVuIjogeyJtYXN0ZXIiOiB7Imhvc3RzIjogeyIxMC4wLjAuMSI6IHt9fX19fX0="

theorem base64_inventory_deployed :
    Deployed shell (handle standard (inventoryBody [base64Env])
        migrated) [base64Env, logFileEnv] ↔
      (isLocal (inventoryBody [base64Env]) →
        ReadsAlike shell (inventoryBody [base64Env]).envs) :=
  inventory_deployed_iff (C := standard) (fun _ => rfl)
    (show (handle standard (inventoryBody [base64Env]) migrated).container =
      some ("0123456789ab", [base64Env, logFileEnv]) by decide +kernel)

/-- The handler takes the small letters, the container does not. -/
theorem small_letters_undeployed : ¬ ∀ (S : Shell) (C : Circumstances) (b : Body) (d : Db)
    (code : String) (envs : List String), Standard C →
    (handle C b d).container = some (code, envs) → Deployed S (handle C b d) envs := by
  intro h
  have hdeployed := h shell standard (inventoryBody ["ansible_inventory_json=" ++ plainInventory])
    migrated "0123456789ab" ["ansible_inventory_json=" ++ plainInventory, logFileEnv]
    (fun _ => rfl) (by decide +kernel)
  have hrow : ((writtenRow (handle standard
      (inventoryBody ["ansible_inventory_json=" ++ plainInventory]) migrated)).bind
        Cluster.inventory).isSome := by
    decide +kernel
  obtain ⟨v, hv⟩ := Option.isSome_iff_exists.mp hrow
  obtain ⟨row, hrow, hinv⟩ := Option.bind_eq_some_iff.mp hv
  have hfile : inventoryFile shell ["ansible_inventory_json=" ++ plainInventory, logFileEnv] =
      none := by
    decide +kernel
  have hrecorded := hdeployed.recorded row v hrow hinv
  rw [hfile] at hrecorded
  cases hrecorded

end ConsoleInventoryFile
