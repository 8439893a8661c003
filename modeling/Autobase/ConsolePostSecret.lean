import Autobase.ConsoleStoredRows
import Autobase.JsonRoundTrip
import Autobase.ConsoleSecretFlow

/-! # POST /secrets

The body carries one optional object a type. The handler marshals the object of its type, a
missing one as null, and the stored text is later unmarshalled into the struct of the type. -/
namespace ConsolePostSecret

open ConsoleSchema ConsoleStatements ConsolePostCluster ConsoleSecretFlow ConsoleStoredRows
open ConsoleLogEntity TransitionRuns JsonText JsonAscii JsonRoundTrip

/-! ## The body -/

/-- A struct of strings with the given fields. -/
inductive SubObject : List String → Type where
  | nil : SubObject []
  | cons {field : String} {fields : List String} (value : String) :
      SubObject fields → SubObject (field :: fields)

def SubObject.values {fields : List String} : SubObject fields → List String
  | .nil => []
  | .cons v rest => v :: rest.values

/-- Empty fields are left out. -/
def SubObject.members {fields : List String} : SubObject fields → List (String × Json)
  | .nil => []
  | @SubObject.cons f _ v rest => if v = "" then rest.members else (f, .str v) :: rest.members

structure RequestSecretValue where
  aws : Option (SubObject ["AWS_ACCESS_KEY_ID", "AWS_SECRET_ACCESS_KEY"])
  gcp : Option (SubObject ["GCP_SERVICE_ACCOUNT_CONTENTS"])
  hetzner : Option (SubObject ["HCLOUD_API_TOKEN"])
  sshKey : Option (SubObject ["SSH_PRIVATE_KEY"])
  digitalocean : Option (SubObject ["DO_API_TOKEN"])
  password : Option (SubObject ["USERNAME", "PASSWORD"])
  azure : Option (SubObject ["AZURE_SUBSCRIPTION_ID", "AZURE_CLIENT_ID", "AZURE_SECRET",
    "AZURE_TENANT"])

structure SecretBody where
  projectID : ℤ
  name : String
  type : String
  value : Option RequestSecretValue

/-- An object with its fields, or a pointer that is null. -/
abbrev Part := Option (Σ fields, SubObject fields)

def part {fields : List String} (o : Option (SubObject fields)) : Part := o.map fun s => ⟨fields, s⟩

/-- The switch over the types. -/
def RequestSecretValue.selected (v : RequestSecretValue) (type : String) : Option Part :=
  if type = "aws" then some (part v.aws)
  else if type = "gcp" then some (part v.gcp)
  else if type = "hetzner" then some (part v.hetzner)
  else if type = "ssh_key" then some (part v.sshKey)
  else if type = "digitalocean" then some (part v.digitalocean)
  else if type = "azure" then some (part v.azure)
  else if type = "password" then some (part v.password)
  else none

def marshalPart : Part → Json
  | none => .null
  | some s => .obj s.2.members

/-! ## The handler -/

inductive SecretCall where
  | getSecretByName
  | addSecret
  | readSecret
  deriving DecidableEq

/-- The failing calls, the texts of their errors and the quotation of names in messages. -/
structure SecretCircumstances where
  fails : SecretCall → Bool
  errorText : SecretCall → String
  quote : String → String

/-- Taking a field of a value that is null aborts the request. -/
inductive SecretResponse where
  | ok (id : ℤ)
  | badRequest (message : String)
  | aborted
  deriving DecidableEq

def supported (type : String) : Bool := (secretKinds.lookup type).isSome

/-- The marshalled value; the outer option is the abortion. -/
def bodyValue (b : SecretBody) : Option (Option (List Char)) :=
  if supported b.type then
    b.value.map fun v => (v.selected b.type).map fun p => render compactLayout 0 (marshalPart p)
  else some none

def addReq (b : SecretBody) (text : Option (List Char)) : AddSecretReq :=
  ⟨b.projectID, b.type, b.name, text⟩

def nameTaken (C : SecretCircumstances) (b : SecretBody) (s : Store) : Bool :=
  !C.fails .getSecretByName && s.db.secrets.any fun q => decide (q.secretName = b.name)

/-- The new row is read again after the insert. -/
def addSecret (C : SecretCircumstances) (req : AddSecretReq) (s : Store) : Store × SecretResponse :=
  match if C.fails .addSecret then none else createSecret req s with
  | none => (s, .badRequest (C.errorText .addSecret))
  | some (q, s') =>
    if C.fails .readSecret then (s', .badRequest (C.errorText .readSecret)) else (s', .ok q.secretID)

def handlePostSecret (C : SecretCircumstances) (b : SecretBody) (s : Store) :
    Store × SecretResponse :=
  if nameTaken C b s then
    (s, .badRequest ("The secret named " ++ (C.quote b.name ++ " already exists")))
  else match bodyValue b with
    | none => (s, .aborted)
    | some text => addSecret C (addReq b text) s

/-! ## What a secret is kept for -/

/-- The values of the object the type names. -/
def submitted (b : SecretBody) : Option (List String) :=
  b.value.bind fun v => (v.selected b.type).bind fun p => p.map fun s => s.2.values

def callsSucceed (C : Circumstances) : Prop :=
  C.fails .getSecret = false ∧ C.fails .getSecretVal = false

/-- As long as the secret is stored, its values come back under the names of its type, and each
of them is recovered from its assignment. -/
structure Returned (b : SecretBody) (id : ℤ) (s : Store) (values : List String) (k : SecretKind) :
    Prop where
  kind : secretKinds.lookup b.type = some k
  given : submitted b = some values
  later : ∀ (pg : Postgres) (ws : List Write) (C : Circumstances),
    (getSecret id (run (act pg) s ws).db).isSome → callsSucceed C →
      getSecretEnvs C id (run (act pg) s ws).db = .ok (k.envs values, k.location)
  split : ∀ v ∈ k.vars, splitAssignment (v.1 ++ ("=" ++ values.getD v.2 "")).toList =
    some (v.1.toList, (values.getD v.2 "").toList)

/-- An accepted secret is returned as it was submitted; a request without the object of its
type is refused and changes nothing. -/
structure SecretKept (C : SecretCircumstances) (b : SecretBody) (s : Store) : Prop where
  accepted : ∀ id, (handlePostSecret C b s).2 = .ok id →
    ∃ k values, Returned b id (handlePostSecret C b s).1 values k
  missing : submitted b = none →
    (∃ message, (handlePostSecret C b s).2 = .badRequest message) ∧
      (handlePostSecret C b s).1 = s

/-- What the table of secrets asks of a new row. -/
def storable (b : SecretBody) (s : Store) : Bool :=
  textIn b.type && textIn b.name &&
    s.db.projects.any (fun p => decide (p.projectID = b.projectID)) &&
    !s.db.secrets.any (fun q => decide (q.secretName = b.name))

/-! ## Structs of strings -/

theorem stringMember_skip {fields : List String} (s : SubObject fields) {name : String}
    (h : foldName name ∉ fields.map foldName) (acc : String) :
    stringMember name acc s.members = some acc := by
  induction s with
  | nil => rfl
  | @cons f fs v rest ih =>
    rw [List.map_cons, List.mem_cons, not_or] at h
    simp only [SubObject.members]
    split
    · exact ih h.2
    · rw [stringMember, if_neg (Ne.symm h.1)]
      exact ih h.2

theorem unmarshalStrings_congr {v w : Json} {names : List String}
    (h : ∀ n ∈ names, stringField v n = stringField w n) :
    unmarshalStrings names v = unmarshalStrings names w := by
  unfold unmarshalStrings
  induction names with
  | nil => rfl
  | cons n names ih =>
    rw [List.mapM_cons, List.mapM_cons, h n List.mem_cons_self,
      ih fun m hm => h m (List.mem_cons_of_mem _ hm)]

/-- What is marshalled without its empty fields is unmarshalled to the same struct. -/
theorem unmarshal_members {fields : List String} (h : (fields.map foldName).Nodup)
    (s : SubObject fields) : unmarshalStrings fields (.obj s.members) = some s.values := by
  induction s with
  | nil => rfl
  | @cons f fs v rest ih =>
    rw [List.map_cons, List.nodup_cons] at h
    have hhead : stringField (.obj (@SubObject.cons f fs v rest).members) f = some v := by
      simp only [stringField, SubObject.members]
      split
      · next hv => rw [stringMember_skip rest h.1, hv]
      · rw [stringMember, if_pos rfl]
        exact stringMember_skip rest h.1 v
    have htail : ∀ g ∈ fs, stringField (.obj (@SubObject.cons f fs v rest).members) g =
        stringField (.obj rest.members) g := by
      intro g hg
      simp only [stringField, SubObject.members]
      split
      · rfl
      · have hne : foldName f ≠ foldName g := fun he => h.1 (he ▸ List.mem_map_of_mem hg)
        rw [stringMember, if_neg hne]
    have hrest := (unmarshalStrings_congr htail).trans (ih h.2)
    rw [unmarshalStrings] at hrest ⊢
    rw [List.mapM_cons, hhead, hrest]
    rfl

theorem kind_fields : ∀ k ∈ secretKinds, (k.2.fields.map foldName).Nodup ∧
    ∀ v ∈ k.2.vars, '=' ∉ v.1.toList := by
  decide

/-- The switch and the table of types agree. -/
theorem selected_of_kind {v : RequestSecretValue} {type : String} {k : SecretKind}
    (h : secretKinds.lookup type = some k) :
    ∃ p, v.selected type = some p ∧ ∀ s ∈ p, s.1 = k.fields := by
  have hpart : ∀ {fields : List String} (o : Option (SubObject fields)), ∀ s ∈ part o,
      s.1 = fields := by
    intro fields o s hs
    obtain ⟨u, -, rfl⟩ := Option.map_eq_some_iff.mp (Option.mem_def.mp hs)
    rfl
  have hmem := mem_secretKinds h
  simp only [secretKinds, List.mem_cons, Prod.mk.injEq, List.not_mem_nil, or_false] at hmem
  rcases hmem with ⟨rfl, rfl⟩ | ⟨rfl, rfl⟩ | ⟨rfl, rfl⟩ | ⟨rfl, rfl⟩ | ⟨rfl, rfl⟩ | ⟨rfl, rfl⟩ |
    ⟨rfl, rfl⟩
  all_goals exact ⟨_, rfl, hpart _⟩

/-! ## The stored text -/

variable {C : SecretCircumstances} {b : SecretBody} {s : Store} {id : ℤ} {values : List String}

theorem createSecret_isSome (hs : ∀ q ∈ s.db.secrets, q.secretID < s.nextSecretID) (v : Json) :
    (createSecret (addReq b (some (render compactLayout 0 v))) s).isSome ↔ storable b s = true := by
  have hbind : (some (render compactLayout 0 v)).bind parse = some v := parse_render compactLayout v
  have hcommit : ∀ w, (commit { s.db.toTables with
      secrets := s.db.secrets ++ [(addReq b w).row s.nextSecretID v] }).isSome := by
    intro w
    have hk := s.db.ok
    refine commit_isSome.mpr { hk with
      secrets_pkey := ?_
      clusters_secret_fkey := fun c hc i hi => ?_ }
    · rw [List.map_append, List.map_singleton]
      refine List.nodup_append.mpr ⟨hk.secrets_pkey, List.nodup_singleton _, ?_⟩
      intro x hx y hy hxy
      obtain ⟨q, hq, rfl⟩ := List.mem_map.mp hx
      rw [List.mem_singleton.mp hy] at hxy
      have hlt := hs q hq
      simp only [AddSecretReq.row] at hxy
      omega
    · rw [List.map_append]
      exact List.mem_append_left _ (hk.clusters_secret_fkey c hc i hi)
  rw [createSecret, storable]
  rw [show (addReq b (some (render compactLayout 0 v))).value = some (render compactLayout 0 v)
    from rfl, hbind, Option.bind_some]
  split
  · next h => exact iff_of_true (by rw [Option.isSome_map]; exact hcommit _) h
  · next h => exact iff_of_false (by simp) h

/-- What the handler sends to the database, when it comes that far. -/
theorem bodyValue_supported (h : supported b.type = true) (v : RequestSecretValue)
    (hv : b.value = some v) : ∃ k p, secretKinds.lookup b.type = some k ∧
      v.selected b.type = some p ∧ (∀ u ∈ p, u.1 = k.fields) ∧
      bodyValue b = some (some (render compactLayout 0 (marshalPart p))) := by
  obtain ⟨k, hk⟩ := Option.isSome_iff_exists.mp h
  obtain ⟨p, hp, hfields⟩ := selected_of_kind (v := v) hk
  exact ⟨k, p, hk, hp, hfields, by simp [bodyValue, h, hv, hp]⟩

theorem bodyValue_unsupported (h : supported b.type = false) : bodyValue b = some none := by
  simp [bodyValue, h]

theorem submitted_selected {v : RequestSecretValue} (hv : b.value = some v) {p : Part}
    (hp : v.selected b.type = some p) : submitted b = p.map fun u => u.2.values := by
  simp [submitted, hv, hp]

/-- An accepted request has made a row of its marshalled object. -/
theorem accepted_row (h : (handlePostSecret C b s).2 = .ok id) :
    ∃ v k p, b.value = some v ∧ secretKinds.lookup b.type = some k ∧
      v.selected b.type = some p ∧ (∀ u ∈ p, u.1 = k.fields) ∧ id = s.nextSecretID ∧
      (handlePostSecret C b s).1.nextSecretID = s.nextSecretID + 1 ∧
      ((addReq b none).row s.nextSecretID (marshalPart p)) ∈
        (handlePostSecret C b s).1.db.secrets := by
  rw [handlePostSecret] at h ⊢
  split at h
  · cases h
  · next htaken =>
    rw [if_neg htaken]
    cases hsup : supported b.type with
    | false =>
      rw [bodyValue_unsupported hsup] at h
      simp only [addSecret] at h
      split at h
      · cases h
      · next q s' hc =>
        split at hc
        · cases hc
        · cases hc
    | true =>
      cases hv : b.value with
      | none => simp [bodyValue, hsup, hv] at h
      | some v =>
        obtain ⟨k, p, hk, hp, hfields, hbody⟩ := bodyValue_supported hsup v hv
        rw [hbody] at h ⊢
        simp only [addSecret] at h ⊢
        refine ⟨v, k, p, rfl, hk, hp, hfields, ?_⟩
        cases hc : (if C.fails .addSecret then none
            else createSecret (addReq b (some (render compactLayout 0 (marshalPart p)))) s) with
        | none => simp [hc] at h
        | some r =>
          obtain ⟨q, s'⟩ := r
          simp only [hc] at h ⊢
          split at h
          · cases h
          · next hread =>
            rw [if_neg hread]
            split at hc
            · cases hc
            · obtain ⟨w, hw, hq, hn, ht⟩ := createSecret_eq_some hc
              have hwv : w = marshalPart p :=
                Option.some.inj (hw.symm.trans (parse_render compactLayout _))
              subst hwv
              have hid : q.secretID = s.nextSecretID := by rw [hq]; rfl
              injection h with h
              refine ⟨h.symm.trans hid, hn, ?_⟩
              rw [ht, hq]
              simp [addReq, AddSecretReq.row]

/-- A row made of an object with fields gives back its values, whatever is written later. -/
theorem returned_of_row {t : Store} {k : SecretKind} {u : Σ fields, SubObject fields}
    (hk : secretKinds.lookup b.type = some k) (hu : u.1 = k.fields)
    (hgiven : submitted b = some u.2.values)
    (hmem : (addReq b none).row id (marshalPart (some u)) ∈ t.db.secrets)
    (hissued : id < t.nextSecretID) : Returned b id t u.2.values k := by
  obtain ⟨hfields, hnames⟩ := kind_fields _ (mem_secretKinds hk)
  refine ⟨hk, hgiven, fun pg ws C' hsome hcalls => ?_, fun v hv => ?_⟩
  · have hkept := keepsSecret_run pg (keepsSecret_of_mem (s := t) hmem hissued) ws
    obtain ⟨q, hq⟩ := Option.isSome_iff_exists.mp hsome
    have hid : q.secretID = id := by simpa using List.find?_some hq
    obtain rfl := hkept.rows q (List.mem_of_find?_eq_some hq) hid
    have hunmarshal : unmarshalStrings k.fields (.obj u.2.members) = some u.2.values := by
      rw [← hu] at hfields ⊢
      exact unmarshal_members hfields u.2
    simp only [getSecretEnvs, hcalls.1, hcalls.2, Bool.false_eq_true, if_false, hq]
    simp only [AddSecretReq.row, addReq, marshalPart, secretEnvs, hk, hunmarshal, Option.map_some]
  · rw [String.toList_append, String.toList_append]
    exact splitAssignment_append (hnames v hv)

theorem accepted_returned {values : List String} (hsub : submitted b = some values)
    (h : (handlePostSecret C b s).2 = .ok id) :
    ∃ k, Returned b id (handlePostSecret C b s).1 values k := by
  obtain ⟨v, k, p, hv, hk, hp, hfields, rfl, hn, hmem⟩ := accepted_row h
  rw [submitted_selected hv hp] at hsub
  obtain ⟨u, rfl, rfl⟩ := Option.map_eq_some_iff.mp hsub
  refine ⟨k, returned_of_row hk (hfields u rfl) ?_ hmem (by omega)⟩
  rw [submitted_selected hv hp]
  rfl

/-- A request that the database does not take up is refused and changes nothing. -/
theorem addSecret_refused {req : AddSecretReq}
    (h : C.fails .addSecret = true ∨ createSecret req s = none) :
    addSecret C req s = (s, .badRequest (C.errorText .addSecret)) := by
  rcases h with h | h
  · simp [addSecret, h]
  · simp [addSecret, h]

theorem addSecret_stored {req : AddSecretReq} {q : Secret} {s' : Store}
    (hf : C.fails .addSecret = false) (hc : createSecret req s = some (q, s')) :
    addSecret C req s = (s', if C.fails .readSecret then .badRequest (C.errorText .readSecret)
      else .ok q.secretID) := by
  simp only [addSecret, hf, Bool.false_eq_true, if_false, hc]
  split <;> rfl

theorem handlePostSecret_taken (h : nameTaken C b s = true) : handlePostSecret C b s =
    (s, .badRequest ("The secret named " ++ (C.quote b.name ++ " already exists"))) := by
  simp only [handlePostSecret, h, if_true]

theorem handlePostSecret_body (h : nameTaken C b s = false) {text : Option (List Char)}
    (hbody : bodyValue b = some text) :
    handlePostSecret C b s = addSecret C (addReq b text) s := by
  simp [handlePostSecret, h, hbody]

theorem secretKept_of_refused {message : String}
    (h : handlePostSecret C b s = (s, .badRequest message)) : SecretKept C b s := by
  refine ⟨fun id hok => ?_, fun _ => ⟨⟨message, by rw [h]⟩, by rw [h]⟩⟩
  rw [h] at hok
  cases hok

/-- A marshalled object that the database takes up gets the next id, missing or not. -/
theorem nextSecretID_stored (hs : ∀ q ∈ s.db.secrets, q.secretID < s.nextSecretID)
    (htaken : nameTaken C b s = false) (hsup : supported b.type = true)
    {v : RequestSecretValue} (hv : b.value = some v) (hfails : C.fails .addSecret = false)
    (hstorable : storable b s = true) :
    (handlePostSecret C b s).1.nextSecretID = s.nextSecretID + 1 := by
  obtain ⟨k, p, hk, hp, hfields, hbody⟩ := bodyValue_supported hsup v hv
  obtain ⟨⟨q, s'⟩, hc⟩ := Option.isSome_iff_exists.mp
    ((createSecret_isSome hs (marshalPart p)).mpr hstorable)
  rw [handlePostSecret_body htaken hbody, addSecret_stored hfails hc]
  exact (createSecret_eq_some hc).choose_spec.2.2.1

theorem handlePostSecret_unsupported (htaken : nameTaken C b s = false)
    (hsup : supported b.type = false) :
    handlePostSecret C b s = (s, .badRequest (C.errorText .addSecret)) := by
  rw [handlePostSecret_body htaken (bodyValue_unsupported hsup)]
  exact addSecret_refused (Or.inr rfl)

theorem handlePostSecret_unstored (hs : ∀ q ∈ s.db.secrets, q.secretID < s.nextSecretID)
    (htaken : nameTaken C b s = false) (hv : b.value.isSome)
    (hstore : C.fails .addSecret = true ∨ storable b s = false) :
    handlePostSecret C b s = (s, .badRequest (C.errorText .addSecret)) := by
  obtain ⟨v, hv⟩ := Option.isSome_iff_exists.mp hv
  cases hsup : supported b.type with
  | false => exact handlePostSecret_unsupported htaken hsup
  | true =>
    obtain ⟨k, p, -, -, -, hbody⟩ := bodyValue_supported hsup v hv
    rw [handlePostSecret_body htaken hbody]
    refine addSecret_refused (hstore.imp_right fun hno => ?_)
    rw [← Option.not_isSome_iff_eq_none, createSecret_isSome hs, hno]
    decide

/-- Null is stored for a missing object: a secret is kept exactly when its object is there or the
request is refused for another reason. -/
theorem secret_kept_iff (hs : ∀ q ∈ s.db.secrets, q.secretID < s.nextSecretID) :
    SecretKept C b s ↔ (submitted b).isSome ∨ supported b.type = false ∨ nameTaken C b s = true ∨
      b.value.isSome ∧ (C.fails .addSecret = true ∨ storable b s = false) := by
  constructor
  · intro h
    by_contra hno
    simp only [not_or, not_and, Bool.not_eq_true, Bool.not_eq_false] at hno
    obtain ⟨hsub, hsup, htaken, hvalue⟩ := hno
    have hsub : submitted b = none := by simpa using hsub
    obtain ⟨⟨message, hbad⟩, hsame⟩ := h.missing hsub
    cases hv : b.value with
    | none => simp [handlePostSecret, htaken, bodyValue, hsup, hv] at hbad
    | some v =>
      obtain ⟨hfails, hstorable⟩ := hvalue (by simp [hv])
      have hnext := nextSecretID_stored hs htaken hsup hv hfails hstorable
      rw [hsame] at hnext
      omega
  · rintro (hsub | hsup | htaken | ⟨hv, hstore⟩)
    · obtain ⟨values, hsub⟩ := Option.isSome_iff_exists.mp hsub
      refine ⟨fun id hok => ?_, fun hnone => ?_⟩
      · obtain ⟨k, hk⟩ := accepted_returned hsub hok
        exact ⟨k, values, hk⟩
      · rw [hsub] at hnone
        cases hnone
    · cases htaken : nameTaken C b s with
      | true => exact secretKept_of_refused (handlePostSecret_taken htaken)
      | false => exact secretKept_of_refused (handlePostSecret_unsupported htaken hsup)
    · exact secretKept_of_refused (handlePostSecret_taken htaken)
    · cases htaken : nameTaken C b s with
      | true => exact secretKept_of_refused (handlePostSecret_taken htaken)
      | false => exact secretKept_of_refused (handlePostSecret_unstored hs htaken hv hstore)

def quiet : SecretCircumstances := ⟨fun _ => false, fun _ => "error", fun s => "\"" ++ (s ++ "\"")⟩

def noParts : RequestSecretValue := ⟨none, none, none, none, none, none, none⟩

def oneProject : Store := ⟨migrated, 1⟩

/-- A password with an equals sign and a line break. -/
def passwordBody : SecretBody :=
  ⟨1, "server access", "password",
    some { noParts with password := some (.cons "root" (.cons "a=b\nc" .nil)) }⟩

theorem password_kept : SecretKept quiet passwordBody oneProject ↔
    (submitted passwordBody).isSome ∨ supported passwordBody.type = false ∨
      nameTaken quiet passwordBody oneProject = true ∨
      passwordBody.value.isSome ∧
        (quiet.fails .addSecret = true ∨ storable passwordBody oneProject = false) :=
  secret_kept_iff (fun _ hq => absurd hq List.not_mem_nil)

/-- The value is there, the object of the type is not. -/
def awsBody : SecretBody := ⟨1, "aws key", "aws", some noParts⟩

theorem missing_object_stored : ¬ ∀ (C : SecretCircumstances) (b : SecretBody) (s : Store),
    (∀ q ∈ s.db.secrets, q.secretID < s.nextSecretID) → SecretKept C b s := by
  intro h
  obtain ⟨⟨message, hbad⟩, -⟩ :=
    (h quiet awsBody oneProject (fun _ hq => absurd hq List.not_mem_nil)).missing rfl
  have hok : (handlePostSecret quiet awsBody oneProject).2 = .ok 1 := by decide +kernel
  rw [hok] at hbad
  cases hbad

end ConsolePostSecret
