import Autobase.YeditModule

/-! # The credentials in patroni.yml

After a point-in-time recovery the role writes its credentials into patroni.yml with four edits.
Each is given as a text, and the module reads a text as YAML before it stores it. -/
namespace PatroniAuthentication

open DocumentTrees DocumentPlaces YeditKeys Yedit YeditEdits

structure Credentials where
  replicationUsername : String
  replicationPassword : String
  superuserUsername : String
  superuserPassword : String

/-- Key and text of each item of the task `Update postgresql authentication in patroni.yml`. -/
def Credentials.entries (c : Credentials) : List (String × String) :=
  [("postgresql.authentication.replication.username", c.replicationUsername),
    ("postgresql.authentication.replication.password", c.replicationPassword),
    ("postgresql.authentication.superuser.username", c.superuserUsername),
    ("postgresql.authentication.superuser.password", c.superuserPassword)]

def authenticationEdits (c : Credentials) : List Edit :=
  c.entries.map fun a => ⟨a.1, .scalar (.str a.2), "", .put, rfl⟩

def authenticationPlace (role field : String) : List Step :=
  [.key "postgresql", .key "authentication", .key role, .key field]

variable {L : Library} {c : Credentials} {sep key text : String} {keys : List String}
  {d d' v value : Value}

/-- The roles and the fields of the task. -/
structure Named (role field : String) : Prop where
  role : role = "replication" ∨ role = "superuser"
  field : field = "username" ∨ field = "password"

theorem named_of_entry (h : (key, text) ∈ c.entries) : ∃ role field, Named role field ∧
    key = String.ofList (renderKey '.' (authenticationPlace role field)) := by
  simp only [Credentials.entries, List.mem_cons, Prod.mk.injEq, List.not_mem_nil, or_false] at h
  rcases h with ⟨rfl, -⟩ | ⟨rfl, -⟩ | ⟨rfl, -⟩ | ⟨rfl, -⟩
  · exact ⟨"replication", "username", ⟨Or.inl rfl, Or.inl rfl⟩, by decide⟩
  · exact ⟨"replication", "password", ⟨Or.inl rfl, Or.inr rfl⟩, by decide⟩
  · exact ⟨"superuser", "username", ⟨Or.inr rfl, Or.inl rfl⟩, by decide⟩
  · exact ⟨"superuser", "password", ⟨Or.inr rfl, Or.inr rfl⟩, by decide⟩

theorem plain_authenticationPlace {role field : String} (h : Named role field) :
    ∀ s ∈ authenticationPlace role field, PlainStep s := by
  have hplain : ∀ name, name = "postgresql" ∨ name = "authentication" ∨ name = role ∨
      name = field → plainKey name := by
    rintro name (rfl | rfl | rfl | rfl)
    · exact plainKey_of_all (by decide) (by decide)
    · exact plainKey_of_all (by decide) (by decide)
    · rcases h.role with rfl | rfl <;> exact plainKey_of_all (by decide) (by decide)
    · rcases h.field with rfl | rfl <;> exact plainKey_of_all (by decide) (by decide)
  intro s hs
  simp only [authenticationPlace, List.mem_cons, List.not_mem_nil, or_false] at hs
  rcases hs with rfl | rfl | rfl | rfl
  · exact hplain _ (Or.inl rfl)
  · exact hplain _ (Or.inr (Or.inl rfl))
  · exact hplain _ (Or.inr (Or.inr (Or.inl rfl)))
  · exact hplain _ (Or.inr (Or.inr (Or.inr rfl)))

theorem authentication_key (h : (key, text) ∈ c.entries) :
    key ≠ "" ∧ validKey key = true ∧
      ∃ role field, Named role field ∧ parseKey key "." = authenticationPlace role field ∧
        key = String.ofList (renderKey '.' (authenticationPlace role field)) := by
  obtain ⟨role, field, hnamed, rfl⟩ := named_of_entry h
  have hplain := plain_authenticationPlace hnamed
  refine ⟨?_, validKey_render separator_dot hplain (List.cons_ne_nil _ _), role, field, hnamed,
    parseKey_render separator_dot hplain, rfl⟩
  intro hempty
  have hlist := congrArg String.toList hempty
  rw [String.toList_ofList] at hlist
  cases hlist

theorem diverge_authenticationPlace {role field role' field' : String}
    (h : role ≠ role' ∨ field ≠ field') :
    Diverge (authenticationPlace role field) (authenticationPlace role' field') := by
  refine Or.inr ⟨rfl, Or.inr ⟨rfl, ?_⟩⟩
  by_cases hrole : role = role'
  · subst hrole
    exact Or.inr ⟨rfl, Or.inl (h.resolve_left fun hne => hne rfl)⟩
  · exact Or.inl hrole

theorem authentication_apart (c : Credentials) : SetsApart "." (authenticationEdits c) where
  puts := by
    intro e he
    obtain ⟨a, -, rfl⟩ := List.mem_map.mp he
    rfl
  apart := by
    have hkeys : c.entries.Pairwise fun a b => a.1 ≠ b.1 := by
      simp only [Credentials.entries, List.pairwise_cons, List.mem_cons, List.not_mem_nil,
        or_false, forall_eq_or_imp, forall_eq, false_imp_iff, implies_true, List.Pairwise.nil,
        and_true]
      decide
    refine List.pairwise_map.mpr (hkeys.imp_of_mem ?_)
    rintro ⟨key, text⟩ ⟨key', text'⟩ ha hb hne
    obtain ⟨-, -, role, field, -, hparse, hkey⟩ := authentication_key ha
    obtain ⟨-, -, role', field', -, hparse', hkey'⟩ := authentication_key hb
    rw [Apart, hparse, hparse']
    refine diverge_authenticationPlace (Decidable.not_and_iff_not_or_not.mp ?_)
    rintro ⟨rfl, rfl⟩
    exact hne (hkey.trans hkey'.symm)

/-- An edit that is settled finds its value under its key. -/
theorem found_of_settled {edits : List Edit} {e : Edit} (h : Settled L sep edits d)
    (he : e ∈ edits) (hkey : e.key ≠ "") (hvalid : validKey e.key = true) :
    ∃ value w, parseValue L e.value e.valueType = .ok value ∧
      getEntry d e.key sep = .ok w ∧ equal w value = true := by
  obtain ⟨value, hvalue, hidle⟩ := h e he
  rcases idle_cases hidle with ⟨w, hw, hequal⟩ | ⟨hempty, -⟩ | ⟨-, hinvalid, -⟩
  · exact ⟨value, w, hvalue, hw, hequal⟩
  · exact absurd hempty hkey
  · rw [hvalid] at hinvalid
    cases hinvalid

theorem equal_str_iff {w : Value} : equal w (.scalar (.str text)) = true ↔
    w = .scalar (.str text) := by
  cases w with
  | scalar a =>
    cases a with
    | str s =>
      change Scalar.same (.str s) (.str text) = true ↔ _
      simp [Scalar.same, Scalar.number]
    | none => exact iff_of_false (by simp [Doc.eqv, Scalar.same, Scalar.number]) (by simp)
    | bool b => exact iff_of_false (fun h => by cases h) (by simp)
    | int n => exact iff_of_false (fun h => by cases h) (by simp)
    | float r => exact iff_of_false (fun h => by cases h) (by simp)
  | list xs => exact iff_of_false (fun h => by cases h) (by simp)
  | dict m => exact iff_of_false (fun h => by cases h) (by simp)

theorem eqv_str (h : equal (.scalar (.str text)) v = true) :
    equal v (.scalar (.str text)) = true := by
  cases v with
  | scalar a =>
    cases a with
    | str s => simpa [Doc.eqv, Scalar.same, Scalar.number, eq_comm] using h
    | none => simp [Doc.eqv, Scalar.same, Scalar.number] at h
    | bool b => cases h
    | int n => cases h
    | float r => cases h
  | list xs => cases h
  | dict m => cases h

theorem parseValue_text (h : parseValue L (.scalar (.str text)) "" = .ok value) :
    value = .scalar (.str text) ↔ text = "" ∨ L.safeLoad text = some (.scalar (.str text)) := by
  have hbool : contains "" "bool" = false := by decide
  have hstr : contains "" "str" = false := by decide
  rw [parseValue, hbool, Bool.false_and, if_neg (by decide), loadText] at h
  split at h
  · next hempty => exact iff_of_true (Except.ok.inj h).symm (Or.inl hempty)
  · next hne =>
    rw [hstr, if_neg (by decide)] at h
    split at h
    · next w hw =>
      obtain rfl := Except.ok.inj h
      rw [hw, Option.some.injEq, or_iff_right hne]
    · cases h

/-- The task stores a credential as the text it is given exactly when YAML reads that text as
itself: a password of digits becomes a number. -/
theorem credential_kept_iff
    (h : processEdits L "." (authenticationEdits c) d = .ok (keys, d'))
    (hentry : (key, text) ∈ c.entries) :
    getEntry d' key "." = .ok (.scalar (.str text)) ↔
      text = "" ∨ L.safeLoad text = some (.scalar (.str text)) := by
  obtain ⟨hkey, hvalid, -⟩ := authentication_key hentry
  have hmem : (⟨key, .scalar (.str text), "", .put, rfl⟩ : Edit) ∈ authenticationEdits c :=
    List.mem_map.mpr ⟨(key, text), hentry, rfl⟩
  obtain ⟨value, w, hvalue, hw, hequal⟩ :=
    found_of_settled (settled_processEdits (authentication_apart c) h).1 hmem hkey hvalid
  rw [← parseValue_text hvalue, hw]
  constructor
  · intro he
    rw [Except.ok.inj he] at hequal
    exact equal_str_iff.mp (eqv_str hequal)
  · rintro rfl
    rw [equal_str_iff.mp hequal]

def digits : Credentials := ⟨"replicator", "1234", "postgres", "secret"⟩

def digitsStored : Value :=
  .dict [("postgresql", .dict [("authentication", .dict
    [("replication", .dict [("username", .scalar (.str "replicator")),
      ("password", .scalar (.int 1234))]),
    ("superuser", .dict [("username", .scalar (.str "postgres")),
      ("password", .scalar (.str "secret"))])])])]

theorem run_authentication {text : String} (hentry : (key, text) ∈ c.entries)
    (hvalue : parseValue L (.scalar (.str text)) "" = .ok value) {p : List Step}
    (hparse : parseKey key "." = p) :
    (⟨key, .scalar (.str text), "", .put, rfl⟩ : Edit).run L "." d =
      (descend p d).bind fun entry =>
        if equal entry value then .ok (false, d)
        else (addAt key value p d).map fun d' => (true, d') := by
  obtain ⟨hkey, hvalid, -⟩ := authentication_key hentry
  rw [run_put rfl hvalue, put_valid hkey hvalid, hparse]

theorem digits_written :
    processEdits plainLibrary "." (authenticationEdits digits) (.dict []) =
      .ok (digits.entries.map Prod.fst, digitsStored) := by
  have hrun : ∀ {key text : String} {value d d' : Value} (role field : String),
      (key, text) ∈ digits.entries → parseKey key "." = authenticationPlace role field →
      parseValue plainLibrary (.scalar (.str text)) "" = .ok value →
      ((descend (authenticationPlace role field) d).bind fun entry =>
        if equal entry value then .ok (false, d)
        else (addAt key value (authenticationPlace role field) d).map fun d' => (true, d')) =
          .ok (true, d') →
      (⟨key, .scalar (.str text), "", .put, rfl⟩ : Edit).run plainLibrary "." d = .ok (true, d') :=
    fun role field hentry hparse hvalue hresult =>
      (run_authentication hentry hvalue hparse).trans hresult
  refine processEdits_of_run (hrun "replication" "username" (by decide) (by decide) rfl rfl) ?_
  refine processEdits_of_run (hrun "replication" "password" (by decide) (by decide) rfl rfl) ?_
  refine processEdits_of_run (hrun "superuser" "username" (by decide) (by decide) rfl rfl) ?_
  exact processEdits_of_run (hrun "superuser" "password" (by decide) (by decide) rfl rfl) rfl

theorem digits_kept_iff :
    getEntry digitsStored "postgresql.authentication.replication.password" "." =
      .ok (.scalar (.str "1234")) ↔
    "1234" = "" ∨ plainLibrary.safeLoad "1234" = some (.scalar (.str "1234")) :=
  credential_kept_iff digits_written (by decide)

end PatroniAuthentication
