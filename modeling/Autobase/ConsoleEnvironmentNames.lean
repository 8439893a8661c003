import Autobase.ConsoleSchema
import Autobase.TransitionRuns

/-! # POST /environments

A request looks its name up and inserts it in a second statement. The table has a plain index on
the names, so only the state in which the insert runs keeps them apart. -/
namespace ConsoleEnvironmentNames

open ConsoleSchema RowTables TransitionRuns

structure AddEnvironmentReq where
  name : String
  description : String

/-- The tables, and the sequence of the environments. -/
structure Store where
  db : Db
  nextEnvironmentID : ℤ

/-- What a column of n characters keeps of a text. Spaces beyond the limit are cut off, anything
else beyond it is refused. -/
def varcharIn (n : ℕ) (s : String) : Option String :=
  if s.toList.length ≤ n then some s
  else if (s.toList.drop n).all (fun c => c == ' ') then some (String.ofList (s.toList.take n))
  else none

/-- The name that is stored. -/
def AddEnvironmentReq.stored (req : AddEnvironmentReq) : Option String :=
  if textIn req.name && textIn req.description then varcharIn 20 req.name else none

def names (s : Store) : List String := s.db.environments.map Environment.environmentName

def getEnvironmentByName (name : String) (s : Store) : Option Environment :=
  s.db.environments.find? fun e => decide (e.environmentName = name)

def createEnvironment (req : AddEnvironmentReq) (s : Store) : Option (Environment × Store) :=
  req.stored.bind fun name =>
    let e : Environment := ⟨s.nextEnvironmentID, name⟩
    (commit { s.db.toTables with environments := s.db.environments ++ [e] }).map fun d =>
      (e, ⟨d, s.nextEnvironmentID + 1⟩)

/-- An environment that a cluster refers to is not deleted. -/
def deleteEnvironment (id : ℤ) (s : Store) : Option Store :=
  (commit { s.db.toTables with
    environments := deleteWhere (fun e => decide (e.environmentID = id)) s.db.environments }).map
      fun d => { s with db := d }

/-! ## The handler -/

inductive EnvironmentCall where
  | getEnvironmentByName
  | createEnvironment
  deriving DecidableEq

/-- The failing calls, the texts of their errors and the quotation of names in messages. -/
structure Circumstances where
  fails : EnvironmentCall → Bool
  errorText : EnvironmentCall → String
  quote : String → String

inductive Response where
  | ok (e : Environment)
  | badRequest (message : String)

/-- How far a request has come. -/
inductive Phase where
  | received
  | checked
  | answered (r : Response)

instance : DecidablePred (· = Phase.received)
  | .received => isTrue rfl
  | .checked | .answered _ => isFalse Phase.noConfusion

instance : DecidablePred (· = Phase.checked)
  | .checked => isTrue rfl
  | .received | .answered _ => isFalse Phase.noConfusion

structure Request where
  body : AddEnvironmentReq
  circumstances : Circumstances
  phase : Phase

/-- A lookup that fails is only logged, and the request goes on. -/
def checkName (C : Circumstances) (req : AddEnvironmentReq) (s : Store) : Phase :=
  if C.fails .getEnvironmentByName || !textIn req.name then .checked
  else match getEnvironmentByName req.name s with
    | some _ =>
      .answered (.badRequest ("The environment named " ++ (C.quote req.name ++ " already exists")))
    | none => .checked

def addEnvironment (C : Circumstances) (req : AddEnvironmentReq) (s : Store) : Phase × Store :=
  match if C.fails .createEnvironment then none else createEnvironment req s with
  | none => (.answered (.badRequest (C.errorText .createEnvironment)), s)
  | some (e, s') => (.answered (.ok e), s')

/-- The next statement of a request. -/
def proceed (r : Request) (s : Store) : Request × Store :=
  match r.phase with
  | .received => ({ r with phase := checkName r.circumstances r.body s }, s)
  | .checked =>
    ({ r with phase := (addEnvironment r.circumstances r.body s).1 },
      (addEnvironment r.circumstances r.body s).2)
  | .answered _ => (r, s)

/-! ## Requests side by side -/

structure System where
  store : Store
  requests : List Request

/-- A request arrives, one of those that have arrived runs its next statement, an environment is
deleted, or another handler writes its own tables. -/
inductive Action where
  | arrive (req : AddEnvironmentReq) (C : Circumstances)
  | proceed (i : ℕ)
  | deleteEnvironment (id : ℤ)
  | others (f : Tables → Tables)

def step (y : System) : Action → System
  | .arrive req C => { y with requests := y.requests ++ [⟨req, C, .received⟩] }
  | .proceed i =>
    match y.requests[i]? with
    | none => y
    | some r => ⟨(proceed r y.store).2, y.requests.set i (proceed r y.store).1⟩
  | .deleteEnvironment id => { y with store := (deleteEnvironment id y.store).getD y.store }
  | .others f =>
    { y with store :=
      ((commit { f y.store.db.toTables with environments := y.store.db.environments }).map
        fun d => { y.store with db := d }).getD y.store }

def UniqueNames (y : System) : Prop := (names y.store).Nodup

instance (y : System) : Decidable (UniqueNames y) :=
  inferInstanceAs (Decidable (names y.store).Nodup)

/-- An insert the database takes runs while no row has the name it stores. -/
def Fresh (y : System) : Action → Prop
  | .proceed i => ∀ r ∈ y.requests[i]?, r.phase = .checked →
      r.circumstances.fails .createEnvironment = false → ∀ name ∈ r.body.stored,
        name ∉ names y.store
  | _ => True

/-- The sequence is ahead of the table. -/
def Issued (y : System) : Prop :=
  ∀ e ∈ y.store.db.environments, e.environmentID < y.store.nextEnvironmentID

/-! ## One statement -/

variable {s s' : Store} {req : AddEnvironmentReq} {e : Environment} {C : Circumstances}

theorem constraints_appendEnvironment (d : Db) {e : Environment}
    (he : ∀ b ∈ d.environments, b.environmentID < e.environmentID) :
    Constraints { d.toTables with environments := d.environments ++ [e] } := by
  refine { d.ok with environments_pkey := ?_, clusters_environment_fkey := fun c hc => ?_ }
  · rw [List.map_append, List.map_singleton]
    refine List.nodup_append.mpr ⟨d.ok.environments_pkey, List.nodup_singleton _, ?_⟩
    intro i hi j hj
    obtain ⟨b, hb, rfl⟩ := List.mem_map.mp hi
    rw [List.mem_singleton.mp hj]
    exact Int.ne_of_lt (he b hb)
  · rw [List.map_append]
    exact List.mem_append_left _ (d.ok.clusters_environment_fkey c hc)

theorem createEnvironment_eq_some (h : createEnvironment req s = some (e, s')) :
    ∃ name, req.stored = some name ∧ e = ⟨s.nextEnvironmentID, name⟩ ∧
      s'.nextEnvironmentID = s.nextEnvironmentID + 1 ∧
      s'.db.toTables = { s.db.toTables with environments := s.db.environments ++ [e] } := by
  obtain ⟨name, hname, h⟩ := Option.bind_eq_some_iff.mp h
  obtain ⟨d, hd, he⟩ := Option.map_eq_some_iff.mp h
  obtain ⟨rfl, rfl⟩ := Prod.mk.inj he
  exact ⟨name, hname, rfl, rfl, commit_eq_some.mp hd⟩

theorem createEnvironment_isSome
    (hs : ∀ b ∈ s.db.environments, b.environmentID < s.nextEnvironmentID) :
    (createEnvironment req s).isSome = req.stored.isSome := by
  cases hstored : req.stored with
  | none => simp [createEnvironment, hstored]
  | some name =>
    have hc := commit_isSome.mpr (constraints_appendEnvironment s.db
      (e := ⟨s.nextEnvironmentID, name⟩) hs)
    simp [createEnvironment, hstored, hc]

theorem deleteEnvironment_subset {id : ℤ} (h : deleteEnvironment id s = some s') :
    s'.nextEnvironmentID = s.nextEnvironmentID ∧
      s'.db.environments.Sublist s.db.environments := by
  obtain ⟨d, hd, rfl⟩ := Option.map_eq_some_iff.mp h
  rw [commit_eq_some.mp hd]
  exact ⟨rfl, List.filter_sublist⟩

/-- An insert that does not go through leaves the table as it was. -/
theorem addEnvironment_store (C : Circumstances) (req : AddEnvironmentReq) (s : Store) :
    (addEnvironment C req s).2 = s ∨ C.fails .createEnvironment = false ∧
      ∃ e, createEnvironment req s = some (e, (addEnvironment C req s).2) := by
  cases hf : C.fails .createEnvironment with
  | true => exact Or.inl (by simp [addEnvironment, hf])
  | false =>
    cases hc : createEnvironment req s with
    | none => exact Or.inl (by simp [addEnvironment, hf, hc])
    | some r => exact Or.inr ⟨rfl, r.1, by simp [addEnvironment, hf, hc]⟩

/-! ## One step -/

variable {y : System} {a : Action} {i : ℕ} {r : Request} {name : String}

/-- A step drops rows, or it is the insert of a request that has checked its name. -/
theorem step_cases (y : System) (a : Action) :
    ((step y a).store.nextEnvironmentID = y.store.nextEnvironmentID ∧
      (step y a).store.db.environments.Sublist y.store.db.environments) ∨
    ∃ i r name, a = .proceed i ∧ y.requests[i]? = some r ∧ r.phase = .checked ∧
      r.circumstances.fails .createEnvironment = false ∧ r.body.stored = some name ∧
      (step y a).store.nextEnvironmentID = y.store.nextEnvironmentID + 1 ∧
      (step y a).store.db.environments =
        y.store.db.environments ++ [⟨y.store.nextEnvironmentID, name⟩] := by
  cases a with
  | arrive req C => exact Or.inl ⟨rfl, List.Sublist.refl _⟩
  | deleteEnvironment id =>
    left
    rw [step]
    cases h : deleteEnvironment id y.store with
    | none => exact ⟨rfl, List.Sublist.refl _⟩
    | some s' => exact deleteEnvironment_subset h
  | others f =>
    left
    simp only [step]
    cases h : commit { f y.store.db.toTables with environments := y.store.db.environments } with
    | none => exact ⟨rfl, List.Sublist.refl _⟩
    | some d =>
      refine ⟨rfl, ?_⟩
      rw [Option.map_some, Option.getD_some, commit_eq_some.mp h]
  | proceed i =>
    rw [step]
    cases hr : y.requests[i]? with
    | none => exact Or.inl ⟨rfl, List.Sublist.refl _⟩
    | some r =>
      simp only [proceed]
      cases hp : r.phase with
      | received => exact Or.inl ⟨rfl, List.Sublist.refl _⟩
      | answered _ => exact Or.inl ⟨rfl, List.Sublist.refl _⟩
      | checked =>
        rcases addEnvironment_store r.circumstances r.body y.store with hs | ⟨hf, e, he⟩
        · left
          rw [hs]
          exact ⟨rfl, List.Sublist.refl _⟩
        · obtain ⟨name, hname, rfl, hnext, ht⟩ := createEnvironment_eq_some he
          exact Or.inr ⟨i, r, name, rfl, hr, hp, hf, hname, hnext, congrArg Tables.environments ht⟩

theorem issued_step (y : System) (a : Action) (h : Issued y) : Issued (step y a) := by
  intro e he
  rcases step_cases y a with ⟨hnext, hrows⟩ | ⟨i, r, name, -, -, -, -, -, hnext, hrows⟩
  · rw [hnext]
    exact h e (hrows.subset he)
  · rw [hrows] at he
    rw [hnext]
    rcases List.mem_append.mp he with he | he
    · exact Int.lt_add_one_of_le (Int.le_of_lt (h e he))
    · rw [List.mem_singleton.mp he]
      exact Int.lt_succ _

/-- The insert of a name the column takes goes through. -/
theorem names_insert (h : Issued y) (hr : y.requests[i]? = some r) (hp : r.phase = .checked)
    (hf : r.circumstances.fails .createEnvironment = false) (hname : r.body.stored = some name) :
    names (step y (.proceed i)).store = names y.store ++ [name] := by
  have hsome : (createEnvironment r.body y.store).isSome = r.body.stored.isSome :=
    createEnvironment_isSome h
  rw [hname] at hsome
  obtain ⟨⟨e, s'⟩, he⟩ := Option.isSome_iff_exists.mp hsome
  obtain ⟨name', hname', rfl, -, ht⟩ := createEnvironment_eq_some he
  obtain rfl : name = name' := Option.some.inj (hname.symm.trans hname')
  have hadd : (addEnvironment r.circumstances r.body y.store).2 = s' := by
    simp [addEnvironment, hf, he]
  simp only [step, hr, proceed, hp, hadd, names, ht, List.map_append, List.map_singleton]

theorem uniqueNames_step_iff (h : Issued y) (hu : UniqueNames y) :
    UniqueNames (step y a) ↔ Fresh y a := by
  constructor
  · intro hu'
    cases a with
    | arrive req C => trivial
    | deleteEnvironment id => trivial
    | others f => trivial
    | proceed i =>
      intro r hr hp hf name hname hmem
      rw [UniqueNames, names_insert h hr hp hf hname] at hu'
      exact (List.nodup_append.mp hu').2.2 name hmem name (List.mem_singleton_self _) rfl
  · intro hfresh
    rcases step_cases y a with ⟨-, hrows⟩ | ⟨i, r, name, rfl, hr, hp, hf, hname, -, hrows⟩
    · exact hu.sublist (hrows.map _)
    · rw [UniqueNames, names, hrows, List.map_append, List.map_singleton]
      refine List.nodup_append.mpr ⟨hu, List.nodup_singleton _, ?_⟩
      rintro n hn m hm rfl
      obtain rfl : n = name := List.mem_singleton.mp hm
      exact hfresh r hr hp hf n hname hn

/-! ## Requests that keep apart -/

/-- A request gets an answer to its lookup, while no other request with its name is between its
two statements, and the column keeps the name whole. -/
def Apart (y : System) : Action → Prop
  | .proceed i => ∀ r ∈ y.requests[i]?, r.phase = .received →
      r.circumstances.fails .getEnvironmentByName = false ∧ r.body.name.toList.length ≤ 20 ∧
        ∀ (j : ℕ) (q : Request), y.requests[j]? = some q → q.phase = .checked →
          q.body.name ≠ r.body.name
  | _ => True

/-- A request that has checked its name still finds no row with it. -/
structure KeptApart (y : System) : Prop where
  missing : ∀ (i : ℕ) (r : Request), y.requests[i]? = some r → r.phase = .checked →
    r.body.name.toList.length ≤ 20 ∧ (textIn r.body.name = true → r.body.name ∉ names y.store)
  distinct : ∀ (i j : ℕ) (r q : Request), y.requests[i]? = some r → y.requests[j]? = some q →
    i ≠ j → r.phase = .checked → q.phase = .checked → q.body.name ≠ r.body.name

theorem stored_eq (hlen : req.name.toList.length ≤ 20) (h : req.stored = some name) :
    textIn req.name = true ∧ name = req.name := by
  rw [AddEnvironmentReq.stored] at h
  split at h
  next htext =>
    rw [varcharIn, if_pos hlen] at h
    exact ⟨(Bool.and_eq_true_iff.mp htext).1, (Option.some.inj h).symm⟩
  next => cases h

theorem fresh_of_kept (h : KeptApart y) : Fresh y a := by
  cases a with
  | arrive req C => trivial
  | deleteEnvironment id => trivial
  | others f => trivial
  | proceed i =>
    intro r hr hp _ name hname
    obtain ⟨hlen, hmissing⟩ := h.missing i r hr hp
    obtain ⟨htext, rfl⟩ := stored_eq hlen hname
    exact hmissing htext

theorem addEnvironment_answered (C : Circumstances) (req : AddEnvironmentReq) (s : Store) :
    (addEnvironment C req s).1 ≠ .checked := by
  rw [addEnvironment]
  split <;> exact Phase.noConfusion

theorem checkName_checked (hf : C.fails .getEnvironmentByName = false)
    (h : checkName C req s = .checked) : textIn req.name = true → req.name ∉ names s := by
  intro htext hmem
  obtain ⟨e, he, hname⟩ := List.mem_map.mp hmem
  have hfound : (getEnvironmentByName req.name s).isSome := by
    rw [getEnvironmentByName, List.find?_isSome]
    exact ⟨e, he, decide_eq_true hname⟩
  obtain ⟨b, hb⟩ := Option.isSome_iff_exists.mp hfound
  simp [checkName, hf, htext, hb] at h

/-- The rows may go while the requests stay as they are. -/
theorem KeptApart.of_names {t : System} (h : KeptApart y) (hr : t.requests = y.requests)
    (hn : names t.store ⊆ names y.store) : KeptApart t := by
  refine ⟨fun i r hi hp => ?_, by rw [hr]; exact h.distinct⟩
  rw [hr] at hi
  obtain ⟨hlen, hmissing⟩ := h.missing i r hi hp
  exact ⟨hlen, fun htext hmem => hmissing htext (hn hmem)⟩

/-- One request moves on: what it must bring with it, and what it may add to the names. -/
theorem KeptApart.of_set {t : Store} {r' : Request} (h : KeptApart y)
    (hself : r'.phase = .checked → r'.body.name.toList.length ≤ 20 ∧
      (textIn r'.body.name = true → r'.body.name ∉ names t) ∧
      ∀ (j : ℕ) (q : Request), y.requests[j]? = some q → q.phase = .checked →
        q.body.name ≠ r'.body.name)
    (hnames : ∀ (j : ℕ) (q : Request), j ≠ i → y.requests[j]? = some q → q.phase = .checked →
      textIn q.body.name = true → q.body.name ∈ names t → q.body.name ∈ names y.store) :
    KeptApart ⟨t, y.requests.set i r'⟩ := by
  constructor
  · intro j q hj hp
    simp only [List.getElem?_set] at hj
    split at hj
    · split at hj
      · obtain rfl := Option.some.inj hj
        exact ⟨(hself hp).1, (hself hp).2.1⟩
      · cases hj
    next hij =>
      obtain ⟨hlen, hmissing⟩ := h.missing j q hj hp
      exact ⟨hlen, fun htext hmem =>
        hmissing htext (hnames j q (Ne.symm hij) hj hp htext hmem)⟩
  · intro j k q p hj hk hjk hq hp
    simp only [List.getElem?_set] at hj hk
    split at hj
    next hij =>
      split at hj
      · obtain rfl := Option.some.inj hj
        rw [if_neg (hij ▸ hjk)] at hk
        exact (hself hq).2.2 k p hk hp
      · cases hj
    next hij =>
      split at hk
      · split at hk
        · obtain rfl := Option.some.inj hk
          exact ((hself hp).2.2 j q hj hq).symm
        · cases hk
      · exact h.distinct j k q p hj hk hjk hq hp

theorem kept_step (y : System) (a : Action) (h : KeptApart y) (hapart : Apart y a) :
    KeptApart (step y a) := by
  cases a with
  | arrive req C =>
    have hold : ∀ {j : ℕ} {q : Request}, (y.requests ++ [⟨req, C, .received⟩])[j]? = some q →
        q.phase = .checked → y.requests[j]? = some q := by
      intro j q hj hp
      rcases Nat.lt_or_ge j y.requests.length with hlt | hge
      · rwa [List.getElem?_append_left hlt] at hj
      · rw [List.getElem?_append_right hge] at hj
        obtain rfl := List.mem_singleton.mp (List.mem_of_getElem? hj)
        cases hp
    exact ⟨fun i r hi hp => h.missing i r (hold hi hp) hp, fun i j r q hi hj hij hr hq =>
      h.distinct i j r q (hold hi hr) (hold hj hq) hij hr hq⟩
  | deleteEnvironment id =>
    rcases step_cases y (.deleteEnvironment id) with ⟨-, hrows⟩ | ⟨i, r, name, he, -⟩
    · exact h.of_names rfl (hrows.map _).subset
    · cases he
  | others f =>
    rcases step_cases y (.others f) with ⟨-, hrows⟩ | ⟨i, r, name, he, -⟩
    · exact h.of_names rfl (hrows.map _).subset
    · cases he
  | proceed i =>
    rw [step]
    cases hr : y.requests[i]? with
    | none => exact h
    | some r =>
      simp only [proceed]
      cases hp : r.phase with
      | answered _ =>
        refine h.of_set (fun hc => ?_) (fun _ _ _ _ _ _ hmem => hmem)
        rw [hp] at hc
        cases hc
      | received =>
        obtain ⟨hf, hlen, hothers⟩ := hapart r hr hp
        exact h.of_set (fun hc => ⟨hlen, checkName_checked hf hc, hothers⟩)
          (fun _ _ _ _ _ _ hmem => hmem)
      | checked =>
        refine h.of_set (fun hc => absurd hc (addEnvironment_answered _ _ _)) ?_
        intro j q hji hj hq htext hmem
        rcases addEnvironment_store r.circumstances r.body y.store with hs | ⟨-, e, he⟩
        · rwa [hs] at hmem
        · obtain ⟨name, hname, rfl, -, ht⟩ := createEnvironment_eq_some he
          obtain ⟨-, rfl⟩ := stored_eq (h.missing i r hr hp).1 hname
          rw [names, ht, List.map_append] at hmem
          rcases List.mem_append.mp hmem with hmem | hmem
          · exact hmem
          · exact absurd (List.mem_singleton.mp hmem) (h.distinct i j r q hr hj (Ne.symm hji) hp hq)

/-- The names stay unique exactly as long as every insert runs while no row has its name, and so
they do when the requests for a name come one after the other. -/
theorem environment_names_unique_iff (y : System) (hissued : Issued y) (hunique : UniqueNames y)
    (as : List Action) :
    ((∀ t ∈ visited step y as, UniqueNames t) ↔ Along step Fresh y as) ∧
      (KeptApart y → Along step Apart y as → ∀ t ∈ visited step y as, UniqueNames t) := by
  constructor
  · exact visited_iff_along issued_step (fun _ _ h hu => uniqueNames_step_iff h hu) hissued hunique
  · intro hkept h
    have hall := visited_of_along (I := fun t => (Issued t ∧ UniqueNames t) ∧ KeptApart t)
      (fun t a ht ha => ⟨⟨issued_step t a ht.1.1,
        (uniqueNames_step_iff ht.1.1 ht.1.2).mpr (fresh_of_kept ht.2)⟩, kept_step t a ht.2 ha⟩)
      ⟨⟨hissued, hunique⟩, hkept⟩ h
    exact fun t ht => (hall t ht).1.2

def initial : System := ⟨⟨migrated, 6⟩, []⟩

def calm : Circumstances := ⟨fun _ => false, fun _ => "", fun s => s⟩

def qa : AddEnvironmentReq := ⟨"qa", ""⟩

/-- A request that moves on while no other one is between its statements. -/
theorem apart_of_idle (h : ∀ q ∈ y.requests, q.phase ≠ .checked ∧ (q.phase = .received →
    q.circumstances.fails .getEnvironmentByName = false ∧ q.body.name.toList.length ≤ 20)) :
    Apart y (.proceed i) := by
  intro r hr hreceived
  obtain ⟨hfails, hlen⟩ := (h r (List.mem_of_getElem? hr)).2 hreceived
  exact ⟨hfails, hlen, fun j q hq hchecked => absurd hchecked (h q (List.mem_of_getElem? hq)).1⟩

theorem apart_of_checked (h : ∀ r ∈ y.requests[i]?, r.phase = .checked) :
    Apart y (.proceed i) := by
  intro r hr hreceived
  rw [h r hr] at hreceived
  cases hreceived

/-- The second request looks the name up after the first one has inserted it. -/
def oneByOne : List Action :=
  [.arrive qa calm, .proceed 0, .proceed 0, .arrive qa calm, .proceed 1, .proceed 1]

theorem environment_names_unique_one :
    Along step Fresh initial oneByOne ∧ ∀ t ∈ visited step initial oneByOne, UniqueNames t := by
  have hissued : Issued initial := by
    unfold Issued
    decide
  have hunique : UniqueNames initial := by decide
  have hkept : KeptApart initial :=
    ⟨fun _ _ h => by simp [initial] at h, fun _ _ _ _ h => by simp [initial] at h⟩
  have happart : Along step Apart initial oneByOne :=
    ⟨trivial, apart_of_idle (by decide +kernel), apart_of_checked (by decide +kernel), trivial,
      apart_of_idle (by decide +kernel), apart_of_idle (by decide +kernel), trivial⟩
  exact ⟨(environment_names_unique_iff initial hissued hunique oneByOne).1.mp
    (by decide +kernel), (environment_names_unique_iff initial hissued hunique oneByOne).2
      hkept happart⟩

/-- Two requests look the same name up before either inserts it. -/
theorem environment_name_twice : ¬ UniqueNames (run step initial
    [.arrive qa calm, .arrive qa calm, .proceed 0, .proceed 1, .proceed 0, .proceed 1]) := by
  decide +kernel

end ConsoleEnvironmentNames
