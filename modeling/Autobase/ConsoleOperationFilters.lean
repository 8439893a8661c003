import Autobase.ConsoleListings

/-! # The filters of GET /operations

The handler passes the parameters of the query on as a storage request, and the storage compares
them with the columns of the view. -/
namespace ConsoleOperationFilters

open ConsoleSchema ConsoleClusterPass ConsoleListings RowTables PagedReads SortedPages

structure Filters where
  projectID : ℤ
  startDate : ℕ
  endDate : ℕ
  clusterName : Option String := none
  type : Option String := none
  status : Option String := none
  environment : Option String := none

structure GetOperationsParams extends Filters where
  sortBy : Option String := none
  limit : Option ℕ := none
  offset : Option ℕ := none

structure ResponseOperation where
  clusterName : String
  environment : String
  finished : Option ℕ
  id : ℤ
  started : ℕ
  status : String
  type : String

def operationViewToSwagger (op : OperationView) : ResponseOperation :=
  ⟨op.cluster, op.environment, op.finished, op.id, op.started, op.status, op.type⟩

/-- The request the handler makes; it names no environment. -/
def GetOperationsParams.request (param : GetOperationsParams) : GetOperationsReq where
  projectID := param.projectID
  startedFrom := param.startDate
  endedTill := param.endDate
  clusterName := param.clusterName
  type := param.type
  status := param.status
  sortBy := param.sortBy
  limit := param.limit
  offset := param.offset

variable (T : Stamps) (collation : Comparison String)

def Handle (param : GetOperationsParams) (d : Db)
    (response : List ResponseOperation × MetaPagination) : Prop :=
  ∃ operations info, GetOperations T collation param.request d (operations, info) ∧
    response = (operations.map operationViewToSwagger, info)

/-! ## What the parameters mean -/

def Filters.Satisfied (f : Filters) (o : OperationView) : Bool :=
  decide (o.projectID = f.projectID) && decide (f.startDate ≤ o.started) &&
    decide (o.started ≤ f.endDate) &&
    f.clusterName.all (fun name => decide (o.cluster = name)) &&
    f.type.all (fun type => decide (o.type = type)) &&
    f.status.all (fun status => decide (o.status = status)) &&
    f.environment.all (fun name => decide (o.environment = name))

/-- The pages of every size together hold the operations that satisfy the parameters, each
once. -/
def ReturnsExactly (f : Filters) (d : Db) : Prop :=
  ∀ limit, 0 < limit → ∀ answers : ℕ → List ResponseOperation × MetaPagination,
    (∀ k, Handle T collation ⟨f, none, some limit, some (k * limit)⟩ d (answers k)) →
    ∀ n, (vOperations T d).length ≤ n * limit →
      ((List.range n).flatMap fun k => (answers k).1).Perm
        (((vOperations T d).filter f.Satisfied).map operationViewToSwagger)

/-- The operation satisfies the parameters that the code compares as they are meant. -/
def Filters.Fits (f : Filters) (o : OperationView) : Bool :=
  decide (o.projectID = f.projectID) && decide (f.startDate ≤ o.started) &&
    f.clusterName.all (fun name => decide (o.cluster = name)) &&
    f.type.all (fun type => decide (o.type = type)) &&
    f.status.all (fun status => decide (o.status = status))

/-- Of the fitting operations those were updated by the end of the range that were started by
then and belong to the environment. -/
def EndsAlike (f : Filters) (d : Db) : Prop :=
  ∀ o ∈ vOperations T d, f.Fits o = true →
    ((∃ t, o.finished = some t ∧ t ≤ f.endDate) ↔
      o.started ≤ f.endDate ∧ ∀ name, f.environment = some name → o.environment = name)

variable {T collation} {f : Filters} {d : Db}

theorem selects_iff {param : GetOperationsParams} {o : OperationView} :
    param.request.selects o = true ↔
      param.Fits o = true ∧ ∃ t, o.finished = some t ∧ t ≤ param.endDate := by
  simp only [GetOperationsReq.selects, Filters.Fits, Bool.and_eq_true, decide_eq_true_eq,
    Option.any_eq_true]
  constructor
  · rintro ⟨⟨⟨⟨⟨⟨hproject, hstarted⟩, hfinished⟩, hname⟩, htype⟩, hstatus⟩, -⟩
    exact ⟨⟨⟨⟨⟨hproject, hstarted⟩, hname⟩, htype⟩, hstatus⟩, hfinished⟩
  · rintro ⟨⟨⟨⟨⟨hproject, hstarted⟩, hname⟩, htype⟩, hstatus⟩, hfinished⟩
    exact ⟨⟨⟨⟨⟨⟨hproject, hstarted⟩, hfinished⟩, hname⟩, htype⟩, hstatus⟩, rfl⟩

theorem satisfied_iff {o : OperationView} : f.Satisfied o = true ↔ f.Fits o = true ∧
    o.started ≤ f.endDate ∧ ∀ name, f.environment = some name → o.environment = name := by
  simp only [Filters.Satisfied, Filters.Fits, Bool.and_eq_true, decide_eq_true_eq,
    Option.all_eq_true]
  tauto

def selected (T : Stamps) (f : Filters) (d : Db) : List OperationView :=
  (vOperations T d).filter ({ f with } : GetOperationsParams).request.selects

theorem order_strict (T : Stamps) (collation : Comparison String) (d : Db)
    {param : GetOperationsParams} (hsort : param.sortBy = none) (limit : ℕ) :
    TiesTogether (operationsQuery T collation param.request d).order limit
      (operationsQuery T collation param.request d).rows := by
  apply tiesTogether_of_key OperationView.id (t := ⟨.id, true⟩) ?_ ?_ (fun _ => rfl)
  · have hids : ((vOperations T d).map OperationView.id).Nodup := by
      rw [ids_vOperations]
      exact d.ok.operations_pkey
    exact hids.sublist (List.filter_sublist.map _)
  · simp [GetOperationsParams.request, hsort, orderByConverter]

theorem concatenated {limit : ℕ} (hlimit : 0 < limit)
    {answers : ℕ → List ResponseOperation × MetaPagination}
    (hanswers : ∀ k, Handle T collation ⟨f, none, some limit, some (k * limit)⟩ d (answers k))
    {n : ℕ} (hn : (vOperations T d).length ≤ n * limit) :
    ((List.range n).flatMap fun k => (answers k).1).Perm
      ((selected T f d).map operationViewToSwagger) := by
  choose operations info hoperations hresponse using hanswers
  choose arranged harranged hpage using hoperations
  have hties := order_strict T collation d (show (⟨f, none, none, none⟩ : GetOperationsParams).sortBy
    = none from rfl) limit
  have hperm : (pages limit arranged n).Perm (selected T f d) := by
    apply pages_perm hlimit ((nodup_vOperations T d).filter _) hties harranged
    exact (List.length_filter_le _ _).trans hn
  have hdata : ∀ k, (answers k).1 =
      (page limit (k * limit) (arranged k)).map operationViewToSwagger := by
    intro k
    rw [hresponse k]
    exact congrArg (List.map operationViewToSwagger) (Prod.mk.inj (hpage k)).1
  simp only [hdata]
  rw [← List.map_flatMap]
  exact hperm.map operationViewToSwagger

theorem exists_answers (T : Stamps) (collation : Comparison String) (f : Filters) (d : Db)
    (limit : ℕ) : ∃ answers : ℕ → List ResponseOperation × MetaPagination,
      ∀ k, Handle T collation ⟨f, none, some limit, some (k * limit)⟩ d (answers k) := by
  let order :=
    (operationsQuery T collation (GetOperationsParams.request ⟨f, none, none, none⟩) d).order
  refine ⟨fun k => ((page limit (k * limit) (arrangement order (selected T f d))).map
    operationViewToSwagger, ⟨limit, k * limit, (selected T f d).length⟩), fun k => ?_⟩
  exact ⟨_, _, ⟨_, arranged_arrangement order (selected T f d), rfl⟩, rfl⟩

theorem mem_of_mem_swagger {rows : List OperationView} (hrows : rows ⊆ vOperations T d)
    {o : OperationView} (ho : o ∈ vOperations T d)
    (h : operationViewToSwagger o ∈ rows.map operationViewToSwagger) : o ∈ rows := by
  obtain ⟨q, hq, he⟩ := List.mem_map.mp h
  have hids : ((vOperations T d).map OperationView.id).Nodup := by
    rw [ids_vOperations]
    exact d.ok.operations_pkey
  have hid : q.id = o.id := congrArg ResponseOperation.id he
  exact eq_of_key_eq hids (hrows hq) ho hid ▸ hq

theorem returnsExactly_iff_selects : ReturnsExactly T collation f d ↔
    ∀ o ∈ vOperations T d,
      ({ f with } : GetOperationsParams).request.selects o = f.Satisfied o := by
  constructor
  · intro h o ho
    obtain ⟨answers, hanswers⟩ := exists_answers T collation f d 1
    have hn : (vOperations T d).length ≤ (vOperations T d).length * 1 := by omega
    have hperm := (concatenated Nat.one_pos hanswers hn).symm.trans
      (h 1 Nat.one_pos answers hanswers _ hn)
    rw [Bool.eq_iff_iff]
    constructor
    · intro hselects
      have hmem := hperm.mem_iff.mp
        (List.mem_map_of_mem (List.mem_filter.mpr ⟨ho, hselects⟩))
      exact (List.mem_filter.mp
        (mem_of_mem_swagger (List.filter_subset_self _) ho hmem)).2
    · intro hsatisfied
      have hmem := hperm.mem_iff.mpr
        (List.mem_map_of_mem (List.mem_filter.mpr ⟨ho, hsatisfied⟩))
      exact (List.mem_filter.mp
        (mem_of_mem_swagger (List.filter_subset_self _) ho hmem)).2
  · intro h limit hlimit answers hanswers n hn
    rw [← List.filter_congr h]
    exact concatenated hlimit hanswers hn

/-- The operations over all pages are those that satisfy the parameters exactly when, among the
ones that fit the other parameters, being updated by the end date means being started by then in
the environment. -/
theorem operations_exact_iff (T : Stamps) (collation : Comparison String) (f : Filters) (d : Db) :
    ReturnsExactly T collation f d ↔ EndsAlike T f d := by
  rw [returnsExactly_iff_selects]
  apply forall₂_congr
  intro o _
  rw [Bool.eq_iff_iff, selects_iff, satisfied_iff]
  exact and_congr_right_iff

/-- The deployment is still running: its row has not been updated. -/
theorem running_operation_missing : ¬ ReturnsExactly noStamps (.ofOrder String)
    { projectID := 1, startDate := 0, endDate := 10 } deploying := by
  rw [returnsExactly_iff_selects]
  decide +kernel

end ConsoleOperationFilters
