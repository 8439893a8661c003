import Mathlib.Data.List.Basic
import Mathlib.Data.List.Induction
import Mathlib.Data.List.Nodup
import Mathlib.Logic.Function.Basic

/-! # Tasks in batches of hosts

The hosts of a batch do its tasks one after the other. A task begins when all of them have done
the one before it, and they do it in any order. A task that fails on one host is still done on
the others of the batch, and then everything ends. -/
namespace BatchRuns

variable {η τ σ α : Type*}

structure Batch (η τ : Type*) where
  hosts : List η
  tasks : List τ

/-- The first of the `tasks` is being done by the `hosts`; those `waiting` have still to do it.
What each host has done, and with what answers, is recorded
for the statements and decides nothing. -/
structure Rollout (η τ σ α : Type*) where
  members : η → σ
  done : η → List (τ × α)
  hosts : List η
  waiting : List η
  tasks : List τ
  later : List (Batch η τ)
  failed : Bool

namespace Rollout

/-- The first batch that has hosts and tasks. -/
def enter (r : Rollout η τ σ α) : List (Batch η τ) → Rollout η τ σ α
  | [] => { r with waiting := [], tasks := [], later := [] }
  | b :: bs =>
    if b.hosts.isEmpty || b.tasks.isEmpty then r.enter bs
    else { r with hosts := b.hosts, waiting := b.hosts, tasks := b.tasks, later := bs }

def advance (r : Rollout η τ σ α) : Rollout η τ σ α :=
  if r.waiting.isEmpty then
    if r.failed then { r with tasks := [], later := [] }
    else
      match r.tasks with
      | _ :: t :: ts => { r with waiting := r.hosts, tasks := t :: ts }
      | _ => r.enter r.later
  else r

def did [DecidableEq η] (r : Rollout η τ σ α) (t : τ) (h : η) (a : α) (result : σ × Bool) :
    Rollout η τ σ α :=
  { r with
    members := Function.update r.members h result.1
    done := Function.update r.done h (r.done h ++ [(t, a)])
    waiting := r.waiting.erase h
    failed := r.failed || !result.2 }

end Rollout

def start (m : η → σ) (bs : List (Batch η τ)) : Rollout η τ σ α :=
  Rollout.enter ⟨m, fun _ => [], [], [], [], [], false⟩ bs

/-- The new state of the host, and whether the play goes on. -/
abbrev Perform (η τ σ α : Type*) := τ → η → σ → α → σ × Bool

def step [DecidableEq η] (P : Perform η τ σ α) (r : Rollout η τ σ α) (a : η × α) :
    Rollout η τ σ α :=
  match r.tasks with
  | [] => r
  | t :: _ =>
    if a.1 ∈ r.waiting then (r.did t a.1 a.2 (P t a.1 (r.members a.1) a.2)).advance else r

/-- The host gets from the one state to the other by tasks that all succeed. -/
inductive Did (P : Perform η τ σ α) (h : η) (m : σ) : List (τ × α) → σ → Prop
  | none : Did P h m [] m
  | next {ds : List (τ × α)} {n : σ} {t : τ} {a : α} : Did P h m ds n → (P t h n a).2 = true →
      Did P h m (ds ++ [(t, a)]) (P t h n a).1

/-- The host has done these tasks, and all of them have succeeded. -/
def Through (P : Perform η τ σ α) (m : η → σ) (ts : List τ) (r : Rollout η τ σ α) (h : η) :
    Prop :=
  (r.done h).map Prod.fst = ts ∧ Did P h (m h) (r.done h) (r.members h)

section Members

variable {P : Perform η τ σ α} {h : η} {m n : σ} {ds es : List (τ × α)} {t : τ} {a : α}

theorem did_nil : Did P h m [] n ↔ n = m := by
  constructor
  · intro hd
    generalize hes : ([] : List (τ × α)) = es at hd
    cases hd with
    | none => rfl
    | next => simp at hes
  · rintro rfl
    exact .none

theorem did_concat : Did P h m (ds ++ [(t, a)]) n ↔
    ∃ k, Did P h m ds k ∧ (P t h k a).2 = true ∧ n = (P t h k a).1 := by
  constructor
  · intro hd
    generalize hes : ds ++ [(t, a)] = es at hd
    cases hd with
    | none => simp at hes
    | next hd hok =>
      obtain ⟨rfl, hlast⟩ := List.append_inj' hes rfl
      obtain ⟨rfl, rfl⟩ := Prod.mk.inj (List.cons.inj hlast).1
      exact ⟨_, hd, hok, rfl⟩
  · rintro ⟨k, hd, hok, rfl⟩
    exact .next hd hok

theorem did_append : Did P h m (ds ++ es) n ↔ ∃ k, Did P h m ds k ∧ Did P h k es n := by
  induction es using List.reverseRecOn generalizing n with
  | nil => simp [did_nil]
  | append_singleton es e ih =>
    obtain ⟨t, a⟩ := e
    rw [← List.append_assoc, did_concat]
    constructor
    · rintro ⟨k, hd, hok, rfl⟩
      obtain ⟨l, hds, hes⟩ := ih.mp hd
      exact ⟨l, hds, .next hes hok⟩
    · rintro ⟨l, hds, hes⟩
      obtain ⟨k, hbefore, hok, rfl⟩ := did_concat.mp hes
      exact ⟨k, ih.mpr ⟨l, hds, hbefore⟩, hok, rfl⟩

/-- What each of the tasks keeps when it succeeds. -/
theorem did_keeps {I : σ → Prop}
    (hkeep : ∀ t a, (t, a) ∈ ds → ∀ n, I n → (P t h n a).2 = true → I (P t h n a).1)
    (hd : Did P h m ds n) (hm : I m) : I n := by
  induction hd with
  | none => exact hm
  | @next ds n t a hd hok ih =>
    refine hkeep t a (List.mem_append_right _ List.mem_cons_self) n ?_ hok
    exact ih fun t a hmem => hkeep t a (List.mem_append_left _ hmem)

/-- A value that each task changes in its own way. -/
theorem did_value {β : Type*} {V : σ → β} {F : τ → β → β}
    (hvalue : ∀ t n a, (P t h n a).2 = true → V (P t h n a).1 = F t (V n))
    (hd : Did P h m ds n) : V n = (ds.map Prod.fst).foldl (fun v t => F t v) (V m) := by
  induction hd with
  | none => rfl
  | next hd hok ih =>
    rw [hvalue _ _ _ hok, ih, List.map_append, List.foldl_append]
    rfl

end Members

/-- The hosts of the batches that are over have done all their tasks, and those that stand in no
batch so far have done nothing. -/
structure Behind (P : Perform η τ σ α) (m : η → σ) (past : List (Batch η τ)) (hosts : List η)
    (r : Rollout η τ σ α) : Prop where
  finished : ∀ b ∈ past, ∀ h ∈ b.hosts, Through P m b.tasks r h
  untouched : ∀ h, h ∉ hosts → (∀ b ∈ past, h ∉ b.hosts) → r.done h = [] ∧ r.members h = m h

/-- The hosts of the batch have done the `prior` tasks and are about to do `t`. -/
structure Underway (P : Perform η τ σ α) (m : η → σ) (past : List (Batch η τ)) (prior : List τ)
    (t : τ) (r : Rollout η τ σ α) : Prop where
  behind : Behind P m past r.hosts r
  awaited : ∀ h ∈ r.waiting, Through P m prior r h
  ahead : ∀ h ∈ r.hosts, h ∉ r.waiting → r.failed = false → Through P m (prior ++ [t]) r h
  among : ∀ h ∈ r.waiting, h ∈ r.hosts
  distinct : r.waiting.Nodup
  inhabited : r.hosts ≠ []

/-- Where a rollout of the batches stands. -/
inductive Standing (P : Perform η τ σ α) (m : η → σ) (bs : List (Batch η τ))
    (r : Rollout η τ σ α) : Prop
  | running (past : List (Batch η τ)) (prior : List τ) (t : τ) (ts : List τ)
      (underway : Underway P m past prior t r) (tasks : r.tasks = t :: ts)
      (waiting : r.waiting ≠ []) (batches : bs = past ++ ⟨r.hosts, prior ++ t :: ts⟩ :: r.later)
  | broken (past : List (Batch η τ)) (prior : List τ) (t : τ) (ts : List τ)
      (later : List (Batch η τ)) (underway : Underway P m past prior t r) (tasks : r.tasks = [])
      (waiting : r.waiting = []) (failed : r.failed = true)
      (batches : bs = past ++ ⟨r.hosts, prior ++ t :: ts⟩ :: later)
  | completed (behind : Behind P m bs [] r) (tasks : r.tasks = []) (waiting : r.waiting = [])
      (failed : r.failed = false)

/-- No host stands in two batches. -/
def Distinct (bs : List (Batch η τ)) : Prop := (bs.flatMap Batch.hosts).Nodup

variable {P : Perform η τ σ α} {m : η → σ} {bs past later : List (Batch η τ)} {b : Batch η τ}
  {prior ts : List τ} {r : Rollout η τ σ α} {h : η} {t : τ}

theorem apart_of_distinct (hd : Distinct (past ++ b :: later)) (hh : h ∈ b.hosts) :
    ∀ c ∈ past, h ∉ c.hosts := by
  intro c hc hmem
  rw [Distinct, List.flatMap_append, List.flatMap_cons] at hd
  obtain ⟨-, -, hdisjoint⟩ := List.nodup_append.mp hd
  exact hdisjoint h (List.mem_flatMap.mpr ⟨c, hc, hmem⟩) h (List.mem_append_left _ hh) rfl

theorem nodup_of_distinct (hd : Distinct (past ++ b :: later)) : b.hosts.Nodup := by
  rw [Distinct, List.flatMap_append, List.flatMap_cons] at hd
  exact (List.nodup_append.mp (List.nodup_append.mp hd).2.1).1

theorem batch_unique {c : Batch η τ} (hd : Distinct bs) (hb : b ∈ bs) (hc : c ∈ bs)
    (hhb : h ∈ b.hosts) (hhc : h ∈ c.hosts) : b = c := by
  obtain ⟨past, later, rfl⟩ := List.append_of_mem hb
  rcases List.mem_append.mp hc with hpast | hc
  · exact absurd hhc (apart_of_distinct hd hhb c hpast)
  · rcases List.mem_cons.mp hc with rfl | hlater
    · rfl
    · obtain ⟨between, rest, rfl⟩ := List.append_of_mem hlater
      rw [← List.cons_append, ← List.append_assoc] at hd
      refine absurd hhb (apart_of_distinct hd hhc b ?_)
      exact List.mem_append_right _ List.mem_cons_self

theorem through_congr {r' : Rollout η τ σ α} (ht : Through P m ts r h)
    (hdone : r'.done h = r.done h) (hmember : r'.members h = r.members h) :
    Through P m ts r' h := by
  rw [Through, hdone, hmember]
  exact ht

theorem through_nil (hdone : r.done h = []) (hmember : r.members h = m h) :
    Through P m [] r h := by
  rw [Through, hdone, hmember]
  exact ⟨rfl, .none⟩

theorem behind_congr {hosts : List η} {r' : Rollout η τ σ α} (hb : Behind P m past hosts r)
    (hdone : r'.done = r.done) (hmembers : r'.members = r.members) : Behind P m past hosts r' := by
  constructor
  · exact fun b hb' h hh =>
      through_congr (hb.finished b hb' h hh) (by rw [hdone]) (by rw [hmembers])
  · rw [hdone, hmembers]
    exact hb.untouched

theorem enter_frame (r : Rollout η τ σ α) (bs : List (Batch η τ)) :
    (r.enter bs).members = r.members ∧ (r.enter bs).done = r.done ∧
      (r.enter bs).failed = r.failed := by
  induction bs with
  | nil => exact ⟨rfl, rfl, rfl⟩
  | cons b bs ih =>
    rw [Rollout.enter]
    split
    · exact ih
    · exact ⟨rfl, rfl, rfl⟩

/-- What was done on the hosts stays, and a failure is not forgotten. -/
theorem advance_frame (r : Rollout η τ σ α) : r.advance.members = r.members ∧
    r.advance.done = r.done ∧ r.advance.failed = r.failed := by
  rw [Rollout.advance]
  split
  · split
    · exact ⟨rfl, rfl, rfl⟩
    · split
      · exact ⟨rfl, rfl, rfl⟩
      · exact enter_frame r r.later
  · exact ⟨rfl, rfl, rfl⟩

/-- Nothing has failed so far, or the host has still a task to do. -/
def Live (r : Rollout η τ σ α) (h : η) : Prop := h ∈ r.waiting ∨ r.failed = false

theorem live_of_advance (hl : Live r.advance h) : Live r h := by
  by_cases hfailed : r.failed = false
  · exact Or.inr hfailed
  · rcases hl with hl | hl
    · rw [Rollout.advance] at hl
      split at hl
      · rw [if_pos (Bool.not_eq_false _ ▸ hfailed)] at hl
        exact Or.inl hl
      · exact Or.inl hl
    · rw [(advance_frame r).2.2] at hl
      exact absurd hl hfailed

/-- A batch is entered when those before it are over. -/
theorem standing_enter (hd : Distinct (past ++ later)) (hb : Behind P m past [] r)
    (hfailed : r.failed = false) : Standing P m (past ++ later) (r.enter later) := by
  induction later generalizing past with
  | nil =>
    rw [List.append_nil]
    exact .completed (behind_congr hb rfl rfl) rfl rfl hfailed
  | cons b bs ih =>
    have hfresh : ∀ h ∈ b.hosts, r.done h = [] ∧ r.members h = m h := fun h hh =>
      hb.untouched h List.not_mem_nil (apart_of_distinct hd hh)
    rw [Rollout.enter]
    split
    · rename_i hempty
      rw [List.append_cons] at hd ⊢
      refine ih hd ⟨?_, ?_⟩
      · intro c hc h hh
        rcases List.mem_append.mp hc with hc | hc
        · exact hb.finished c hc h hh
        · obtain rfl := List.mem_singleton.mp hc
          rcases Bool.or_eq_true_iff.mp hempty with hempty | hempty
          · rw [List.isEmpty_iff.mp hempty] at hh
            exact absurd hh List.not_mem_nil
          · rw [List.isEmpty_iff.mp hempty]
            exact through_nil (hfresh h hh).1 (hfresh h hh).2
      · intro h hh hpast
        exact hb.untouched h hh fun c hc => hpast c (List.mem_append_left _ hc)
    · rename_i hempty
      obtain ⟨hhosts, htasks⟩ := Bool.or_eq_false_iff.mp (Bool.eq_false_iff.mpr hempty)
      have hhosts' : b.hosts ≠ [] := by
        rintro he
        rw [he] at hhosts
        cases hhosts
      obtain ⟨t, ts, hts⟩ := List.exists_cons_of_ne_nil fun he : b.tasks = [] => by
        rw [he] at htasks
        cases htasks
      refine .running past [] t ts ⟨⟨hb.finished, ?_⟩, ?_, ?_, ?_, ?_, hhosts'⟩ hts hhosts' ?_
      · intro h _ hpast
        exact hb.untouched h List.not_mem_nil hpast
      · exact fun h hh => through_nil (hfresh h hh).1 (hfresh h hh).2
      · exact fun h hh hwaiting => absurd hh hwaiting
      · exact fun h hh => hh
      · exact nodup_of_distinct hd
      · rw [List.nil_append, ← hts]

theorem standing_start (hd : Distinct bs) : Standing P m bs (start m bs) := by
  have hd' : Distinct ([] ++ bs) := hd
  exact standing_enter hd' ⟨by simp, fun _ _ _ => ⟨rfl, rfl⟩⟩ rfl

/-- When the last host has done the task, the next one begins, or everything ends. -/
theorem standing_advance (hd : Distinct bs) (hu : Underway P m past prior t r)
    (htasks : r.tasks = t :: ts) (hbs : bs = past ++ ⟨r.hosts, prior ++ t :: ts⟩ :: r.later) :
    Standing P m bs r.advance := by
  rw [Rollout.advance]
  split
  · rename_i hempty
    have hwaiting : r.waiting = [] := List.isEmpty_iff.mp hempty
    split
    · rename_i hfailed
      exact .broken past prior t ts r.later
        ⟨behind_congr hu.behind rfl rfl, hu.awaited, hu.ahead, hu.among, hu.distinct,
          hu.inhabited⟩ rfl hwaiting hfailed hbs
    · rename_i hfailed
      replace hfailed := Bool.eq_false_iff.mpr hfailed
      have hahead : ∀ h ∈ r.hosts, Through P m (prior ++ [t]) r h := fun h hh =>
        hu.ahead h hh (by simp [hwaiting]) hfailed
      cases ts with
      | nil =>
        rw [htasks]
        rw [List.append_cons] at hbs
        rw [hbs] at hd ⊢
        refine standing_enter hd ⟨?_, ?_⟩ hfailed
        · intro b hb h hh
          rcases List.mem_append.mp hb with hb | hb
          · exact hu.behind.finished b hb h hh
          · obtain rfl := List.mem_singleton.mp hb
            exact hahead h hh
        · intro h _ hpast
          exact hu.behind.untouched h
            (hpast ⟨r.hosts, prior ++ [t]⟩ (List.mem_append_right _ List.mem_cons_self))
            fun c hc => hpast c (List.mem_append_left _ hc)
      | cons u ts =>
        rw [htasks]
        rw [hbs] at hd
        have hbs' : bs = past ++ ⟨r.hosts, (prior ++ [t]) ++ u :: ts⟩ :: r.later := by
          rw [hbs, ← List.append_cons]
        exact .running past (prior ++ [t]) u ts
          ⟨behind_congr hu.behind rfl rfl, fun h hh => hahead h hh,
            fun h hh hnot => absurd hh hnot, fun _ hh => hh, nodup_of_distinct hd, hu.inhabited⟩
          rfl hu.inhabited hbs'
  · rename_i hempty
    exact .running past prior t ts hu htasks (fun he => hempty (List.isEmpty_iff.mpr he)) hbs

theorem behind_cases {hosts : List η} (hb : Behind P m past hosts r) (hh : h ∉ hosts) :
    (r.done h = [] ∧ r.members h = m h) ∨ ∃ b ∈ past, h ∈ b.hosts ∧ Through P m b.tasks r h := by
  by_cases hpast : ∃ b ∈ past, h ∈ b.hosts
  · obtain ⟨b, hb', hmem⟩ := hpast
    exact Or.inr ⟨b, hb', hmem, hb.finished b hb' h hmem⟩
  · exact Or.inl (hb.untouched h hh fun b hb' hmem => hpast ⟨b, hb', hmem⟩)

/-- As long as nothing has failed, and on a host that waits, the tasks done are the first ones of
the batch. -/
theorem done_prefix (hd : Distinct bs) (hs : Standing P m bs r)
    (hlive : Live r h) (hb : b ∈ bs) (hh : h ∈ b.hosts) :
    (r.done h).map Prod.fst <+: b.tasks := by
  have hsettled : ∀ past hosts, (∀ c ∈ past, c ∈ bs) → Behind P m past hosts r → h ∉ hosts →
      (r.done h).map Prod.fst <+: b.tasks := by
    intro past hosts hsub hbehind hout
    rcases behind_cases hbehind hout with ⟨hdone, -⟩ | ⟨c, hc, hmem, ht⟩
    · rw [hdone]
      exact List.nil_prefix
    · have hcb : c = b := batch_unique hd (hsub c hc) hb hmem hh
      exact ⟨[], by rw [List.append_nil, ht.1, hcb]⟩
  have hunderway : ∀ past prior t ts later, Underway P m past prior t r →
      bs = past ++ ⟨r.hosts, prior ++ t :: ts⟩ :: later →
      (r.done h).map Prod.fst <+: b.tasks := by
    intro past prior t ts later hu hbs
    by_cases hin : h ∈ r.hosts
    · have hbatch : (⟨r.hosts, prior ++ t :: ts⟩ : Batch η τ) = b :=
        batch_unique hd (hbs ▸ List.mem_append_right _ List.mem_cons_self) hb hin hh
      rw [← hbatch]
      by_cases hwaiting : h ∈ r.waiting
      · rw [(hu.awaited h hwaiting).1]
        exact List.prefix_append _ _
      · rw [(hu.ahead h hin hwaiting (hlive.resolve_left hwaiting)).1]
        exact ⟨ts, (List.append_cons prior t ts).symm⟩
    · exact hsettled past r.hosts (fun c hc => hbs ▸ List.mem_append_left _ hc) hu.behind hin
  cases hs with
  | running past prior t ts hu _ _ hbs => exact hunderway past prior t ts r.later hu hbs
  | broken past prior t ts later hu _ _ _ hbs => exact hunderway past prior t ts later hu hbs
  | completed hbehind _ _ _ => exact hsettled bs [] (fun c hc => hc) hbehind List.not_mem_nil

/-- The batch of a host that waits, and what it has still to do. -/
theorem batch_of_waiting (hs : Standing P m bs r) (hh : h ∈ r.waiting) :
    ∃ b ∈ bs, h ∈ b.hosts ∧ b.tasks = (r.done h).map Prod.fst ++ r.tasks := by
  cases hs with
  | running past prior t ts hu htasks _ hbs =>
    refine ⟨_, hbs ▸ List.mem_append_right _ List.mem_cons_self, hu.among h hh, ?_⟩
    rw [(hu.awaited h hh).1, htasks]
  | broken past prior t ts later hu _ hnil _ _ =>
    rw [hnil] at hh
    exact absurd hh List.not_mem_nil
  | completed _ _ hnil _ =>
    rw [hnil] at hh
    exact absurd hh List.not_mem_nil

/-- The host is as at the start, or through with its batch. -/
def Settled (P : Perform η τ σ α) (m : η → σ) (bs : List (Batch η τ)) (r : Rollout η τ σ α)
    (h : η) : Prop :=
  (r.done h = [] ∧ r.members h = m h) ∨ ∃ b ∈ bs, h ∈ b.hosts ∧ Through P m b.tasks r h

/-- A host outside the batch at hand is as at the start, or through with its batch. -/
theorem settled_outside (hs : Standing P m bs r) (hh : h ∉ r.hosts) : Settled P m bs r h := by
  cases hs with
  | running past prior t ts hu _ _ hbs =>
    refine (behind_cases hu.behind hh).imp_right ?_
    rintro ⟨b, hb, hmem⟩
    exact ⟨b, hbs ▸ List.mem_append_left _ hb, hmem⟩
  | broken past prior t ts later hu _ _ _ hbs =>
    refine (behind_cases hu.behind hh).imp_right ?_
    rintro ⟨b, hb, hmem⟩
    exact ⟨b, hbs ▸ List.mem_append_left _ hb, hmem⟩
  | completed hb _ _ _ => exact behind_cases hb List.not_mem_nil

theorem through_of_completed (hs : Standing P m bs r) (htasks : r.tasks = [])
    (hfailed : r.failed = false) (hb : b ∈ bs) (hh : h ∈ b.hosts) : Through P m b.tasks r h := by
  cases hs with
  | running past prior t ts hu htasks' _ _ => exact absurd (htasks'.symm.trans htasks) (by simp)
  | broken past prior t ts later hu _ _ hfailed' _ =>
    exact absurd (hfailed'.symm.trans hfailed) (by simp)
  | completed hbehind _ _ _ => exact hbehind.finished b hb h hh

/-- Whatever fails, the hosts that are left halfway are in one batch. -/
theorem unsettled_together (hs : Standing P m bs r) {g : η} (hg : ¬ Settled P m bs r g)
    (hh : ¬ Settled P m bs r h) : ∃ b ∈ bs, g ∈ b.hosts ∧ h ∈ b.hosts := by
  have hin : ∀ {f : η}, ¬ Settled P m bs r f → f ∈ r.hosts := fun hf =>
    Classical.byContradiction fun hout => hf (settled_outside hs hout)
  cases hs with
  | running past prior t ts hu _ _ hbs =>
    exact ⟨_, hbs ▸ List.mem_append_right _ List.mem_cons_self, hin hg, hin hh⟩
  | broken past prior t ts later hu _ _ _ hbs =>
    exact ⟨_, hbs ▸ List.mem_append_right _ List.mem_cons_self, hin hg, hin hh⟩
  | completed hb _ _ _ => exact absurd (behind_cases hb List.not_mem_nil) hh

theorem exists_batch (hs : Standing P m bs r) (hdone : r.done h ≠ []) : ∃ b ∈ bs, h ∈ b.hosts := by
  by_cases hsettled : Settled P m bs r h
  · rcases hsettled with ⟨hnil, -⟩ | ⟨b, hb, hh, -⟩
    · exact absurd hnil hdone
    · exact ⟨b, hb, hh⟩
  · obtain ⟨b, hb, hh, -⟩ := unsettled_together hs hsettled hsettled
    exact ⟨b, hb, hh⟩

/-- As long as nothing has failed, and on a host that waits, all tasks so far have succeeded. -/
theorem did_so_far (hs : Standing P m bs r) (hh : Live r h) :
    Did P h (m h) (r.done h) (r.members h) := by
  have hsettled : ∀ past hosts, Behind P m past hosts r → h ∉ hosts →
      Did P h (m h) (r.done h) (r.members h) := by
    intro past hosts hb hout
    rcases behind_cases hb hout with ⟨hdone, hmember⟩ | ⟨b, -, -, ht⟩
    · exact (through_nil hdone hmember).2
    · exact ht.2
  have hunderway : ∀ past prior t, Underway P m past prior t r →
      Did P h (m h) (r.done h) (r.members h) := by
    intro past prior t hu
    by_cases hin : h ∈ r.hosts
    · by_cases hwaiting : h ∈ r.waiting
      · exact (hu.awaited h hwaiting).2
      · exact (hu.ahead h hin hwaiting (hh.resolve_left hwaiting)).2
    · exact hsettled past r.hosts hu.behind hin
  cases hs with
  | running past prior t ts hu _ _ _ => exact hunderway past prior t hu
  | broken past prior t ts later hu _ _ _ _ => exact hunderway past prior t hu
  | completed hb _ _ _ => exact hsettled bs [] hb List.not_mem_nil

/-- Nothing is done on a host before all the batches in front of its own are over. -/
theorem through_before {first second : List (Batch η τ)} (hd : Distinct (first ++ b :: second))
    (hs : Standing P m (first ++ b :: second) r) (hh : h ∈ b.hosts) (hdone : r.done h ≠ []) :
    ∀ c ∈ first, ∀ g ∈ c.hosts, Through P m c.tasks r g := by
  have hunderway : ∀ past prior t ts later, Underway P m past prior t r →
      first ++ b :: second = past ++ ⟨r.hosts, prior ++ t :: ts⟩ :: later →
      ∀ c ∈ first, ∀ g ∈ c.hosts, Through P m c.tasks r g := by
    intro past prior t ts later hu hbs c hc g hg
    rcases List.append_eq_append_iff.mp hbs with ⟨front, rfl, -⟩ | ⟨front, rfl, hrest⟩
    · exact hu.behind.finished c (List.mem_append_left _ hc) g hg
    · cases front with
      | nil =>
        rw [List.append_nil] at hc
        exact hu.behind.finished c hc g hg
      | cons d front =>
        obtain ⟨rfl, rfl⟩ := List.cons.inj hrest
        -- the batch of the host is still to come
        have happart := apart_of_distinct hd hh
        refine absurd (hu.behind.untouched h ?_ ?_).1 hdone
        · exact happart ⟨r.hosts, prior ++ t :: ts⟩
            (List.mem_append_right _ List.mem_cons_self)
        · exact fun e he => happart e (List.mem_append_left _ he)
  cases hs with
  | running past prior t ts hu _ _ hbs => exact hunderway past prior t ts r.later hu hbs
  | broken past prior t ts later hu _ _ _ hbs => exact hunderway past prior t ts later hu hbs
  | completed hb _ _ _ =>
    exact fun c hc g hg => hb.finished c (List.mem_append_left _ hc) g hg

variable [DecidableEq η]

theorem underway_did (hu : Underway P m past prior t r) (hpast : ∀ c ∈ past, h ∉ c.hosts)
    (hh : h ∈ r.waiting) (a : α) :
    Underway P m past prior t (r.did t h a (P t h (r.members h) a)) := by
  have hne : ∀ g, g ≠ h → (r.did t h a (P t h (r.members h) a)).done g = r.done g ∧
      (r.did t h a (P t h (r.members h) a)).members g = r.members g := fun g hg =>
    ⟨Function.update_of_ne hg _ _, Function.update_of_ne hg _ _⟩
  refine ⟨⟨?_, ?_⟩, ?_, ?_, ?_, hu.distinct.erase h, hu.inhabited⟩
  · intro b hb g hg
    obtain ⟨hdone, hmember⟩ := hne g (fun he => hpast b hb (he ▸ hg))
    exact through_congr (hu.behind.finished b hb g hg) hdone hmember
  · intro g hg hover
    obtain ⟨hdone, hmember⟩ := hne g (fun he => hg (he ▸ hu.among h hh))
    rw [hdone, hmember]
    exact hu.behind.untouched g hg hover
  · intro g hg
    obtain ⟨hgh, hg⟩ := (List.Nodup.mem_erase_iff hu.distinct).mp hg
    exact through_congr (hu.awaited g hg) (hne g hgh).1 (hne g hgh).2
  · intro g hg hwaiting hfailed
    obtain ⟨hfailed, hok⟩ := Bool.or_eq_false_iff.mp hfailed
    by_cases hgh : g = h
    · subst hgh
      have hdone : (r.did t g a (P t g (r.members g) a)).done g = r.done g ++ [(t, a)] :=
        Function.update_self ..
      have hmember : (r.did t g a (P t g (r.members g) a)).members g =
          (P t g (r.members g) a).1 := Function.update_self ..
      obtain ⟨hprior, hdid⟩ := hu.awaited g hh
      rw [Through, hdone, hmember, List.map_append, hprior]
      exact ⟨rfl, .next hdid (by simpa using hok)⟩
    · have hrest : g ∉ r.waiting := fun hmem =>
        hwaiting ((List.Nodup.mem_erase_iff hu.distinct).mpr ⟨hgh, hmem⟩)
      exact through_congr (hu.ahead g hg hrest hfailed) (hne g hgh).1 (hne g hgh).2
  · exact fun g hg => hu.among g (List.mem_of_mem_erase hg)

omit [DecidableEq η] in
theorem distinct_waiting (hs : Standing P m bs r) : r.waiting.Nodup := by
  cases hs with
  | running _ _ _ _ hu _ _ _ => exact hu.distinct
  | broken _ _ _ _ _ hu _ _ _ _ => exact hu.distinct
  | completed _ _ hnil _ =>
    rw [hnil]
    exact List.nodup_nil

theorem live_of_did {g : η} {a : α} {result : σ × Bool} (hs : Standing P m bs r)
    (hl : Live (r.did t g a result) h) :
    (h ≠ g ∧ Live r h) ∨ (h = g ∧ result.2 = true ∧ r.failed = false) := by
  by_cases hhg : h = g
  · subst hhg
    rcases hl with hl | hl
    · exact absurd hl (List.Nodup.not_mem_erase (distinct_waiting hs))
    · obtain ⟨hfailed, hok⟩ := Bool.or_eq_false_iff.mp hl
      exact Or.inr ⟨rfl, by simpa using hok, hfailed⟩
  · refine Or.inl ⟨hhg, ?_⟩
    rcases hl with hl | hl
    · exact Or.inl (List.mem_of_mem_erase hl)
    · exact Or.inr (Bool.or_eq_false_iff.mp hl).1

/-- A step does nothing, or the first task on a host that waits for it. -/
theorem step_cases (P : Perform η τ σ α) (r : Rollout η τ σ α) (a : η × α) : step P r a = r ∨
    ∃ t ts, r.tasks = t :: ts ∧ a.1 ∈ r.waiting ∧
      step P r a = (r.did t a.1 a.2 (P t a.1 (r.members a.1) a.2)).advance := by
  rw [step]
  cases htasks : r.tasks with
  | nil => exact Or.inl rfl
  | cons t ts =>
    by_cases hwaiting : a.1 ∈ r.waiting
    · exact Or.inr ⟨t, ts, rfl, hwaiting, if_pos hwaiting⟩
    · exact Or.inl (if_neg hwaiting)

theorem standing_step (hd : Distinct bs) (hs : Standing P m bs r) (a : η × α) :
    Standing P m bs (step P r a) := by
  rcases step_cases P r a with hstep | ⟨t, ts, htasks, hwaiting, hstep⟩
  · rw [hstep]
    exact hs
  · rw [hstep]
    cases hs with
    | running past prior u us hu hu' _ hbs =>
      obtain ⟨rfl, rfl⟩ := List.cons.inj (hu'.symm.trans htasks)
      have hpast : ∀ c ∈ past, a.1 ∉ c.hosts :=
        apart_of_distinct (hbs ▸ hd) (hu.among a.1 hwaiting)
      exact standing_advance hd (underway_did hu hpast hwaiting a.2) htasks hbs
    | broken past prior u us later hu hnil _ _ _ =>
      exact absurd (hnil.symm.trans htasks) (by simp)
    | completed _ hnil _ _ => exact absurd (hnil.symm.trans htasks) (by simp)

end BatchRuns
