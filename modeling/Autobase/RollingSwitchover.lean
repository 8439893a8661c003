import Autobase.RollingUpdate

/-! # The leadership during a rolling update

A host that is out of the traffic has `nofailover`, so Patroni cannot give the leadership back to
it. The leader is stopped only where it could not be moved. -/
namespace RollingSwitchover

open BatchRuns UpdateTraffic UpdateHost TransitionRuns RollingUpdate

variable {η : Type*}

/-- Both switchovers have failed, and the host still answered as the leader between them. -/
structure Exhausted (m : Member) : Prop where
  switchover : m.switchover = some false
  recheck : m.recheckStatus = some 200
  retry : m.retry = some false

def leaving : HostGroup → List UpdateTask
  | .primary => switchoverTasks ++ [.enableTags, .reload]
  | .secondary => [.enableTags, .reload]

/-- The tasks from there to the stop of Patroni. -/
def quiet : UpdateTask → Bool
  | .replicaUnavailable | .waitTransactions | .isReady | .checkpoint _ | .stopPatroni _ => true
  | _ => false

theorem leaving_of_prefix {k : HostGroup} {ts : List UpdateTask} (hts : ts <+: k.tasks)
    (hreload : .reload ∈ ts) (hupdate : .updatePostgres ∉ ts) :
    ∃ rest, ts = leaving k ++ rest ∧ rest.all quiet = true := by
  have hcheck : ∀ k : HostGroup, k.tasks.inits.all (fun ts => !ts.contains .reload ||
      ts.contains .updatePostgres || (decide (ts = leaving k ++ ts.drop (leaving k).length) &&
        (ts.drop (leaving k).length).all quiet)) = true := by
    intro k
    cases k <;> decide
  have h := List.all_eq_true.mp (hcheck k) ts ((List.mem_inits ts k.tasks).mpr hts)
  simp only [Bool.or_eq_true, Bool.and_eq_true, decide_eq_true_eq, List.contains_iff_mem,
    Bool.not_eq_true', Bool.eq_false_iff, Ne] at h
  obtain ⟨hsplit, hquiet⟩ := h.resolve_left (by simp [hreload, hupdate])
  exact ⟨_, hsplit, hquiet⟩

theorem before_stop {k g : HostGroup} {ts rest : List UpdateTask}
    (hts : k.tasks = ts ++ .stopPatroni g :: rest) :
    .updatePostgres ∉ ts ∧ (k = .primary → .checkReplica ∈ ts) := by
  have hcheck : ∀ k g : HostGroup, k.tasks.inits.all (fun ts =>
      !(ts ++ [UpdateTask.stopPatroni g]).isPrefixOf k.tasks || (!ts.contains .updatePostgres &&
        (decide (k ≠ .primary) || ts.contains .checkReplica))) = true := by
    intro k g
    cases k <;> cases g <;> decide
  have hprefix : ts ++ [.stopPatroni g] <+: k.tasks :=
    ⟨rest, (List.append_cons ts _ rest).symm.trans hts.symm⟩
  have h := List.all_eq_true.mp (hcheck k g) ts
    ((List.mem_inits ts k.tasks).mpr (hts ▸ List.prefix_append _ _))
  rw [List.isPrefixOf_iff_prefix.mpr hprefix, Bool.not_true, Bool.false_or,
    Bool.and_eq_true_iff] at h
  constructor
  · simpa using h.1
  · rintro rfl
    simpa using h.2

theorem before_check {ts rest : List UpdateTask}
    (hts : primaryTasks = ts ++ .checkReplica :: rest) :
    ts = [.checkRole, .switchover, .recheckRole, .retrySwitchover] := by
  have hcheck : primaryTasks.inits.all (fun ts =>
      !(ts ++ [UpdateTask.checkReplica]).isPrefixOf primaryTasks ||
        decide (ts = [.checkRole, .switchover, .recheckRole, .retrySwitchover])) = true := by decide
  have hprefix : ts ++ [.checkReplica] <+: primaryTasks :=
    ⟨rest, (List.append_cons ts _ rest).symm.trans hts.symm⟩
  have h := List.all_eq_true.mp hcheck ts
    ((List.mem_inits ts primaryTasks).mpr (hts ▸ List.prefix_append _ _))
  rw [List.isPrefixOf_iff_prefix.mpr hprefix, Bool.not_true, Bool.false_or] at h
  exact of_decide_eq_true h

theorem after_check {k : HostGroup} {ts rest : List UpdateTask} {t : UpdateTask}
    (hts : k.tasks = ts ++ t :: rest)
    (hcheck : .checkReplica ∈ ts) : t ≠ .switchover ∧ t ≠ .recheckRole ∧ t ≠ .retrySwitchover := by
  have hpairs : ∀ k : HostGroup, k.tasks.Pairwise fun s t => s = .checkReplica →
      t ≠ .switchover ∧ t ≠ .recheckRole ∧ t ≠ .retrySwitchover := by
    intro k
    cases k <;> decide
  have h := hpairs k
  rw [hts] at h
  exact (List.pairwise_append.mp h).2.2 _ hcheck t List.mem_cons_self rfl

variable [DecidableEq η] {S : Setting η} {h : η} {m n : Member} {t : UpdateTask} {a : Answer}
  {ds : List (UpdateTask × Answer)}

theorem tags_quiet (ht : quiet t = true) : (perform S t h m a).1.tags = m.tags := by
  cases t
  case replicaUnavailable => rfl
  case waitTransactions => rfl
  case isReady => rfl
  case checkpoint g =>
    rw [perform]
    split <;> rfl
  case stopPatroni g =>
    rw [perform]
    (repeat' split) <;> rfl
  all_goals exact absurd ht (by decide)

theorem tags_out {k : HostGroup} (hd : Did (perform S) h m ds n) (hds : ds.map Prod.fst <+: k.tasks)
    (hreload : .reload ∈ ds.map Prod.fst) (hupdate : .updatePostgres ∉ ds.map Prod.fst) :
    n.tags = S.loads (enable m.contents) := by
  obtain ⟨rest, hsplit, hquiet⟩ := leaving_of_prefix hds hreload hupdate
  obtain ⟨first, second, rfl, hfirst, hsecond⟩ := List.map_eq_append_iff.mp hsplit
  obtain ⟨l, hd₁, hd₂⟩ := did_append.mp hd
  have hl : l.tags = S.loads (enable m.contents) := by
    have hcontents : l.contents = enable m.contents := by
      have hvalue := did_value (F := edit) (V := Member.contents)
        (fun t n a hok => contents_perform hok) hd₁
      rw [hvalue, hfirst]
      cases k <;> rfl
    have hlast : ∃ front, leaving k = front ++ [.reload] := by
      cases k
      · exact ⟨switchoverTasks ++ [.enableTags], rfl⟩
      · exact ⟨[.enableTags], rfl⟩
    obtain ⟨front, hfront⟩ := hlast
    rw [hfront] at hfirst
    obtain ⟨ds, last, rfl, -, hlast⟩ := List.map_eq_append_iff.mp hfirst
    obtain ⟨⟨_, b⟩, rfl, rfl⟩ := List.map_eq_singleton_iff.mp hlast
    obtain ⟨j, -, hok, rfl⟩ := did_concat.mp hd₁
    rw [reload_perform hok] at hcontents ⊢
    rw [← hcontents]
    rfl
  refine did_keeps (I := fun n => n.tags = S.loads (enable m.contents)) ?_ hd₂ hl
  intro t a hmem n hn _
  have ht : quiet t = true :=
    List.all_eq_true.mp hquiet t (hsecond ▸ List.mem_map_of_mem (f := Prod.fst) hmem)
  rw [tags_quiet ht, hn]

theorem exhausted_perform (hm : Exhausted m)
    (ht : t ≠ .switchover ∧ t ≠ .recheckRole ∧ t ≠ .retrySwitchover) :
    Exhausted (perform S t h m a).1 := by
  have hsame : (perform S t h m a).1.switchover = m.switchover ∧
      (perform S t h m a).1.recheckStatus = m.recheckStatus ∧
      (perform S t h m a).1.retry = m.retry := by
    cases t
    case switchover => exact absurd rfl ht.1
    case recheckRole => exact absurd rfl ht.2.1
    case retrySwitchover => exact absurd rfl ht.2.2
    all_goals first
      | exact ⟨rfl, rfl, rfl⟩
      | dsimp only [perform]; (repeat' split) <;> exact ⟨rfl, rfl, rfl⟩
  constructor
  · rw [hsame.1, hm.switchover]
  · rw [hsame.2.1, hm.recheck]
  · rw [hsame.2.2, hm.retry]

theorem switchover_known : (perform S t h m a).1.switchover.isSome =
    (m.switchover.isSome || decide (t = .switchover)) := by
  cases t
  case switchover =>
    rw [decide_eq_true rfl, Bool.or_true]
    dsimp only [perform]
    split <;> rfl
  all_goals
    rw [decide_eq_false (by simp), Bool.or_false]
    first
    | rfl
    | dsimp only [perform]; (repeat' split) <;> rfl

theorem retry_known : (perform S t h m a).1.retry.isSome =
    (m.retry.isSome || decide (t = .retrySwitchover)) := by
  cases t
  case retrySwitchover =>
    rw [decide_eq_true rfl, Bool.or_true]
    dsimp only [perform]
    split <;> rfl
  all_goals
    rw [decide_eq_false (by simp), Bool.or_false]
    first
    | rfl
    | dsimp only [perform]; (repeat' split) <;> rfl

/-- Where the check of the replica is skipped, nothing has moved the leadership. -/
theorem exhausted_of_skip (hd : Did (perform S) h m ds n)
    (hds : ds.map Prod.fst = [.checkRole, .switchover, .recheckRole, .retrySwitchover])
    (hskip : ¬ (n.switchover = some true ∨ n.recheckStatus ≠ some 200 ∨ n.retry = some true)) :
    Exhausted n := by
  have hswitchover : n.switchover.isSome = true := by
    have hvalue := did_value (F := fun t v => v || decide (t = .switchover))
      (V := fun n : Member => n.switchover.isSome) (fun t n a _ => switchover_known) hd
    rw [hvalue, hds]
    simp
  have hretry : n.retry.isSome = true := by
    have hvalue := did_value (F := fun t v => v || decide (t = .retrySwitchover))
      (V := fun n : Member => n.retry.isSome) (fun t n a _ => retry_known) hd
    rw [hvalue, hds]
    simp
  simp only [not_or, not_not] at hskip
  obtain ⟨hfirst, hrecheck, hsecond⟩ := hskip
  obtain ⟨v, hv⟩ := Option.isSome_iff_exists.mp hswitchover
  obtain ⟨w, hw⟩ := Option.isSome_iff_exists.mp hretry
  rw [hv] at hfirst
  rw [hw] at hsecond
  refine ⟨?_, hrecheck, ?_⟩
  · cases v with
    | true => exact absurd rfl hfirst
    | false => exact hv
  · cases w with
    | true => exact absurd rfl hsecond
    | false => exact hw

/-! ## Runs -/

/-- Only the leader answers 200 to a request for the leader, and only a replica to one for a
replica. -/
def Sound (c : Cluster η) : Act η → Prop
  | .task h a => h ∈ c.rollout.waiting → a.status 200 = true →
      (c.rollout.tasks.head? = some .checkRole → c.leader = some h) ∧
      (c.rollout.tasks.head? = some .checkReplica → c.leader ≠ some h)
  | _ => True

/-- Patroni elects no host that has still to leave the traffic. -/
def Calm (S : Setting η) (c : Cluster η) : Act η → Prop
  | .elect h => h ∈ S.group .primary ∨ h ∈ S.group .secondary →
      .reload ∈ (c.rollout.done h).map Prod.fst
  | _ => True

instance (c : Cluster η) : (a : Act η) → Decidable (Sound c a)
  | .task h a => inferInstanceAs (Decidable (h ∈ c.rollout.waiting → a.status 200 = true →
      (c.rollout.tasks.head? = some .checkRole → c.leader = some h) ∧
      (c.rollout.tasks.head? = some .checkReplica → c.leader ≠ some h)))
  | .elect _ => inferInstanceAs (Decidable True)
  | .resign => inferInstanceAs (Decidable True)

instance (c : Cluster η) : (a : Act η) → Decidable (Calm S c a)
  | .task _ _ => inferInstanceAs (Decidable True)
  | .elect h => inferInstanceAs (Decidable (h ∈ S.group .primary ∨ h ∈ S.group .secondary →
      .reload ∈ (c.rollout.done h).map Prod.fst))
  | .resign => inferInstanceAs (Decidable True)

def StopsLeader (S : Setting η) (c : Cluster η) : Act η → Prop
  | .task h _ => h ∈ c.rollout.waiting ∧ c.leader = some h ∧
      ∃ g, c.rollout.tasks.head? = some (.stopPatroni g) ∧ S.isIn g h = some true
  | _ => False

variable {members : η → Member} {leader : Option η} {k : HostGroup} {g : η}

def Cleared (k : HostGroup) (ts : List UpdateTask) : Prop :=
  .updatePostgres ∉ ts ∧ (k = .primary → .checkReplica ∈ ts)

structure Led (S : Setting η) (members : η → Member) (c : Cluster η) : Prop where
  standing : Standing (perform S) members (playbook S) c.rollout
  moved : ∀ k, ∀ h ∈ S.group k, Live c.rollout h →
    Cleared k ((c.rollout.done h).map Prod.fst) →
    c.leader ≠ some h ∨ (k = .primary ∧ Exhausted (c.rollout.members h))

variable {c : Cluster η} {b : Answer}

theorem leader_task (hl : (act S c (.task g b)).leader = some h) : c.leader = some h := by
  rw [act] at hl
  simp only at hl
  split at hl
  · cases hl
  · exact hl

/-- One host does one task: the leadership is away from it, or neither attempt could move it. -/
theorem moved_did (hc : Led S members c) (hk : h ∈ S.group k) {t : UpdateTask}
    {ts : List UpdateTask} (htasks : c.rollout.tasks = t :: ts) (hwaiting : h ∈ c.rollout.waiting)
    (hbatch : k.tasks = (c.rollout.done h).map Prod.fst ++ t :: ts)
    (hsound : Sound c (.task h b)) (hok : (perform S t h (c.rollout.members h) b).2 = true)
    (hcleared : Cleared k ((c.rollout.done h).map Prod.fst ++ [t])) :
    c.leader ≠ some h ∨
      (k = .primary ∧ Exhausted (perform S t h (c.rollout.members h) b).1) := by
  have hupdate : .updatePostgres ∉ (c.rollout.done h).map Prod.fst := fun hmem =>
    hcleared.1 (List.mem_append_left _ hmem)
  by_cases hcheck : k = .primary → .checkReplica ∈ (c.rollout.done h).map Prod.fst
  · refine (hc.moved k h hk (Or.inl hwaiting) ⟨hupdate, hcheck⟩).imp_right ?_
    rintro ⟨rfl, hexhausted⟩
    exact ⟨rfl, exhausted_perform hexhausted (after_check hbatch (hcheck rfl))⟩
  · -- the host has just checked that it is a replica, or skipped the check
    rw [Classical.not_imp] at hcheck
    obtain ⟨rfl, hcheck⟩ := hcheck
    have ht : t = .checkReplica := by
      rcases List.mem_append.mp (hcleared.2 rfl) with hmem | hmem
      · exact absurd hmem hcheck
      · exact (List.mem_singleton.mp hmem).symm
    subst ht
    by_cases hskip : (c.rollout.members h).switchover = some true ∨
        (c.rollout.members h).recheckStatus ≠ some 200 ∨ (c.rollout.members h).retry = some true
    · rw [perform, if_pos hskip] at hok
      exact Or.inl ((hsound hwaiting hok).2 (by rw [htasks]; rfl))
    · refine Or.inr ⟨rfl, ?_⟩
      rw [perform, if_neg hskip]
      exact exhausted_of_skip (did_so_far hc.standing (Or.inl hwaiting)) (before_check hbatch) hskip

/-- Out of the traffic a host is not electable, and before that it is not elected. -/
theorem not_elected (hnodup : S.hosts.Nodup)
    (hloads : ∀ k, ∀ h ∈ S.group k, (S.loads (enable (members h).contents)).nofailover = true)
    (hc : Led S members c) (hk : h ∈ S.group k) (hlive : Live c.rollout h)
    (hcleared : Cleared k ((c.rollout.done h).map Prod.fst))
    (hreload : .reload ∈ (c.rollout.done h).map Prod.fst) : c.electable h = false := by
  have hprefix : (c.rollout.done h).map Prod.fst <+: k.tasks := by
    obtain ⟨b, hb, hh⟩ := exists_batch hc.standing
      (fun hnil => by rw [hnil] at hreload; cases hreload)
    rw [← tasks_of_host hb hh hk]
    exact done_prefix (distinct_playbook hnodup) hc.standing hlive hb hh
  have htags := tags_out (did_so_far hc.standing hlive) hprefix hreload hcleared.1
  rw [Cluster.electable, htags, hloads k h hk, Bool.not_true, Bool.and_false]

theorem led_act (hnodup : S.hosts.Nodup)
    (hloads : ∀ k, ∀ h ∈ S.group k, (S.loads (enable (members h).contents)).nofailover = true)
    (hc : Led S members c) {a : Act η} (ha : Sound c a ∧ Calm S c a) :
    Led S members (act S c a) := by
  cases a with
  | task g b =>
    refine ⟨standing_step (distinct_playbook hnodup) hc.standing (g, b), ?_⟩
    intro k h hk hlive hcleared
    have hold : Live c.rollout h → Cleared k ((c.rollout.done h).map Prod.fst) →
        (act S c (.task g b)).rollout.members h = c.rollout.members h →
        (act S c (.task g b)).leader ≠ some h ∨
          (k = .primary ∧ Exhausted ((act S c (.task g b)).rollout.members h)) := by
      intro hlive hcleared hmember
      rw [hmember]
      exact (hc.moved k h hk hlive hcleared).imp_left fun hne hl => hne (leader_task hl)
    rcases step_cases (perform S) c.rollout (g, b) with hstep | ⟨t, ts, htasks, hwaiting, hstep⟩
    · have hrollout : (act S c (.task g b)).rollout = c.rollout := hstep
      rw [hrollout] at hlive hcleared
      exact hold hlive hcleared (by rw [hrollout])
    · have hrollout : (act S c (.task g b)).rollout = (c.rollout.did t g b
          (perform S t g (c.rollout.members g) b)).advance := hstep
      obtain ⟨hmembers, hdone, -⟩ := advance_frame (c.rollout.did t g b
        (perform S t g (c.rollout.members g) b))
      rw [hrollout] at hlive hcleared
      rw [hdone] at hcleared
      rcases live_of_did hc.standing (live_of_advance hlive) with ⟨hne, hlive⟩ | ⟨rfl, hok, -⟩
      · have hsame : (c.rollout.did t g b (perform S t g (c.rollout.members g) b)).done h =
            c.rollout.done h := Function.update_of_ne hne _ _
        rw [hsame] at hcleared
        refine hold hlive hcleared ?_
        rw [hrollout, hmembers]
        exact Function.update_of_ne hne _ _
      · have hnew : (c.rollout.did t h b (perform S t h (c.rollout.members h) b)).done h =
            c.rollout.done h ++ [(t, b)] := Function.update_self ..
        have hmember : (act S c (.task h b)).rollout.members h =
            (perform S t h (c.rollout.members h) b).1 := by
          rw [hrollout, hmembers]
          exact Function.update_self ..
        rw [hnew, List.map_append] at hcleared
        obtain ⟨batch, hbatch, hh, htasks'⟩ := batch_of_waiting hc.standing hwaiting
        rw [tasks_of_host hbatch hh hk, htasks] at htasks'
        rw [hmember]
        exact (moved_did hc hk htasks hwaiting htasks' ha.1 hok hcleared).imp_left
          fun hne hl => hne (leader_task hl)
  | elect g =>
    rw [act]
    split
    · rename_i helectable
      refine ⟨hc.standing, ?_⟩
      intro k h hk hlive hcleared
      refine Or.inl fun hl => ?_
      obtain rfl := Option.some.inj hl
      have hreload := ha.2 (by cases k <;> simp [hk])
      rw [not_elected hnodup hloads hc hk hlive hcleared hreload] at helectable
      cases helectable
    · exact hc
  | resign =>
    refine ⟨hc.standing, ?_⟩
    intro k h _ _ _
    exact Or.inl fun hl => by cases hl

theorem led_begun (hnodup : S.hosts.Nodup) (hleader : ∀ h ∈ S.group .secondary, leader ≠ some h) :
    Led S members (begun S members leader) := by
  refine ⟨standing_start (distinct_playbook hnodup), ?_⟩
  intro k h hk _ hcleared
  have hnil : (begun S members leader).rollout.done h = [] :=
    congrFun (enter_frame _ (playbook S)).2.1 h
  cases k with
  | primary =>
    have hcheck := hcleared.2 rfl
    rw [hnil] at hcheck
    cases hcheck
  | secondary => exact Or.inl (hleader h hk)

/-- In every run, with failures and elections at any point, the playbook stops Patroni on the
leader only on the host that was the leader from the start, and only after both switchovers have
failed there. Patroni is trusted with two things: what its answers say of the role of a host is
true, and it elects nobody that has still to leave the traffic. -/
theorem leader_stopped (hnodup : S.hosts.Nodup)
    (hloads : ∀ k, ∀ h ∈ S.group k, (S.loads (enable (members h).contents)).nofailover = true)
    (hleader : ∀ h ∈ S.group .secondary, leader ≠ some h) {as : List (Act η)} {h : η} {a : Answer}
    (hrun : Along (act S) (fun c a => Sound c a ∧ Calm S c a) (begun S members leader) as)
    (hstops : StopsLeader S (run (act S) (begun S members leader) as) (.task h a)) :
    h ∈ S.group .primary ∧
      Exhausted ((run (act S) (begun S members leader) as).rollout.members h) := by
  have hled : Led S members (run (act S) (begun S members leader) as) :=
    run_of_along (I := Led S members) (fun c a hc ha => led_act hnodup hloads hc ha)
      (led_begun hnodup hleader) hrun
  obtain ⟨hwaiting, hstopped, g, hhead, -⟩ := hstops
  obtain ⟨b, hb, hh, hbatch⟩ := batch_of_waiting hled.standing hwaiting
  obtain ⟨k, hk, htasks⟩ : ∃ k, h ∈ S.group k ∧ b.tasks = k.tasks := by
    rcases batch_cases hb with ⟨f, hf, rfl⟩ | rfl
    · exact ⟨.secondary, List.mem_singleton.mp hh ▸ hf, rfl⟩
    · exact ⟨.primary, hh, rfl⟩
  obtain ⟨rest, hrest⟩ := List.head?_eq_some_iff.mp hhead
  rw [htasks, hrest] at hbatch
  rcases hled.moved k h hk (Or.inl hwaiting) (before_stop hbatch) with hne | ⟨rfl, hexhausted⟩
  · exact absurd hstopped hne
  · exact ⟨hk, hexhausted⟩

def stuckLeader : List (Act ℕ) :=
  replicaUpdate ++ answered 0 [200, 1, 200, 1, 0, 0, 0, 503, 0, 0, 0, 0, 0]

theorem leader_stopped_two_hosts : 0 ∈ twoHosts.group .primary ∧
    Exhausted ((run (act twoHosts) (begun twoHosts (fun _ => failoverMember) (some 0))
      stuckLeader).rollout.members 0) := by
  refine leader_stopped (a := ⟨true, 0, fun _ => false⟩) (by decide) ?_ (by decide) ?_ ?_
  · intro k h _
    decide +kernel
  · decide +kernel
  · exact ⟨by decide +kernel, by decide +kernel, .primary, by decide +kernel, by decide +kernel⟩

end RollingSwitchover
