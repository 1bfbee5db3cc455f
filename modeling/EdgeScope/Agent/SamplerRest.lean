import EdgeScope.Agent.SamplerAnswers

/-!
# The threads of `MetricsSampler` come to rest

When no call is made and no interval is over, the threads have done after so many steps with what
they are at, in whatever order they take them. Then nobody waits for a sample that is there, and
once the destructor has been entered nobody waits at all, and it has joined the sampling thread.
-/

namespace EdgeScope.SamplerThreads
open Text Runs MetricsSampler Sampling
open SystemCollector (procWith)

/-- The sections the sampling thread goes through after this one, without another interval. -/
def after : SamplerResult → ℕ
  | .waited false => 2
  | .published => 1
  | _ => 0

def budgetOf (s : MetricsSampler) : Phase MetricsSampler SamplerResult → ℕ
  | .locking _ (.waited _) expired | .testing _ (.waited _) expired => if expired then 2 else 0
  | .asleep _ (.waited _) => 0
  | p =>
    match p.status s with
    | .inl (_, result) => after result
    | .inr result => after result

def budget (m : Monitor MetricsSampler SamplerResult) : ℕ :=
  match m.threads[0]? with
  | some p => budgetOf m.shared p
  | none => 0

/-- No section of the sampling thread costs more than eight steps. -/
def rank (t : SamplerThreads) : ℕ :=
  t.monitor.work (budget t.monitor) (8 * budget t.monitor) + 9 * budget t.monitor +
    if t.joined then 0 else 1

theorem budgetOf_of_not_holds {p : Phase MetricsSampler SamplerResult} (h : p.holds = false)
    (s s' : MetricsSampler) : budgetOf s p = budgetOf s' p := by
  cases p with
  | running => cases h
  | locking _ result _ => cases result <;> rfl
  | testing _ result _ => cases result <;> rfl
  | asleep _ result => cases result <;> rfl
  | _ => rfl

theorem budgetOf_notified (s : MetricsSampler) (p : Phase MetricsSampler SamplerResult) :
    budgetOf s p.notified = budgetOf s p := by
  cases p with
  | asleep _ result => cases result <;> rfl
  | _ => rfl

section Budget

variable {m m' : Monitor MetricsSampler SamplerResult}

theorem budget_put (h : m.Exclusive) {i : ℕ} {p q : Phase MetricsSampler SamplerResult}
    (hi : m.threads[i]? = some q) {shared : MetricsSampler}
    (hshared : shared = m.shared ∨ m.owner = some i) {owner : Option ℕ}
    (hbudget : i = 0 → budgetOf shared p ≤ budgetOf m.shared q) :
    budget (m.put shared owner i p) ≤ budget m := by
  by_cases hzero : i = 0
  · subst hzero
    rw [budget, budget, Monitor.put_self hi, hi]
    exact hbudget rfl
  · rw [budget, budget, Monitor.put_of_ne hzero]
    cases hworker : m.threads[0]? with
    | none => exact le_rfl
    | some r =>
      obtain rfl | howner := hshared
      · exact le_rfl
      · have hholds : r.holds = false := by
          rw [← Bool.not_eq_true, ← h.owner_iff hworker, howner]
          simpa using hzero
        exact (budgetOf_of_not_holds hholds _ _).le

theorem budget_wakeAll (m : Monitor MetricsSampler SamplerResult) :
    budget m.wakeAll = budget m := by
  rw [budget, budget, Monitor.getElem?_wakeAll]
  cases m.threads[0]? with
  | none => rfl
  | some p => exact budgetOf_notified _ p

/-- A wait that has not expired ends when the sampler is stopping, and is the last one. -/
theorem budgetOf_pass {s : MetricsSampler} {c : Section MetricsSampler SamplerResult}
    {result : SamplerResult} {expired : Bool} (hkind : OfWorker (.inl (c, result)))
    (hready : c.ready s = true ∨ expired = true) :
    budgetOf s (.running c c.body result) ≤ budgetOf s (.testing c result expired) := by
  cases hkind with
  | waiting =>
    show after (.waited s.stopping) ≤ if expired = true then 2 else 0
    obtain hstopping | rfl := hready
    · rw [show s.stopping = true from hstopping]
      exact Nat.zero_le _
    · cases s.stopping <;> decide
  | publishing collected =>
    show after ((publishSection collected).atomic (s, .published)).2 ≤ after .published
    rw [atomic_publishSection]

theorem budget_steps {t : SamplerThreads} (hsound : t.Sound) {move : Move}
    (hmove : move.isWake = false) (hstep : Monitor.Steps t.monitor move m) :
    budget m ≤ budget t.monitor := by
  have h := hsound.monitor.exclusive
  cases hstep with
  | @lock i c result expired hi =>
    refine budget_put h hi (.inl rfl) fun _ => ?_
    cases result <;> exact le_rfl
  | @pass i c result expired hi hready =>
    refine budget_put h hi (.inl rfl) fun hzero => ?_
    have hkind : t.Kind i (.inl (c, result)) := hsound.kinds i _ (by rw [Monitor.status, hi]; rfl)
    rw [Kind, if_pos hzero] at hkind
    exact budgetOf_pass hkind hready
  | @sleep i c result hi =>
    refine budget_put h hi (.inl rfl) fun _ => ?_
    cases result <;> exact le_rfl
  | write hi => exact budget_put h hi (.inr (h.owner_eq hi rfl)) fun _ => le_rfl
  | unlock hi =>
    refine budget_put h hi (.inl rfl) fun _ => ?_
    split <;> exact le_rfl
  | notify hi =>
    rw [← budget_wakeAll t.monitor]
    exact budget_put h.wakeAll (Monitor.wakeAll_of_notifying hi) (.inl rfl) fun _ => le_rfl
  | wake => cases hmove

end Budget

theorem cost_publishSection_le (collected : Except Bytes SystemMetrics) :
    (publishSection collected).cost ≤ 8 := by
  cases collected with
  | ok metrics => exact Nat.le_refl 8
  | error error => exact Nat.le_add_right 6 2

theorem rank_step {act : Act} {t t' : SamplerThreads} (hsound : t.Sound)
    (hact : act.concludes = true) (hstep : step act t = some t') : t'.rank < t.rank := by
  cases steps_of_step hstep with
  | @inside move m hmove =>
    have hwake : move.isWake = false := by simpa [Act.concludes] using hact
    have hbudget := budget_steps hsound hwake hmove
    have hwork := Monitor.work_lt hwake hmove (budget t.monitor) (8 * budget t.monitor)
    have hless := Monitor.work_le_work (m := m) hbudget (Nat.mul_le_mul_left 8 hbudget)
    simp only [rank]
    omega
  | call call => cases hact
  | destroy => cases hact
  | collect proc hworker =>
    set c := publishSection (t.collector.collect proc).1
    have hbefore : budget t.monitor = 2 := by
      rw [budget, show t.monitor.threads[0]? = _ from hworker]
      rfl
    have hafter : budget (t.monitor.again 0 c .published) = 1 := by
      rw [budget, Monitor.again, Monitor.put_self hworker]
      rfl
    have hcost : c.cost ≤ 8 := cost_publishSection_le (t.collector.collect proc).1
    have hwork := Monitor.work_again hworker c .published 1 (8 * 1)
    have hless : t.monitor.work (c.notifies.toNat + 1) (c.cost + 8 * 1) ≤
        t.monitor.work 2 (8 * 2) :=
      Monitor.work_le_work le_rfl (by omega)
    simp only [rank, hbefore, hafter]
    omega
  | loop hworker =>
    have hbefore : budget t.monitor = 1 := by
      rw [budget, show t.monitor.threads[0]? = _ from hworker]
      rfl
    have hafter : budget (t.monitor.again 0 waitSection (.waited false)) = 0 := by
      rw [budget, Monitor.again, Monitor.put_self hworker]
      rfl
    have hcost : waitSection.cost = 5 := rfl
    have hwork := Monitor.work_again hworker waitSection (.waited false) 0 (8 * 0)
    have hless : t.monitor.work (waitSection.notifies.toNat + 0) (waitSection.cost + 8 * 0) ≤
        t.monitor.work 1 (8 * 1) :=
      Monitor.work_le_work (Nat.zero_le _) (by omega)
    simp only [rank, hbefore, hafter]
    omega
  | join hjoined =>
    simp only [rank, hjoined, if_true, Bool.false_eq_true, if_false]
    omega

def Stops (t : SamplerThreads) : Prop :=
  ∀ i, t.destructor = some i → t.monitor.status i = some (.inr .stopped) →
    t.monitor.settled.stopping = true

theorem Kind.stopping_atomic {t : SamplerThreads} {i : ℕ}
    {c : Section MetricsSampler SamplerResult} {result : SamplerResult}
    (h : t.Kind i (.inl (c, result))) {s : MetricsSampler} (hs : s.stopping = true) :
    (c.atomic (s, result)).1.stopping = true := by
  unfold Kind at h
  split_ifs at h
  · cases h with
    | waiting => exact hs
    | publishing collected =>
      rw [atomic_publishSection]
      cases collected <;> exact hs
  · cases h
    rfl
  · cases h with
    | calling call =>
      rw [atomic_callSection]
      exact hs

theorem Stops.step {act : Act} {t t' : SamplerThreads} (h : t.Stops) (hsound : t.Sound)
    (hstep : step act t = some t') : t'.Stops := by
  have hexclusive := hsound.monitor.exclusive
  have hagain {m : Monitor MetricsSampler SamplerResult} {result' : SamplerResult}
      (hworker : t.worker = some (.returned result')) (c : Section MetricsSampler SamplerResult)
      (result : SamplerResult) (hm : m = t.monitor.again 0 c result) (i : ℕ)
      (hi : t.destructor = some i) (hstatus : m.status i = some (.inr .stopped)) :
      m.settled.stopping = true := by
    rw [hm, hexclusive.status_again hworker, if_neg (hsound.destructor i hi).1] at hstatus
    rw [hm, hexclusive.settled_again hworker]
    exact h i hi hstatus
  cases steps_of_step hstep with
  | @inside move m hmove =>
    intro i hi hstatus
    obtain ⟨hsettled, hsame⟩ | ⟨j, c, result, expired, -, -, hcommits⟩ := hexclusive.settles hmove
    · exact (congrArg MetricsSampler.stopping hsettled).trans (h i hi (hsame i ▸ hstatus))
    · have hkind := hsound.kinds j _ hcommits.pending
      show m.settled.stopping = true
      rw [hcommits.settled_eq]
      by_cases hij : i = j
      · subst hij
        rw [Kind, if_neg (hsound.destructor i hi).1, if_pos hi] at hkind
        cases hkind
        rfl
      · exact hkind.stopping_atomic (h i hi (hcommits.others i hij ▸ hstatus))
  | call call =>
    intro i hi hstatus
    show (t.monitor.enter _ _).settled.stopping = true
    rw [Monitor.settled_enter hexclusive]
    refine h i hi ?_
    rw [← Monitor.status_enter_of_lt _ _ (hsound.destructor i hi).2]
    exact hstatus
  | destroy =>
    rintro i ⟨⟩ hstatus
    obtain hstatus | ⟨-, hstatus⟩ := (Monitor.status_enter_eq_some_iff _ _).mp hstatus
    · exact absurd (Monitor.lt_of_status hstatus) (Nat.lt_irrefl _)
    · cases hstatus
  | collect proc hworker => exact hagain hworker _ _ rfl
  | loop hworker => exact hagain hworker _ _ rfl
  | join => exact h

theorem stops_start (sampleInterval : ℕ) (boot first : SystemProc) :
    (start sampleInterval boot first).Stops := by
  intro i hi
  cases hi

/-- The sampling thread waits for the interval, and a reader for a sample that has not been
taken. -/
inductive Waits (s : MetricsSampler) : Phase MetricsSampler SamplerResult → Prop
  | sampling (hstopping : s.stopping = false) : Waits s (.asleep waitSection (.waited false))
  | reading (previousGeneration : ℕ) (hstopping : s.stopping = false)
      (hgeneration : s.generation ≤ previousGeneration) :
      Waits s (.asleep (waitForNextSection previousGeneration)
        (.reading (.waitForNext previousGeneration) unread))

theorem Waits.stopping {s : MetricsSampler} {p : Phase MetricsSampler SamplerResult}
    (h : Waits s p) : s.stopping = false := by
  cases h <;> assumption

structure AtRest (t : SamplerThreads) : Prop where
  threads : ∀ p ∈ t.monitor.threads, (∃ result, p = .returned result) ∨ Waits t.monitor.shared p
  stopped : t.destructor ≠ none →
    t.joined = true ∧ ∀ p ∈ t.monitor.threads, ∃ result, p = .returned result

section Rest

variable {t : SamplerThreads}

theorem Sound.waits (hsound : t.Sound) {i : ℕ} {p : Phase MetricsSampler SamplerResult}
    (hi : t.monitor.threads[i]? = some p) (hrests : p.Rests t.monitor.shared) :
    (∃ result, p = .returned result) ∨ Waits t.monitor.shared p := by
  cases p with
  | returned result => exact .inl ⟨result, rfl⟩
  | asleep c result =>
    have hkind : t.Kind i (.inl (c, result)) := hsound.kinds i _ (by rw [Monitor.status, hi]; rfl)
    unfold Kind at hkind
    split_ifs at hkind
    · cases hkind with
      | waiting => exact .inr (.sampling hrests)
      | publishing => cases hrests
    · cases hkind
      cases hrests
    · cases hkind with
      | calling call =>
        cases call with
        | getLatest => cases hrests
        | waitForNext previousGeneration =>
          have hwakes : t.monitor.shared.wakes previousGeneration = false := hrests
          simp only [wakes, Bool.or_eq_false_iff, decide_eq_false_iff_not, not_lt] at hwakes
          exact .inr (.reading _ hwakes.1 hwakes.2)
  | _ => cases hrests

/-- The sampling thread is done when the sampler is stopping, unless it can go on. -/
theorem Sound.worker_returned (hsound : t.Sound) {result : SamplerResult}
    (hworker : t.worker = some (.returned result)) (proc : SystemProc) :
    result = .waited true ∨
      ∃ act t', act.concludes = true ∧ SamplerThreads.step act t = some t' := by
  have hkind : t.Kind 0 (.inr result) := hsound.kinds 0 _ (Monitor.status_of_returned hworker)
  rw [Kind, if_pos rfl] at hkind
  cases hkind with
  | waited stopping =>
    cases stopping with
    | true => exact .inl rfl
    | false => exact .inr ⟨.collect proc, _, rfl, by rw [SamplerThreads.step, hworker]⟩
  | published => exact .inr ⟨.loop, _, rfl, by rw [SamplerThreads.step, hworker]⟩

theorem Sound.destructor_returned (hsound : t.Sound) {i : ℕ} (hi : t.destructor = some i)
    (hrests : ∀ p ∈ t.monitor.threads, p.Rests t.monitor.shared) :
    t.monitor.threads[i]? = some (.returned .stopped) := by
  obtain ⟨hne, hlt⟩ := hsound.destructor i hi
  obtain ⟨p, hthread⟩ : ∃ p, t.monitor.threads[i]? = some p := ⟨_, List.getElem?_eq_getElem hlt⟩
  have hrest := hrests p (List.mem_of_getElem? hthread)
  have hkind := hsound.kinds i _ (by rw [Monitor.status, hthread]; rfl)
  rw [Kind, if_neg hne, if_pos hi] at hkind
  rw [hthread]
  cases p with
  | returned result =>
    cases hkind
    rfl
  | asleep c result =>
    cases hkind
    cases hrest
  | _ => cases hrest

theorem exists_step (hsound : t.Sound) (hstops : t.Stops) (proc : SystemProc) (h : ¬ t.AtRest) :
    ∃ act t', act.concludes = true ∧ SamplerThreads.step act t = some t' := by
  obtain hrests | ⟨move, m, hmove, hstep⟩ := hsound.monitor.rests_or_steps
  · by_contra hstuck
    have hwaits : ∀ p ∈ t.monitor.threads,
        (∃ result, p = .returned result) ∨ Waits t.monitor.shared p := by
      intro p hp
      obtain ⟨i, hi⟩ := List.mem_iff_getElem?.mp hp
      exact hsound.waits hi (hrests p hp)
    refine h ⟨hwaits, fun hdestructor => ?_⟩
    obtain ⟨i, hi⟩ := Option.ne_none_iff_exists'.mp hdestructor
    have hthread := hsound.destructor_returned hi hrests
    -- nobody has the lock, so the members are what the destructor has left
    have hstopping : t.monitor.shared.stopping = true := by
      rw [← Monitor.settled_of_unowned (hsound.monitor.exclusive.unowned_of_rests hrests)]
      exact hstops i hi (Monitor.status_of_returned hthread)
    have hreturned : ∀ p ∈ t.monitor.threads, ∃ result, p = .returned result := by
      refine fun p hp => (hwaits p hp).resolve_right fun hp' => ?_
      rw [hp'.stopping] at hstopping
      cases hstopping
    have hworker := List.getElem?_eq_getElem hsound.worker
    obtain ⟨result, hresult⟩ := hreturned _ (List.mem_of_getElem? hworker)
    rw [hresult] at hworker
    obtain rfl := (hsound.worker_returned hworker proc).resolve_right hstuck
    refine ⟨by_contra fun hjoined => hstuck ⟨.join, { t with joined := true }, rfl, ?_⟩,
      hreturned⟩
    simp only [SamplerThreads.step, hi, Option.bind_some, hthread,
      show t.worker = _ from hworker]
    exact if_neg hjoined
  · exact ⟨.inside move, _, by simp [Act.concludes, hmove], by rw [SamplerThreads.step, hstep]; rfl⟩

end Rest

/-- In every state, what is under way takes at most so many steps, in whatever order the threads
take them. Where none is left, a reader waits only for a sample that has not been taken, and once
the destructor has been entered all calls have returned and the sampling thread has been joined. -/
theorem winds_up {sampleInterval : ℕ} {boot first : SystemProc} {acts : List Act}
    {t : SamplerThreads} (h : follow step acts (start sampleInterval boot first) = some t) :
    (∀ acts' t', (∀ act ∈ acts', act.concludes = true) → follow step acts' t = some t' →
      acts'.length + t'.rank ≤ t.rank ∧
        ((∀ act, act.concludes = true → step act t' = none) → t'.AtRest)) ∧
    ∃ acts' t', (∀ act ∈ acts', act.concludes = true) ∧ follow step acts' t = some t' ∧
      t'.AtRest := by
  let I (t : SamplerThreads) : Prop := t.Sound ∧ t.Stops
  have hkeeps : ∀ act t t', I t → step act t = some t' → I t' :=
    fun _ _ _ hI hstep => ⟨hI.1.step hstep, hI.2.step hI.1 hstep⟩
  have hrank : ∀ act t t', I t → act.concludes = true → step act t = some t' → t'.rank < t.rank :=
    fun _ _ _ hI => rank_step hI.1
  have hI : I t := follow_keeps hkeeps
    ⟨sound_start sampleInterval boot first, stops_start sampleInterval boot first⟩ h
  constructor
  · intro acts' t' hacts hfollow
    refine ⟨length_add_rank_le hkeeps hrank hacts hI hfollow, fun hstuck => ?_⟩
    have hI' := follow_keeps hkeeps hI hfollow
    by_contra hrest
    obtain ⟨act, t'', hact, hstep⟩ := exists_step hI'.1 hI'.2 first hrest
    rw [hstuck act hact] at hstep
    cases hstep
  · exact exists_follow_rest hkeeps hrank (fun t hI => exists_step hI.1 hI.2 first) hI

theorem destructor_step {act : Act} {t t' : SamplerThreads} {i : ℕ} (hi : t.destructor = some i)
    (hstep : step act t = some t') : t'.destructor = some i := by
  cases steps_of_step hstep with
  | destroy hnone =>
    rw [hnone] at hi
    cases hi
  | _ => exact hi

theorem winds_up_destroyed : ∃ acts t,
    follow step (.call (.waitForNext 1) :: .destroy :: acts)
        (start 1000 (procWith none) (procWith none)) = some t ∧ t.joined = true := by
  have hrun : ∃ t, follow step [.call (.waitForNext 1), .destroy]
      (start 1000 (procWith none) (procWith none)) = some t ∧ t.destructor = some 2 :=
    ⟨_, rfl, rfl⟩
  obtain ⟨t, h, hdestructor⟩ := hrun
  obtain ⟨acts, t', -, hfollow, hrest⟩ := (winds_up h).2
  have hdestructor' : t'.destructor = some 2 :=
    follow_keeps (I := fun t => t.destructor = some 2) (fun _ _ _ hi => destructor_step hi)
      hdestructor hfollow
  refine ⟨acts, t', follow_append_eq_some_iff.mpr ⟨t, h, hfollow⟩, (hrest.stopped ?_).1⟩
  rw [hdestructor']
  exact Option.some_ne_none 2

end EdgeScope.SamplerThreads
