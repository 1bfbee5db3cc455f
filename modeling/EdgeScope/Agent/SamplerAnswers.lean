import EdgeScope.Agent.CpuUsage
import EdgeScope.Agent.SamplerThreads

/-!
# The order of the calls of `MetricsSampler`

However the steps of the threads fall between each other, what a call returns is what it would
return if it were made at once at some moment between its beginning and its end, and so is what a
sample leaves. Calls that do not overlap come in their order.
-/

namespace EdgeScope.SamplerThreads
open Text Runs MetricsSampler Sampling
open SystemCollector (procWith)

abbrev Status := (Section MetricsSampler SamplerResult × SamplerResult) ⊕ SamplerResult

inductive OfWorker : Status → Prop
  | waiting : OfWorker (.inl (waitSection, .waited false))
  | waited (stopping : Bool) : OfWorker (.inr (.waited stopping))
  | publishing (collected : Except Bytes SystemMetrics) :
    OfWorker (.inl (publishSection collected, .published))
  | published : OfWorker (.inr .published)

inductive OfDestructor : Status → Prop
  | stopping : OfDestructor (.inl (stopSection, .stopped))
  | stopped : OfDestructor (.inr .stopped)

inductive OfReader : Status → Prop
  | calling (call : Call) : OfReader (.inl (callSection call, .reading call unread))
  | called (call : Call) (reading : Reading) : OfReader (.inr (.reading call reading))

def Kind (t : SamplerThreads) (i : ℕ) (status : Status) : Prop :=
  if i = 0 then OfWorker status
  else if t.destructor = some i then OfDestructor status
  else OfReader status

structure Sound (t : SamplerThreads) : Prop where
  monitor : t.monitor.Sound
  kinds : ∀ i status, t.monitor.status i = some status → t.Kind i status
  worker : 0 < t.monitor.threads.length
  destructor : ∀ i, t.destructor = some i → i ≠ 0 ∧ i < t.monitor.threads.length

theorem announces_publishSection (collected : Except Bytes SystemMetrics) :
    (publishSection collected).Announces := nofun

theorem announces_waitSection : waitSection.Announces := fun _ _ => rfl

theorem announces_stopSection : stopSection.Announces := nofun

theorem announces_callSection (call : Call) : (callSection call).Announces := by
  intro _ data
  obtain ⟨s, result⟩ := data
  cases call <;> cases result <;> rfl

theorem sound_start (sampleInterval : ℕ) (boot first : SystemProc) :
    (start sampleInterval boot first).Sound where
  monitor := (Monitor.Sound.empty _).enter announces_waitSection (.waited false)
  kinds i status h := by
    rw [start, Monitor.status_enter_eq_some_iff] at h
    obtain h | ⟨rfl, rfl⟩ := h
    · cases h
    · exact .waiting
  worker := Nat.one_pos
  destructor := nofun

/-- What comes of a section belongs to the thread that has gone through it. -/
theorem Kind.done {t : SamplerThreads} {i : ℕ} {c : Section MetricsSampler SamplerResult}
    {result : SamplerResult} (h : t.Kind i (.inl (c, result))) (s : MetricsSampler) :
    t.Kind i (.inr (c.atomic (s, result)).2) := by
  unfold Kind at h ⊢
  split_ifs at h ⊢ with hworker hdestructor
  · cases h with
    | waiting => exact .waited _
    | publishing collected =>
      rw [atomic_publishSection]
      exact .published
  · cases h
    exact .stopped
  · cases h with
    | calling call =>
      rw [atomic_callSection]
      exact .called ..

section Sound

variable {t t' : SamplerThreads}

theorem Sound.with_monitor (h : t.Sound) {m : Monitor MetricsSampler SamplerResult} (hm : m.Sound)
    (hlength : m.threads.length = t.monitor.threads.length)
    (hkinds : ∀ i status, m.status i = some status → t.Kind i status) :
    Sound { t with monitor := m } where
  monitor := hm
  kinds := hkinds
  worker := hlength ▸ h.worker
  destructor i hi := hlength ▸ h.destructor i hi

/-- The sampling thread begins another section. -/
theorem Sound.again (h : t.Sound) {result result' : SamplerResult}
    (hworker : t.worker = some (.returned result')) {c : Section MetricsSampler SamplerResult}
    (hannounces : c.Announces) (hkind : OfWorker (.inl (c, result))) :
    Sound { t with monitor := t.monitor.again 0 c result } := by
  refine h.with_monitor (h.monitor.again hworker hannounces result) ?_ fun i status hstatus => ?_
  · exact List.length_set
  · rw [h.monitor.exclusive.status_again hworker] at hstatus
    split_ifs at hstatus with hi
    · cases hstatus
      rw [hi]
      exact hkind
    · exact h.kinds i status hstatus

theorem Sound.step {act : Act} (h : t.Sound) (hstep : step act t = some t') : t'.Sound := by
  cases steps_of_step hstep with
  | inside hmove =>
    refine h.with_monitor (h.monitor.steps hmove) (Monitor.length_steps hmove) ?_
    intro i status hstatus
    obtain ⟨-, hsame⟩ | ⟨j, c, result, expired, hj, -, hcommits⟩ :=
      h.monitor.exclusive.settles hmove
    · exact h.kinds i status (hsame i ▸ hstatus)
    · by_cases hi : i = j
      · subst hi
        rw [hcommits.done] at hstatus
        cases hstatus
        exact (h.kinds i _ hcommits.pending).done _
      · exact h.kinds i status (hcommits.others i hi ▸ hstatus)
  | call call =>
    have hlength := t.monitor.length_le_enter (callSection call) (.reading call unread)
    refine ⟨h.monitor.enter (announces_callSection call) _, fun i status hstatus => ?_,
      h.worker.trans_le hlength, fun i hi => ?_⟩
    · obtain hstatus | ⟨rfl, rfl⟩ := (Monitor.status_enter_eq_some_iff _ _).mp hstatus
      · exact h.kinds i status hstatus
      · have hother : t.destructor ≠ some t.monitor.threads.length := fun hi =>
          (h.destructor _ hi).2.false
        simp only [Kind, h.worker.ne', hother, if_false]
        exact .calling call
    · obtain ⟨hne, hlt⟩ := h.destructor i hi
      exact ⟨hne, hlt.trans_le hlength⟩
  | destroy hnone =>
    have hlength := t.monitor.length_le_enter stopSection .stopped
    refine ⟨h.monitor.enter announces_stopSection _, fun i status hstatus => ?_,
      h.worker.trans_le hlength, ?_⟩
    · obtain hstatus | ⟨rfl, rfl⟩ := (Monitor.status_enter_eq_some_iff _ _).mp hstatus
      · have hi : t.monitor.threads.length ≠ i := (Monitor.lt_of_status hstatus).ne'
        have hkind := h.kinds i status hstatus
        simp only [Kind, hnone, Option.some_inj, hi, if_false, reduceCtorEq] at hkind ⊢
        exact hkind
      · simp only [Kind, h.worker.ne', if_false, if_true]
        exact .stopping
    · rintro i ⟨⟩
      refine ⟨h.worker.ne', ?_⟩
      simp [Monitor.enter]
  | collect proc hworker =>
    have hagain := h.again hworker (announces_publishSection (t.collector.collect proc).1)
      (.publishing _)
    exact ⟨hagain.monitor, hagain.kinds, hagain.worker, hagain.destructor⟩
  | loop hworker => exact h.again hworker announces_waitSection .waiting
  | join => exact ⟨h.monitor, h.kinds, h.worker, h.destructor⟩

end Sound

/-- The reads that were made for samples. -/
def Act.collected : Act → List SystemProc
  | .collect proc => [proc]
  | _ => []

def sampled : Action → List SystemProc
  | .sample proc => [proc]
  | _ => []

/-- What the sampling thread has collected but not published, the collector having been `before`. -/
def Collected (t : SamplerThreads) (before : SystemCollector) (pending : List SystemProc) : Prop :=
  match t.monitor.status 0 with
  | some (.inl (c, .published)) =>
    ∃ proc, pending = [proc] ∧ c = publishSection (before.collect proc).1 ∧
      t.collector = (before.collect proc).2
  | _ => pending = [] ∧ t.collector = before

/-- The threads are where a run of whole sections is. -/
structure Tracks (t : SamplerThreads) (h : History) (pending : List SystemProc) : Prop where
  sampler : h.sampler = { t.monitor.settled with collector := h.sampler.collector }
  collector : t.Collected h.sampler.collector pending
  answers : ∀ i call reading, t.monitor.status i = some (.inr (.reading call reading)) →
    ∃ e ∈ h.seen, e.reader = i ∧ e.call = call ∧ e.reading = reading
  readers : ∀ e ∈ h.seen, e.reader < t.monitor.threads.length

theorem Collected.length_le {t : SamplerThreads} {before : SystemCollector}
    {pending : List SystemProc} (h : t.Collected before pending) : pending.length ≤ 1 := by
  unfold Collected at h
  split at h
  · obtain ⟨proc, rfl, -⟩ := h
    exact le_rfl
  · rw [h.1]
    exact Nat.zero_le 1

theorem tracks_start (sampleInterval : ℕ) (boot first : SystemProc) :
    (start sampleInterval boot first).Tracks (.start sampleInterval boot first) [] where
  sampler := rfl
  collector := ⟨rfl, rfl⟩
  answers i call reading h := by
    rw [start, Monitor.status_enter_eq_some_iff] at h
    obtain h | ⟨-, h⟩ := h <;> cases h
  readers := by simp [History.start]

theorem sample_with_collector (s : MetricsSampler) (collector : SystemCollector)
    (proc : SystemProc) : sample proc { s with collector := collector } =
      { s.publish (collector.collect proc).1 with collector := (collector.collect proc).2 } := by
  unfold sample
  generalize collector.collect proc = result
  obtain ⟨collected, collector'⟩ := result
  cases collected <;> rfl

theorem ready_with_collector (s : MetricsSampler) (collector : SystemCollector) (call : Call) :
    (callSection call).ready { s with collector := collector } = (callSection call).ready s := by
  cases call <;> rfl

theorem answer_with_collector (s : MetricsSampler) (collector : SystemCollector) (call : Call) :
    answer { s with collector := collector } call = s.answer call := by
  cases call <;> rfl

theorem timed_callSection (call : Call) : (callSection call).timed = false := by
  cases call <;> rfl

theorem step_call (h : History) (reader : ℕ) {call : Call}
    (hready : (callSection call).ready h.sampler = true) :
    h.step (.call reader call) = h.record reader call (h.sampler.answer call) := by
  cases call with
  | getLatest => rfl
  | waitForNext previousGeneration => exact if_pos hready

section Tracks

variable {t t' : SamplerThreads} {h : History} {pending pending' : List SystemProc}

/-- Nothing that the sections can see has changed. -/
theorem Tracks.congr (htracks : t.Tracks h pending)
    (hsettled : t'.monitor.settled = t.monitor.settled)
    (hcollector : t'.Collected h.sampler.collector pending')
    (hanswers : ∀ i call reading, t'.monitor.status i = some (.inr (.reading call reading)) →
      t.monitor.status i = some (.inr (.reading call reading)))
    (hlength : t.monitor.threads.length ≤ t'.monitor.threads.length) : t'.Tracks h pending' where
  sampler := hsettled ▸ htracks.sampler
  collector := hcollector
  answers i call reading hstatus := htracks.answers i call reading (hanswers i call reading hstatus)
  readers e he := (htracks.readers e he).trans_le hlength

theorem Collected.congr {before : SystemCollector} (hcollected : t.Collected before pending)
    (hstatus : t'.monitor.status 0 = t.monitor.status 0) (hcollector : t'.collector = t.collector) :
    t'.Collected before pending := by
  unfold Collected at hcollected ⊢
  rw [hstatus, hcollector]
  exact hcollected

section Commits

variable {i : ℕ} {c : Section MetricsSampler SamplerResult} {result : SamplerResult}
  {m : Monitor MetricsSampler SamplerResult} (hcommits : t.monitor.Commits i c result m)

include hcommits

theorem Tracks.commit (htracks : t.Tracks h pending) {h' : History}
    (hsampler : h'.sampler =
      { (c.atomic (t.monitor.settled, result)).1 with collector := h'.sampler.collector })
    (hcollector : Collected { t with monitor := m } h'.sampler.collector pending')
    (hseen : ∀ e ∈ h.seen, e ∈ h'.seen)
    (hanswer : ∀ call reading,
      (c.atomic (t.monitor.settled, result)).2 = .reading call reading →
        ∃ e ∈ h'.seen, e.reader = i ∧ e.call = call ∧ e.reading = reading)
    (hreaders : ∀ e ∈ h'.seen, e.reader < m.threads.length) :
    Tracks { t with monitor := m } h' pending' where
  sampler := by
    rw [hcommits.settled_eq]
    exact hsampler
  collector := hcollector
  answers j call reading hstatus := by
    by_cases hj : j = i
    · subst hj
      rw [hcommits.done, Option.some_inj, Sum.inr.injEq] at hstatus
      exact hanswer call reading hstatus
    · rw [hcommits.others j hj] at hstatus
      obtain ⟨e, he, hreader⟩ := htracks.answers j call reading hstatus
      exact ⟨e, hseen e he, hreader⟩
  readers := hreaders

theorem Collected.other {before : SystemCollector} (hcollected : t.Collected before pending)
    (hi : i ≠ 0) : Collected { t with monitor := m } before pending :=
  hcollected.congr (hcommits.others 0 hi.symm) rfl

/-- A thread goes through its section at once, and the run of whole sections takes it up. -/
theorem Tracks.commits (htracks : t.Tracks h pending) (hsound : t.Sound)
    (hready : c.ready t.monitor.settled = true ∨ c.timed = true)
    (hlength : m.threads.length = t.monitor.threads.length) :
    ∃ actions pending', Tracks { t with monitor := m } (h.run actions) pending' ∧
      pending = actions.flatMap sampled ++ pending' := by
  have hkind := hsound.kinds i _ hcommits.pending
  have hpending := hcommits.pending
  have hsampler := htracks.sampler
  have hcollected := htracks.collector
  have hreaders : ∀ e ∈ h.seen, e.reader < m.threads.length := hlength ▸ htracks.readers
  unfold Kind at hkind
  split_ifs at hkind with hworker hdestructor
  · subst hworker
    rw [Collected, hpending] at hcollected
    cases hkind with
    | waiting =>
      refine ⟨[], pending, htracks.commit hcommits hsampler ?_ (fun _ => id) nofun hreaders, rfl⟩
      rw [Collected, hcommits.done]
      exact hcollected
    | publishing collected =>
      obtain ⟨proc, hpending', hsection, hcollector⟩ := hcollected
      have hsample := sample_with_collector t.monitor.settled h.sampler.collector proc
      rw [← hsampler] at hsample
      have hrun : (h.run [.sample proc]).sampler = h.sampler.sample proc := rfl
      rw [hsection] at hcommits
      refine ⟨[.sample proc], [], htracks.commit hcommits ?_ ?_ (fun _ => id) ?_ hreaders,
        hpending'⟩
      · rw [hrun, hsample, atomic_publishSection]
      · rw [hrun, hsample, Collected, hcommits.done, atomic_publishSection]
        exact ⟨rfl, hcollector⟩
      · rw [atomic_publishSection]
        exact nofun
  · cases hkind
    refine ⟨[.stop], pending, htracks.commit hcommits ?_ (hcollected.other hcommits hworker)
      (fun _ => id) nofun hreaders, rfl⟩
    show h.sampler.stop = { t.monitor.settled.stop with collector := h.sampler.collector }
    conv_lhs => rw [hsampler]
    rfl
  · cases hkind with
    | calling call =>
      have hready' : (callSection call).ready h.sampler = true := by
        rw [hsampler, ready_with_collector]
        exact hready.resolve_right (by simp [timed_callSection])
      have hanswer : h.sampler.answer call = t.monitor.settled.answer call := by
        rw [hsampler, answer_with_collector]
      have hrun : h.run [.call i call] = h.record i call (h.sampler.answer call) :=
        step_call h i hready'
      refine ⟨[.call i call], pending, ?_, rfl⟩
      rw [hrun]
      refine htracks.commit hcommits ?_ (hcollected.other hcommits hworker) ?_ ?_ ?_
      · rw [atomic_callSection]
        exact hsampler
      · exact fun e he => List.mem_append_left _ he
      · rw [atomic_callSection]
        rintro _ _ ⟨⟩
        exact ⟨_, List.mem_append_right _ (List.mem_singleton_self _), rfl, rfl, hanswer⟩
      · intro e he
        obtain he | he := List.mem_append.mp he
        · exact hreaders e he
        · rw [List.mem_singleton.mp he, hlength]
          exact Monitor.lt_of_status hpending

end Commits

/-- A thread that comes is in no section yet. -/
theorem Tracks.enter (htracks : t.Tracks h pending) (hsound : t.Sound)
    (c : Section MetricsSampler SamplerResult) (result : SamplerResult) (destructor : Option ℕ) :
    Tracks { t with destructor := destructor, monitor := t.monitor.enter c result } h pending := by
  refine htracks.congr (Monitor.settled_enter hsound.monitor.exclusive c result)
    (htracks.collector.congr (Monitor.status_enter_of_lt c result hsound.worker) rfl) ?_
    (t.monitor.length_le_enter c result)
  intro i call reading hstatus
  obtain hstatus | ⟨-, hstatus⟩ := (Monitor.status_enter_eq_some_iff c result).mp hstatus
  · exact hstatus
  · cases hstatus

/-- The sampling thread begins another section. -/
theorem Tracks.again (htracks : t.Tracks h pending) (hsound : t.Sound)
    {result result' : SamplerResult}
    (hworker : t.worker = some (.returned result')) {c : Section MetricsSampler SamplerResult}
    {collector : SystemCollector}
    (hcollector : Collected
      { t with collector := collector, monitor := t.monitor.again 0 c result }
      h.sampler.collector pending') :
    Tracks { t with collector := collector, monitor := t.monitor.again 0 c result } h pending' := by
  have hexclusive := hsound.monitor.exclusive
  refine htracks.congr (hexclusive.settled_again hworker c result) hcollector ?_ ?_
  · intro i call reading hstatus
    rw [hexclusive.status_again hworker] at hstatus
    split_ifs at hstatus
    · cases hstatus
    · exact hstatus
  · exact List.length_set.ge

theorem Tracks.step {act : Act} (htracks : t.Tracks h pending) (hsound : t.Sound)
    (hstep : step act t = some t') : ∃ actions pending', t'.Tracks (h.run actions) pending' ∧
      pending ++ act.collected = actions.flatMap sampled ++ pending' := by
  -- only `collect` adds to what is pending
  have hkeeps (hact : act.collected = []) (htracks' : t'.Tracks h pending) :
      ∃ actions pending', t'.Tracks (h.run actions) pending' ∧
        pending ++ act.collected = actions.flatMap sampled ++ pending' :=
    ⟨[], pending, htracks', by rw [hact, List.append_nil]; rfl⟩
  cases steps_of_step hstep with
  | inside hmove =>
    have hlength := Monitor.length_steps hmove
    obtain ⟨hsettled, hsame⟩ | ⟨j, c, result, expired, hj, hready, hcommits⟩ :=
      hsound.monitor.exclusive.settles hmove
    · refine hkeeps rfl
        (htracks.congr hsettled (htracks.collector.congr (hsame 0) rfl) ?_ hlength.ge)
      exact fun i call reading hstatus => hsame i ▸ hstatus
    · have htimely := hsound.monitor.timely _ (List.mem_of_getElem? hj)
      obtain ⟨actions, pending', htracks', hpending⟩ :=
        htracks.commits hcommits hsound (hready.imp_right htimely) hlength
      exact ⟨actions, pending', htracks', (List.append_nil _).trans hpending⟩
  | call call => exact hkeeps rfl (htracks.enter hsound _ _ t.destructor)
  | destroy => exact hkeeps rfl (htracks.enter hsound _ _ _)
  | collect proc hworker =>
    have hcollector := htracks.collector
    rw [Collected, Monitor.status_of_returned hworker] at hcollector
    obtain ⟨rfl, hcollector⟩ := hcollector
    refine ⟨[], [proc], htracks.again hsound hworker ?_, rfl⟩
    rw [Collected, hsound.monitor.exclusive.status_again hworker, if_pos rfl]
    exact ⟨proc, rfl, by rw [hcollector], by rw [hcollector]⟩
  | loop hworker =>
    have hcollector := htracks.collector
    rw [Collected, Monitor.status_of_returned hworker] at hcollector
    refine hkeeps rfl (htracks.again hsound hworker ?_)
    rw [Collected, hsound.monitor.exclusive.status_again hworker, if_pos rfl]
    exact hcollector
  | join => exact hkeeps rfl (htracks.congr rfl htracks.collector (fun _ _ _ => id) le_rfl)

end Tracks

def Returned (t : SamplerThreads) (i : ℕ) (call : Call) (reading : Reading) : Prop :=
  t.monitor.threads[i]? = some (.returned (.reading call reading))

theorem run_append (h : History) (actions actions' : List Action) :
    h.run (actions ++ actions') = (h.run actions).run actions' :=
  List.foldl_append

theorem tracks_follow {acts : List Act} {t t' : SamplerThreads} {h : History}
    {pending : List SystemProc} (htracks : t.Tracks h pending) (hsound : t.Sound)
    (hfollow : follow step acts t = some t') :
    ∃ actions pending', t'.Tracks (h.run actions) pending' ∧
      pending ++ acts.flatMap Act.collected = actions.flatMap sampled ++ pending' := by
  induction acts generalizing t h pending with
  | nil =>
    obtain rfl := Option.some.inj hfollow
    exact ⟨[], pending, htracks, List.append_nil _⟩
  | cons act acts ih =>
    obtain ⟨t₁, hstep, hrest⟩ := follow_cons_eq_some_iff.mp hfollow
    obtain ⟨actions, pending₁, htracks₁, hpending₁⟩ := htracks.step hsound hstep
    obtain ⟨actions', pending', htracks', hpending'⟩ := ih htracks₁ (hsound.step hstep) hrest
    refine ⟨actions ++ actions', pending', run_append h actions actions' ▸ htracks', ?_⟩
    rw [List.flatMap_cons, ← List.append_assoc, hpending₁, List.append_assoc, hpending',
      List.flatMap_append, List.append_assoc]

theorem sound_follow {acts : List Act} {t t' : SamplerThreads} (hsound : t.Sound)
    (hfollow : follow step acts t = some t') : t'.Sound :=
  follow_keeps (fun _ _ _ hs => hs.step) hsound hfollow

theorem seen_prefix_run (h : History) (actions : List Action) :
    h.seen <+: (h.run actions).seen := by
  induction actions generalizing h with
  | nil => exact List.prefix_rfl
  | cons action actions ih =>
    refine List.IsPrefix.trans ?_ (ih (h.step action))
    cases action with
    | sample | stop => exact List.prefix_rfl
    | call reader call =>
      cases call with
      | getLatest => exact List.prefix_append _ _
      | waitForNext previousGeneration =>
        simp only [History.step]
        split
        · exact List.prefix_append _ _
        · exact List.prefix_rfl

/-- The first call has returned before the second one begins. -/
theorem generation_le_of_tracks {t t' : SamplerThreads} {h : History} {actions : List Action}
    {pending pending' : List SystemProc} (htracks : t.Tracks h pending)
    (htracks' : t'.Tracks (h.run actions) pending') (hsound : (h.run actions).Sound)
    {i j : ℕ} {call call' : Call} {reading reading' : Reading} (hi : t.Returned i call reading)
    (hj : t'.Returned j call' reading') (hlater : t.monitor.threads.length ≤ j) :
    reading.generation ≤ reading'.generation := by
  obtain ⟨e, he, rfl, rfl, rfl⟩ := htracks.answers i _ _ (Monitor.status_of_returned hi)
  obtain ⟨e', he', rfl, rfl, rfl⟩ := htracks'.answers j _ _ (Monitor.status_of_returned hj)
  obtain ⟨more, hmore⟩ := seen_prefix_run h actions
  have hordered := hsound.ordered
  rw [← hmore, List.map_append, List.pairwise_append] at hordered
  rw [← hmore] at he'
  have hnew : e' ∉ h.seen := fun hold => absurd (htracks.readers e' hold) (by omega)
  have he'' := (List.mem_append.mp he').resolve_left hnew
  exact hordered.2.2 _ (List.mem_map_of_mem he) _ (List.mem_map_of_mem he'')

/-- However the steps of the threads fall between each other, what the calls return is what calls
made at once return, after some samples that were taken at once: those that were collected, but for
the last as long as it is not published. A call that begins when another one has returned reads no
older sample, and when nobody has the lock the members are those that the samples have left. -/
theorem calls_at_once {sampleInterval : ℕ} {boot first : SystemProc} {acts acts' : List Act}
    {t t' : SamplerThreads} (h : follow step acts (start sampleInterval boot first) = some t)
    (h' : follow step acts' t = some t') :
    ∃ actions pending, let run := (History.start sampleInterval boot first).run actions
      ((acts ++ acts').flatMap Act.collected = actions.flatMap sampled ++ pending ∧
        pending.length ≤ 1) ∧
      (∀ i call reading, t'.Returned i call reading →
        ∃ e ∈ run.seen, e.Faithful ∧ e.reader = i ∧ e.call = call ∧ e.reading = reading) ∧
      (∀ i call reading j call' reading', t.Returned i call reading →
        t'.Returned j call' reading' → t.monitor.threads.length ≤ j →
          reading.generation ≤ reading'.generation) ∧
      (t'.monitor.owner = none →
        run.sampler = { t'.monitor.shared with collector := run.sampler.collector }) := by
  have hstart := sound_start sampleInterval boot first
  obtain ⟨actions, pending, htracks, hpending⟩ :=
    tracks_follow (tracks_start sampleInterval boot first) hstart h
  obtain ⟨actions', pending', htracks', hpending'⟩ :=
    tracks_follow htracks (sound_follow hstart h) h'
  have hsound := (History.sound_start sampleInterval boot first).run (actions ++ actions')
  rw [run_append] at hsound
  refine ⟨actions ++ actions', pending', ⟨?_, htracks'.collector.length_le⟩, ?_, ?_,
    fun howner => ?_⟩
  · rw [List.nil_append] at hpending
    rw [List.flatMap_append, hpending, List.append_assoc, hpending', List.flatMap_append,
      List.append_assoc]
  · intro i call reading hreturned
    rw [run_append]
    obtain ⟨e, he, hreader⟩ := htracks'.answers i _ _ (Monitor.status_of_returned hreturned)
    exact ⟨e, he, hsound.faithful e he, hreader⟩
  · intro i call reading j call' reading' hi hj hlater
    exact generation_le_of_tracks htracks htracks' hsound hi hj hlater
  · rw [run_append, ← Monitor.settled_of_unowned howner]
    exact htracks'.sampler

/-- A reader waits, the interval is over, and the sample wakes the reader. -/
def wakesReader : List Act :=
  .call (.waitForNext 1) ::
    [.lock 0, .test 0, .lock 1, .test 1, .wake 0 true, .lock 0, .test 0, .advance 0,
      .advance 0].map .inside ++
    .collect (procWith none) ::
    [.lock 0, .test 0, .advance 0, .advance 0, .advance 0, .notify 0, .lock 1, .test 1, .advance 1,
      .advance 1, .advance 1, .advance 1].map .inside

def readsLatest : List Act :=
  .call .getLatest ::
    [.lock 2, .test 2, .advance 2, .advance 2, .advance 2, .advance 2].map .inside

theorem calls_at_once_reader :
    ∃ t t' reading reading',
      follow step wakesReader (start 1000 (procWith none) (procWith none)) = some t ∧
      follow step readsLatest t = some t' ∧ t.Returned 1 (.waitForNext 1) reading ∧
      t'.Returned 2 .getLatest reading' ∧ reading.generation ≤ reading'.generation := by
  have hrun : ∃ t t',
      follow step wakesReader (start 1000 (procWith none) (procWith none)) = some t ∧
      follow step readsLatest t = some t' ∧ (∃ reading, t.Returned 1 (.waitForNext 1) reading) ∧
      (∃ reading, t'.Returned 2 .getLatest reading) ∧ t.monitor.threads.length ≤ 2 :=
    ⟨_, _, rfl, rfl, ⟨_, rfl⟩, ⟨_, rfl⟩, by decide⟩
  obtain ⟨t, t', h, h', ⟨reading, hfirst⟩, ⟨reading', hsecond⟩, hlater⟩ := hrun
  obtain ⟨actions, pending, -, -, hordered, -⟩ := calls_at_once h h'
  exact ⟨t, t', reading, reading', h, h', hfirst, hsecond,
    hordered _ _ _ _ _ _ hfirst hsecond hlater⟩

end EdgeScope.SamplerThreads
