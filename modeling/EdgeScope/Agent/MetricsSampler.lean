import EdgeScope.Agent.SystemCollector

/-!
# `MetricsSampler`

One thread samples the system, and any number of others read its last sample or wait for the
next one. A snapshot is valid when there is one and the last error is empty. All of this
happens under one lock, so a run is a sequence of critical sections.
-/

namespace EdgeScope
open Text

structure MetricsSampler where
  sampleInterval : ℕ
  collector : SystemCollector
  latestMetrics : SystemMetrics
  latestError : Bytes
  generation : ℕ
  hasSnapshot : Bool
  stopping : Bool

/-- What a call returns and stores; `metrics` is `none` where the caller's are left alone. -/
structure Reading where
  returned : Bool
  generation : ℕ
  metrics : Option SystemMetrics
  error : Bytes

namespace MetricsSampler

def getLatest (s : MetricsSampler) : Reading :=
  if s.hasSnapshot = false ∨ s.latestError ≠ [] then ⟨false, s.generation, none, s.latestError⟩
  else ⟨true, s.generation, some s.latestMetrics, s.latestError⟩

def wakes (previousGeneration : ℕ) (s : MetricsSampler) : Bool :=
  s.stopping || previousGeneration < s.generation

/-- The rest of `WaitForNext`, once its condition holds. -/
def waitForNext (s : MetricsSampler) : Reading :=
  if s.stopping then ⟨false, s.generation, none, ascii "metrics sampler is stopping"⟩
  else if s.hasSnapshot = false ∨ s.latestError ≠ [] then
    ⟨false, s.generation, none, s.latestError⟩
  else ⟨true, s.generation, some s.latestMetrics, s.latestError⟩

def publish (collected : Except Bytes SystemMetrics) (s : MetricsSampler) : MetricsSampler :=
  match collected with
  | .ok metrics =>
    { s with
      generation := s.generation + 1
      latestMetrics := metrics
      latestError := []
      hasSnapshot := true }
  | .error error => { s with generation := s.generation + 1, latestError := error }

def sample (proc : SystemProc) (s : MetricsSampler) : MetricsSampler :=
  let (collected, collector) := s.collector.collect proc
  { s with collector := collector }.publish collected

/-- The constructor creates the collector on one state of the system, and samples another. -/
def create (sampleInterval : ℕ) (boot first : SystemProc) : MetricsSampler :=
  sample first
    { sampleInterval := sampleInterval
      collector := .create boot
      latestMetrics := ⟨0, 0, 0, 0, 0, 0, 0, 0⟩
      latestError := []
      generation := 0
      hasSnapshot := false
      stopping := false }

/-- The destructor, which then joins the sampling thread. -/
def stop (s : MetricsSampler) : MetricsSampler := { s with stopping := true }

end MetricsSampler

namespace Sampling

inductive Call
  | getLatest
  | waitForNext (previousGeneration : ℕ)
  deriving DecidableEq

/-- A critical section: of a sample, of the destructor, or of a call made by a reader. A wait
whose condition does not hold goes on. -/
inductive Action
  | sample (proc : SystemProc)
  | stop
  | call (reader : ℕ) (call : Call)

/-- A call that has returned, with the samples published before it. -/
structure Seen where
  reader : ℕ
  call : Call
  reading : Reading
  samples : List (Except Bytes SystemMetrics)
  stopping : Bool

/-- The sampler, with the samples it has published and the calls that have returned. -/
structure History where
  sampler : MetricsSampler
  samples : List (Except Bytes SystemMetrics)
  seen : List Seen

def History.start (sampleInterval : ℕ) (boot first : SystemProc) : History where
  sampler := .create sampleInterval boot first
  samples := [((SystemCollector.create boot).collect first).1]
  seen := []

def History.record (h : History) (reader : ℕ) (call : Call) (reading : Reading) : History :=
  { h with seen := h.seen ++ [⟨reader, call, reading, h.samples, h.sampler.stopping⟩] }

def History.step (h : History) : Action → History
  | .sample proc =>
    { h with
      sampler := h.sampler.sample proc
      samples := h.samples ++ [(h.sampler.collector.collect proc).1] }
  | .stop => { h with sampler := h.sampler.stop }
  | .call reader .getLatest => h.record reader .getLatest h.sampler.getLatest
  | .call reader (.waitForNext previousGeneration) =>
    if h.sampler.wakes previousGeneration then
      h.record reader (.waitForNext previousGeneration) h.sampler.waitForNext
    else h

def History.run (h : History) (actions : List Action) : History := actions.foldl History.step h

structure History.Tracked (h : History) : Prop where
  generation : h.sampler.generation = h.samples.length
  errors : ∀ error, .error error ∈ h.samples → error ≠ []
  succeeded : ∀ metrics, h.samples.getLast? = some (.ok metrics) →
    h.sampler.hasSnapshot = true ∧ h.sampler.latestError = [] ∧ h.sampler.latestMetrics = metrics
  failed : ∀ error, h.samples.getLast? = some (.error error) → h.sampler.latestError = error
  sampled : h.samples ≠ []

theorem History.Tracked.publish {samples : List (Except Bytes SystemMetrics)}
    {s : MetricsSampler} (hgeneration : s.generation = samples.length)
    (herrors : ∀ error, .error error ∈ samples → error ≠ []) (proc : SystemProc)
    (seen : List Seen) :
    (History.mk (s.sample proc) (samples ++ [(s.collector.collect proc).1]) seen).Tracked := by
  have hcollected : ∀ error, (s.collector.collect proc).1 = .error error → error ≠ [] :=
    fun error h => SystemCollector.collect_error h
  simp only [MetricsSampler.sample]
  generalize s.collector.collect proc = result at *
  obtain ⟨collected, collector⟩ := result
  simp only at hcollected
  refine ⟨?_, ?_, ?_, ?_, by simp⟩
  · cases collected <;> simp [MetricsSampler.publish, hgeneration]
  · intro error h
    obtain h | h := List.mem_append.mp h
    · exact herrors error h
    · exact hcollected error (List.mem_singleton.mp h).symm
  · intro metrics h
    simp only [List.getLast?_append, List.getLast?_singleton, Option.some_or,
      Option.some.injEq] at h
    simp [h, MetricsSampler.publish]
  · intro error h
    simp only [List.getLast?_append, List.getLast?_singleton, Option.some_or,
      Option.some.injEq] at h
    simp [h, MetricsSampler.publish]

theorem History.tracked_start (sampleInterval : ℕ) (boot first : SystemProc) :
    (History.start sampleInterval boot first).Tracked :=
  have hempty : ∀ error, Except.error error ∈ ([] : List (Except Bytes SystemMetrics)) →
      error ≠ [] := by simp
  Tracked.publish rfl hempty first []

namespace History.Tracked

variable {h : History}

theorem step (htracked : h.Tracked) (action : Action) : (h.step action).Tracked := by
  cases action with
  | sample proc => exact publish htracked.generation htracked.errors proc h.seen
  | stop => exact ⟨htracked.generation, htracked.errors, htracked.succeeded, htracked.failed,
      htracked.sampled⟩
  | call reader call =>
    have hrecord (call : Call) (reading : Reading) : (h.record reader call reading).Tracked :=
      ⟨htracked.generation, htracked.errors, htracked.succeeded, htracked.failed,
        htracked.sampled⟩
    cases call with
    | getLatest => exact hrecord _ _
    | waitForNext previousGeneration =>
      simp only [History.step]
      split
      · exact hrecord _ _
      · exact htracked

theorem run (htracked : h.Tracked) (actions : List Action) : (h.run actions).Tracked := by
  induction actions generalizing h with
  | nil => exact htracked
  | cons action actions ih => exact ih (htracked.step action)

theorem cases (htracked : h.Tracked) :
    (∃ metrics, h.samples.getLast? = some (.ok metrics) ∧
      h.sampler.getLatest = ⟨true, h.samples.length, some metrics, []⟩) ∨
    ∃ error, error ≠ [] ∧ h.samples.getLast? = some (.error error) ∧
      h.sampler.getLatest = ⟨false, h.samples.length, none, error⟩ := by
  cases hlast : h.samples.getLast? with
  | none => exact absurd (List.getLast?_eq_none_iff.mp hlast) htracked.sampled
  | some sample =>
    cases sample with
    | ok metrics =>
      obtain ⟨hsnapshot, herror, hmetrics⟩ := htracked.succeeded metrics hlast
      refine .inl ⟨metrics, rfl, ?_⟩
      simp [MetricsSampler.getLatest, hsnapshot, herror, hmetrics, htracked.generation]
    | error error =>
      have herror := htracked.failed error hlast
      have hne := htracked.errors error (List.mem_of_getLast? hlast)
      refine .inr ⟨error, hne, rfl, ?_⟩
      simp [MetricsSampler.getLatest, herror, hne, htracked.generation]

/-- A wait that is over answers what `GetLatest` answers, unless the sampler is stopping. -/
theorem waitForNext_eq (htracked : h.Tracked) : h.sampler.waitForNext =
    if h.sampler.stopping then
      ⟨false, h.samples.length, none, ascii "metrics sampler is stopping"⟩
    else h.sampler.getLatest := by
  rw [← htracked.generation]
  rfl

end History.Tracked

structure Seen.Faithful (e : Seen) : Prop where
  newest : e.reading.generation = e.samples.length
  metrics : e.reading.returned = true → ∃ metrics, e.reading.metrics = some metrics ∧
    e.samples[e.reading.generation - 1]? = some (.ok metrics)
  failed : ∀ error, e.samples.getLast? = some (.error error) →
    e.reading.returned = false ∧ error ≠ [] ∧
      e.reading.error = if e.call ≠ .getLatest ∧ e.stopping then
        ascii "metrics sampler is stopping" else error
  recovered : ∀ metrics, e.samples.getLast? = some (.ok metrics) → e.stopping = false →
    e.reading.returned = true
  awaited : ∀ previousGeneration, e.call = .waitForNext previousGeneration → e.stopping = false →
    previousGeneration < e.reading.generation

theorem History.Tracked.faithful_getLatest {h : History} (htracked : h.Tracked) (reader : ℕ) :
    Seen.Faithful ⟨reader, .getLatest, h.sampler.getLatest, h.samples, h.sampler.stopping⟩ := by
  obtain ⟨metrics, hlast, hreading⟩ | ⟨error, hne, hlast, hreading⟩ := htracked.cases
  · rw [hreading]
    refine ⟨rfl, fun _ => ⟨metrics, rfl, ?_⟩, ?_, fun _ _ _ => rfl, by simp⟩
    · rw [← List.getLast?_eq_getElem?, hlast]
    · intro error h
      simp [hlast] at h
  · rw [hreading]
    refine ⟨rfl, by simp, ?_, ?_, by simp⟩
    · intro error' h
      simp only [hlast, Option.some.injEq, Except.error.injEq] at h
      simp [h ▸ hne, h]
    · intro metrics h
      simp [hlast] at h

theorem History.Tracked.faithful_waitForNext {h : History} (htracked : h.Tracked) (reader : ℕ)
    {previousGeneration : ℕ} (hwakes : h.sampler.wakes previousGeneration = true) :
    Seen.Faithful ⟨reader, .waitForNext previousGeneration, h.sampler.waitForNext, h.samples,
      h.sampler.stopping⟩ := by
  have hlatest := htracked.faithful_getLatest reader
  rw [htracked.waitForNext_eq]
  cases hstopping : h.sampler.stopping with
  | true =>
    refine ⟨rfl, by simp, ?_, by simp, by simp⟩
    intro error herror
    simp [(hlatest.failed error herror).2.1]
  | false =>
    simp only [hstopping, Bool.false_eq_true, if_false] at hlatest ⊢
    refine ⟨hlatest.newest, hlatest.metrics, ?_, hlatest.recovered, ?_⟩
    · intro error herror
      simpa using hlatest.failed error herror
    · rintro previousGeneration' hcall -
      cases hcall
      rw [hlatest.newest, ← htracked.generation]
      simpa [MetricsSampler.wakes, hstopping] using hwakes

structure History.Sound (h : History) : Prop extends h.Tracked where
  faithful : ∀ e ∈ h.seen, e.Faithful
  bounded : ∀ e ∈ h.seen, e.reading.generation ≤ h.samples.length
  ordered : (h.seen.map (·.reading.generation)).Pairwise (· ≤ ·)

namespace History.Sound

variable {h : History}

theorem record (hsound : h.Sound) (reader : ℕ) (call : Call) {reading : Reading}
    (hfaithful : Seen.Faithful ⟨reader, call, reading, h.samples, h.sampler.stopping⟩)
    (htracked : (h.record reader call reading).Tracked) :
    (h.record reader call reading).Sound := by
  refine ⟨htracked, ?_, ?_, ?_⟩
  · intro e he
    obtain he | he := List.mem_append.mp he
    · exact hsound.faithful e he
    · exact List.mem_singleton.mp he ▸ hfaithful
  · intro e he
    obtain he | he := List.mem_append.mp he
    · exact hsound.bounded e he
    · exact List.mem_singleton.mp he ▸ hfaithful.newest.le
  · simp only [History.record, List.map_append, List.map_singleton, List.pairwise_append]
    refine ⟨hsound.ordered, List.pairwise_singleton _ _, ?_⟩
    intro generation hgeneration newest hnewest
    obtain ⟨e, he, rfl⟩ := List.mem_map.mp hgeneration
    rw [List.mem_singleton.mp hnewest, hfaithful.newest]
    exact hsound.bounded e he

theorem step (hsound : h.Sound) (action : Action) : (h.step action).Sound := by
  have htracked := hsound.toTracked.step action
  cases action with
  | sample proc =>
    refine ⟨htracked, hsound.faithful, fun e he => ?_, hsound.ordered⟩
    exact (hsound.bounded e he).trans (by simp [History.step])
  | stop => exact ⟨htracked, hsound.faithful, hsound.bounded, hsound.ordered⟩
  | call reader call =>
    cases call with
    | getLatest =>
      exact hsound.record reader .getLatest (hsound.toTracked.faithful_getLatest reader) htracked
    | waitForNext previousGeneration =>
      simp only [History.step] at htracked ⊢
      split
      · rename_i hwakes
        rw [if_pos hwakes] at htracked
        exact hsound.record reader _ (hsound.toTracked.faithful_waitForNext reader hwakes) htracked
      · exact hsound

theorem run (hsound : h.Sound) (actions : List Action) : (h.run actions).Sound := by
  induction actions generalizing h with
  | nil => exact hsound
  | cons action actions ih => exact ih (hsound.step action)

end History.Sound

theorem History.sound_start (sampleInterval : ℕ) (boot first : SystemProc) :
    (History.start sampleInterval boot first).Sound :=
  ⟨tracked_start sampleInterval boot first, by simp [start], by simp [start], by simp [start]⟩

/-- Whatever the samples and however the calls of the readers fall between them, every call
answers the most recent sample, and no reader sees an older generation than before. -/
theorem calls_answer_newest_sample (sampleInterval : ℕ) (boot first : SystemProc)
    (actions : List Action) :
    let h := (History.start sampleInterval boot first).run actions
    (∀ e ∈ h.seen, e.Faithful) ∧
      ∀ reader, ((h.seen.filter (·.reader = reader)).map (·.reading.generation)).Pairwise
        (· ≤ ·) := by
  have hsound := (History.sound_start sampleInterval boot first).run actions
  refine ⟨hsound.faithful, fun reader => ?_⟩
  exact hsound.ordered.sublist (List.filter_sublist.map _)

/-- A call that need not wait returns, and with the metrics where the last sample has some. -/
theorem calls_return (sampleInterval : ℕ) (boot first : SystemProc) (actions : List Action)
    (reader : ℕ) :
    let h := (History.start sampleInterval boot first).run actions
    let returns (call : Call) (reading : Reading) : Prop :=
      (h.step (.call reader call)).seen =
        h.seen ++ [⟨reader, call, reading, h.samples, h.sampler.stopping⟩]
    (returns .getLatest h.sampler.getLatest ∧
      ∀ metrics, h.samples.getLast? = some (.ok metrics) →
        h.sampler.getLatest.returned = true) ∧
    ∀ previousGeneration < h.samples.length,
      returns (.waitForNext previousGeneration) h.sampler.waitForNext ∧
        ∀ metrics, h.samples.getLast? = some (.ok metrics) → h.sampler.stopping = false →
          h.sampler.waitForNext.returned = true := by
  intro h returns
  have htracked : h.Tracked := (History.tracked_start sampleInterval boot first).run actions
  have hlatest (metrics : SystemMetrics) (hlast : h.samples.getLast? = some (.ok metrics)) :
      h.sampler.getLatest.returned = true := by
    obtain ⟨hsnapshot, herror, -⟩ := htracked.succeeded metrics hlast
    simp [MetricsSampler.getLatest, hsnapshot, herror]
  refine ⟨⟨rfl, hlatest⟩, fun previousGeneration hprevious => ⟨?_, ?_⟩⟩
  · have hwakes : h.sampler.wakes previousGeneration = true := by
      have hgeneration : h.sampler.generation = h.samples.length := htracked.generation
      simp [MetricsSampler.wakes, hgeneration, hprevious]
    simp only [returns, History.step, if_pos hwakes]
    rfl
  · intro metrics hlast hstopping
    rw [htracked.waitForNext_eq, hstopping, if_neg Bool.false_ne_true]
    exact hlatest metrics hlast

/-- A generation is counted for each sample, so it stays in its word. -/
theorem generation_lt (sampleInterval : ℕ) (boot first : SystemProc) {actions : List Action}
    (hlength : actions.length + 1 < wordSize) :
    ((History.start sampleInterval boot first).run actions).sampler.generation < wordSize := by
  have hsamples (h : History) : (h.run actions).samples.length ≤
      h.samples.length + actions.length := by
    clear hlength
    induction actions generalizing h with
    | nil => exact le_rfl
    | cons action actions ih =>
      have hstep : (h.step action).samples.length ≤ h.samples.length + 1 := by
        cases action with
        | sample proc => simp [History.step]
        | stop => exact Nat.le_succ _
        | call reader call =>
          cases call with
          | getLatest => exact Nat.le_succ _
          | waitForNext previousGeneration =>
            simp only [History.step]
            split <;> exact Nat.le_succ _
      have hrest := ih (h.step action)
      rw [List.length_cons]
      simp only [History.run, List.foldl_cons] at hrest ⊢
      omega
  rw [((History.tracked_start sampleInterval boot first).run actions).generation]
  have hall := hsamples (History.start sampleInterval boot first)
  have hfirst : (History.start sampleInterval boot first).samples.length = 1 := rfl
  omega

end Sampling
end EdgeScope
