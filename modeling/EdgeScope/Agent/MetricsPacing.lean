import EdgeScope.Agent.EdgeScopeServiceImpl
import EdgeScope.Agent.MetricsSampler
import Mathlib.Data.List.Chain

/-!
# The pace of `StreamSystemMetrics`

The handler writes the sample it finds, and then every sample that is far enough ahead of the
last one written, among those it happens to observe. How far is the quotient of the interval
asked for and the interval of the sampler, rounded up.
-/

namespace EdgeScope
open Text

/-- The answer of a call as the handler takes it. -/
def Reading.result (r : Reading) : Except Bytes (SystemMetrics × ℕ) :=
  match r.returned, r.metrics with
  | true, some metrics => .ok (metrics, r.generation)
  | _, _ => .error r.error

namespace Sampling
open EdgeScopeServiceImpl

/-- The answers of `WaitForNext`, each call being made with the generation of the answer before.
Before each attempt to return the sampler takes the actions of one list. The first answer that
fails is the last. -/
def History.waits (h : History) (generation : ℕ) :
    List (List Action) → List (Except Bytes (SystemMetrics × ℕ))
  | [] => []
  | actions :: schedule =>
    let h := h.run actions
    if h.sampler.wakes generation then
      match h.sampler.waitForNext.result with
      | .error error => [.error error]
      | .ok (metrics, generation) => .ok (metrics, generation) :: h.waits generation schedule
    else h.waits generation schedule

/-- A host on which a call of `StreamSystemMetrics` finds the sampler as it is in `h`, and from
then on follows a schedule. -/
def onSampler (host : Host) (h : History) (schedule : List (List Action)) : Host :=
  { host with
    latest := h.sampler.getLatest.result
    waits := h.waits h.sampler.generation schedule }

/-- The pairs of generations the loop of the handler subtracts, the smaller one first. -/
def subtractions (samplesPerResponse : ℕ) (writer : ℕ → Bool) :
    List (Except Bytes (SystemMetrics × ℕ)) → ℕ → ℕ → List (ℕ × ℕ)
  | [], _, _ => []
  | .error _ :: _, _, _ => []
  | .ok (_, generation) :: waits, lastSentGeneration, written =>
    (lastSentGeneration, generation) ::
      if (generation + wordSize - lastSentGeneration) % wordSize < samplesPerResponse then
        subtractions samplesPerResponse writer waits lastSentGeneration written
      else if writer written then
        subtractions samplesPerResponse writer waits generation (written + 1)
      else []

def Ascending : ℕ → List (Except Bytes (SystemMetrics × ℕ)) → Prop
  | generation, .ok (_, next) :: waits => generation < next ∧ Ascending next waits
  | _, _ => True

/-- Each answer is of the generation right after the one before. -/
def ObservesAll : ℕ → List (Except Bytes (SystemMetrics × ℕ)) → Prop
  | generation, .ok (_, next) :: waits => next = generation + 1 ∧ ObservesAll next waits
  | _, _ => True

instance : ∀ generation waits, Decidable (ObservesAll generation waits)
  | generation, .ok (_, next) :: waits =>
    haveI := instDecidableObservesAll next waits
    inferInstanceAs (Decidable (next = generation + 1 ∧ ObservesAll next waits))
  | _, [] => .isTrue trivial
  | _, .error _ :: _ => .isTrue trivial

theorem History.samples_step (h : History) (action : Action) :
    h.samples <+: (h.step action).samples := by
  match action with
  | .sample proc => exact List.prefix_append ..
  | .stop => exact List.prefix_rfl
  | .call reader .getLatest => exact List.prefix_rfl
  | .call reader (.waitForNext previousGeneration) =>
    simp only [History.step]
    split <;> exact List.prefix_rfl

theorem History.samples_run (h : History) (actions : List Action) :
    h.samples <+: (h.run actions).samples := by
  induction actions generalizing h with
  | nil => exact List.prefix_rfl
  | cons action actions ih => exact (h.samples_step action).trans (ih (h.step action))

theorem getElem?_of_prefix {α : Type*} {l l' : List α} (h : l <+: l') {i : ℕ} {a : α}
    (hi : l[i]? = some a) : l'[i]? = some a := by
  obtain ⟨more, rfl⟩ := h
  rw [List.getElem?_append_left (List.getElem?_eq_some_iff.mp hi).1, hi]

theorem History.Tracked.getLatest_result {h : History} (htracked : h.Tracked)
    {metrics : SystemMetrics} {generation : ℕ}
    (hresult : h.sampler.getLatest.result = .ok (metrics, generation)) :
    generation = h.sampler.generation ∧ h.samples[generation - 1]? = some (.ok metrics) := by
  obtain ⟨metrics', hlast, hreading⟩ | ⟨error, -, hlast, hreading⟩ := htracked.cases
  · simp only [hreading, Reading.result, Except.ok.injEq, Prod.mk.injEq] at hresult
    obtain ⟨rfl, rfl⟩ := hresult
    exact ⟨htracked.generation.symm, by rw [← List.getLast?_eq_getElem?, hlast]⟩
  · simp [hreading, Reading.result] at hresult

theorem History.Tracked.waitForNext_result {h : History} (htracked : h.Tracked)
    {previousGeneration : ℕ} (hwakes : h.sampler.wakes previousGeneration = true)
    {metrics : SystemMetrics} {generation : ℕ}
    (hresult : h.sampler.waitForNext.result = .ok (metrics, generation)) :
    previousGeneration < generation ∧ h.samples[generation - 1]? = some (.ok metrics) := by
  rw [htracked.waitForNext_eq] at hresult
  cases hstopping : h.sampler.stopping with
  | true => simp [hstopping, Reading.result] at hresult
  | false =>
    simp only [hstopping, Bool.false_eq_true, if_false] at hresult
    obtain ⟨hgeneration, hsample⟩ := htracked.getLatest_result hresult
    refine ⟨?_, hsample⟩
    rw [hgeneration]
    simpa [MetricsSampler.wakes, hstopping] using hwakes

theorem History.Tracked.waits_ascending {h : History} (htracked : h.Tracked) (generation : ℕ)
    (schedule : List (List Action)) : Ascending generation (h.waits generation schedule) := by
  induction schedule generalizing h generation with
  | nil => trivial
  | cons actions schedule ih =>
    have hrun := htracked.run actions
    simp only [History.waits]
    split
    · rename_i hwakes
      split
      · trivial
      · rename_i metrics next hresult
        exact ⟨(hrun.waitForNext_result hwakes hresult).1, ih hrun next⟩
    · exact ih hrun generation

theorem History.Tracked.waits_samples {h : History} (htracked : h.Tracked) (generation : ℕ)
    (schedule : List (List Action)) :
    ∀ answer, .ok answer ∈ h.waits generation schedule →
      (h.run schedule.flatten).samples[answer.2 - 1]? = some (.ok answer.1) := by
  induction schedule generalizing h generation with
  | nil => simp [History.waits]
  | cons actions schedule ih =>
    have hrun := htracked.run actions
    have hflatten : h.run (actions :: schedule).flatten = (h.run actions).run schedule.flatten := by
      simp only [History.run, List.flatten_cons, List.foldl_append]
    intro answer hanswer
    rw [hflatten]
    simp only [History.waits] at hanswer
    split at hanswer
    · rename_i hwakes
      split at hanswer
      · simp at hanswer
      · rename_i metrics next hresult
        obtain hfirst | hlater := List.mem_cons.mp hanswer
        · cases hfirst
          exact getElem?_of_prefix ((h.run actions).samples_run _)
            (hrun.waitForNext_result hwakes hresult).2
        · exact ih hrun next answer hlater
    · exact ih hrun generation answer hanswer

/-- The loop writes samples that are at least `k` generations apart, and exactly `k` when it
observes all of them. -/
theorem metricsLoop_spec {k : ℕ} (hk : 1 ≤ k) (writer : ℕ → Bool)
    (waits : List (Except Bytes (SystemMetrics × ℕ))) {last generation : ℕ}
    (hlast : last ≤ generation) (hascending : Ascending generation waits)
    (written : List SystemMetrics) :
    ∃ sent : List (SystemMetrics × ℕ),
      (metricsLoop k writer waits last written).1 = written ++ sent.map Prod.fst ∧
      (sent.map .ok).Sublist waits ∧
      (last :: sent.map Prod.snd).IsChain (fun a b => a + k ≤ b) ∧
      (∀ pair ∈ subtractions k writer waits last written.length, pair.1 ≤ pair.2) ∧
      (ObservesAll generation waits → generation < last + k → k < wordSize →
        (last :: sent.map Prod.snd).IsChain (fun a b => b = a + k)) := by
  induction waits generalizing last generation written with
  | nil => exact ⟨[], by simp [metricsLoop, subtractions]⟩
  | cons answer waits ih =>
    match answer with
    | .error error => exact ⟨[], by simp [metricsLoop, subtractions]⟩
    | .ok (metrics, next) =>
      obtain ⟨hnext, hrest⟩ := hascending
      -- the unsigned difference is that of the generations, modulo a word
      have hdifference : (next + wordSize - last) % wordSize = (next - last) % wordSize := by
        rw [show next + wordSize - last = next - last + wordSize by omega, Nat.add_mod_right]
      have hle := Nat.mod_le (next - last) wordSize
      simp only [metricsLoop, subtractions, hdifference]
      by_cases hfew : (next - last) % wordSize < k
      · -- too few samples have come: the loop waits on, from the same `last`
        obtain ⟨sent, hloop, hsublist, hchain, hpairs, hexact⟩ :=
          ih (show last ≤ next by omega) hrest written
        simp only [if_pos hfew]
        refine ⟨sent, hloop, hsublist.cons _, hchain, ?_, ?_⟩
        · rw [List.forall_mem_cons]
          exact ⟨by simp only; omega, hpairs⟩
        · rintro ⟨hone, hall⟩ hclose hword
          rw [Nat.mod_eq_of_lt (by omega)] at hfew
          exact hexact hall (by omega) hword
      · simp only [if_neg hfew]
        cases hwriter : writer written.length with
        | false =>
          refine ⟨[], by simp, by simp, by simp, ?_, fun _ _ _ => by simp⟩
          simp only [Bool.false_eq_true, if_false, List.forall_mem_cons]
          exact ⟨by omega, by simp⟩
        | true =>
          obtain ⟨sent, hloop, hsublist, hchain, hpairs, hexact⟩ :=
            ih (le_refl next) hrest (written ++ [metrics])
          simp only [if_true]
          refine ⟨(metrics, next) :: sent, ?_, ?_, ?_, ?_, ?_⟩
          · rw [hloop, List.map_cons, List.append_assoc]
            rfl
          · exact hsublist.cons_cons _
          · rw [List.map_cons, List.isChain_cons_cons]
            exact ⟨by simp only; omega, hchain⟩
          · rw [List.length_append, List.length_singleton] at hpairs
            rw [List.forall_mem_cons]
            exact ⟨by simp only; omega, hpairs⟩
          · rintro ⟨hone, hall⟩ hclose hword
            rw [List.map_cons, List.isChain_cons_cons]
            rw [Nat.mod_eq_of_lt (by omega)] at hfew
            exact ⟨by simp only; omega, hexact hall (by omega) hword⟩

def responseInterval (intervalMs : ℕ) : ℕ :=
  if intervalMs = 0 then kDefaultStreamIntervalMs else intervalMs

def samplesPerResponse (intervalMs sampleInterval : ℕ) : ℕ :=
  (responseInterval intervalMs + sampleInterval - 1) / sampleInterval

/-- The quotient is rounded up. -/
theorem samplesPerResponse_bounds {intervalMs sampleInterval : ℕ} (h : 0 < sampleInterval) :
    responseInterval intervalMs ≤ samplesPerResponse intervalMs sampleInterval * sampleInterval ∧
      samplesPerResponse intervalMs sampleInterval * sampleInterval <
        responseInterval intervalMs + sampleInterval := by
  unfold samplesPerResponse
  generalize responseInterval intervalMs = interval
  have hdivision := Nat.div_add_mod (interval + sampleInterval - 1) sampleInterval
  have hmod := Nat.mod_lt (interval + sampleInterval - 1) h
  rw [mul_comm] at hdivision
  constructor <;> omega

/-- What the handler writes when it accepts the interval. -/
theorem streamSystemMetrics_messages (host : Host) (s : EdgeScopeServiceImpl) {intervalMs : ℕ}
    (hrange : 1000 ≤ responseInterval intervalMs ∧ responseInterval intervalMs ≤ 60000) :
    (streamSystemMetrics host s intervalMs).messages =
      match host.latest with
      | .error _ => []
      | .ok (metrics, generation) =>
        if host.writer 0 then
          (metricsLoop (samplesPerResponse intervalMs s.sampleInterval) host.writer host.waits
            generation [metrics]).1.map .systemMetrics
        else [] := by
  have haccepted : ¬ (responseInterval intervalMs < kMinStreamIntervalMs ∨
      kMaxStreamIntervalMs < responseInterval intervalMs) := by
    unfold kMinStreamIntervalMs kMaxStreamIntervalMs
    omega
  unfold streamSystemMetrics
  simp only [samplesPerResponse, responseInterval] at haccepted ⊢
  rw [if_neg haccepted]
  cases host.latest with
  | error error => rfl
  | ok latest =>
    simp only
    split_ifs <;> rfl

/-- Whatever the schedule of samples and wake-ups, the responses are of generations at least
`k` apart, each with the metrics of its own, and exactly `k` apart when the handler observes
every generation. -/
theorem streamSystemMetrics_paced (path : Bytes) (text : Option Bytes) (config : AgentConfig)
    (hload : AgentConfig.load path text = .ok config) (pid : ℕ) (host : Host)
    (boot first : SystemProc) (before : List Action) (schedule : List (List Action))
    (intervalMs : ℕ) (hinterval : intervalMs = 0 ∨ 1000 ≤ intervalMs ∧ intervalMs ≤ 60000) :
    let h := (History.start config.sampleInterval boot first).run before
    let host := onSampler host h schedule
    let k := samplesPerResponse intervalMs config.sampleInterval
    config.sampleInterval ≠ 0 ∧ 1 ≤ k ∧
    responseInterval intervalMs ≤ k * config.sampleInterval ∧
    (k - 1) * config.sampleInterval < responseInterval intervalMs ∧
    ∃ sent : List (SystemMetrics × ℕ),
      (streamSystemMetrics host (create pid config) intervalMs).messages =
        sent.map (fun response => .systemMetrics response.1) ∧
      (sent.map .ok).Sublist (host.latest :: host.waits) ∧
      (∀ response ∈ sent,
        (h.run schedule.flatten).samples[response.2 - 1]? = some (.ok response.1)) ∧
      (sent.map Prod.snd).Pairwise (· < ·) ∧
      (sent.map Prod.snd).IsChain (fun a b => a + k ≤ b) ∧
      (∀ pair ∈ subtractions k host.writer host.waits h.sampler.generation 1,
        pair.1 ≤ pair.2) ∧
      (ObservesAll h.sampler.generation host.waits →
        (sent.map Prod.snd).IsChain (fun a b => b = a + k)) := by
  intro h host' k
  obtain ⟨hlow, hhigh⟩ := AgentConfig.sampleInterval_of_load hload
  obtain ⟨hceil, hfloor⟩ : responseInterval intervalMs ≤ k * config.sampleInterval ∧
      k * config.sampleInterval < responseInterval intervalMs + config.sampleInterval :=
    samplesPerResponse_bounds (by omega)
  have hrange : 1000 ≤ responseInterval intervalMs ∧ responseInterval intervalMs ≤ 60000 := by
    unfold responseInterval kDefaultStreamIntervalMs
    split <;> omega
  have hk : 1 ≤ k := by
    by_contra hzero
    rw [show k = 0 by omega, Nat.zero_mul] at hceil
    omega
  have hword : k < wordSize := by
    have hle : k ≤ k * config.sampleInterval := Nat.le_mul_of_pos_right k (by omega)
    unfold wordSize
    omega
  refine ⟨by omega, hk, hceil, ?_, ?_⟩
  · rw [Nat.sub_mul, Nat.one_mul]
    omega
  have htracked : h.Tracked := (History.tracked_start _ boot first).run before
  -- The generation the loop starts from is the one `GetLatest` answers with.
  have hspec (metrics : SystemMetrics) := metricsLoop_spec hk host'.writer host'.waits le_rfl
    (htracked.waits_ascending h.sampler.generation schedule) [metrics]
  have hpairs : ∀ pair ∈ subtractions k host'.writer host'.waits h.sampler.generation 1,
      pair.1 ≤ pair.2 := by
    obtain ⟨loop, -, -, -, hpairs, -⟩ := hspec h.sampler.latestMetrics
    exact hpairs
  rw [streamSystemMetrics_messages host' _ hrange]
  cases hlatest : host'.latest with
  | error error => exact ⟨[], by simpa using hpairs⟩
  | ok latest =>
    obtain ⟨metrics, generation⟩ := latest
    obtain ⟨rfl, hsample⟩ := htracked.getLatest_result hlatest
    obtain ⟨loop, hloop, hsublist, hchain, -, hexact⟩ := hspec metrics
    simp only
    cases host'.writer 0 with
    | false => exact ⟨[], by simpa using hpairs⟩
    | true =>
      refine ⟨(metrics, h.sampler.generation) :: loop, ?_, ?_, ?_, ?_, hchain, hpairs, ?_⟩
      · change List.map _ (metricsLoop k host'.writer host'.waits h.sampler.generation [metrics]).1
          = _
        rw [hloop]
        simp
      · exact hsublist.cons_cons _
      · intro response hresponse
        obtain rfl | hlater := List.mem_cons.mp hresponse
        · exact getElem?_of_prefix (h.samples_run _) hsample
        · exact htracked.waits_samples _ schedule response
            (hsublist.subset (List.mem_map_of_mem hlater))
      · rw [← List.isChain_iff_pairwise]
        exact hchain.imp (fun a b hab => by omega)
      · intro hall
        exact hexact hall (by omega) hword

def steady : SystemProc where
  stat := some (ascii "cpu 40 0 10 50 0 0 0 0 0 0\n")
  meminfo := some (ascii "MemTotal: 2048 kB\nMemAvailable: 1024 kB\n")
  loadavg := some (ascii "0.50 0.50 0.50 1/99 7\n")
  uptime := some (ascii "0.50 0.50\n")
  scanDouble s := (scanWord s).bind fun (word, rest) =>
    if word = ascii "0.50" then some (0x3FE0000000000000, rest) else none
  percentage _ _ := 0

theorem streamSystemMetrics_paced_steady :
    let h := History.start 400 steady steady
    let host := onSampler .quiet h (List.replicate 7 [.sample steady])
    let answer := streamSystemMetrics host (create 7 { AgentConfig.default with
      sampleInterval := 400 }) 1000
    answer.messages.length = 3 ∧
    ∃ sent : List (SystemMetrics × ℕ),
      answer.messages = sent.map (fun response => .systemMetrics response.1) ∧
      (sent.map Prod.snd).IsChain (fun a b => b = a + 3) := by
  intro h host answer
  have hpaced := streamSystemMetrics_paced (ascii "agent.conf")
    (some (ascii "sample_interval_ms=400\n")) { AgentConfig.default with sampleInterval := 400 }
    (by decide +kernel) 7 .quiet steady steady [] (List.replicate 7 [.sample steady]) 1000
    (.inr (by decide))
  obtain ⟨-, -, -, -, sent, hmessages, -, -, -, -, -, hexact⟩ := hpaced
  exact ⟨by decide +kernel, sent, hmessages, hexact (by decide +kernel)⟩

end Sampling
end EdgeScope
