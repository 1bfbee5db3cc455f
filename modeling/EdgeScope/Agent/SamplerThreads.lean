import EdgeScope.Agent.MetricsSampler
import EdgeScope.Runs.MonitorRest
import EdgeScope.Runs.Ranking

/-!
# The threads of `MetricsSampler`

`mutex_` and `condition_` as the threads use them: the one that samples, those of the readers, and
the one that runs the destructor. The members are read and written one after the other under the
lock, a wait releases it, and `notify_all` is called without it.
-/

namespace EdgeScope
open Text Runs

/-- What a thread has got out of a section: what the arguments of a reader hold so far, the value
of `wait_for`, or nothing. -/
inductive SamplerResult
  | reading (call : Sampling.Call) (reading : Reading)
  | waited (stopping : Bool)
  | published
  | stopped

abbrev SamplerStep := MetricsSampler × SamplerResult → MetricsSampler × SamplerResult

namespace MetricsSampler
open Sampling

def write (f : MetricsSampler → MetricsSampler) : SamplerStep := fun data => (f data.1, data.2)

def read (f : MetricsSampler → Reading → Reading) : SamplerStep
  | (s, .reading call reading) => (s, .reading call (f s reading))
  | data => data

def unread : Reading := ⟨false, 0, none, []⟩

def readGeneration : SamplerStep :=
  read fun s reading => { reading with generation := s.generation }

def getLatestSection : Section MetricsSampler SamplerResult where
  ready _ := true
  timed := false
  body := [
    readGeneration,
    read fun s reading => { reading with error := s.latestError },
    read fun s reading =>
      if s.hasSnapshot = false ∨ s.latestError ≠ [] then reading
      else { reading with metrics := some s.latestMetrics, returned := true }]
  notifies := false

/-- A sampler that is stopping leaves the last two members alone. -/
def waitForNextSection (previousGeneration : ℕ) : Section MetricsSampler SamplerResult where
  ready := wakes previousGeneration
  timed := false
  body := [
    readGeneration,
    read fun s reading =>
      { reading with
        error := if s.stopping then ascii "metrics sampler is stopping" else s.latestError },
    read fun s reading =>
      if s.stopping ∨ s.hasSnapshot = false ∨ s.latestError ≠ [] then reading
      else { reading with metrics := some s.latestMetrics, returned := true }]
  notifies := false

def callSection : Call → Section MetricsSampler SamplerResult
  | .getLatest => getLatestSection
  | .waitForNext previousGeneration => waitForNextSection previousGeneration

def publishSection (collected : Except Bytes SystemMetrics) :
    Section MetricsSampler SamplerResult where
  ready _ := true
  timed := false
  body := write (fun s => { s with generation := s.generation + 1 }) ::
    match collected with
    | .ok metrics => [
        write fun s => { s with latestMetrics := metrics },
        write fun s => { s with latestError := [] },
        write fun s => { s with hasSnapshot := true }]
    | .error error => [write fun s => { s with latestError := error }]
  notifies := true

def waitSection : Section MetricsSampler SamplerResult where
  ready s := s.stopping
  timed := true
  body := [fun data => (data.1, .waited data.1.stopping)]
  notifies := false

def stopSection : Section MetricsSampler SamplerResult where
  ready _ := true
  timed := false
  body := [write stop]
  notifies := true

def answer (s : MetricsSampler) : Call → Reading
  | .getLatest => s.getLatest
  | .waitForNext _ => s.waitForNext

theorem atomic_callSection (s : MetricsSampler) (call : Call) :
    (callSection call).atomic (s, .reading call unread) = (s, .reading call (s.answer call)) := by
  cases call with
  | getLatest =>
    simp only [callSection, getLatestSection, Section.atomic, finish, List.foldl_cons,
      List.foldl_nil, readGeneration, read, answer, getLatest]
    split <;> rfl
  | waitForNext previousGeneration =>
    simp only [callSection, waitForNextSection, Section.atomic, finish, List.foldl_cons,
      List.foldl_nil, readGeneration, read, answer, waitForNext]
    cases s.stopping with
    | true => simp [unread]
    | false =>
      simp only [Bool.false_eq_true, false_or, if_false]
      split <;> rfl

theorem atomic_publishSection (s : MetricsSampler) (collected : Except Bytes SystemMetrics)
    (result : SamplerResult) :
    (publishSection collected).atomic (s, result) = (s.publish collected, result) := by
  cases collected <;> rfl

end MetricsSampler

/-- The thread that samples is the first one. It alone uses the collector. -/
structure SamplerThreads where
  collector : SystemCollector
  monitor : Monitor MetricsSampler SamplerResult
  /-- The thread of the destructor, once that has been entered. -/
  destructor : Option ℕ
  joined : Bool

namespace SamplerThreads
open MetricsSampler Sampling

/-- The constructor has taken a sample, and started the thread. -/
def start (sampleInterval : ℕ) (boot first : SystemProc) : SamplerThreads where
  collector := (MetricsSampler.create sampleInterval boot first).collector
  monitor :=
    Monitor.enter ⟨.create sampleInterval boot first, none, []⟩ waitSection (.waited false)
  destructor := none
  joined := false

def worker (t : SamplerThreads) : Option (Phase MetricsSampler SamplerResult) :=
  t.monitor.threads[0]?

/-- A step under the lock or in a wait, a call that is made, the destructor that is entered, what
the sampling thread does between its sections, and the `join` that has returned. -/
inductive Act
  | inside (move : Move)
  | call (call : Call)
  | destroy
  | collect (proc : SystemProc)
  | loop
  | join

def step (act : Act) (t : SamplerThreads) : Option SamplerThreads :=
  match act with
  | .inside move => (t.monitor.step move).map fun monitor => { t with monitor := monitor }
  | .call call =>
    if t.joined then none
    else some { t with monitor := t.monitor.enter (callSection call) (.reading call unread) }
  | .destroy =>
    match t.destructor with
    | some _ => none
    | none =>
      some { t with
        destructor := some t.monitor.threads.length
        monitor := t.monitor.enter stopSection .stopped }
  | .collect proc =>
    match t.worker with
    | some (.returned (.waited false)) =>
      let (collected, collector) := t.collector.collect proc
      some { t with
        collector := collector
        monitor := t.monitor.again 0 (publishSection collected) .published }
    | _ => none
  | .loop =>
    match t.worker with
    | some (.returned .published) =>
      some { t with monitor := t.monitor.again 0 waitSection (.waited false) }
    | _ => none
  | .join =>
    match t.destructor.bind (t.monitor.threads[·]?), t.worker with
    | some (.returned .stopped), some (.returned (.waited true)) =>
      if t.joined then none else some { t with joined := true }
    | _, _ => none

inductive Steps (t : SamplerThreads) : Act → SamplerThreads → Prop
  | inside {move : Move} {monitor : Monitor MetricsSampler SamplerResult}
      (h : Monitor.Steps t.monitor move monitor) :
      Steps t (.inside move) { t with monitor := monitor }
  | call (call : Call) (hjoined : t.joined = false) :
      Steps t (.call call)
        { t with monitor := t.monitor.enter (callSection call) (.reading call unread) }
  | destroy (hnone : t.destructor = none) :
      Steps t .destroy { t with
        destructor := some t.monitor.threads.length
        monitor := t.monitor.enter stopSection .stopped }
  | collect (proc : SystemProc) (hworker : t.worker = some (.returned (.waited false))) :
      Steps t (.collect proc) { t with
        collector := (t.collector.collect proc).2
        monitor := t.monitor.again 0 (publishSection (t.collector.collect proc).1) .published }
  | loop (hworker : t.worker = some (.returned .published)) :
      Steps t .loop { t with monitor := t.monitor.again 0 waitSection (.waited false) }
  | join (hjoined : t.joined = false)
      (hdestructor : t.destructor.bind (t.monitor.threads[·]?) = some (.returned .stopped))
      (hworker : t.worker = some (.returned (.waited true))) :
      Steps t .join { t with joined := true }

theorem steps_of_step {act : Act} {t t' : SamplerThreads} (h : step act t = some t') :
    Steps t act t' := by
  cases act with
  | inside move =>
    obtain ⟨m, hm, rfl⟩ := Option.map_eq_some_iff.mp h
    exact .inside (Monitor.step_eq_some_iff.mp hm)
  | call call =>
    simp only [step] at h
    split_ifs at h with hjoined
    cases h
    exact .call call (Bool.eq_false_of_not_eq_true hjoined)
  | destroy =>
    simp only [step] at h
    split at h
    · cases h
    · cases h
      exact .destroy ‹_›
  | collect proc =>
    simp only [step] at h
    split at h
    · cases h
      exact .collect proc ‹_›
    · cases h
  | loop =>
    simp only [step] at h
    split at h
    · cases h
      exact .loop ‹_›
    · cases h
  | join =>
    simp only [step] at h
    split at h
    · split_ifs at h with hjoined
      cases h
      exact .join (Bool.eq_false_of_not_eq_true hjoined) ‹_› ‹_›
    · cases h

/-- What goes on without a new call and without a wait that ends by itself. -/
def Act.concludes : Act → Bool
  | .inside move => !move.isWake
  | .call _ | .destroy => false
  | .collect _ | .loop | .join => true

end SamplerThreads
end EdgeScope
