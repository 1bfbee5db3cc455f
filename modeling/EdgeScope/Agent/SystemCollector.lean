import EdgeScope.Agent.Host
import EdgeScope.Text.Scan

/-!
# `SystemCollector`

One sample of the system is read from four files under `/proc`. The usage of the processor is
the difference to the times read for the sample before, which the collector keeps even when
one of the later files cannot be read.
-/

namespace EdgeScope
open Text

structure SystemMetrics where
  cpuUsagePercent : Double
  memoryTotalBytes : ℕ
  memoryAvailableBytes : ℕ
  memoryUsedBytes : ℕ
  loadAverage1m : Double
  loadAverage5m : Double
  loadAverage15m : Double
  uptimeSeconds : ℕ
  deriving DecidableEq

structure CpuTimes where
  user : ℕ
  nice : ℕ
  system : ℕ
  idle : ℕ
  iowait : ℕ
  irq : ℕ
  softirq : ℕ
  steal : ℕ
  deriving DecidableEq

/-- What the collector reads: the files, `none` where one cannot be opened, the extraction of a
`double`, and the percentage one integer is of another. -/
structure SystemProc where
  stat : Option Bytes
  meminfo : Option Bytes
  loadavg : Option Bytes
  uptime : Option Bytes
  scanDouble : Bytes → Option (Double × Bytes)
  percentage : ℕ → ℕ → Double

structure SystemCollector where
  previousCpuTimes : Option CpuTimes
  deriving DecidableEq

namespace SystemCollector

def isfinite (x : Double) : Bool := x.toNat / 2 ^ 52 % 2 ^ 11 ≠ 2047

/-- `x < 0.0`, for a finite number. The bits of `-0.0` are those of the sign alone. -/
def isNegative (x : Double) : Bool := 2 ^ 63 < x.toNat

/-- `x > 2^64`, for a finite number; the bits of non-negative numbers are ordered as they are. -/
def exceedsUInt64 (x : Double) : Bool := x.toNat < 2 ^ 63 && 0x43F0000000000000 < x.toNat

/-- The integral part of a number that is not negative. -/
def truncate (x : Double) : ℕ :=
  let exponent := x.toNat / 2 ^ 52 % 2 ^ 11
  let significand := x.toNat % 2 ^ 52 + if exponent = 0 then 0 else 2 ^ 52
  if 1075 ≤ exponent then significand * 2 ^ (exponent - 1075)
  else significand / 2 ^ (1075 - exponent)

/-- The conversion to `std::uint64_t`. Of the numbers that pass the guard only `2 ^ 64` does not
fit; what becomes of it is not defined by the language, and 0 on the usual processors. -/
def toUInt64 (x : Double) : ℕ := truncate x % wordSize

-- 12345.67
example : toUInt64 0x40C81CD5C28F5C29 = 12345 := by decide

/-- The sums are those of `std::uint64_t`. -/
def total (t : CpuTimes) : ℕ :=
  (t.user + t.nice + t.system + t.idle + t.iowait + t.irq + t.softirq + t.steal) % wordSize

def idle (t : CpuTimes) : ℕ := (t.idle + t.iowait) % wordSize

def scanCpuTimes (line : Bytes) : Option (Bytes × CpuTimes) := do
  let (label, rest) ← scanWord line
  let (user, rest) ← scanUInt64 rest
  let (nice, rest) ← scanUInt64 rest
  let (system, rest) ← scanUInt64 rest
  let (idle, rest) ← scanUInt64 rest
  let (iowait, rest) ← scanUInt64 rest
  let (irq, rest) ← scanUInt64 rest
  let (softirq, rest) ← scanUInt64 rest
  let (steal, _) ← scanUInt64 rest
  some (label, ⟨user, nice, system, idle, iowait, irq, softirq, steal⟩)

def readCpuTimes (proc : SystemProc) : Option CpuTimes := do
  let contents ← proc.stat
  let line ← (getlines newline contents).head?
  let (label, times) ← scanCpuTimes line
  if label = ascii "cpu" then some times else none

def create (proc : SystemProc) : SystemCollector := ⟨readCpuTimes proc⟩

def usagePercent (proc : SystemProc) (previous : Option CpuTimes) (current : CpuTimes) : Double :=
  match previous with
  | none => 0
  | some previous =>
    if total previous ≤ total current ∧ idle previous ≤ idle current then
      let totalDelta := total current - total previous
      let idleDelta := idle current - idle previous
      if totalDelta ≠ 0 ∧ idleDelta ≤ totalDelta then
        proc.percentage (totalDelta - idleDelta) totalDelta
      else 0
    else 0

def collectCpuUsage (proc : SystemProc) (c : SystemCollector) : Except Bytes (Double × CpuTimes) :=
  match readCpuTimes proc with
  | none => .error (ascii "failed to parse /proc/stat")
  | some current => .ok (usagePercent proc c.previousCpuTimes current, current)

def kBytesPerKilobyte : ℕ := 1024

def maxKb : ℕ := (wordSize - 1) / kBytesPerKilobyte

structure MemoryScan where
  total : Option ℕ
  available : Option ℕ

def scanMemoryLine (line : Bytes) : Option (Bytes × ℕ × Bytes) := do
  let (key, rest) ← scanWord line
  let (value, rest) ← scanUInt64 rest
  let (unit, _) ← scanWord rest
  some (key, value, unit)

def readMemoryLine (found : MemoryScan) (line : Bytes) : MemoryScan :=
  match scanMemoryLine line with
  | none => found
  | some (key, value, unit) =>
    if unit ≠ ascii "kB" then found
    else if key = ascii "MemTotal:" then { found with total := some value }
    else if key = ascii "MemAvailable:" then { found with available := some value }
    else found

def readMemoryMetrics (proc : SystemProc) : Except Bytes (ℕ × ℕ) :=
  match proc.meminfo with
  | none => .error (ascii "failed to open /proc/meminfo")
  | some contents =>
    match (getlines newline contents).foldl readMemoryLine ⟨none, none⟩ with
    | ⟨some totalKb, some availableKb⟩ =>
      if maxKb < totalKb ∨ totalKb < availableKb then
        .error (ascii "invalid memory values in /proc/meminfo")
      else .ok (totalKb * kBytesPerKilobyte, availableKb * kBytesPerKilobyte)
    | _ => .error (ascii "invalid memory values in /proc/meminfo")

def scanLoadAverages (proc : SystemProc) : Option (Double × Double × Double) := do
  let contents ← proc.loadavg
  let (one, rest) ← proc.scanDouble contents
  let (five, rest) ← proc.scanDouble rest
  let (fifteen, _) ← proc.scanDouble rest
  some (one, five, fifteen)

def readLoadAverage (proc : SystemProc) : Except Bytes (Double × Double × Double) :=
  match scanLoadAverages proc with
  | none => .error (ascii "failed to parse /proc/loadavg")
  | some (one, five, fifteen) =>
    if isfinite one ∧ isfinite five ∧ isfinite fifteen ∧
        ¬ isNegative one ∧ ¬ isNegative five ∧ ¬ isNegative fifteen then .ok (one, five, fifteen)
    else .error (ascii "failed to parse /proc/loadavg")

def readUptime (proc : SystemProc) : Except Bytes ℕ :=
  match proc.uptime.bind proc.scanDouble with
  | none => .error (ascii "failed to parse /proc/uptime")
  | some (uptime, _) =>
    if isfinite uptime ∧ ¬ isNegative uptime ∧ ¬ exceedsUInt64 uptime then .ok (toUInt64 uptime)
    else .error (ascii "failed to parse /proc/uptime")

/-- One sample, and the collector with the processor times it has read. -/
def collect (proc : SystemProc) (c : SystemCollector) :
    Except Bytes SystemMetrics × SystemCollector :=
  match collectCpuUsage proc c with
  | .error error => (.error error, c)
  | .ok (usage, current) =>
    (do
      let (totalBytes, availableBytes) ← readMemoryMetrics proc
      let (one, five, fifteen) ← readLoadAverage proc
      let uptime ← readUptime proc
      .ok ⟨usage, totalBytes, availableBytes, totalBytes - availableBytes, one, five, fifteen,
        uptime⟩, ⟨some current⟩)

theorem readMemoryMetrics_error {proc : SystemProc} {error : Bytes}
    (h : readMemoryMetrics proc = .error error) : error ≠ [] := by
  unfold readMemoryMetrics at h
  split at h
  · cases h
    decide
  · split at h
    · split_ifs at h
      cases h
      decide
    · cases h
      decide

theorem readLoadAverage_error {proc : SystemProc} {error : Bytes}
    (h : readLoadAverage proc = .error error) : error ≠ [] := by
  unfold readLoadAverage at h
  split at h
  · cases h
    decide
  · split_ifs at h
    cases h
    decide

theorem readUptime_error {proc : SystemProc} {error : Bytes}
    (h : readUptime proc = .error error) : error ≠ [] := by
  unfold readUptime at h
  split at h
  · cases h
    decide
  · split_ifs at h
    cases h
    decide

/-- Every way for a sample to fail says why. -/
theorem collect_error {proc : SystemProc} {c : SystemCollector} {error : Bytes}
    (h : (collect proc c).1 = .error error) : error ≠ [] := by
  unfold collect collectCpuUsage at h
  cases hcpu : readCpuTimes proc with
  | none =>
    simp only [hcpu, Except.error.injEq] at h
    rw [← h]
    decide
  | some current =>
    simp only [hcpu] at h
    cases hmemory : readMemoryMetrics proc with
    | error e =>
      rw [hmemory] at h
      cases h
      exact readMemoryMetrics_error hmemory
    | ok memory =>
      rw [hmemory] at h
      cases hload : readLoadAverage proc with
      | error e =>
        rw [hload] at h
        cases h
        exact readLoadAverage_error hload
      | ok load =>
        rw [hload] at h
        cases huptime : readUptime proc with
        | error e =>
          rw [huptime] at h
          cases h
          exact readUptime_error huptime
        | ok uptime =>
          rw [huptime] at h
          cases h

end SystemCollector
end EdgeScope
