import EdgeScope.Agent.CpuUsage
import EdgeScope.Numbers.Binary64
import EdgeScope.Text.Extraction

/-!
# One sample of the system

A sample is taken where all four files can be read, and then its numbers are those of the files.
Of `meminfo` two lines matter, the last of each, wherever they stand.
-/

namespace EdgeScope.SystemCollector
open Text Runs

def ShowsTimes (proc : SystemProc) (t : CpuTimes) : Prop :=
  ∃ contents fields rest, proc.stat = some contents ∧
    BeginsWithWord (ascii "cpu") fields (contents.takeWhile (· ≠ newline)) ∧
    BeginsWithNumbers [t.user, t.nice, t.system, t.idle, t.iowait, t.irq, t.softirq, t.steal] rest
      fields

/-- The times of the last file that shows any. -/
def LastTimes (reads : List SystemProc) : Option CpuTimes → Prop
  | none => ∀ proc ∈ reads, ∀ t, ¬ ShowsTimes proc t
  | some t => ∃ front proc back, reads = front ++ proc :: back ∧ ShowsTimes proc t ∧
      ∀ later ∈ back, ∀ t', ¬ ShowsTimes later t'

theorem scanCpuTimes_eq_some_iff (line label : Bytes) (t : CpuTimes) :
    scanCpuTimes line = some (label, t) ↔ ∃ fields rest, BeginsWithWord label fields line ∧
      BeginsWithNumbers [t.user, t.nice, t.system, t.idle, t.iowait, t.irq, t.softirq, t.steal]
        rest fields := by
  simp only [scanCpuTimes, Option.bind_eq_bind, Option.bind_eq_some_iff, Prod.exists,
    scanWord_eq_some_iff, scanUInt64_eq_some_iff, BeginsWithNumbers, Option.some.injEq,
    Prod.mk.injEq]
  constructor
  · rintro ⟨_, fields, hlabel, _, _, huser, _, _, hnice, _, _, hsystem, _, _, hidle, _, _, hiowait,
      _, _, hirq, _, _, hsoftirq, _, rest, hsteal, rfl, rfl⟩
    exact ⟨fields, rest, hlabel, _, huser, _, hnice, _, hsystem, _, hidle, _, hiowait, _, hirq, _,
      hsoftirq, _, hsteal, rfl⟩
  · rintro ⟨fields, rest, hlabel, _, huser, _, hnice, _, hsystem, _, hidle, _, hiowait, _, hirq, _,
      hsoftirq, _, hsteal, rfl⟩
    exact ⟨_, fields, hlabel, _, _, huser, _, _, hnice, _, _, hsystem, _, _, hidle, _, _, hiowait,
      _, _, hirq, _, _, hsoftirq, _, _, hsteal, rfl, rfl⟩

theorem head?_getlines (contents : Bytes) (hne : contents ≠ []) :
    (getlines newline contents).head? = some (contents.takeWhile (· ≠ newline)) := by
  rw [getlines_eq_cons hne, List.head?_cons]

theorem readCpuTimes_eq_some_iff (proc : SystemProc) (t : CpuTimes) :
    readCpuTimes proc = some t ↔ ShowsTimes proc t := by
  unfold readCpuTimes ShowsTimes
  cases proc.stat with
  | none => simp
  | some contents =>
    have hnonempty {fields : Bytes}
        (h : BeginsWithWord (ascii "cpu") fields (contents.takeWhile (· ≠ newline))) :
        contents ≠ [] := by
      rintro rfl
      obtain ⟨blank, htext, -, -, -⟩ := h
      simp [ascii] at htext
    simp only [Option.bind_eq_bind, Option.bind_some, Option.some.injEq, exists_and_left,
      exists_eq_left']
    constructor
    · intro h
      obtain ⟨line, hline, h⟩ := Option.bind_eq_some_iff.mp h
      obtain ⟨⟨label, times⟩, htimes, h⟩ := Option.bind_eq_some_iff.mp h
      have hne : contents ≠ [] := by
        rintro rfl
        simp [getlines] at hline
      rw [head?_getlines contents hne, Option.some.injEq] at hline
      simp only [Option.ite_none_right_eq_some, Option.some.injEq] at h
      obtain ⟨rfl, rfl⟩ := h
      subst hline
      obtain ⟨fields, rest, hword, hnumbers⟩ := (scanCpuTimes_eq_some_iff _ _ _).mp htimes
      exact ⟨fields, hword, rest, hnumbers⟩
    · rintro ⟨fields, hword, rest, hnumbers⟩
      rw [head?_getlines contents (hnonempty hword), Option.bind_some,
        (scanCpuTimes_eq_some_iff _ _ _).mpr ⟨fields, rest, hword, hnumbers⟩, Option.bind_some]
      exact if_pos rfl

theorem lastTimes_iff (reads : List SystemProc) (baseline : Option CpuTimes) :
    LastTimes reads baseline ↔ lastWrite readCpuTimes reads = baseline := by
  have hnone (proc : SystemProc) :
      readCpuTimes proc = none ↔ ∀ t, ¬ ShowsTimes proc t := by
    simp only [← readCpuTimes_eq_some_iff, Option.eq_none_iff_forall_ne_some, ne_eq]
  cases baseline with
  | none => simp only [LastTimes, lastWrite_eq_none_iff, hnone]
  | some t => simp only [LastTimes, lastWrite_eq_some_iff, hnone, readCpuTimes_eq_some_iff]

/-- The share of the time since the baseline in which the processor was not idle, where that time
is there and holds the idle one. -/
def usageSince (percentage : ℕ → ℕ → Double) (baseline : Option CpuTimes) (current : CpuTimes) :
    Double :=
  match baseline with
  | none => 0
  | some previous =>
    let elapsed : ℤ := total current - total previous
    let unused : ℤ := idle current - idle previous
    if 0 < elapsed ∧ 0 ≤ unused ∧ unused ≤ elapsed then
      percentage (elapsed - unused).toNat elapsed.toNat
    else 0

theorem usagePercent_eq_usageSince (proc : SystemProc) (baseline : Option CpuTimes)
    (current : CpuTimes) :
    usagePercent proc baseline current = usageSince proc.percentage baseline current := by
  cases baseline with
  | none => rfl
  | some previous =>
    simp only [usagePercent, usageSince]
    generalize total current = now, total previous = before
    generalize idle current = idleNow, idle previous = idleBefore
    split_ifs
    · congr 1 <;> omega
    all_goals first | rfl | omega

def ShowsKilobytes (key : Bytes) (value : ℕ) (line : Bytes) : Prop :=
  ∃ number unit rest, BeginsWithWord key number line ∧ BeginsWithNumber value unit number ∧
    BeginsWithWord (ascii "kB") rest unit

/-- The last line for the key gives this number. -/
def LastShows (key : Bytes) (value : ℕ) (contents : Bytes) : Prop :=
  ∃ front line back, getlines newline contents = front ++ line :: back ∧
    ShowsKilobytes key value line ∧ ∀ later ∈ back, ∀ value', ¬ ShowsKilobytes key value' later

def figure (key line : Bytes) : Option ℕ :=
  match scanMemoryLine line with
  | some (name, value, unit) => if unit = ascii "kB" ∧ name = key then some value else none
  | none => none

theorem figure_eq_some_iff (key line : Bytes) (value : ℕ) :
    figure key line = some value ↔ ShowsKilobytes key value line := by
  have hscan (name unit : Bytes) (number : ℕ) :
      scanMemoryLine line = some (name, number, unit) ↔ ∃ text word rest,
        BeginsWithWord name text line ∧ BeginsWithNumber number word text ∧
          BeginsWithWord unit rest word := by
    simp only [scanMemoryLine, Option.bind_eq_bind, Option.bind_eq_some_iff, Prod.exists,
      scanWord_eq_some_iff, scanUInt64_eq_some_iff, Option.some.injEq, Prod.mk.injEq]
    constructor
    · rintro ⟨_, text, hname, _, word, hnumber, _, rest, hunit, rfl, rfl, rfl⟩
      exact ⟨text, word, rest, hname, hnumber, hunit⟩
    · rintro ⟨text, word, rest, hname, hnumber, hunit⟩
      exact ⟨_, text, hname, _, word, hnumber, _, rest, hunit, rfl, rfl, rfl⟩
  rw [ShowsKilobytes, ← hscan, figure]
  cases scanMemoryLine line with
  | none => simp
  | some entry =>
    obtain ⟨name, number, unit⟩ := entry
    simp only [Option.ite_none_right_eq_some, Option.some.injEq, Prod.mk.injEq]
    tauto

def lastFigure (key contents : Bytes) : Option ℕ :=
  lastWrite (figure key) (getlines newline contents)

theorem lastFigure_eq_some_iff (key contents : Bytes) (value : ℕ) :
    lastFigure key contents = some value ↔ LastShows key value contents := by
  have hnone (line : Bytes) :
      figure key line = none ↔ ∀ value', ¬ ShowsKilobytes key value' line := by
    simp only [← figure_eq_some_iff, Option.eq_none_iff_forall_ne_some, ne_eq]
  rw [lastFigure, lastWrite_eq_some_iff, LastShows]
  simp only [figure_eq_some_iff, hnone]

theorem readMemoryLine_total (found : MemoryScan) (line : Bytes) :
    (readMemoryLine found line).total =
      ((figure (ascii "MemTotal:") line).map some).getD found.total := by
  unfold readMemoryLine figure
  cases scanMemoryLine line with
  | none => rfl
  | some entry =>
    obtain ⟨name, value, unit⟩ := entry
    by_cases hunit : unit = ascii "kB"
    · by_cases hname : name = ascii "MemTotal:"
      · simp [hunit, hname]
      · simp only [hunit, hname, ne_eq, not_true_eq_false, if_false, and_false, Option.map_none,
          Option.getD_none]
        split_ifs <;> rfl
    · simp [hunit]

theorem readMemoryLine_available (found : MemoryScan) (line : Bytes) :
    (readMemoryLine found line).available =
      ((figure (ascii "MemAvailable:") line).map some).getD found.available := by
  unfold readMemoryLine figure
  cases scanMemoryLine line with
  | none => rfl
  | some entry =>
    obtain ⟨name, value, unit⟩ := entry
    by_cases hunit : unit = ascii "kB"
    · by_cases hname : name = ascii "MemAvailable:"
      · have hother : ascii "MemAvailable:" ≠ ascii "MemTotal:" := by decide
        simp [hunit, hname, hother]
      · simp only [hunit, hname, ne_eq, not_true_eq_false, if_false, and_false, Option.map_none,
          Option.getD_none]
        split_ifs <;> rfl
    · simp [hunit]

theorem foldl_readMemoryLine (contents : Bytes) :
    (getlines newline contents).foldl readMemoryLine ⟨none, none⟩ =
      ⟨lastFigure (ascii "MemTotal:") contents, lastFigure (ascii "MemAvailable:") contents⟩ := by
  have htotal := get_foldl readMemoryLine_total (getlines newline contents) ⟨none, none⟩
  have havailable := get_foldl readMemoryLine_available (getlines newline contents) ⟨none, none⟩
  rw [lastWrite_map_some] at htotal havailable
  generalize (getlines newline contents).foldl readMemoryLine ⟨none, none⟩ = scan at *
  obtain ⟨total, available⟩ := scan
  simp only at htotal havailable
  rw [htotal, havailable, lastFigure, lastFigure]
  cases lastWrite (figure (ascii "MemTotal:")) (getlines newline contents) <;>
    cases lastWrite (figure (ascii "MemAvailable:")) (getlines newline contents) <;> rfl

/-- The kilobytes in all and those available, as the file says last. -/
def MemoryIs (proc : SystemProc) (totalKb availableKb : ℕ) : Prop :=
  ∃ contents, proc.meminfo = some contents ∧
    LastShows (ascii "MemTotal:") totalKb contents ∧
    LastShows (ascii "MemAvailable:") availableKb contents ∧
    availableKb ≤ totalKb ∧ totalKb * 1024 < 2 ^ 64

theorem readMemoryMetrics_eq_ok_iff (proc : SystemProc) (total available : ℕ) :
    readMemoryMetrics proc = .ok (total, available) ↔
      ∃ totalKb availableKb, MemoryIs proc totalKb availableKb ∧
        total = totalKb * 1024 ∧ available = availableKb * 1024 := by
  unfold readMemoryMetrics MemoryIs
  cases proc.meminfo with
  | none => simp
  | some contents =>
    simp only [foldl_readMemoryLine, Option.some.injEq, exists_eq_left', ← lastFigure_eq_some_iff]
    cases lastFigure (ascii "MemTotal:") contents with
    | none => simp
    | some totalKb =>
      cases lastFigure (ascii "MemAvailable:") contents with
      | none => simp
      | some availableKb =>
        have hlimit : maxKb < totalKb ∨ totalKb < availableKb ↔
            ¬ (availableKb ≤ totalKb ∧ totalKb * 1024 < 2 ^ 64) := by
          unfold maxKb wordSize kBytesPerKilobyte
          omega
        simp only [hlimit, ite_not, kBytesPerKilobyte]
        by_cases hfits : availableKb ≤ totalKb ∧ totalKb * 1024 < 2 ^ 64
        · simp only [if_pos hfits, Except.ok.injEq, Prod.mk.injEq, Option.some.injEq]
          constructor
          · rintro ⟨rfl, rfl⟩
            exact ⟨totalKb, availableKb, ⟨rfl, rfl, hfits⟩, rfl, rfl⟩
          · rintro ⟨_, _, ⟨rfl, rfl, -⟩, rfl, rfl⟩
            exact ⟨rfl, rfl⟩
        · simp only [if_neg hfits, reduceCtorEq, Option.some.injEq, false_iff]
          rintro ⟨_, _, ⟨rfl, rfl, h⟩, -, -⟩
          exact hfits h

def valueOf (x : Double) : ℚ := Binary64.value x.toNat

/-- A number that `loadavg` and `uptime` may have. -/
def IsAmount (x : Double) : Prop := Binary64.Finite x.toNat ∧ 0 ≤ valueOf x

theorem isAmount_iff (x : Double) : IsAmount x ↔ isfinite x = true ∧ isNegative x = false := by
  have hfinite : Binary64.Finite x.toNat ↔ isfinite x = true := by
    simp [Binary64.Finite, Binary64.exponent, isfinite]
  rw [IsAmount, hfinite, valueOf, Binary64.nonneg_value_iff x.toNat_lt, isNegative,
    decide_eq_false_iff_not, not_lt]

theorem IsAmount.toNat_le {x : Double} (h : IsAmount x) : x.toNat ≤ 2 ^ 63 :=
  (Binary64.nonneg_value_iff x.toNat_lt).mp h.2

theorem IsAmount.exceedsUInt64_iff {x : Double} (h : IsAmount x) :
    exceedsUInt64 x = false ↔ valueOf x ≤ 2 ^ 64 := by
  rw [valueOf, Binary64.value_eq_magnitude h.toNat_le, exceedsUInt64]
  obtain hlt | heq := h.toNat_le.lt_or_eq
  · rw [Binary64.magnitude_le_iff hlt, decide_eq_true hlt, Bool.true_and, decide_eq_false_iff_not,
      not_lt]
  · have hzero : Binary64.magnitude (2 ^ 63) = 0 :=
      (Binary64.magnitude_eq_zero_iff _).mpr (by decide)
    rw [heq, hzero]
    norm_num

theorem IsAmount.toUInt64_eq {x : Double} (h : IsAmount x) (hlt : valueOf x < 2 ^ 64) :
    toUInt64 x = ⌊valueOf x⌋₊ := by
  have htruncate : truncate x = ⌊valueOf x⌋₊ := by
    rw [valueOf, Binary64.value_eq_magnitude h.toNat_le, Binary64.floor_magnitude]
    rfl
  have hfits : ⌊valueOf x⌋₊ < 2 ^ 64 := (Nat.floor_lt h.2).mpr (by exact_mod_cast hlt)
  rw [toUInt64, htruncate, wordSize, Nat.mod_eq_of_lt hfits]

def LoadIs (proc : SystemProc) (one five fifteen : Double) : Prop :=
  ∃ contents rest₁ rest₂ rest₃, proc.loadavg = some contents ∧
    proc.scanDouble contents = some (one, rest₁) ∧ proc.scanDouble rest₁ = some (five, rest₂) ∧
    proc.scanDouble rest₂ = some (fifteen, rest₃)

theorem readLoadAverage_eq_ok_iff (proc : SystemProc) (one five fifteen : Double) :
    readLoadAverage proc = .ok (one, five, fifteen) ↔
      LoadIs proc one five fifteen ∧ IsAmount one ∧ IsAmount five ∧ IsAmount fifteen := by
  have hscan : scanLoadAverages proc = some (one, five, fifteen) ↔
      LoadIs proc one five fifteen := by
    simp only [scanLoadAverages, LoadIs, Option.bind_eq_bind, Option.bind_eq_some_iff, Prod.exists,
      Option.some.injEq, Prod.mk.injEq]
    constructor
    · rintro ⟨contents, hopen, _, rest₁, hone, _, rest₂, hfive, _, rest₃, hfifteen, rfl, rfl, rfl⟩
      exact ⟨contents, rest₁, rest₂, rest₃, hopen, hone, hfive, hfifteen⟩
    · rintro ⟨contents, rest₁, rest₂, rest₃, hopen, hone, hfive, hfifteen⟩
      exact ⟨contents, hopen, _, rest₁, hone, _, rest₂, hfive, _, rest₃, hfifteen, rfl, rfl, rfl⟩
  rw [← hscan, isAmount_iff, isAmount_iff, isAmount_iff]
  unfold readLoadAverage
  cases scanLoadAverages proc with
  | none => simp
  | some loads =>
    obtain ⟨one', five', fifteen'⟩ := loads
    simp only [Option.some.injEq, Prod.mk.injEq, Bool.not_eq_true]
    split_ifs with hloads
    · simp only [Except.ok.injEq, Prod.mk.injEq]
      constructor
      · rintro ⟨rfl, rfl, rfl⟩
        exact ⟨⟨rfl, rfl, rfl⟩, by tauto⟩
      · rintro ⟨h, -⟩
        exact h
    · simp only [false_iff]
      rintro ⟨⟨rfl, rfl, rfl⟩, h⟩
      exact hloads (by tauto)

def UptimeIs (proc : SystemProc) (uptime : Double) : Prop :=
  ∃ contents rest, proc.uptime = some contents ∧ proc.scanDouble contents = some (uptime, rest)

theorem readUptime_eq_ok_iff {proc : SystemProc}
    (hrange : ∀ uptime, UptimeIs proc uptime → valueOf uptime ≠ 2 ^ 64) (seconds : ℕ) :
    readUptime proc = .ok seconds ↔ ∃ uptime, UptimeIs proc uptime ∧ IsAmount uptime ∧
      valueOf uptime < 2 ^ 64 ∧ seconds = ⌊valueOf uptime⌋₊ := by
  have hscan (uptime : Double) : UptimeIs proc uptime ↔
      ∃ rest, proc.uptime.bind proc.scanDouble = some (uptime, rest) := by
    simp only [UptimeIs, Option.bind_eq_some_iff, exists_and_left]
    tauto
  simp only [hscan] at hrange ⊢
  unfold readUptime
  generalize proc.uptime.bind proc.scanDouble = scanned at hrange ⊢
  cases scanned with
  | none => simp
  | some read =>
    obtain ⟨uptime, rest⟩ := read
    simp only [Option.some.injEq, Prod.mk.injEq, exists_and_left, exists_eq', and_true,
      forall_eq', exists_eq_left', Bool.not_eq_true] at hrange ⊢
    split_ifs with huptime
    · have hamount := (isAmount_iff uptime).mpr ⟨huptime.1, huptime.2.1⟩
      have hlt := (hamount.exceedsUInt64_iff.mp huptime.2.2).lt_of_ne hrange
      rw [Except.ok.injEq, hamount.toUInt64_eq hlt]
      exact ⟨fun h => ⟨hamount, hlt, h.symm⟩, fun h => h.2.2.symm⟩
    · simp only [false_iff]
      rintro ⟨hamount, hlt, -⟩
      obtain ⟨hfinite, hnegative⟩ := (isAmount_iff uptime).mp hamount
      exact huptime ⟨hfinite, hnegative, hamount.exceedsUInt64_iff.mpr hlt.le⟩

/-- The sample has the numbers of the four files, its usage being that since `baseline`. -/
structure Samples (proc : SystemProc) (baseline : Option CpuTimes) (m : SystemMetrics) : Prop where
  usage : ∃ current, ShowsTimes proc current ∧
    m.cpuUsagePercent = usageSince proc.percentage baseline current
  memory : ∃ totalKb availableKb, MemoryIs proc totalKb availableKb ∧
    m.memoryTotalBytes = totalKb * 1024 ∧ m.memoryAvailableBytes = availableKb * 1024 ∧
    m.memoryUsedBytes = (totalKb - availableKb) * 1024
  load : LoadIs proc m.loadAverage1m m.loadAverage5m m.loadAverage15m ∧
    IsAmount m.loadAverage1m ∧ IsAmount m.loadAverage5m ∧ IsAmount m.loadAverage15m
  uptime : ∃ uptime, UptimeIs proc uptime ∧ IsAmount uptime ∧ valueOf uptime < 2 ^ 64 ∧
    m.uptimeSeconds = ⌊valueOf uptime⌋₊

theorem Samples.adds {proc : SystemProc} {baseline : Option CpuTimes} {m : SystemMetrics}
    (h : Samples proc baseline m) :
    m.memoryUsedBytes + m.memoryAvailableBytes = m.memoryTotalBytes ∧
      m.memoryTotalBytes < 2 ^ 64 := by
  obtain ⟨totalKb, availableKb, ⟨-, -, -, -, hle, hfits⟩, htotal, havailable, hused⟩ := h.memory
  omega

/-- The checks in their order, all of which must succeed. -/
theorem collect_eq_ok_iff (proc : SystemProc) (c : SystemCollector) (m : SystemMetrics) :
    (collect proc c).1 = .ok m ↔
      ∃ current total available loads uptime, readCpuTimes proc = some current ∧
        readMemoryMetrics proc = .ok (total, available) ∧ readLoadAverage proc = .ok loads ∧
        readUptime proc = .ok uptime ∧
        m = ⟨usagePercent proc c.previousCpuTimes current, total, available, total - available,
          loads.1, loads.2.1, loads.2.2, uptime⟩ := by
  unfold collect collectCpuUsage
  cases readCpuTimes proc with
  | none => simp
  | some current =>
    cases readMemoryMetrics proc with
    | error error => simp [bind, Except.bind]
    | ok memory =>
      cases readLoadAverage proc with
      | error error => simp [bind, Except.bind]
      | ok loads =>
        cases readUptime proc with
        | error error => simp [bind, Except.bind]
        | ok uptime =>
          obtain ⟨total, available⟩ := memory
          simp only [bind, Except.bind, Except.ok.injEq, Option.some.injEq, Prod.mk.injEq]
          constructor
          · rintro rfl
            exact ⟨current, total, available, loads, uptime, rfl, ⟨rfl, rfl⟩, rfl, rfl, rfl⟩
          · rintro ⟨_, _, _, _, _, rfl, ⟨rfl, rfl⟩, rfl, rfl, rfl⟩
            rfl

/-- At any point of a run, a sample is taken exactly where the files say what it has, and then what
is used and what is available make up the total. An uptime of `2 ^ 64` is left out. -/
theorem collect_samples (boot : SystemProc) (reads : List SystemProc) (proc : SystemProc)
    (hrange : ∀ uptime, UptimeIs proc uptime → valueOf uptime ≠ 2 ^ 64) (m : SystemMetrics) :
    ((collect proc (collectorAfter boot reads)).1 = .ok m ↔
      ∃ baseline, LastTimes (boot :: reads) baseline ∧ Samples proc baseline m) ∧
    ((collect proc (collectorAfter boot reads)).1 = .ok m →
      m.memoryUsedBytes + m.memoryAvailableBytes = m.memoryTotalBytes ∧
        m.memoryTotalBytes < 2 ^ 64) := by
  have hiff : (collect proc (collectorAfter boot reads)).1 = .ok m ↔
      Samples proc (lastWrite readCpuTimes (boot :: reads)) m := by
    rw [collect_eq_ok_iff, previousCpuTimes_collectorAfter]
    generalize lastWrite readCpuTimes (boot :: reads) = baseline
    constructor
    · rintro ⟨current, total, available, loads, uptime, hstat, hmemory, hload, huptime, rfl⟩
      obtain ⟨totalKb, availableKb, hkb, rfl, rfl⟩ :=
        (readMemoryMetrics_eq_ok_iff proc _ _).mp hmemory
      exact
        { usage := ⟨current, (readCpuTimes_eq_some_iff proc current).mp hstat,
            usagePercent_eq_usageSince proc baseline current⟩
          memory := ⟨totalKb, availableKb, hkb, rfl, rfl, (Nat.sub_mul ..).symm⟩
          load := (readLoadAverage_eq_ok_iff proc _ _ _).mp hload
          uptime := (readUptime_eq_ok_iff hrange _).mp huptime }
    · rintro ⟨⟨current, hstat, husage⟩, ⟨totalKb, availableKb, hkb, htotal, havailable, hused⟩,
        hload, huptime⟩
      refine ⟨current, _, _, _, _, (readCpuTimes_eq_some_iff proc current).mpr hstat,
        (readMemoryMetrics_eq_ok_iff proc _ _).mpr ⟨totalKb, availableKb, hkb, rfl, rfl⟩,
        (readLoadAverage_eq_ok_iff proc _ _ _).mpr hload,
        (readUptime_eq_ok_iff hrange _).mpr huptime, ?_⟩
      rw [usagePercent_eq_usageSince, ← husage, ← Nat.sub_mul, ← htotal, ← havailable, ← hused]
  refine ⟨?_, fun h => (hiff.mp h).adds⟩
  simp only [lastTimes_iff, exists_eq_left', hiff]

/-- Four files, and the arithmetic of doubles as far as they need it. -/
def fourFiles : SystemProc where
  stat := some (statLine ⟨11, 12, 13, 34, 15, 16, 17, 18⟩ ++ [newline])
  meminfo := some (ascii "MemTotal: 30 kB\nMemAvailable: 20 kB\n")
  loadavg := some (ascii "0.50 0.25 0.00 1/2 3\n")
  uptime := some (ascii "12345.67 99.00\n")
  scanDouble s :=
    if s = ascii "0.50 0.25 0.00 1/2 3\n" then
      some (0x3FE0000000000000, ascii " 0.25 0.00 1/2 3\n")
    else if s = ascii " 0.25 0.00 1/2 3\n" then
      some (0x3FD0000000000000, ascii " 0.00 1/2 3\n")
    else if s = ascii " 0.00 1/2 3\n" then some (0, ascii " 1/2 3\n")
    else if s = ascii "12345.67 99.00\n" then some (0x40C81CD5C28F5C29, ascii " 99.00\n")
    else none
  percentage part whole := if part = 60 ∧ whole = 100 then 0x404E000000000000 else 0

/-- The counters have advanced by 100, 40 of them idle, since the last file that showed any. -/
theorem collect_samples_sixty :
    let before := procWith (some (statLine ⟨1, 2, 3, 4, 5, 6, 7, 8⟩ ++ [newline]))
    (collect fourFiles (collectorAfter (procWith none) [before, procWith (some [])])).1 =
      .ok ⟨0x404E000000000000, 30 * 1024, 20 * 1024, 10 * 1024, 0x3FE0000000000000,
        0x3FD0000000000000, 0, 12345⟩ := by
  intro before
  have hfloor : ⌊valueOf 0x40C81CD5C28F5C29⌋₊ = 12345 := by
    rw [valueOf, Binary64.value_eq_magnitude (by decide), Binary64.floor_magnitude]
    decide
  have hlt : valueOf 0x40C81CD5C28F5C29 < 2 ^ 64 :=
    (Nat.lt_of_floor_lt (hfloor.trans_lt (by norm_num : 12345 < 2 ^ 64))).trans_eq (by norm_num)
  have hload : LoadIs fourFiles 0x3FE0000000000000 0x3FD0000000000000 0 :=
    ⟨_, ascii " 0.25 0.00 1/2 3\n", ascii " 0.00 1/2 3\n", ascii " 1/2 3\n", rfl,
      by decide +kernel, by decide +kernel, by decide +kernel⟩
  have hread : fourFiles.scanDouble (ascii "12345.67 99.00\n") =
      some (0x40C81CD5C28F5C29, ascii " 99.00\n") := by decide +kernel
  have huptime (uptime : Double) (h : UptimeIs fourFiles uptime) :
      uptime = 0x40C81CD5C28F5C29 := by
    obtain ⟨_, rest, ⟨⟩, hscan⟩ := h
    rw [hread] at hscan
    cases hscan
    rfl
  have hbefore : ShowsTimes before ⟨1, 2, 3, 4, 5, 6, 7, 8⟩ :=
    (readCpuTimes_eq_some_iff _ _).mp (readCpuTimes_statLine (by decide))
  have hnow : ShowsTimes fourFiles ⟨11, 12, 13, 34, 15, 16, 17, 18⟩ :=
    (readCpuTimes_eq_some_iff _ _).mp (by decide +kernel)
  have hempty : ∀ later ∈ [procWith (some [])], ∀ t, ¬ ShowsTimes later t := by
    simp only [List.mem_singleton, forall_eq, ← readCpuTimes_eq_some_iff]
    exact fun t h => nomatch h
  refine (collect_samples (procWith none) [before, procWith (some [])] fourFiles
    (fun uptime h => huptime uptime h ▸ hlt.ne) _).1.mpr
    ⟨some ⟨1, 2, 3, 4, 5, 6, 7, 8⟩, ⟨[procWith none], before, _, rfl, hbefore, hempty⟩,
      ⟨_, hnow, by decide⟩, ⟨30, 20, ⟨_, rfl, ?_, ?_, by decide, by decide⟩, rfl, rfl, rfl⟩,
      ⟨hload, ?_, ?_, ?_⟩, ⟨0x40C81CD5C28F5C29, ⟨_, _, rfl, hread⟩, ?_, hlt, hfloor.symm⟩⟩
  · exact (lastFigure_eq_some_iff _ _ _).mp (by decide +kernel)
  · exact (lastFigure_eq_some_iff _ _ _).mp (by decide +kernel)
  all_goals exact (isAmount_iff _).mpr ⟨by decide, by decide⟩

end EdgeScope.SystemCollector
