import EdgeScope.Agent.SystemCollector
import EdgeScope.Runs.Registers
import EdgeScope.Text.Numerals
import Mathlib.Data.Rat.Cast.Order
import Mathlib.Tactic.Linarith
import Mathlib.Tactic.Positivity
import Mathlib.Tactic.Ring

/-!
# The usage of the processor over a run

The baseline is whatever the last successful read has found. The guards admit no difference that
has wrapped or runs backwards, so the usage is a percentage of any two reads, and the usage of the
time between them where no sum has wrapped.
-/

namespace EdgeScope.SystemCollector
open Text Runs

def usageIn {α : Type} [Zero α] (percentage : ℕ → ℕ → α) (previous : Option CpuTimes)
    (current : CpuTimes) : α :=
  match previous with
  | none => 0
  | some previous =>
    if total previous ≤ total current ∧ idle previous ≤ idle current then
      let totalDelta := total current - total previous
      let idleDelta := idle current - idle previous
      if totalDelta ≠ 0 ∧ idleDelta ≤ totalDelta then
        percentage (totalDelta - idleDelta) totalDelta
      else 0
    else 0

def exactPercentage (part whole : ℕ) : ℚ := part / whole * 100

def exactUsage (previous : Option CpuTimes) (current : CpuTimes) : ℚ :=
  usageIn exactPercentage previous current

theorem usagePercent_eq (proc : SystemProc) (previous : Option CpuTimes) (current : CpuTimes) :
    usagePercent proc previous current = usageIn proc.percentage previous current := by
  cases previous <;> rfl

theorem usageIn_cases {α : Type} [Zero α] (percentage : ℕ → ℕ → α) (previous : Option CpuTimes)
    (current : CpuTimes) : usageIn percentage previous current = 0 ∨
      ∃ part whole, 0 < whole ∧ part ≤ whole ∧
        usageIn percentage previous current = percentage part whole := by
  unfold usageIn
  split
  · exact .inl rfl
  · simp only
    split_ifs with hforward hdelta
    · exact .inr ⟨_, _, Nat.pos_of_ne_zero hdelta.1, Nat.sub_le _ _, rfl⟩
    · exact .inl rfl
    · exact .inl rfl

theorem exactUsage_bounds (previous : Option CpuTimes) (current : CpuTimes) :
    0 ≤ exactUsage previous current ∧ exactUsage previous current ≤ 100 := by
  unfold exactUsage
  obtain h | ⟨part, whole, hwhole, hpart, h⟩ := usageIn_cases exactPercentage previous current
  · rw [h]
    norm_num
  · rw [h, exactPercentage]
    have hle : (part : ℚ) / whole ≤ 1 :=
      (div_le_one (by exact_mod_cast hwhole)).mpr (by exact_mod_cast hpart)
    exact ⟨by positivity, by linarith⟩

/-- All eight counters, without wrapping. -/
def sum (t : CpuTimes) : ℕ :=
  t.user + t.nice + t.system + t.idle + t.iowait + t.irq + t.softirq + t.steal

def busy (t : CpuTimes) : ℕ := t.user + t.nice + t.system + t.irq + t.softirq + t.steal

structure NoneDecreased (previous current : CpuTimes) : Prop where
  user : previous.user ≤ current.user
  nice : previous.nice ≤ current.nice
  system : previous.system ≤ current.system
  idle : previous.idle ≤ current.idle
  iowait : previous.iowait ≤ current.iowait
  irq : previous.irq ≤ current.irq
  softirq : previous.softirq ≤ current.softirq
  steal : previous.steal ≤ current.steal

/-- Where a counter has advanced and none has gone back, the sum has advanced. -/
theorem NoneDecreased.sum_lt {previous current : CpuTimes} (h : NoneDecreased previous current)
    (hne : previous ≠ current) : sum previous < sum current := by
  obtain ⟨huser, hnice, hsystem, hidle, hiowait, hirq, hsoftirq, hsteal⟩ := h
  obtain ⟨user, nice, system, idle, iowait, irq, softirq, steal⟩ := previous
  obtain ⟨user', nice', system', idle', iowait', irq', softirq', steal'⟩ := current
  simp only [ne_eq, CpuTimes.mk.injEq, sum] at *
  omega

theorem exactUsage_of_noneDecreased {previous current : CpuTimes}
    (h : NoneDecreased previous current) (hfits : sum current < 2 ^ 64)
    (hne : previous ≠ current) : exactUsage (some previous) current =
      100 * ((busy current : ℚ) - busy previous) / ((sum current : ℚ) - sum previous) := by
  have hlt := h.sum_lt hne
  obtain ⟨huser, hnice, hsystem, hidle, hiowait, hirq, hsoftirq, hsteal⟩ := h
  have htotal (t : CpuTimes) (ht : sum t < 2 ^ 64) : total t = sum t := Nat.mod_eq_of_lt ht
  have hidleTotal (t : CpuTimes) (ht : sum t < 2 ^ 64) : idle t = sum t - busy t := by
    unfold sum at ht
    rw [idle, Nat.mod_eq_of_lt (by unfold wordSize; omega), sum, busy]
    omega
  have hbusyLe (t : CpuTimes) : busy t ≤ sum t := by
    unfold busy sum
    omega
  have hbusy : busy previous ≤ busy current := by
    unfold busy
    omega
  have hrest : sum previous - busy previous ≤ sum current - busy current := by
    unfold sum busy
    omega
  have hle := hbusyLe current
  have hle' := hbusyLe previous
  unfold exactUsage usageIn
  simp only
  rw [htotal current hfits, htotal previous (by omega), hidleTotal current hfits,
    hidleTotal previous (by omega), if_pos ⟨hlt.le, hrest⟩, if_pos (by omega)]
  have hpart : sum current - sum previous - (sum current - busy current -
      (sum previous - busy previous)) = busy current - busy previous := by omega
  rw [hpart, exactPercentage, Nat.cast_sub hbusy, Nat.cast_sub hlt.le]
  ring

def collectorAfter (boot : SystemProc) (reads : List SystemProc) : SystemCollector :=
  reads.foldl (fun c proc => (collect proc c).2) (create boot)

theorem collect_collector (proc : SystemProc) (c : SystemCollector) :
    (collect proc c).2 =
      ⟨((readCpuTimes proc).map some).getD c.previousCpuTimes⟩ := by
  unfold collect collectCpuUsage
  cases readCpuTimes proc <;> rfl

/-- The baseline is what the last successful read has found, the one of the constructor
included. -/
theorem previousCpuTimes_collectorAfter (boot : SystemProc) (reads : List SystemProc) :
    (collectorAfter boot reads).previousCpuTimes = lastWrite readCpuTimes (boot :: reads) := by
  have hwrite (c : SystemCollector) (proc : SystemProc) : (collect proc c).2.previousCpuTimes =
      ((readCpuTimes proc).map some).getD c.previousCpuTimes := by rw [collect_collector]
  rw [collectorAfter, get_foldl hwrite, lastWrite_map_some, lastWrite_cons]
  cases lastWrite readCpuTimes reads <;> rfl

/-- Every usage of a run is a percentage. It is that of the time since the last successful read,
if there was one and its counters have only grown; a read that fails changes nothing. -/
theorem collectCpuUsage_run (boot : SystemProc) (reads : List SystemProc) (proc : SystemProc) :
    let c := collectorAfter boot reads
    let baseline := lastWrite readCpuTimes (boot :: reads)
    (readCpuTimes proc = none →
      collectCpuUsage proc c = .error (ascii "failed to parse /proc/stat") ∧
        collectorAfter boot (reads ++ [proc]) = c) ∧
    ∀ current, readCpuTimes proc = some current →
      collectCpuUsage proc c = .ok (usageIn proc.percentage baseline current, current) ∧
      0 ≤ exactUsage baseline current ∧ exactUsage baseline current ≤ 100 ∧
      (baseline = none → usageIn proc.percentage baseline current = 0 ∧
        exactUsage baseline current = 0) ∧
      ∀ previous, baseline = some previous → NoneDecreased previous current →
        sum current < 2 ^ 64 → previous ≠ current →
          exactUsage baseline current =
            100 * ((busy current : ℚ) - busy previous) / ((sum current : ℚ) - sum previous) := by
  intro c baseline
  have hbaseline : c.previousCpuTimes = baseline := previousCpuTimes_collectorAfter boot reads
  constructor
  · intro hfails
    rw [collectCpuUsage, hfails, collectorAfter, List.foldl_append, List.foldl_cons,
      List.foldl_nil, ← collectorAfter, collect_collector, hfails]
    exact ⟨rfl, rfl⟩
  · intro current hcurrent
    obtain ⟨hlow, hhigh⟩ := exactUsage_bounds baseline current
    refine ⟨?_, hlow, hhigh, ?_, ?_⟩
    · rw [collectCpuUsage, hcurrent, hbaseline]
      simp only [usagePercent_eq]
    · intro hnone
      rw [hnone]
      exact ⟨rfl, rfl⟩
    · intro previous hprevious hgrown hfits hne
      rw [hprevious]
      exact exactUsage_of_noneDecreased hgrown hfits hne

def counters (t : CpuTimes) : List ℤ :=
  [t.user, t.nice, t.system, t.idle, t.iowait, t.irq, t.softirq, t.steal]

def statLine (t : CpuTimes) : Bytes := ascii "cpu" ++ fieldsText (counters t)

def procWith (contents : Option Bytes) : SystemProc where
  stat := contents
  meminfo := none
  loadavg := none
  uptime := none
  scanDouble _ := none
  percentage _ _ := 0

theorem scanUInt64_counter {n : ℕ} (hn : n < wordSize) (fields : List ℤ) :
    scanUInt64 (fieldsText ((n : ℤ) :: fields)) = some (n, fieldsText fields) := by
  have hends := endsWord_fieldsText endsWord_nil fields
  rw [List.append_nil] at hends
  rw [← List.singleton_append, fieldsText_append]
  exact scanUInt64_field hends hn

theorem readCpuTimes_statLine {t : CpuTimes} (h : ∀ n ∈ counters t, n < wordSize) :
    readCpuTimes (procWith (some (statLine t ++ [newline]))) = some t := by
  have hline : newline ∉ statLine t := by
    rw [statLine, List.mem_append, not_or]
    exact ⟨by decide, fun hmem => absurd (mem_fieldsText hmem) (by decide)⟩
  have hword : IsWord (ascii "cpu") := by decide
  have hends := endsWord_fieldsText endsWord_nil (counters t)
  rw [List.append_nil] at hends
  have hlabel : scanWord (statLine t) = some (ascii "cpu", fieldsText (counters t)) :=
    scanWord_append isBlank_nil hword hends
  simp only [counters, List.forall_mem_cons, Nat.cast_lt] at h
  obtain ⟨huser, hnice, hsystem, hidle, hiowait, hirq, hsoftirq, hsteal, -⟩ := h
  have htimes : scanCpuTimes (statLine t) = some (ascii "cpu", t) := by
    simp only [scanCpuTimes, hlabel, counters, Option.bind_eq_bind, Option.bind_some,
      scanUInt64_counter huser, scanUInt64_counter hnice, scanUInt64_counter hsystem,
      scanUInt64_counter hidle, scanUInt64_counter hiowait, scanUInt64_counter hirq,
      scanUInt64_counter hsoftirq, scanUInt64_counter hsteal]
  rw [readCpuTimes, procWith]
  simp only [Option.bind_eq_bind, Option.bind_some, getlines_append_cons hline, List.head?_cons,
    htimes, if_true]

/-- The constructor and a later read fail. The counters then advance by 100, 40 of them idle. -/
theorem collectCpuUsage_sixty :
    let proc (t : CpuTimes) := procWith (some (statLine t ++ [newline]))
    let reads := [proc ⟨1, 2, 3, 4, 5, 6, 7, 8⟩, procWith (some [])]
    let baseline := lastWrite readCpuTimes (procWith none :: reads)
    readCpuTimes (proc ⟨11, 12, 13, 34, 15, 16, 17, 18⟩) =
        some ⟨11, 12, 13, 34, 15, 16, 17, 18⟩ ∧
      exactUsage baseline ⟨11, 12, 13, 34, 15, 16, 17, 18⟩ = 60 := by
  intro proc reads baseline
  have hbefore : readCpuTimes (proc ⟨1, 2, 3, 4, 5, 6, 7, 8⟩) = some ⟨1, 2, 3, 4, 5, 6, 7, 8⟩ :=
    readCpuTimes_statLine (by decide)
  have hread : readCpuTimes (proc ⟨11, 12, 13, 34, 15, 16, 17, 18⟩) =
      some ⟨11, 12, 13, 34, 15, 16, 17, 18⟩ := readCpuTimes_statLine (by decide)
  have hempty : readCpuTimes (procWith (some [])) = none := rfl
  have hlast : baseline = some ⟨1, 2, 3, 4, 5, 6, 7, 8⟩ := by
    simp only [baseline, reads, lastWrite_cons, lastWrite_nil, hbefore, hempty]
    rfl
  obtain ⟨-, -, -, -, husage⟩ := (collectCpuUsage_run (procWith none) reads _).2 _ hread
  refine ⟨hread, ?_⟩
  rw [husage _ hlast (by constructor <;> decide) (by decide) (by decide)]
  norm_num [busy, sum]

end EdgeScope.SystemCollector
