import EdgeScope.Agent.ProcessCollector
import EdgeScope.Text.Numerals

/-!
# What is read from `status`

Three keys matter, each on at most one line, in any order and among any other lines. A value that
cannot be read is an error; a key that is missing leaves the count of threads and clears the
sizes.
-/

namespace EdgeScope.ProcessCollector
open Text

/-- The text behind the key of a size: white space, a number, white space, a unit. -/
structure MemoryField where
  blank : Bytes
  digits : Bytes
  gap : Bytes
  unit : Bytes
  blank_ne : blank ≠ []
  isBlank : IsBlank blank
  isDigits : IsDigits digits
  gap_ne : gap ≠ []
  isBlank_gap : IsBlank gap
  isWord : IsWord unit

structure ThreadsField where
  blank : Bytes
  digits : Bytes
  blank_ne : blank ≠ []
  isBlank : IsBlank blank
  isDigits : IsDigits digits

def MemoryField.line (key : Bytes) (f : MemoryField) : Bytes :=
  key ++ (f.blank ++ (f.digits ++ (f.gap ++ f.unit)))

def ThreadsField.line (f : ThreadsField) : Bytes :=
  ascii "Threads:" ++ (f.blank ++ f.digits)

def MemoryField.value (f : MemoryField) : ℕ := digitsValue f.digits
def ThreadsField.value (f : ThreadsField) : ℕ := digitsValue f.digits

/-- A size in kilobytes that fits the word in bytes. -/
def MemoryField.IsValid (f : MemoryField) : Prop := f.unit = ascii "kB" ∧ f.value * 1024 < 2 ^ 64

instance (f : MemoryField) : Decidable f.IsValid := inferInstanceAs (Decidable (_ ∧ _))

def linesOf (key : Bytes) (lines : List Bytes) : List Bytes :=
  lines.filter fun line => key.isPrefixOf line

structure StatusFields where
  rss : Option MemoryField
  size : Option MemoryField
  threads : Option ThreadsField

namespace StatusFields

/-- Among the lines, the keys begin these and no others. -/
structure Describes (fields : StatusFields) (lines : List Bytes) : Prop where
  rss : linesOf (ascii "VmRSS:") lines = (fields.rss.map (·.line (ascii "VmRSS:"))).toList
  size : linesOf (ascii "VmSize:") lines = (fields.size.map (·.line (ascii "VmSize:"))).toList
  threads : linesOf (ascii "Threads:") lines = (fields.threads.map (·.line)).toList

def IsValid (fields : StatusFields) : Prop :=
  (∀ f ∈ fields.rss, f.IsValid) ∧ (∀ f ∈ fields.size, f.IsValid) ∧
    ∀ f ∈ fields.threads, f.value < 2 ^ 32

def record (fields : StatusFields) (s : StatusScan) : StatusScan where
  process := { s.process with
    residentMemoryBytes :=
      (fields.rss.map (·.value * 1024)).getD s.process.residentMemoryBytes
    virtualMemoryBytes :=
      (fields.size.map (·.value * 1024)).getD s.process.virtualMemoryBytes
    threadCount := (fields.threads.map (·.value)).getD s.process.threadCount }
  foundRss := fields.rss.isSome || s.foundRss
  foundVirtualMemory := fields.size.isSome || s.foundVirtualMemory

end StatusFields

theorem scanUInt64_digits {blank digits rest : Bytes} (hblank : IsBlank blank)
    (hdigits : IsDigits digits) (hrest : Ends isDigit rest) :
    scanUInt64 (blank ++ (digits ++ rest)) =
      if digitsValue digits < wordSize then some (digitsValue digits, rest) else none :=
  scanUInt64_append hblank (.inl rfl) hdigits hrest

theorem parseKilobyteField_line {key : Bytes} (hkey : IsWord key) (f : MemoryField) :
    parseKilobyteField (f.line key) key = if f.IsValid then some (f.value * 1024) else none := by
  have hword : scanWord (f.line key) = some (key, f.blank ++ (f.digits ++ (f.gap ++ f.unit))) :=
    scanWord_append isBlank_nil hkey (endsWord_append f.blank_ne f.isBlank _)
  have hread := scanUInt64_digits f.isBlank f.isDigits
    (endsWord_append f.gap_ne f.isBlank_gap f.unit).ends_isDigit
  have hunit : scanWord (f.gap ++ f.unit) = some (f.unit, []) := by
    have h := scanWord_append f.isBlank_gap f.isWord endsWord_nil
    rwa [List.append_nil] at h
  have hlimit : ¬ kUInt64Max / kBytesPerKilobyte < f.value ↔ f.value * 1024 < 2 ^ 64 := by
    unfold kUInt64Max kBytesPerKilobyte
    omega
  rw [← MemoryField.value] at hread
  rw [parseKilobyteField, hword]
  simp only [hread]
  by_cases hvalid : f.IsValid
  · obtain ⟨hkB, hsize⟩ := hvalid
    have hfits : f.value < wordSize := by
      unfold wordSize
      omega
    rw [hkB] at hunit
    rw [if_pos hfits, if_pos ⟨hkB, hsize⟩]
    simp only [hkB, hunit, ne_eq, not_true_eq_false, false_or, if_neg (hlimit.mpr hsize)]
    rfl
  · rw [if_neg hvalid]
    by_cases hfits : f.value < wordSize
    · rw [if_pos hfits]
      simp only [hunit]
      refine if_pos (.inr ?_)
      rw [← hlimit.symm.not_left, ← not_and_or]
      exact hvalid
    · rw [if_neg hfits]

theorem parseThreads_line (f : ThreadsField) :
    parseThreads f.line = if f.value < 2 ^ 32 then some f.value else none := by
  have hkey : IsWord (ascii "Threads:") := by decide
  have hword : scanWord f.line = some (ascii "Threads:", f.blank ++ f.digits) :=
    scanWord_append isBlank_nil hkey (endsWord_append f.blank_ne f.isBlank _)
  have hread := scanUInt64_digits f.isBlank f.isDigits (ends_nil _)
  rw [List.append_nil, ← ThreadsField.value] at hread
  rw [parseThreads, hword]
  simp only [hread]
  by_cases hfits : f.value < wordSize
  · rw [if_pos hfits]
    simp only [ne_eq, not_true_eq_false, false_or, kUInt32Max]
    split_ifs <;> first | rfl | omega
  · have hlarge : ¬ f.value < 2 ^ 32 := by
      unfold wordSize at hfits
      omega
    rw [if_neg hfits, if_neg hlarge]

/-- Two keys begin the same line only where one of them begins the other. -/
theorem not_isPrefixOf {key key' line : Bytes} (h : key.isPrefixOf line = true)
    (hkey : ¬ key <+: key') (hkey' : ¬ key' <+: key) : ¬ key'.isPrefixOf line = true := by
  intro h'
  rw [List.isPrefixOf_iff_prefix] at h h'
  exact (List.prefix_or_prefix_of_prefix h h').elim hkey hkey'

theorem linesOf_cons_of_pos {key line : Bytes} (h : key.isPrefixOf line = true)
    (lines : List Bytes) : linesOf key (line :: lines) = line :: linesOf key lines :=
  List.filter_cons_of_pos h

theorem linesOf_cons_of_neg {key line : Bytes} (h : ¬ key.isPrefixOf line = true)
    (lines : List Bytes) : linesOf key (line :: lines) = linesOf key lines :=
  List.filter_cons_of_neg h

/-- Where a key begins the first line, that line is the field of the key. -/
theorem eq_some_of_linesOf {α : Type} {key line : Bytes} {lines : List Bytes} {field : Option α}
    {text : α → Bytes} (h : key.isPrefixOf line = true)
    (hlines : linesOf key (line :: lines) = (field.map text).toList) :
    ∃ f, field = some f ∧ line = text f ∧ linesOf key lines = [] := by
  rw [linesOf_cons_of_pos h] at hlines
  cases field with
  | none => cases hlines
  | some f =>
    obtain ⟨hline, hrest⟩ := List.cons.inj hlines
    exact ⟨f, rfl, hline, hrest⟩

theorem parseStatusLine_describes {fields : StatusFields} {line : Bytes} {lines : List Bytes}
    (h : fields.Describes (line :: lines)) (s : StatusScan) :
    (∃ (rest : StatusFields) (s' : StatusScan), rest.Describes lines ∧
        parseStatusLine line s = .ok s' ∧ (fields.IsValid ↔ rest.IsValid) ∧
        fields.record s = rest.record s') ∨
      ¬ fields.IsValid ∧ ∃ error, parseStatusLine line s = .error error := by
  obtain ⟨rss, size, threads⟩ := fields
  obtain ⟨hrss, hsize, hthreads⟩ := h
  simp only at hrss hsize hthreads
  unfold parseStatusLine
  -- a line belongs to one field at most, which is read from it
  by_cases hline : (ascii "VmRSS:").isPrefixOf line = true
  · obtain ⟨f, rfl, rfl, hnone⟩ := eq_some_of_linesOf hline hrss
    rw [linesOf_cons_of_neg (not_isPrefixOf hline (by decide) (by decide))] at hsize hthreads
    rw [if_pos hline, parseKilobyteField_line (by decide)]
    by_cases hf : f.IsValid
    · rw [if_pos hf]
      refine .inl ⟨⟨none, size, threads⟩, _, ⟨hnone, hsize, hthreads⟩, rfl, ?_, rfl⟩
      simp [StatusFields.IsValid, hf]
    · rw [if_neg hf]
      exact .inr ⟨fun hvalid => hf (hvalid.1 f rfl), _, rfl⟩
  rw [linesOf_cons_of_neg hline] at hrss
  rw [if_neg hline]
  by_cases hline : (ascii "VmSize:").isPrefixOf line = true
  · obtain ⟨f, rfl, rfl, hnone⟩ := eq_some_of_linesOf hline hsize
    rw [linesOf_cons_of_neg (not_isPrefixOf hline (by decide) (by decide))] at hthreads
    rw [if_pos hline, parseKilobyteField_line (by decide)]
    by_cases hf : f.IsValid
    · rw [if_pos hf]
      refine .inl ⟨⟨rss, none, threads⟩, _, ⟨hrss, hnone, hthreads⟩, rfl, ?_, rfl⟩
      simp [StatusFields.IsValid, hf]
    · rw [if_neg hf]
      exact .inr ⟨fun hvalid => hf (hvalid.2.1 f rfl), _, rfl⟩
  rw [linesOf_cons_of_neg hline] at hsize
  rw [if_neg hline]
  by_cases hline : (ascii "Threads:").isPrefixOf line = true
  · obtain ⟨f, rfl, rfl, hnone⟩ := eq_some_of_linesOf hline hthreads
    rw [if_pos hline, parseThreads_line]
    by_cases hf : f.value < 2 ^ 32
    · rw [if_pos hf]
      refine .inl ⟨⟨rss, size, none⟩, _, ⟨hrss, hsize, hnone⟩, rfl, ?_, rfl⟩
      simpa [StatusFields.IsValid] using fun _ _ => hf
    · rw [if_neg hf]
      exact .inr ⟨fun hvalid => hf (hvalid.2.2 f rfl), _, rfl⟩
  · rw [linesOf_cons_of_neg hline] at hthreads
    rw [if_neg hline]
    exact .inl ⟨⟨rss, size, threads⟩, s, ⟨hrss, hsize, hthreads⟩, rfl, .rfl, rfl⟩

theorem parseStatusLines_describes {fields : StatusFields} {lines : List Bytes}
    (h : fields.Describes lines) (s : StatusScan) :
    (fields.IsValid → parseStatusLines lines s = .ok (fields.record s)) ∧
      (¬ fields.IsValid → ∃ error, parseStatusLines lines s = .error error) := by
  induction lines generalizing fields s with
  | nil =>
    obtain ⟨rss, size, threads⟩ := fields
    obtain ⟨hrss, hsize, hthreads⟩ := h
    simp only [linesOf, List.filter_nil] at hrss hsize hthreads
    cases rss with
    | some f => cases hrss
    | none =>
      cases size with
      | some f => cases hsize
      | none =>
        cases threads with
        | some f => cases hthreads
        | none => exact ⟨fun _ => rfl, fun hvalid => absurd ⟨nofun, nofun, nofun⟩ hvalid⟩
  | cons line lines ih =>
    rw [parseStatusLines]
    obtain ⟨rest, s', hrest, hline, hvalid, hrecord⟩ | ⟨hvalid, error, hline⟩ :=
      parseStatusLine_describes h s
    · rw [hline, hvalid, hrecord]
      exact ih hrest s'
    · rw [hline]
      exact ⟨fun hvalid' => absurd hvalid' hvalid, fun _ => ⟨error, rfl⟩⟩

/-- `status` is read where every field it has is valid, and then the sizes are those of the file,
whatever they were before. -/
theorem parseStatus_iff {fields : StatusFields} {contents : Bytes}
    (h : fields.Describes (getlines newline contents)) (process : ProcessInfo) :
    ((∃ process', parseStatus contents process = .ok process') ↔ fields.IsValid) ∧
      ∀ process', parseStatus contents process = .ok process' →
        process' = { process with
          residentMemoryBytes := (fields.rss.map (·.value * 1024)).getD 0
          virtualMemoryBytes := (fields.size.map (·.value * 1024)).getD 0
          threadCount := (fields.threads.map (·.value)).getD process.threadCount } := by
  obtain ⟨hvalid, hinvalid⟩ := parseStatusLines_describes h ⟨process, false, false⟩
  rw [parseStatus]
  by_cases hfields : fields.IsValid
  · rw [hvalid hfields]
    refine ⟨iff_of_true ⟨_, rfl⟩ hfields, ?_⟩
    rintro process' hprocess
    cases hprocess
    obtain ⟨rss, size, threads⟩ := fields
    cases rss <;> cases size <;> rfl
  · obtain ⟨error, herror⟩ := hinvalid hfields
    rw [herror]
    exact ⟨iff_of_false nofun hfields, nofun⟩

/-- The fields in another order than the kernel's, among other lines, and no virtual size. -/
def disordered : Bytes :=
  ascii "Name:\tVmRSS: x\nThreads:\t08\n\n VmSize: 1 MB\nVmRSS:\t 5 kB"

def disorderedFields : StatusFields where
  rss := some ⟨ascii "\t ", ascii "5", ascii " ", ascii "kB", by decide, by decide, by decide,
    by decide, by decide, by decide⟩
  size := none
  threads := some ⟨ascii "\t", ascii "08", by decide, by decide, by decide⟩

theorem parseStatus_disordered :
    parseStatus disordered { residentMemoryBytes := 1, virtualMemoryBytes := 2 } =
      .ok { residentMemoryBytes := 5 * 1024, virtualMemoryBytes := 0, threadCount := 8 } := by
  have hdescribes : disorderedFields.Describes (getlines newline disordered) :=
    ⟨by decide, by decide, by decide⟩
  have hvalid : disorderedFields.IsValid :=
    ⟨by rintro f ⟨⟩; decide, by rintro f ⟨⟩, by rintro f ⟨⟩; decide⟩
  obtain ⟨hread, hfields⟩ :=
    parseStatus_iff hdescribes { residentMemoryBytes := 1, virtualMemoryBytes := 2 }
  obtain ⟨process, hprocess⟩ := hread.mpr hvalid
  rw [hprocess, hfields process hprocess]
  rfl

end EdgeScope.ProcessCollector
