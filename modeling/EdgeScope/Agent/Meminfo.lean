import EdgeScope.Agent.SystemSample

/-!
# The kernel's `meminfo`

Lines that give kilobytes for a key, spaced in any way and among any others, are read as they
were written.
-/

namespace EdgeScope.SystemCollector
open Text Runs

/-- A line `key value kB`. What follows the unit is not read. -/
structure MeminfoLine where
  lead : Bytes
  key : Bytes
  gap : Bytes
  value : ℕ
  unitGap : Bytes
  trail : Bytes
  isBlank : IsBlank lead ∧ IsBlank gap ∧ IsBlank unitGap
  isWord : IsWord key
  gap_ne : gap ≠ []
  endsWord : EndsWord trail
  single : newline ∉ lead ++ gap ++ unitGap ++ trail

def MeminfoLine.text (line : MeminfoLine) : Bytes :=
  line.lead ++ (line.key ++ (line.gap ++ (decimal line.value ++
    (line.unitGap ++ (ascii "kB" ++ line.trail)))))

def memoryKeys : List Bytes := [ascii "MemTotal:", ascii "MemAvailable:"]

/-- Such a line, or one that begins with another word. -/
inductive MeminfoEntry
  | kilobytes (line : MeminfoLine)
  | other (text : Bytes) (single : newline ∉ text)
      (foreign : ∀ key ∈ memoryKeys, ∀ rest, ¬ BeginsWithWord key rest text)

namespace MeminfoEntry

def text : MeminfoEntry → Bytes
  | .kilobytes line => line.text
  | .other text _ _ => text

def line : MeminfoEntry → Option MeminfoLine
  | .kilobytes line => some line
  | .other _ _ _ => none

end MeminfoEntry

def meminfoText (entries : List MeminfoEntry) : Bytes :=
  entries.flatMap fun entry => entry.text ++ [newline]

theorem MeminfoLine.newline_notMem_text (line : MeminfoLine) : newline ∉ line.text := by
  have hkey : newline ∉ line.key := fun h => by
    have := line.isWord.2 newline h
    exact absurd this (by decide)
  have hdigits : newline ∉ decimal line.value := fun h => by
    have := isDigit_of_mem_decimal h
    exact absurd this (by decide)
  have hunit : newline ∉ ascii "kB" := by decide
  have hsingle := line.single
  simp only [List.mem_append, not_or] at hsingle
  obtain ⟨⟨⟨hlead, hgap⟩, hunitGap⟩, htrail⟩ := hsingle
  simp only [text, List.mem_append, not_or]
  exact ⟨hlead, hkey, hgap, hdigits, hunitGap, hunit, htrail⟩

/-- A number that does not fit the word is not read. -/
theorem MeminfoLine.showsKilobytes_text_iff (line : MeminfoLine) (key : Bytes) (value : ℕ) :
    ShowsKilobytes key value line.text ↔
      line.key = key ∧ line.value = value ∧ value < wordSize := by
  have hword : scanWord line.text = some (line.key, line.gap ++ (decimal line.value ++
      (line.unitGap ++ (ascii "kB" ++ line.trail)))) :=
    scanWord_append line.isBlank.1 line.isWord (endsWord_append line.gap_ne line.isBlank.2.1 _)
  have hends : Ends isDigit (line.unitGap ++ (ascii "kB" ++ line.trail)) := by
    cases hgap : line.unitGap with
    | nil => exact (ends_cons _ _ _).mpr (by decide)
    | cons b blank =>
      have hblank : isSpace b = true := line.isBlank.2.2 b (hgap ▸ List.mem_cons_self)
      refine (ends_cons _ _ _).mpr ?_
      by_contra hdigit
      have hspace := isSpace_of_isDigit (Bool.not_eq_false _ ▸ hdigit)
      rw [hblank] at hspace
      cases hspace
  have hunit : scanWord (line.unitGap ++ (ascii "kB" ++ line.trail)) =
      some (ascii "kB", line.trail) :=
    scanWord_append line.isBlank.2.2 (by decide) line.endsWord
  have hnumber := scanUInt64_append line.isBlank.2.1 (.inl rfl) (isDigits_decimal line.value) hends
  have hvalue : signedValue [] (decimal line.value) = line.value := by
    rw [signedValue, digitsValue_decimal]
    exact if_neg (by decide)
  rw [List.nil_append, digitsValue_decimal, hvalue] at hnumber
  simp only [← figure_eq_some_iff, figure, scanMemoryLine, hword, hnumber, Option.bind_eq_bind,
    Option.bind_some]
  by_cases hfits : line.value < wordSize
  · simp only [if_pos hfits, Option.bind_some, hunit, true_and, Option.ite_none_right_eq_some,
      Option.some.injEq]
    constructor
    · rintro ⟨hkey, rfl⟩
      exact ⟨hkey, rfl, hfits⟩
    · rintro ⟨hkey, rfl, -⟩
      exact ⟨hkey, rfl⟩
  · simp only [if_neg hfits, Option.bind_none, reduceCtorEq, false_iff]
    rintro ⟨-, rfl, h⟩
    exact hfits h

theorem MeminfoEntry.showsKilobytes_text_iff (entry : MeminfoEntry) {key : Bytes}
    (hkey : key ∈ memoryKeys) (value : ℕ) : ShowsKilobytes key value entry.text ↔
      ∃ line, entry.line = some line ∧ line.key = key ∧ line.value = value ∧ value < wordSize := by
  cases entry with
  | kilobytes line =>
    rw [text, line.showsKilobytes_text_iff, MeminfoEntry.line]
    simp
  | other text single foreign =>
    refine iff_of_false ?_ (by simp [MeminfoEntry.line])
    rintro ⟨number, -, -, hword, -⟩
    exact foreign key hkey number hword

theorem getlines_meminfoText (entries : List MeminfoEntry) :
    getlines newline (meminfoText entries) = entries.map MeminfoEntry.text := by
  have hsingle : ∀ line ∈ entries.map MeminfoEntry.text, newline ∉ line := by
    intro line hline
    obtain ⟨entry, -, rfl⟩ := List.mem_map.mp hline
    cases entry with
    | kilobytes line => exact line.newline_notMem_text
    | other text single foreign => exact single
  rw [meminfoText, ← List.flatMap_map MeminfoEntry.text (· ++ [newline]), getlines_flatMap hsingle]

/-- Where no two lines have one key, a line counts wherever it stands. -/
theorem lastShows_meminfoText_iff {entries : List MeminfoEntry}
    (hkeys : ((entries.filterMap MeminfoEntry.line).map MeminfoLine.key).Nodup) {key : Bytes}
    (hkey : key ∈ memoryKeys) (value : ℕ) : LastShows key value (meminfoText entries) ↔
      ∃ line ∈ entries.filterMap MeminfoEntry.line,
        line.key = key ∧ line.value = value ∧ value < wordSize := by
  rw [LastShows, getlines_meminfoText]
  constructor
  · rintro ⟨front, text, back, hsplit, hshows, -⟩
    have htext : text ∈ entries.map MeminfoEntry.text := hsplit ▸ by simp
    obtain ⟨entry, hentry, rfl⟩ := List.mem_map.mp htext
    obtain ⟨line, hline, hvalue⟩ := (entry.showsKilobytes_text_iff hkey value).mp hshows
    exact ⟨line, List.mem_filterMap.mpr ⟨entry, hentry, hline⟩, hvalue⟩
  · rintro ⟨line, hline, hvalue⟩
    obtain ⟨entry, hentry, hsome⟩ := List.mem_filterMap.mp hline
    obtain ⟨front, back, rfl⟩ := List.append_of_mem hentry
    refine ⟨front.map MeminfoEntry.text, entry.text, back.map MeminfoEntry.text, by simp,
      (entry.showsKilobytes_text_iff hkey value).mpr ⟨line, hsome, hvalue⟩, ?_⟩
    intro later hlater value' hshows
    obtain ⟨entry', hentry', rfl⟩ := List.mem_map.mp hlater
    obtain ⟨line', hline', hkey', -⟩ := (entry'.showsKilobytes_text_iff hkey value').mp hshows
    -- two lines with one key
    rw [List.filterMap_append, List.filterMap_cons_some hsome, List.map_append, List.map_cons]
      at hkeys
    have hlate : line'.key ∈ (back.filterMap MeminfoEntry.line).map MeminfoLine.key :=
      List.mem_map_of_mem (List.mem_filterMap.mpr ⟨entry', hentry', hline'⟩)
    refine (List.nodup_cons.mp (List.nodup_append.mp hkeys).2.1).1 ?_
    rwa [hvalue.1, ← hkey']

/-- The memory of a sample is read from the kernel's lines in any order and spacing, among any
others. -/
theorem readMemoryMetrics_shows (proc : SystemProc) {entries : List MeminfoEntry}
    (hkeys : ((entries.filterMap MeminfoEntry.line).map MeminfoLine.key).Nodup)
    (total available : ℕ) :
    readMemoryMetrics { proc with meminfo := some (meminfoText entries) } =
        .ok (total, available) ↔
      ∃ totalLine ∈ entries.filterMap MeminfoEntry.line,
        ∃ availableLine ∈ entries.filterMap MeminfoEntry.line,
          totalLine.key = ascii "MemTotal:" ∧ availableLine.key = ascii "MemAvailable:" ∧
          availableLine.value ≤ totalLine.value ∧ totalLine.value * 1024 < 2 ^ 64 ∧
          total = totalLine.value * 1024 ∧ available = availableLine.value * 1024 := by
  rw [readMemoryMetrics_eq_ok_iff]
  simp only [MemoryIs, Option.some.injEq, exists_eq_left',
    lastShows_meminfoText_iff hkeys (show ascii "MemTotal:" ∈ memoryKeys by decide),
    lastShows_meminfoText_iff hkeys (show ascii "MemAvailable:" ∈ memoryKeys by decide)]
  constructor
  · rintro ⟨_, _, ⟨⟨line, hline, hkey, rfl, -⟩, ⟨line', hline', hkey', rfl, -⟩, hle, hfits⟩,
      rfl, rfl⟩
    exact ⟨line, hline, line', hline', hkey, hkey', hle, hfits, rfl, rfl⟩
  · rintro ⟨line, hline, line', hline', hkey, hkey', hle, hfits, rfl, rfl⟩
    have hfits' : line.value < wordSize := by
      unfold wordSize
      omega
    exact ⟨_, _, ⟨⟨line, hline, hkey, rfl, hfits'⟩, ⟨line', hline', hkey', rfl, by omega⟩, hle,
      hfits⟩, rfl, rfl⟩

theorem foreign_of_scanWord {text : Bytes} (word rest : Bytes)
    (hscan : scanWord text = some (word, rest)) (hword : word ∉ memoryKeys) :
    ∀ key ∈ memoryKeys, ∀ rest', ¬ BeginsWithWord key rest' text := by
  intro key hkey rest' hbegins
  rw [← scanWord_eq_some_iff, hscan] at hbegins
  cases hbegins
  exact hword hkey

/-- Out of order and indented, beside a line without a unit and one that is no number. -/
theorem readMemoryMetrics_disordered :
    let contents := ascii "  MemAvailable:\t20   kB \nHugePages_Total: 0\n???\nMemTotal: 30kB\n"
    readMemoryMetrics { procWith none with meminfo := some contents } =
      .ok (30 * 1024, 20 * 1024) := by
  intro contents
  let availableLine : MeminfoLine :=
    { lead := ascii "  ", key := ascii "MemAvailable:", gap := ascii "\t", value := 20,
      unitGap := ascii "   ", trail := ascii " ", isBlank := by decide, isWord := by decide,
      gap_ne := by decide, endsWord := by decide, single := by decide }
  let totalLine : MeminfoLine :=
    { lead := [], key := ascii "MemTotal:", gap := ascii " ", value := 30, unitGap := [],
      trail := [], isBlank := by decide, isWord := by decide, gap_ne := by decide,
      endsWord := by decide, single := by decide }
  let pages : MeminfoEntry := .other (ascii "HugePages_Total: 0") (by decide)
    (foreign_of_scanWord (ascii "HugePages_Total:") (ascii " 0") (by decide) (by decide))
  let noise : MeminfoEntry := .other (ascii "???") (by decide)
    (foreign_of_scanWord (ascii "???") [] (by decide) (by decide))
  let entries : List MeminfoEntry := [.kilobytes availableLine, pages, noise, .kilobytes totalLine]
  have htext : meminfoText entries = contents := by decide +kernel
  have hkeys : ((entries.filterMap MeminfoEntry.line).map MeminfoLine.key).Nodup := by decide
  rw [← htext]
  exact (readMemoryMetrics_shows (procWith none) hkeys _ _).mpr
    ⟨totalLine, by simp [entries, MeminfoEntry.line, pages, noise], availableLine,
      by simp [entries, MeminfoEntry.line], rfl, rfl, by decide, by decide, rfl, rfl⟩

end EdgeScope.SystemCollector
