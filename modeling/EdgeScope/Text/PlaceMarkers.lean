import Mathlib.Data.List.Basic
import Mathlib.Data.List.MinMax
import Mathlib.Tactic.Common

/-!
# Place markers in texts

A marker is a character of its own with a number of one or two digits behind it. Texts are
filled in by replacing every occurrence of a marker; the text filled in can form new markers
with what stands beside it.
-/

namespace EdgeScope

/-- An alphabet with a character that begins a marker, and with decimal digits. -/
class MarkerAlphabet (α : Type*) where
  mark : α
  digit : α → Option ℕ
  digit_mark : digit mark = none
  digit_lt : ∀ {c n}, digit c = some n → n < 10

namespace Markers
open MarkerAlphabet

variable {α : Type*} [MarkerAlphabet α] {n m : ℕ} {a s t u v z rest : List α}

def digitAt (s : List α) : Option ℕ := s.head?.bind digit

/-- A number from 1 to 99 at the beginning of a text, without leading zeros, and what follows. A
second digit belongs to it. -/
def numberAt : List α → Option (ℕ × List α)
  | [] => none
  | d :: s =>
    match digit d with
    | none => none
    | some 0 => none
    | some (k + 1) =>
      match digitAt s with
      | none => some (k + 1, s)
      | some e => some (10 * (k + 1) + e, s.tail)

@[simp] theorem digitAt_nil : digitAt ([] : List α) = none := rfl

@[simp] theorem digitAt_cons (c : α) (s : List α) : digitAt (c :: s) = digit c := rfl

theorem digitAt_append (h : u ≠ []) (v : List α) : digitAt (u ++ v) = digitAt u := by
  cases u with
  | nil => exact absurd rfl h
  | cons c u => rfl

theorem digitAt_append_of_none (hu : digitAt u = none) (hv : digitAt v = none) :
    digitAt (u ++ v) = none := by
  cases u with
  | nil => exact hv
  | cons c u => exact hu

theorem digitAt_eq_some_iff {d : ℕ} :
    digitAt s = some d ↔ ∃ c z, s = c :: z ∧ digit c = some d := by
  cases s with
  | nil => simp
  | cons c z => simp

theorem numberAt_eq_some_iff : numberAt s = some (m, rest) ↔
    ∃ d z k, s = d :: z ∧ digit d = some (k + 1) ∧
      (digitAt z = none ∧ k + 1 = m ∧ z = rest ∨
        ∃ e, digitAt z = some e ∧ 10 * (k + 1) + e = m ∧ z.tail = rest) := by
  cases s with
  | nil => simp [numberAt]
  | cons d z =>
    rw [numberAt]
    cases hd : digit d with
    | none => simp [hd]
    | some k =>
      cases k with
      | zero => simp [hd]
      | succ k =>
        cases hz : digitAt z with
        | none => simp [hd, hz]
        | some e => simp [hd, hz]

/-- A number ends where the next text does not go on with a digit. -/
theorem numberAt_append (hv : digitAt v = none) :
    numberAt (s ++ v) = (numberAt s).map fun p => (p.1, p.2 ++ v) := by
  cases s with
  | nil =>
    cases v with
    | nil => rfl
    | cons c v =>
      simp only [digitAt_cons] at hv
      simp [numberAt, hv]
  | cons d z =>
    simp only [List.cons_append, numberAt]
    cases digit d with
    | none => rfl
    | some k =>
      cases k with
      | zero => rfl
      | succ k =>
        cases z with
        | nil => simp [hv]
        | cons e z =>
          simp only [List.cons_append, digitAt_cons]
          cases digit e <;> simp

variable [DecidableEq α]

/-- The marker a text begins with, and what follows. -/
def markerAt : List α → Option (ℕ × List α)
  | [] => none
  | c :: s => if c = mark then numberAt s else none

def markers : List α → List ℕ
  | [] => []
  | c :: s => ((markerAt (c :: s)).map Prod.fst).toList ++ markers s

def replaceLoop (n : ℕ) (a : List α) : ℕ → List α → List α
  | 0, s => s
  | _ + 1, [] => []
  | fuel + 1, c :: s =>
    match markerAt (c :: s) with
    | none => c :: replaceLoop n a fuel s
    | some (m, rest) =>
      if m = n then a ++ replaceLoop n a fuel rest else c :: replaceLoop n a fuel s

def replace (n : ℕ) (a s : List α) : List α := replaceLoop n a s.length s

def lowest (s : List α) : Option ℕ := (markers s).min?

theorem markerAt_eq_some_iff :
    markerAt s = some (m, rest) ↔ ∃ z, s = mark :: z ∧ numberAt z = some (m, rest) := by
  cases s with
  | nil => simp [markerAt]
  | cons c z =>
    rw [markerAt]
    split
    · rename_i h
      simp [h]
    · rename_i h
      simp [h]

theorem markerAt_of_ne {c : α} (h : c ≠ mark) (s : List α) : markerAt (c :: s) = none :=
  if_neg h

theorem digitAt_of_markerAt (h : markerAt s = some (m, rest)) : digitAt s = none := by
  obtain ⟨z, rfl, -⟩ := markerAt_eq_some_iff.mp h
  exact digit_mark

@[simp] theorem markers_nil : markers ([] : List α) = [] := rfl

theorem markers_cons_of_ne {c : α} (h : c ≠ mark) (s : List α) : markers (c :: s) = markers s := by
  rw [markers, markerAt_of_ne h]
  rfl

/-- What follows a marker is shorter, and holds all other markers. -/
theorem markerAt_rest (h : markerAt s = some (m, rest)) :
    rest.length < s.length ∧ markers s = m :: markers rest := by
  obtain ⟨z, rfl, hnumber⟩ := markerAt_eq_some_iff.mp h
  have hmarker : markers (mark :: z) = m :: markers z := by simp [markers, h]
  have hdigit {c : α} {k : ℕ} (hc : digit c = some k) : c ≠ mark := by
    rintro rfl
    simp [digit_mark] at hc
  obtain ⟨d, z, k, rfl, hd, ⟨-, -, rfl⟩ | ⟨e, he, -, rfl⟩⟩ := numberAt_eq_some_iff.mp hnumber
  · refine ⟨by simp only [List.length_cons]; omega, ?_⟩
    rw [hmarker, markers_cons_of_ne (hdigit hd)]
  · obtain ⟨c, z, rfl, hc⟩ := digitAt_eq_some_iff.mp he
    refine ⟨by simp only [List.length_cons, List.tail_cons]; omega, ?_⟩
    rw [hmarker, markers_cons_of_ne (hdigit hd), markers_cons_of_ne (hdigit hc), List.tail_cons]

theorem markerAt_append (hs : s ≠ []) (hv : digitAt v = none) :
    markerAt (s ++ v) = (markerAt s).map fun p => (p.1, p.2 ++ v) := by
  cases s with
  | nil => exact absurd rfl hs
  | cons c s =>
    simp only [List.cons_append, markerAt]
    split
    · exact numberAt_append hv
    · rfl

theorem markers_subset_cons (c : α) (s : List α) : markers s ⊆ markers (c :: s) :=
  List.subset_append_right _ _

theorem markers_append (u : List α) (hv : digitAt v = none) :
    markers (u ++ v) = markers u ++ markers v := by
  induction u with
  | nil => rfl
  | cons c u ih =>
    have hhead := markerAt_append (List.cons_ne_nil c u) hv
    rw [List.cons_append] at hhead ⊢
    rw [markers, markers, hhead, ih, Option.map_map, List.append_assoc]
    rfl

theorem markers_eq_nil_of_notMem (h : mark ∉ s) : markers s = [] := by
  induction s with
  | nil => rfl
  | cons c s ih =>
    rw [List.mem_cons, not_or] at h
    rw [markers_cons_of_ne (Ne.symm h.1), ih h.2]

theorem replaceLoop_of_le (n : ℕ) (a : List α) {fuel : ℕ} (h : s.length ≤ fuel) :
    replaceLoop n a fuel s = replace n a s := by
  have hsame (fuel₁ : ℕ) : ∀ (fuel₂ : ℕ) (s : List α), s.length ≤ fuel₁ → s.length ≤ fuel₂ →
      replaceLoop n a fuel₁ s = replaceLoop n a fuel₂ s := by
    induction fuel₁ with
    | zero =>
      intro fuel₂ s h₁ _
      obtain rfl := List.length_eq_zero_iff.mp (Nat.le_zero.mp h₁)
      cases fuel₂ <;> rfl
    | succ fuel₁ ih =>
      intro fuel₂ s h₁ h₂
      cases s with
      | nil => cases fuel₂ <;> rfl
      | cons c s =>
        obtain _ | fuel₂ := fuel₂
        · cases h₂
        simp only [List.length_cons, Nat.add_le_add_iff_right] at h₁ h₂
        rw [replaceLoop, replaceLoop]
        cases hmarker : markerAt (c :: s) with
        | none => rw [ih fuel₂ s h₁ h₂]
        | some p =>
          have hshort := (markerAt_rest hmarker).1
          rw [List.length_cons] at hshort
          simp only
          rw [ih fuel₂ s h₁ h₂, ih fuel₂ p.2 (by omega) (by omega)]
  exact hsame fuel s.length s h le_rfl

@[simp] theorem replace_nil (n : ℕ) (a : List α) : replace n a [] = [] := rfl

theorem replace_of_marker (h : markerAt s = some (n, rest)) (a : List α) :
    replace n a s = a ++ replace n a rest := by
  obtain ⟨z, rfl, -⟩ := markerAt_eq_some_iff.mp h
  have hshort := (markerAt_rest h).1
  rw [List.length_cons] at hshort
  rw [replace, List.length_cons, replaceLoop, h]
  simp only [if_true]
  rw [replaceLoop_of_le n a (by omega)]

/-- A character that does not begin the marker stays. -/
theorem replace_cons {c : α} (h : ∀ rest, markerAt (c :: s) ≠ some (n, rest)) (a : List α) :
    replace n a (c :: s) = c :: replace n a s := by
  rw [replace, List.length_cons, replaceLoop]
  split
  · rfl
  · rename_i m rest hmarker
    have hne : m ≠ n := by
      rintro rfl
      exact h rest hmarker
    rw [if_neg hne]
    rfl

theorem replace_cons_of_ne {c : α} (h : c ≠ mark) (n : ℕ) (a s : List α) :
    replace n a (c :: s) = c :: replace n a s :=
  replace_cons (by simp [markerAt_of_ne h]) a

/-- Induction from marker to marker. -/
theorem marker_induction (n : ℕ) {motive : List α → Prop} (nil : motive [])
    (cons : ∀ c s, (∀ rest, markerAt (c :: s) ≠ some (n, rest)) → motive s → motive (c :: s))
    (marker : ∀ s rest, markerAt s = some (n, rest) → motive rest → motive s) (s : List α) :
    motive s := by
  induction hlength : s.length using Nat.strong_induction_on generalizing s with
  | _ length ih =>
    cases s with
    | nil => exact nil
    | cons c s =>
      by_cases h : ∃ rest, markerAt (c :: s) = some (n, rest)
      · obtain ⟨rest, hmarker⟩ := h
        exact marker _ rest hmarker (ih _ (hlength ▸ (markerAt_rest hmarker).1) rest rfl)
      · refine cons c s (fun rest hmarker => h ⟨rest, hmarker⟩) (ih _ ?_ s rfl)
        rw [← hlength, List.length_cons]
        exact Nat.lt_succ_self _

theorem notMem_markers_cons {c : α} (h : n ∉ markers (c :: s)) :
    (∀ rest, markerAt (c :: s) ≠ some (n, rest)) ∧ n ∉ markers s := by
  refine ⟨fun rest hmarker => h ?_, fun hmem => h (markers_subset_cons c s hmem)⟩
  simp [(markerAt_rest hmarker).2]

theorem replace_of_notMem (h : n ∉ markers s) (a : List α) : replace n a s = s := by
  induction s with
  | nil => rfl
  | cons c s ih =>
    obtain ⟨hhead, hrest⟩ := notMem_markers_cons h
    rw [replace_cons hhead, ih hrest]

theorem replace_append (n : ℕ) (a u : List α) (hv : digitAt v = none) :
    replace n a (u ++ v) = replace n a u ++ replace n a v := by
  induction u using @marker_induction α _ _ n with
  | nil => rfl
  | cons c u hhead ih =>
    have hmarker := markerAt_append (List.cons_ne_nil c u) hv
    rw [List.cons_append] at hmarker ⊢
    rw [replace_cons hhead, replace_cons, ih, List.cons_append]
    intro rest h
    rw [hmarker, Option.map_eq_some_iff] at h
    obtain ⟨p, hp, hpair⟩ := h
    obtain ⟨rfl, -⟩ := Prod.mk.inj hpair
    exact hhead p.2 hp
  | marker u rest hmarker ih =>
    have hne : u ≠ [] := by
      rintro rfl
      cases hmarker
    have hmarker' := markerAt_append hne hv
    rw [hmarker] at hmarker'
    rw [replace_of_marker hmarker, replace_of_marker hmarker', ih, List.append_assoc]

theorem replace_split (h : n ∈ markers s) (a : List α) :
    ∃ u t rest, s = u ++ t ∧ markerAt t = some (n, rest) ∧
      replace n a s = u ++ (a ++ replace n a rest) := by
  induction s with
  | nil => cases h
  | cons c s ih =>
    by_cases hhead : ∃ rest, markerAt (c :: s) = some (n, rest)
    · obtain ⟨rest, hmarker⟩ := hhead
      exact ⟨[], c :: s, rest, rfl, hmarker, replace_of_marker hmarker a⟩
    · have hnone : ∀ rest, markerAt (c :: s) ≠ some (n, rest) := not_exists.mp hhead
      have hs : n ∈ markers s := by
        by_contra hs
        rw [markers, List.mem_append, Option.mem_toList, Option.map_eq_some_iff] at h
        obtain ⟨p, hp, rfl⟩ | h := h
        · exact hnone p.2 hp
        · exact hs h
      obtain ⟨u, t, rest, rfl, hmarker, hreplace⟩ := ih hs
      exact ⟨c :: u, t, rest, rfl, hmarker, by rw [replace_cons hnone, hreplace]; rfl⟩

/-- A number of a marker whose first digit is `d`. -/
def Leads (d m : ℕ) : Prop := 0 < d ∧ (m = d ∨ m / 10 = d)

theorem leads_of_markerAt (h : markerAt (mark :: z) = some (m, rest)) :
    ∃ d, digitAt z = some d ∧ Leads d m := by
  obtain ⟨_, heq, hnumber⟩ := markerAt_eq_some_iff.mp h
  obtain rfl := (List.cons.inj heq).2
  obtain ⟨c, z, k, rfl, hc, ⟨-, rfl, -⟩ | ⟨e, he, rfl, -⟩⟩ := numberAt_eq_some_iff.mp hnumber
  · exact ⟨k + 1, hc, Nat.succ_pos k, .inl rfl⟩
  · obtain ⟨c', z, rfl, hc'⟩ := digitAt_eq_some_iff.mp he
    have hlt := digit_lt hc'
    exact ⟨k + 1, hc, Nat.succ_pos k, .inr (by omega)⟩

/-- A single digit ends a marker only before a text that does not go on with one. -/
theorem digitAt_rest_of_lt (h : markerAt s = some (m, rest)) (hm : m < 10) :
    digitAt rest = none := by
  obtain ⟨z, rfl, hnumber⟩ := markerAt_eq_some_iff.mp h
  obtain ⟨c, z, k, rfl, -, ⟨hz, -, rfl⟩ | ⟨e, -, rfl, -⟩⟩ := numberAt_eq_some_iff.mp hnumber
  · exact hz
  · omega

theorem markerAt_congr (c d : α) (h : digitAt u = digitAt v) :
    (markerAt (c :: d :: u)).map Prod.fst = (markerAt (c :: d :: v)).map Prod.fst := by
  simp only [markerAt, numberAt, h]
  split
  · cases digit d with
    | none => rfl
    | some k =>
      cases k with
      | zero => rfl
      | succ k => cases digitAt v <;> rfl
  · rfl

/-- A text that ends a marker after a single digit holds one of a single digit. -/
theorem exists_markers_of_digit {c d : α} (h : markerAt (c :: d :: v) = some (m, rest)) :
    ∃ k < 10, k ∈ markers [c, d] := by
  obtain ⟨z, heq, hnumber⟩ := markerAt_eq_some_iff.mp h
  obtain ⟨rfl, rfl⟩ := List.cons.inj heq
  obtain ⟨_, _, k, hsplit, hd, -⟩ := numberAt_eq_some_iff.mp hnumber
  obtain ⟨rfl, -⟩ := List.cons.inj hsplit
  exact ⟨k + 1, digit_lt hd, by simp [markers, markerAt, numberAt, hd]⟩

theorem mem_markers_of_head {c : α} (h : (markerAt (c :: s)).map Prod.fst = some m) :
    m ∈ markers (c :: s) := by
  rw [markers, h]
  exact List.mem_append_left _ (Option.mem_toList.mpr rfl)

/-- The markers of a text whose first part holds no marker of a single digit: besides those of
the parts, one can begin at the end of the first part. -/
theorem mem_markers_append (hu : ∀ k ∈ markers u, 10 ≤ k) (h : m ∈ markers (u ++ v)) :
    m ∈ markers u ∨ m ∈ markers v ∨ mark ∈ u ∧ ∃ d, digitAt v = some d ∧ Leads d m := by
  induction u with
  | nil => exact .inr (.inl h)
  | cons c u ih =>
    rw [List.cons_append, markers, List.mem_append, Option.mem_toList,
      Option.map_eq_some_iff] at h
    obtain ⟨p, hp, rfl⟩ | h := h
    · obtain ⟨z, heq, -⟩ := markerAt_eq_some_iff.mp hp
      obtain ⟨rfl, -⟩ := List.cons.inj heq
      match u with
      | [] =>
        obtain ⟨d, hd, hleads⟩ := leads_of_markerAt hp
        exact .inr (.inr ⟨List.mem_cons_self, d, hd, hleads⟩)
      | [d] =>
        obtain ⟨k, hk, hmem⟩ := exists_markers_of_digit hp
        exact absurd (hu k hmem) (Nat.not_le.mpr hk)
      | d :: e :: u =>
        refine .inl (mem_markers_of_head ?_)
        rw [markerAt_congr mark d (u := e :: u) (v := e :: (u ++ v)) rfl]
        exact congrArg (Option.map Prod.fst) hp
    · obtain h | h | ⟨hmark, h⟩ := ih (fun k hk => hu k (markers_subset_cons c u hk)) h
      · exact .inl (markers_subset_cons c u h)
      · exact .inr (.inl h)
      · exact .inr (.inr ⟨List.mem_cons_of_mem c hmark, h⟩)

/-- Behind a marker of a single digit, a replacement begins with a digit only if the text put in
does. -/
theorem digitAt_replace (hn : n < 10) (a : List α) (h : digitAt s = none) :
    digitAt (replace n a s) = none ∨ digitAt (replace n a s) = digitAt a ∧ a ≠ [] := by
  induction s using @marker_induction α _ _ n with
  | nil => exact .inl rfl
  | cons c s hhead _ =>
    rw [replace_cons hhead]
    exact .inl h
  | marker s rest hmarker ih =>
    rw [replace_of_marker hmarker]
    by_cases ha : a = []
    · subst ha
      rw [List.nil_append]
      exact ih (digitAt_rest_of_lt hmarker hn)
    · exact .inr ⟨digitAt_append ha _, ha⟩

/-- A mark before a text that does not begin with the marker begins the same number before the
replacement. -/
theorem markerAt_cons_replace (hs : ∀ k ∈ markers (mark :: s), k ≠ n → 10 ≤ k)
    (hhead : ∀ rest, markerAt (mark :: s) ≠ some (n, rest))
    (hnext : ∀ rest, markerAt s ≠ some (n, rest)) (a : List α) :
    (markerAt (mark :: replace n a s)).map Prod.fst = (markerAt (mark :: s)).map Prod.fst := by
  match s with
  | [] => rfl
  | [d] =>
    rw [replace_cons hnext]
    rfl
  | d :: c :: z =>
    rw [replace_cons hnext]
    cases hc : digit c with
    | some e =>
      have hne : c ≠ mark := by
        rintro rfl
        simp [digit_mark] at hc
      rw [replace_cons_of_ne hne]
      exact markerAt_congr mark d rfl
    | none =>
      cases hd : digit d with
      | none => simp [markerAt, numberAt, hd]
      | some k =>
        cases k with
        | zero => simp [markerAt, numberAt, hd]
        | succ k =>
          -- the number would have a single digit, and so would be `n`
          have hmarker : markerAt (mark :: d :: c :: z) = some (k + 1, c :: z) := by
            simp [markerAt, numberAt, hd, hc]
          have hn : k + 1 ≠ n := by
            rintro rfl
            exact hhead _ hmarker
          have := hs (k + 1) (mem_markers_of_head (by rw [hmarker]; rfl)) hn
          have := digit_lt hd
          omega

/-- Where the markers of a replacement come from, when no other marker has a single digit: they
were there, or come with the text put in, or begin with a digit that text begins with. -/
theorem mem_markers_replace (hs : ∀ k ∈ markers s, k ≠ n → 10 ≤ k) (ha : ∀ k ∈ markers a, 10 ≤ k)
    (hn : n < 10 ∨ mark ∉ a ∧ a ≠ []) (h : m ∈ markers (replace n a s)) :
    m ∈ markers s ∧ m ≠ n ∨ m ∈ markers a ∨ ∃ d, digitAt a = some d ∧ Leads d m := by
  induction s using @marker_induction α _ _ n with
  | nil => cases h
  | cons c s hhead ih =>
    rw [replace_cons hhead, markers, List.mem_append, Option.mem_toList,
      Option.map_eq_some_iff] at h
    obtain ⟨p, hp, rfl⟩ | h := h
    · obtain ⟨z, heq, hnumber⟩ := markerAt_eq_some_iff.mp hp
      obtain ⟨rfl, rfl⟩ := List.cons.inj heq
      obtain ⟨d, hd, hleads⟩ := leads_of_markerAt hp
      -- the mark stands before a replaced marker, or before a character that stays
      by_cases hnext : ∃ rest, markerAt s = some (n, rest)
      · obtain ⟨rest, hmarker⟩ := hnext
        rw [replace_of_marker hmarker] at hd
        by_cases hempty : a = []
        · subst hempty
          have hn' : n < 10 := hn.resolve_right fun h => h.2 rfl
          obtain hnone | ⟨-, hne⟩ := digitAt_replace hn' [] (digitAt_rest_of_lt hmarker hn')
          · rw [List.nil_append, hnone] at hd
            cases hd
          · exact absurd rfl hne
        · rw [digitAt_append hempty] at hd
          exact .inr (.inr ⟨d, hd, hleads⟩)
      · rw [not_exists] at hnext
        have hsame := markerAt_cons_replace hs hhead hnext a
        rw [hp, Option.map_some] at hsame
        refine .inl ⟨mem_markers_of_head hsame.symm, ?_⟩
        rintro rfl
        obtain ⟨q, hq, hfst⟩ := Option.map_eq_some_iff.mp hsame.symm
        exact hhead q.2 (hfst ▸ hq)
    · obtain ⟨h, hne⟩ | h := ih (fun k hk => hs k (markers_subset_cons c s hk)) h
      · exact .inl ⟨markers_subset_cons c s h, hne⟩
      · exact .inr h
  | marker s rest hmarker ih =>
    rw [(markerAt_rest hmarker).2] at hs ⊢
    rw [replace_of_marker hmarker] at h
    obtain h | h | ⟨hmark, d, hd, hleads⟩ := mem_markers_append ha h
    · exact .inr (.inl h)
    · obtain ⟨h, hne⟩ | h := ih (fun k hk => hs k (List.mem_cons_of_mem n hk)) h
      · exact .inl ⟨List.mem_cons_of_mem n h, hne⟩
      · exact .inr h
    · -- the marker begins with the end of the text put in and ends behind it
      have hn' : n < 10 := hn.resolve_right fun h => h.1 hmark
      obtain hnone | ⟨hsame, -⟩ := digitAt_replace hn' a (digitAt_rest_of_lt hmarker hn')
      · rw [hnone] at hd
        cases hd
      · exact .inr (.inr ⟨d, hsame ▸ hd, hleads⟩)

end Markers
end EdgeScope
