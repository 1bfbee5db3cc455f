import Mathlib.Algebra.GroupWithZero.Nat
import EdgeScope.Text.Window

/-!
# Delimited pieces of a sequence

A sequence is cut after every delimiter `d`. What precedes a delimiter is a
terminated piece, what follows the last delimiter is the unterminated rest.
The cut of a concatenation is determined by the rest of its first part, which
is all that a reader fed chunk by chunk has to remember.
-/

namespace EdgeScope.Text

variable {α : Type*} [DecidableEq α] {d : α}

/-- The terminated pieces of a sequence, without their delimiters, and its unterminated rest. -/
def cut (d : α) : List α → List (List α) × List α
  | [] => ([], [])
  | a :: s =>
    if a = d then ([] :: (cut d s).1, (cut d s).2)
    else
      match (cut d s).1 with
      | [] => ([], a :: (cut d s).2)
      | p :: ps => ((a :: p) :: ps, (cut d s).2)

def terminated (d : α) (s : List α) : List (List α) := (cut d s).1

def unterminated (d : α) (s : List α) : List α := (cut d s).2

/-- What a loop over `std::getline` yields: a nonempty unterminated rest counts as
a piece, an empty one does not. -/
def getlines (d : α) (s : List α) : List (List α) :=
  terminated d s ++ if unterminated d s = [] then [] else [unterminated d s]

theorem cut_of_notMem {s : List α} (h : d ∉ s) : cut d s = ([], s) := by
  induction s with
  | nil => rfl
  | cons a s ih =>
    have ha : a ≠ d := fun e => h (e ▸ List.mem_cons_self)
    have hs := ih fun hm => h (List.mem_cons_of_mem _ hm)
    simp [cut, ha, hs]

theorem cut_append_cons {p : List α} (h : d ∉ p) (s : List α) :
    cut d (p ++ d :: s) = (p :: terminated d s, unterminated d s) := by
  induction p with
  | nil => simp [cut, terminated, unterminated]
  | cons a p ih =>
    have ha : a ≠ d := fun e => h (e ▸ List.mem_cons_self)
    have hp := ih fun hm => h (List.mem_cons_of_mem _ hm)
    simp [cut, ha, hp]

@[simp] theorem terminated_nil : terminated d ([] : List α) = [] := rfl

@[simp] theorem unterminated_nil : unterminated d ([] : List α) = [] := rfl

theorem terminated_of_notMem {s : List α} (h : d ∉ s) : terminated d s = [] := by
  simp [terminated, cut_of_notMem h]

theorem unterminated_of_notMem {s : List α} (h : d ∉ s) : unterminated d s = s := by
  simp [unterminated, cut_of_notMem h]

theorem terminated_append_cons {p : List α} (h : d ∉ p) (s : List α) :
    terminated d (p ++ d :: s) = p :: terminated d s := by
  simp [terminated, cut_append_cons h]

theorem unterminated_append_cons {p : List α} (h : d ∉ p) (s : List α) :
    unterminated d (p ++ d :: s) = unterminated d s := by
  simp [unterminated, cut_append_cons h]

/-- Induction on the pieces of a sequence: it has no delimiter, or a first piece comes off. -/
@[elab_as_elim] theorem pieces_induction (d : α) {motive : List α → Prop}
    (rest : ∀ s, d ∉ s → motive s)
    (piece : ∀ p s, d ∉ p → motive s → motive (p ++ d :: s)) (s : List α) : motive s := by
  induction hn : s.length using Nat.strong_induction_on generalizing s with
  | _ n ih =>
    by_cases h : d ∈ s
    · obtain ⟨p, s', rfl, hp⟩ := List.eq_append_cons_of_mem h
      exact piece p s' hp (ih s'.length (by simp at hn; omega) s' rfl)
    · exact rest s h

theorem notMem_unterminated (s : List α) : d ∉ unterminated d s := by
  induction s using pieces_induction d with
  | rest s h => rwa [unterminated_of_notMem h]
  | piece p s hp ih => rwa [unterminated_append_cons hp]

/-- Pieces written with their delimiters are read back. -/
theorem cut_flatMap {pieces : List (List α)} (h : ∀ p ∈ pieces, d ∉ p) :
    cut d (pieces.flatMap (· ++ [d])) = (pieces, []) := by
  induction pieces with
  | nil => rfl
  | cons p pieces ih =>
    have hp := h p List.mem_cons_self
    have hpieces := ih fun q hq => h q (List.mem_cons_of_mem _ hq)
    rw [List.flatMap_cons, List.append_assoc, List.singleton_append, cut_append_cons hp,
      terminated, unterminated, hpieces]

theorem terminated_flatMap {pieces : List (List α)} (h : ∀ p ∈ pieces, d ∉ p) :
    terminated d (pieces.flatMap (· ++ [d])) = pieces :=
  congrArg Prod.fst (cut_flatMap h)

theorem getlines_flatMap {pieces : List (List α)} (h : ∀ p ∈ pieces, d ∉ p) :
    getlines d (pieces.flatMap (· ++ [d])) = pieces := by
  simp [getlines, terminated, unterminated, cut_flatMap h]

theorem length_terminated (s : List α) : (terminated d s).length = s.count d := by
  induction s using pieces_induction d with
  | rest s h => simp [terminated_of_notMem h, List.count_eq_zero.mpr h]
  | piece p s hp ih =>
    rw [terminated_append_cons hp, List.length_cons, ih, List.count_append,
      List.count_eq_zero.mpr hp, List.count_cons_self, Nat.zero_add]

theorem cut_append (x y : List α) :
    cut d (x ++ y) = (terminated d x ++ terminated d (unterminated d x ++ y),
      unterminated d (unterminated d x ++ y)) := by
  induction x using pieces_induction d with
  | rest x h =>
    rw [terminated_of_notMem h, unterminated_of_notMem h]
    rfl
  | piece p x hp ih =>
    rw [terminated_append_cons hp, unterminated_append_cons hp, List.append_assoc,
      List.cons_append, cut_append_cons hp]
    simp only [terminated, unterminated] at ih ⊢
    rw [ih]
    rfl

theorem terminated_append (x y : List α) :
    terminated d (x ++ y) = terminated d x ++ terminated d (unterminated d x ++ y) :=
  congrArg Prod.fst (cut_append x y)

theorem unterminated_append (x y : List α) :
    unterminated d (x ++ y) = unterminated d (unterminated d x ++ y) := by
  rw [unterminated, cut_append]

theorem getlines_append (x y : List α) :
    getlines d (x ++ y) = terminated d x ++ getlines d (unterminated d x ++ y) := by
  simp only [getlines, terminated_append x, unterminated_append x, List.append_assoc]

theorem mem_terminated_mono {x s p : List α} (h : x <+: s) (hp : p ∈ terminated d x) :
    p ∈ terminated d s := by
  obtain ⟨y, rfl⟩ := h
  rw [terminated_append]
  exact List.mem_append_left _ hp

theorem terminated_append_of_unterminated_eq_nil {x : List α} (h : unterminated d x = [])
    (y : List α) : terminated d (x ++ y) = terminated d x ++ terminated d y := by
  rw [terminated_append, h, List.nil_append]

theorem unterminated_append_of_notMem (x : List α) {p : List α} (h : d ∉ p) :
    unterminated d (x ++ p) = unterminated d x ++ p := by
  rw [unterminated_append]
  apply unterminated_of_notMem
  intro hmem
  exact (List.mem_append.mp hmem).elim (notMem_unterminated x) h

/-- The unterminated rest of a part begins no earlier than that of the whole. -/
theorem length_unterminated_le_append (x s : List α) :
    (unterminated d s).length ≤ (unterminated d (x ++ s)).length := by
  rw [unterminated_append]
  by_cases hs : d ∈ s
  · obtain ⟨p, s', rfl, hp⟩ := List.eq_append_cons_of_mem hs
    have hup : d ∉ unterminated d x ++ p := fun hmem =>
      (List.mem_append.mp hmem).elim (notMem_unterminated x) hp
    rw [← List.append_assoc, unterminated_append_cons hup, unterminated_append_cons hp]
  · have hus : d ∉ unterminated d x ++ s := fun hmem =>
      (List.mem_append.mp hmem).elim (notMem_unterminated x) hs
    rw [unterminated_of_notMem hs, unterminated_of_notMem hus, List.length_append]
    exact Nat.le_add_left _ _

theorem tail_terminated_append {u : List α} (h : d ∉ u) (s : List α) :
    (terminated d (u ++ s)).tail = (terminated d s).tail := by
  by_cases hs : d ∈ s
  · obtain ⟨p, s', rfl, hp⟩ := List.eq_append_cons_of_mem hs
    have hup : d ∉ u ++ p := by simp [h, hp]
    rw [← List.append_assoc, terminated_append_cons hup, terminated_append_cons hp]
    rfl
  · rw [terminated_of_notMem hs, terminated_of_notMem (by simp [h, hs])]

theorem head?_terminated {s p : List α} (h : p ∈ (terminated d s).head?) :
    d ∉ p ∧ ∃ s', s = p ++ d :: s' := by
  by_cases hs : d ∈ s
  · obtain ⟨q, s', rfl, hq⟩ := List.eq_append_cons_of_mem hs
    rw [terminated_append_cons hq, List.head?_cons, Option.mem_some_iff] at h
    subst h
    exact ⟨hq, s', rfl⟩
  · rw [terminated_of_notMem hs] at h
    cases h

/-- Behind a cut, every terminated piece but the first is one of the whole. -/
theorem mem_terminated_of_mem_tail_drop {s p : List α} {i : ℕ}
    (h : p ∈ (terminated d (s.drop i)).tail) : p ∈ terminated d s := by
  rw [← tail_terminated_append (notMem_unterminated (d := d) (s.take i))] at h
  rw [← List.take_append_drop i s, terminated_append]
  exact List.mem_append_right _ (List.mem_of_mem_tail h)

theorem getlines_of_notMem {s : List α} (h : d ∉ s) :
    getlines d s = if s = [] then [] else [s] := by
  simp [getlines, terminated_of_notMem h, unterminated_of_notMem h]

theorem getlines_append_cons {p : List α} (h : d ∉ p) (s : List α) :
    getlines d (p ++ d :: s) = p :: getlines d s := by
  simp [getlines, terminated_append_cons h, unterminated_append_cons h]

/-- A piece cut open at its front loses only itself: every later piece is unchanged. -/
theorem tail_getlines_append {u : List α} (h : d ∉ u) (s : List α) :
    (getlines d (u ++ s)).tail = (getlines d s).tail := by
  by_cases hs : d ∈ s
  · obtain ⟨p, s', rfl, hp⟩ := List.eq_append_cons_of_mem hs
    have hup : d ∉ u ++ p := by simp [h, hp]
    rw [← List.append_assoc, getlines_append_cons hup, getlines_append_cons hp]
    rfl
  · have hus : d ∉ u ++ s := by simp [h, hs]
    rw [getlines_of_notMem hus, getlines_of_notMem hs]
    split <;> split <;> rfl

theorem getlines_eq_cons {s : List α} (h : s ≠ []) :
    getlines d s = s.takeWhile (· ≠ d) :: (getlines d s).tail := by
  have hgo {p : List α} (hp : d ∉ p) : ∀ a ∈ p, decide (a ≠ d) = true := by
    intro a ha
    simp only [ne_eq, decide_not, Bool.not_eq_true', decide_eq_false_iff_not]
    rintro rfl
    exact hp ha
  by_cases hs : d ∈ s
  · obtain ⟨p, s', rfl, hp⟩ := List.eq_append_cons_of_mem hs
    rw [List.takeWhile_append_of_pos (hgo hp), getlines_append_cons hp]
    simp
  · rw [List.takeWhile_eq_self_iff.mpr (hgo hs), getlines_of_notMem hs, if_neg h]
    rfl

/-- Where the first of two parts ends inside a piece, the piece goes on to the first delimiter
of the second. -/
theorem getlines_append_of_cut {x : List α} (h : unterminated d x ≠ []) (y : List α) :
    getlines d (x ++ y) = getlines d (x ++ y.takeWhile (· ≠ d)) ++ (getlines d y).tail := by
  have hu := notMem_unterminated (d := d) x
  have hfirst : d ∉ y.takeWhile (· ≠ d) := fun hmem => by
    simpa using List.mem_takeWhile_imp hmem
  have hgo : (unterminated d x ++ y).takeWhile (· ≠ d) =
      unterminated d x ++ y.takeWhile (· ≠ d) := by
    apply List.takeWhile_append_of_pos
    intro a ha
    simp only [ne_eq, decide_not, Bool.not_eq_true', decide_eq_false_iff_not]
    rintro rfl
    exact hu ha
  have hne : unterminated d x ++ y ≠ [] := by simp [h]
  have hlast : getlines d (unterminated d x ++ y.takeWhile (· ≠ d)) =
      [unterminated d x ++ y.takeWhile (· ≠ d)] := by
    rw [getlines_of_notMem fun hmem => (List.mem_append.mp hmem).elim hu hfirst,
      if_neg (by simp [h])]
  rw [getlines_append x y, getlines_append x (y.takeWhile _), getlines_eq_cons hne, hgo,
    tail_getlines_append hu, hlast, List.append_assoc]
  rfl

theorem length_terminated_le_getlines (s : List α) :
    (terminated d s).length ≤ (getlines d s).length := by
  simp [getlines]

/-- The last `n` pieces of a sequence are those of any suffix with more than `n` pieces,
although the first piece of the suffix may be a cut one. -/
theorem rtake_getlines_append (x y : List α) {n : ℕ} (h : n < (getlines d y).length) :
    (getlines d (x ++ y)).rtake n = (getlines d y).rtake n := by
  have htail := tail_getlines_append (notMem_unterminated (d := d) x) y
  have hy : n ≤ (getlines d y).tail.length := by rw [List.length_tail]; omega
  have hxy : n ≤ (getlines d (unterminated d x ++ y)).tail.length := htail ▸ hy
  calc (getlines d (x ++ y)).rtake n
      = (getlines d (unterminated d x ++ y)).rtake n := by
        rw [getlines_append]
        exact rtake_append_of_le_length _ (hxy.trans (by simp))
    _ = (getlines d y).tail.rtake n := by rw [← rtake_tail hxy, htail]
    _ = (getlines d y).rtake n := rtake_tail hy

/-- A reader that remembers only the last `n` elements of an unterminated rest finds the same
pieces, unless a piece is longer than that. -/
theorem terminated_rtake_append {u c : List α} {n : ℕ} (hu : d ∉ u)
    (h : d ∈ c → u.length ≤ n) : terminated d (u.rtake n ++ c) = terminated d (u ++ c) := by
  by_cases hc : d ∈ c
  · rw [rtake_of_length_le (h hc)]
  · have hu' : d ∉ u.rtake n := fun hm => hu (mem_of_mem_rtake hm)
    rw [terminated_of_notMem (by simp [hu', hc]), terminated_of_notMem (by simp [hu, hc])]

theorem unterminated_rtake_append {u c : List α} {n : ℕ} (hu : d ∉ u)
    (h : d ∈ c → u.length ≤ n) :
    (unterminated d (u.rtake n ++ c)).rtake n = (unterminated d (u ++ c)).rtake n := by
  by_cases hc : d ∈ c
  · rw [rtake_of_length_le (h hc)]
  · have hu' : d ∉ u.rtake n := fun hm => hu (mem_of_mem_rtake hm)
    rw [unterminated_of_notMem (by simp [hu', hc]), unterminated_of_notMem (by simp [hu, hc]),
      rtake_rtake_append]

/-- The first piece that ends in `c` begins with the whole unterminated rest before it. -/
theorem exists_mem_terminated_append {u c : List α} (hu : d ∉ u) (hc : d ∈ c) :
    ∃ p ∈ terminated d (u ++ c), u.length ≤ p.length := by
  obtain ⟨p, c', rfl, hp⟩ := List.eq_append_cons_of_mem hc
  have hup : d ∉ u ++ p := by simp [hu, hp]
  refine ⟨u ++ p, ?_, by simp⟩
  rw [← List.append_assoc, terminated_append_cons hup]
  exact List.mem_cons_self

/-- The pieces with the position each begins at, the first one at `start`. -/
def spans (start : ℕ) : List (List α) → List (ℕ × List α)
  | [] => []
  | p :: ps => (start, p) :: spans (start + p.length + 1) ps

/-- A piece begins at position `i`: at the front, or right after a delimiter. -/
def LineStart (d : α) (s : List α) (i : ℕ) : Prop := i = 0 ∨ s[i - 1]? = some d

instance (d : α) (s : List α) (i : ℕ) : Decidable (LineStart d s i) :=
  inferInstanceAs (Decidable (_ ∨ _))

def linesBetween (d : α) (s : List α) (i j : ℕ) : List (List α) :=
  ((spans 0 (terminated d s)).filter fun q => i ≤ q.1 ∧ q.1 + q.2.length + 1 ≤ j).map Prod.snd

def extent (ps : List (List α)) : ℕ := (ps.map fun p => p.length + 1).sum

omit [DecidableEq α] in
theorem spans_append (start : ℕ) (ps qs : List (List α)) :
    spans start (ps ++ qs) = spans start ps ++ spans (start + extent ps) qs := by
  induction ps generalizing start with
  | nil => simp [spans, extent]
  | cons p ps ih =>
    have hext : start + p.length + 1 + extent ps = start + extent (p :: ps) := by
      simp only [extent, List.map_cons, List.sum_cons]
      omega
    simp only [List.cons_append, spans, ih, hext]

omit [DecidableEq α] in
theorem spans_bounds {start : ℕ} {ps : List (List α)} {q : ℕ × List α} (h : q ∈ spans start ps) :
    start ≤ q.1 ∧ q.1 + q.2.length + 1 ≤ start + extent ps := by
  induction ps generalizing start with
  | nil => simp [spans] at h
  | cons p ps ih =>
    simp only [spans, List.mem_cons] at h
    simp only [extent, List.map_cons, List.sum_cons] at ih ⊢
    rcases h with rfl | h
    · exact ⟨le_rfl, by simp only; omega⟩
    · have := ih h
      omega

omit [DecidableEq α] in
@[simp] theorem map_snd_spans (start : ℕ) (ps : List (List α)) :
    (spans start ps).map Prod.snd = ps := by
  induction ps generalizing start with
  | nil => rfl
  | cons p ps ih => simp [spans, ih]

theorem extent_terminated (s : List α) :
    extent (terminated d s) + (unterminated d s).length = s.length := by
  induction s using pieces_induction d with
  | rest s h => simp [terminated_of_notMem h, unterminated_of_notMem h, extent]
  | piece p s hp ih =>
    rw [terminated_append_cons hp, unterminated_append_cons hp]
    simp only [extent, List.map_cons, List.sum_cons, List.length_append, List.length_cons] at ih ⊢
    omega

theorem spans_beyond {u : List α} (h : d ∉ u) (z : List α) {start : ℕ} {q : ℕ × List α}
    (hq : q ∈ spans start (terminated d (u ++ z))) : start + u.length < q.1 + q.2.length + 1 := by
  by_cases hz : d ∈ z
  · obtain ⟨p, z', rfl, hp⟩ := List.eq_append_cons_of_mem hz
    have hup : d ∉ u ++ p := by simp [h, hp]
    rw [← List.append_assoc, terminated_append_cons hup] at hq
    simp only [spans, List.mem_cons, List.length_append] at hq
    rcases hq with rfl | hq
    · simp only [List.length_append]
      omega
    · have := (spans_bounds hq).1
      omega
  · rw [terminated_of_notMem (by simp [h, hz])] at hq
    simp [spans] at hq

theorem unterminated_eq_nil_iff {s : List α} : unterminated d s = [] ↔ LineStart d s s.length := by
  induction s using List.reverseRecOn with
  | nil => simp [LineStart]
  | append_singleton s a =>
    have hnot := notMem_unterminated (d := d) s
    rw [unterminated_append]
    by_cases ha : a = d
    · subst ha
      rw [unterminated_append_cons hnot]
      simp [LineStart]
    · have hd : d ∉ unterminated d s ++ [a] := by simp [hnot, Ne.symm ha]
      rw [unterminated_of_notMem hd]
      simp [LineStart, ha]

theorem LineStart.take {s : List α} {i : ℕ} (h : LineStart d s i) :
    unterminated d (s.take i) = [] := by
  rcases h with rfl | h
  · simp
  · have hi : i - 1 < s.length := (List.getElem?_eq_some_iff.mp h).1
    rw [unterminated_eq_nil_iff]
    rcases Nat.eq_zero_or_pos i with rfl | hpos
    · simp [LineStart]
    · right
      rw [List.length_take, Nat.min_eq_left (by omega), List.getElem?_take_of_lt (by omega), h]

omit [DecidableEq α] in
/-- Where a piece begins depends only on what comes before. -/
theorem LineStart.of_take {s t : List α} {i j : ℕ} (h : LineStart d s i) (hij : i ≤ j)
    (hpre : s.take j <+: t) : LineStart d t i := by
  rcases h with rfl | h
  · exact .inl rfl
  · rcases Nat.eq_zero_or_pos i with rfl | hpos
    · exact .inl rfl
    · obtain ⟨more, rfl⟩ := hpre
      have htake : (s.take j)[i - 1]? = some d := by rw [List.getElem?_take_of_lt (by omega), h]
      obtain ⟨hlt, -⟩ := List.getElem?_eq_some_iff.mp htake
      exact .inr (by rw [List.getElem?_append_left hlt, htake])

theorem unterminated_take_eq_nil_iff {s : List α} {i : ℕ} (hi : i ≤ s.length) :
    unterminated d (s.take i) = [] ↔ LineStart d s i := by
  constructor
  · intro h
    rw [unterminated_eq_nil_iff, List.length_take, Nat.min_eq_left hi] at h
    apply h.of_take le_rfl
    rw [List.take_take, min_self]
    exact List.take_prefix i s
  · exact LineStart.take

/-- From a line start on, the pieces inside a segment are the terminated pieces of the segment. -/
theorem linesBetween_eq {s : List α} {i j : ℕ} (hi : LineStart d s i) (hij : i ≤ j)
    (hj : j ≤ s.length) : linesBetween d s i j = terminated d ((s.take j).drop i) := by
  have hx := hi.take
  generalize hxdef : s.take i = x at hx
  generalize hydef : (s.take j).drop i = y
  have hxlen : x.length = i := by rw [← hxdef, List.length_take]; omega
  have hylen : y.length = j - i := by rw [← hydef, List.length_drop, List.length_take]; omega
  have hs : s = x ++ (y ++ s.drop j) := by
    rw [← hxdef, ← hydef, ← List.append_assoc]
    conv_lhs => rw [← List.take_append_drop j s]
    congr 1
    conv_lhs => rw [← List.take_append_drop i (s.take j)]
    rw [List.take_take, Nat.min_eq_left hij]
  have hex := extent_terminated (d := d) x
  have hey := extent_terminated (d := d) y
  rw [hx, List.length_nil] at hex
  -- the lines of the text: those in front of `i`, those up to `j`, and the others
  have hterm : terminated d s = terminated d x ++ (terminated d y ++
      terminated d (unterminated d y ++ s.drop j)) := by
    rw [hs, terminated_append_of_unterminated_eq_nil hx, terminated_append y, ← hs]
  rw [linesBetween, hterm, spans_append, spans_append, List.filter_append, List.filter_append]
  have hfront : (spans 0 (terminated d x)).filter
      (fun q => i ≤ q.1 ∧ q.1 + q.2.length + 1 ≤ j) = [] := by
    rw [List.filter_eq_nil_iff]
    intro q hq
    have := spans_bounds hq
    simp only [decide_eq_true_eq]
    omega
  have hinside : (spans (0 + extent (terminated d x)) (terminated d y)).filter
      (fun q => i ≤ q.1 ∧ q.1 + q.2.length + 1 ≤ j) =
      spans (0 + extent (terminated d x)) (terminated d y) := by
    rw [List.filter_eq_self]
    intro q hq
    have := spans_bounds hq
    simp only [decide_eq_true_eq]
    omega
  have hback : (spans (0 + extent (terminated d x) + extent (terminated d y))
      (terminated d (unterminated d y ++ s.drop j))).filter
      (fun q => i ≤ q.1 ∧ q.1 + q.2.length + 1 ≤ j) = [] := by
    rw [List.filter_eq_nil_iff]
    intro q hq
    have := spans_beyond (notMem_unterminated y) _ hq
    simp only [decide_eq_true_eq]
    omega
  rw [hfront, hinside, hback, List.nil_append, List.append_nil, map_snd_spans]

end EdgeScope.Text
