import EdgeScope.Text.Templates

/-!
# Templates with free texts

The last slots of a template get texts without a mark, two slots before them get any texts. The
result is the filled template exactly when no text holds a marker of the template: a text that
does is changed by a later step, and no other step brings its marker back.
-/

namespace EdgeScope.Markers
open MarkerAlphabet

variable {α : Type*} [MarkerAlphabet α] [DecidableEq α]

/-- A text all of whose markers are higher than a number. -/
def Above (n : ℕ) (s : List α) : Prop := ∀ m ∈ markers s, n < m

/-- The slots behind the free texts, with the texts for them. -/
structure Ending (α : Type*) [MarkerAlphabet α] [DecidableEq α] where
  slots : List (Slot α)
  last : Slot α
  args : List (List α)
  text : List α
  length_eq : args.length = slots.length
  literal_eq : last.literal = []
  unmarked : ∀ a ∈ args ++ [text], Unmarked a
  two_digits : 10 ≤ last.number

namespace Ending

variable (e : Ending α) {x y : Slot α} {a b s t v : List α} {m n : ℕ}

def allSlots : List (Slot α) := e.slots ++ [e.last]

def allArgs : List (List α) := e.args ++ [e.text]

theorem length_allArgs : e.allArgs.length = e.allSlots.length := by
  simp [allArgs, allSlots, e.length_eq]

theorem unmarked_text : Unmarked e.text := e.unmarked _ (List.mem_append_right _ (by simp))

theorem last_mem : e.last ∈ e.allSlots := List.mem_append_right _ (by simp)

theorem number_le (h : InOrder e.allSlots) {slot : Slot α} (hslot : slot ∈ e.allSlots) :
    slot.number ≤ e.last.number := by
  obtain hslot | hslot := List.mem_append.mp hslot
  · exact ((List.pairwise_append.mp h).2.2 slot hslot e.last (by simp)).1.le
  · rw [List.mem_singleton.mp hslot]

theorem number_lt (h : InOrder (y :: e.allSlots)) : y.number < e.last.number :=
  (List.rel_of_pairwise_cons h e.last_mem).1

/-- A text above the last number is clear of all slots before it, too. -/
theorem clear_of_above {pre : List (Slot α)} (h : InOrder (pre ++ e.allSlots))
    (hs : Above e.last.number s) : Clear (pre ++ e.allSlots) s := by
  intro m hm slot hslot
  refine lt_of_le_of_lt ?_ (hs m hm)
  obtain hslot | hslot := List.mem_append.mp hslot
  · exact ((List.pairwise_append.mp h).2.2 slot hslot e.last e.last_mem).1.le
  · exact e.number_le (List.pairwise_append.mp h).2.1 hslot

/-- Where all texts are above the last number, each of them is in its place. -/
theorem fill_of_above (pre : List (Slot α)) (pargs : List (List α)) (arg : ArgFunction α)
    (h : InOrder (pre ++ e.allSlots)) (hlength : pargs.length = pre.length) (ht : Closed t)
    (habove : Above e.last.number t) (hpargs : ∀ a ∈ pargs, Above e.last.number a) :
    arg.fill (t ++ template (pre ++ e.allSlots)) (pargs ++ e.allArgs) =
      t ++ filled (pre ++ e.allSlots) (pargs ++ e.allArgs) := by
  refine fill_of_clear arg h (by simp [hlength, e.length_allArgs]) ht
    (e.clear_of_above h habove) ?_
  intro a ha
  obtain ha | ha := List.mem_append.mp ha
  · exact e.clear_of_above h (hpargs a ha)
  · exact (e.unmarked a ha).clear _

theorem finished (h : InOrder e.allSlots) (ht : Closed t) :
    Finished e.allSlots (t ++ filled e.allSlots e.allArgs) :=
  finished_filled h e.length_eq ht e.literal_eq e.unmarked_text

theorem above_of_fill (arg : ArgFunction α) (h : InOrder e.allSlots) (ht : Closed t)
    (hfill : arg.fill (t ++ template e.allSlots) e.allArgs = t ++ filled e.allSlots e.allArgs) :
    Above e.last.number t :=
  fun m hm => clear_of_fill arg h e.length_allArgs ht e.unmarked (e.finished h ht) hfill m hm _
    e.last_mem

section Result

variable (pre : List (Slot α)) (pargs : List (List α))

theorem finished_append (h : InOrder (pre ++ e.allSlots)) (hlength : pargs.length = pre.length)
    (ht : Closed t) :
    Finished (pre ++ e.allSlots) (t ++ filled (pre ++ e.allSlots) (pargs ++ e.allArgs)) := by
  simp only [allSlots, allArgs, ← List.append_assoc] at h ⊢
  exact finished_filled h (by simp [hlength, e.length_eq]) ht e.literal_eq e.unmarked_text

/-- A result that holds a marker of a single digit holds no other one of the template. -/
theorem eq_of_mem_markers (arg : ArgFunction α) (h : InOrder (pre ++ e.allSlots))
    (hlength : pargs.length = pre.length) (ht : Closed t)
    (hfill : arg.fill (t ++ template (pre ++ e.allSlots)) (pargs ++ e.allArgs) =
      t ++ filled (pre ++ e.allSlots) (pargs ++ e.allArgs))
    (hn : n ∈ markers (t ++ filled (pre ++ e.allSlots) (pargs ++ e.allArgs))) (hlt : n < 10)
    (hspread : e.last.number < 10 * n)
    (hm : m ∈ markers (t ++ filled (pre ++ e.allSlots) (pargs ++ e.allArgs)))
    (hle : m ≤ e.last.number) : m = n := by
  have hfinished := e.finished_append pre pargs h hlength ht
  rw [← hfill] at hn hm hfinished
  simp only [allSlots, allArgs, ← List.append_assoc] at h hn hm hfinished
  have hleads {k : ℕ} := leads_of_mem_markers_fill arg (m := k) h (by simp [hlength, e.length_eq])
    e.two_digits e.unmarked_text hfinished
  obtain ⟨d, hd, hpos, hnd⟩ := hleads hn (hlt.le.trans e.two_digits)
  obtain ⟨d', hd', -, hmd⟩ := hleads hm hle
  obtain rfl := Option.some.inj (hd.symm.trans hd')
  omega

end Result

/-- What stands in front of the ending when a result is finished is above the slot before. -/
theorem lt_of_finished (arg : ArgFunction α) (h : InOrder (y :: e.allSlots))
    (hfinished : Finished e.allSlots (arg.fill (t ++ template e.allSlots) e.allArgs))
    (hm : m ∈ markers t) : y.number < m := by
  have hlength := e.length_allArgs
  cases hslots : e.allSlots with
  | nil => simp [allSlots] at hslots
  | cons next slots =>
    cases hargs : e.allArgs with
    | nil => simp [allArgs] at hargs
    | cons a args =>
      rw [hslots] at h hfinished hlength
      rw [hargs] at hfinished hlength
      exact (List.rel_of_pairwise_cons h List.mem_cons_self).1.trans_le
        (le_of_finished arg (List.Pairwise.of_cons h) (Nat.succ.inj hlength) hfinished m hm)

/-- Where only the replaced marker was one of the template, those left begin with a digit of the
text put in. -/
theorem leads_of_replace (hn : n < 10) (ht : ∀ m ∈ markers t, m ≤ e.last.number → m = n)
    (ha : Above e.last.number a) (hm : m ∈ markers (replace n a t)) (hle : m ≤ e.last.number) :
    ∃ d, digitAt a = some d ∧ Leads d m := by
  have hten := e.two_digits
  have hs (k : ℕ) (hk : k ∈ markers t) (hne : k ≠ n) : e.last.number < k :=
    Nat.lt_of_not_le fun hle => hne (ht k hk hle)
  obtain ⟨hm, hne⟩ | hm | hleads := mem_markers_replace
    (fun k hk hne => hten.trans (hs k hk hne).le) (fun k hk => hten.trans (ha k hk).le)
    (.inl hn) hm
  · exact absurd hle (Nat.not_le.mpr (hs m hm hne))
  · exact absurd hle (Nat.not_le.mpr (ha m hm))
  · exact hleads

theorem above_replace (hn : n < 10) (ht : ∀ m ∈ markers t, m ≤ e.last.number → m = n)
    (ha : Above e.last.number a) (hdigit : digitAt a = none) :
    Above e.last.number (replace n a t) := by
  intro m hm
  refine Nat.lt_of_not_le fun hle => ?_
  obtain ⟨d, hd, -⟩ := e.leads_of_replace hn ht ha hm hle
  rw [hdigit] at hd
  cases hd

/-- A replacement that leaves no marker of the template changes a text that holds one. -/
theorem replace_ne (hmem : n ∈ markers t) (hle : n ≤ e.last.number)
    (habove : Above e.last.number (replace n a t)) : replace n a t ≠ t := by
  intro hsame
  rw [hsame] at habove
  exact absurd hle (Nat.not_le.mpr (habove n hmem))

theorem above_append (ht : Closed t) (ha : Above n t) (slot : Slot α) (hb : Above n a) :
    Above n (t ++ (a ++ slot.literal)) := by
  intro m hm
  rw [markers_append_literal ht a slot, List.mem_append] at hm
  exact hm.elim (ha m) (hb m)

theorem closed_replace (n : ℕ) (a : List α) (ht : Closed t) : Closed (replace n a t) := by
  obtain ⟨u, c, rfl, hc, hdigit⟩ := closed_iff.mp ht
  have hsingle : digitAt [c] = none := hdigit
  rw [replace_append n a u hsingle, replace_cons_of_ne hc]
  exact closed_iff.mpr ⟨_, c, rfl, hc, hdigit⟩

theorem mem_markers_result (ht : Closed t) (hliteral : Closed y.literal) (w : List α)
    (hm : m ∈ markers a) : m ∈ markers (t ++ (a ++ (y.literal ++ w))) := by
  have hne : y.literal ≠ [] := by
    intro hnil
    obtain ⟨c, hc, -⟩ := hliteral
    rw [hnil] at hc
    cases hc
  have hnext : digitAt (y.literal ++ w) = none := by
    rw [digitAt_append hne, y.digitAt_literal]
  rw [markers_closed_append ht, markers_append a hnext]
  exact List.mem_append_right _ (List.mem_append_left _ hm)

theorem step_of_one (arg : ArgFunction α) (h : InOrder (y :: e.allSlots)) (ht : Closed t)
    (hfill : arg.fill (t ++ template (y :: e.allSlots)) (a :: e.allArgs) =
      t ++ filled (y :: e.allSlots) (a :: e.allArgs)) :
    arg.fill (replace y.number a t ++ (a ++ y.literal) ++ template e.allSlots) e.allArgs =
        t ++ filled (y :: e.allSlots) (a :: e.allArgs) ∧
      ∀ m ∈ markers a, y.number < m := by
  have hfinished := e.finished_append [y] [a] h rfl ht
  simp only [List.singleton_append] at hfinished
  have hle := le_of_finished arg h e.length_allArgs (hfill ▸ hfinished)
  rw [ArgFunction.fill_cons, (apply_template arg h hle a).2] at hfill
  simp only [← List.append_assoc] at hfill ⊢
  refine ⟨hfill, fun m hm => e.lt_of_finished arg h (hfill ▸ hfinished.tail) ?_⟩
  rw [List.append_assoc, markers_append_literal (closed_replace _ a ht) a y]
  exact List.mem_append_right _ hm

theorem notMem_of_one (arg : ArgFunction α) (h : InOrder (y :: e.allSlots)) (hy : y.number < 10)
    (hspread : e.last.number < 10 * y.number) (ht : Closed t)
    (hfill : arg.fill (t ++ template (y :: e.allSlots)) (a :: e.allArgs) =
      t ++ filled (y :: e.allSlots) (a :: e.allArgs)) : y.number ∉ markers t := by
  intro hmem
  have hrest : InOrder e.allSlots := List.Pairwise.of_cons h
  have hliteral : Closed y.literal := (List.rel_of_pairwise_cons h e.last_mem).2
  obtain ⟨hstep, hlt⟩ := e.step_of_one arg h ht hfill
  have hunique {m : ℕ} := e.eq_of_mem_markers [y] [a] (m := m) arg h rfl ht
    hfill (markers_closed_append ht _ ▸ List.mem_append_left _ hmem) hy hspread
  have ha : Above e.last.number a := by
    intro m hm
    refine Nat.lt_of_not_le fun hle => (hlt m hm).ne' ?_
    exact hunique (mem_markers_result ht hliteral _ hm) hle
  -- a text that opens leaves a difference in front that no later step makes good
  by_cases hopens : Opens a
  · have hlags := lags_of_fill arg hrest e.length_allArgs.le
      (fun b hb => (e.unmarked b hb).opens) (.inl hstep)
    rw [List.append_assoc] at hlags
    exact not_lags_replace hmem hopens _ _ hlags
  · have hreplace := e.above_replace hy
      (fun m hm => hunique (markers_closed_append ht _ ▸ List.mem_append_left _ hm)) ha
      (digitAt_of_not_opens hopens)
    have hclosed := closed_append (replace y.number a t) (closed_append a hliteral)
    have hsettled := e.fill_of_above [] [] arg hrest rfl hclosed
      (above_append (closed_replace _ a ht) hreplace y ha) (by simp)
    simp only [List.nil_append] at hsettled
    rw [hsettled, filled] at hstep
    simp only [← List.append_assoc] at hstep
    have hsame : replace y.number a t = t := by
      simpa only [List.append_assoc, List.append_cancel_right_eq] using hstep
    exact e.replace_ne hmem (e.number_lt h).le hreplace hsame

theorem above_of_one (arg : ArgFunction α) (h : InOrder (y :: e.allSlots)) (hy : y.number < 10)
    (hspread : e.last.number < 10 * y.number) (ht : Closed t)
    (hfill : arg.fill (t ++ template (y :: e.allSlots)) (a :: e.allArgs) =
      t ++ filled (y :: e.allSlots) (a :: e.allArgs)) :
    Above e.last.number (t ++ (a ++ y.literal)) := by
  have hliteral : Closed y.literal := (List.rel_of_pairwise_cons h e.last_mem).2
  have hnumber := e.notMem_of_one arg h hy hspread ht hfill
  obtain ⟨hstep, -⟩ := e.step_of_one arg h ht hfill
  have hresult : t ++ filled (y :: e.allSlots) (a :: e.allArgs) =
      t ++ (a ++ y.literal) ++ filled e.allSlots e.allArgs := by
    simp only [filled, List.append_assoc]
  rw [replace_of_notMem hnumber, hresult] at hstep
  exact e.above_of_fill arg (List.Pairwise.of_cons h) (closed_append t (closed_append a hliteral))
    hstep

theorem step_of_two (arg : ArgFunction α) (h : InOrder (x :: y :: e.allSlots)) (ht : Closed t)
    (hfill : arg.fill (t ++ template (x :: y :: e.allSlots)) (a :: b :: e.allArgs) =
      t ++ filled (x :: y :: e.allSlots) (a :: b :: e.allArgs)) :
    let front := replace x.number a t ++ (a ++ x.literal)
    arg.fill (front ++ template (y :: e.allSlots)) (b :: e.allArgs) =
        t ++ filled (x :: y :: e.allSlots) (a :: b :: e.allArgs) ∧
      arg.fill (replace y.number b front ++ (b ++ y.literal) ++ template e.allSlots) e.allArgs =
        t ++ filled (x :: y :: e.allSlots) (a :: b :: e.allArgs) ∧
      (∀ m ∈ markers a, x.number < m) ∧ ∀ m ∈ markers b, y.number < m := by
  intro front
  have hrest : InOrder (y :: e.allSlots) := List.Pairwise.of_cons h
  have hxy : x.number < y.number := (List.rel_of_pairwise_cons h List.mem_cons_self).1
  have hliteral : Closed x.literal := (List.rel_of_pairwise_cons h List.mem_cons_self).2
  have hclosed : Closed front := closed_append _ (closed_append a hliteral)
  -- a result whose last slot is filled in has wasted no step
  have hfinished := e.finished_append [x, y] [a, b] h rfl ht
  simp only [List.cons_append, List.nil_append] at hfinished
  have hle := le_of_finished arg h (by simp [e.length_allArgs]) (hfill ▸ hfinished)
  have hfirst : arg.fill (front ++ template (y :: e.allSlots)) (b :: e.allArgs) =
      t ++ filled (x :: y :: e.allSlots) (a :: b :: e.allArgs) := by
    rw [← hfill, ArgFunction.fill_cons arg _ a, (apply_template arg h hle a).2]
    simp only [front, List.append_assoc]
  have hle' := le_of_finished arg hrest e.length_allArgs (hfirst ▸ hfinished.tail)
  have hsecond : arg.fill (replace y.number b front ++ (b ++ y.literal) ++ template e.allSlots)
      e.allArgs = t ++ filled (x :: y :: e.allSlots) (a :: b :: e.allArgs) := by
    rw [← hfirst, ArgFunction.fill_cons, (apply_template arg hrest hle' b).2]
    simp only [List.append_assoc]
  refine ⟨hfirst, hsecond, fun m hm => hxy.trans_le (hle' m ?_), fun m hm =>
    e.lt_of_finished arg hrest (hsecond ▸ hfinished.tail.tail) ?_⟩
  · rw [markers_append_literal (closed_replace _ a ht) a x]
    exact List.mem_append_right _ hm
  · rw [markers_append_literal (closed_replace _ b hclosed) b y]
    exact List.mem_append_right _ hm

/-- Once the first step has formed a marker of the second slot, it has formed no other one of the
template. -/
theorem eq_of_mem_front (hx : x.number < 10) (hy : y.number < 10)
    (hspread : e.last.number < 10 * y.number) (hlast : y.number ≤ e.last.number) (ht : Closed t)
    (htx : ∀ m ∈ markers t, m ≤ e.last.number → m = x.number) (ha : Above e.last.number a)
    (hmem : y.number ∈ markers (replace x.number a t ++ (a ++ x.literal))) :
    ∀ m ∈ markers (replace x.number a t ++ (a ++ x.literal)), m ≤ e.last.number →
      m = y.number := by
  have hleads (m : ℕ) (hm : m ∈ markers (replace x.number a t ++ (a ++ x.literal)))
      (hle : m ≤ e.last.number) : ∃ d, digitAt a = some d ∧ Leads d m := by
    rw [markers_append_literal (closed_replace _ a ht) a x, List.mem_append] at hm
    obtain hm | hm := hm
    · exact e.leads_of_replace hx htx ha hm hle
    · exact absurd hle (Nat.not_le.mpr (ha m hm))
  intro m hm hle
  obtain ⟨d, hd, hpos, hyd⟩ := hleads y.number hmem hlast
  obtain ⟨d', hd', -, hmd⟩ := hleads m hm hle
  obtain rfl := Option.some.inj (hd.symm.trans hd')
  omega

/-- A result that holds the marker of the first slot holds no other one of the template. -/
theorem unique_of_two (arg : ArgFunction α) (h : InOrder (x :: y :: e.allSlots))
    (hx : x.number < 10) (hspread : e.last.number < 10 * x.number) (ht : Closed t)
    (hfill : arg.fill (t ++ template (x :: y :: e.allSlots)) (a :: b :: e.allArgs) =
      t ++ filled (x :: y :: e.allSlots) (a :: b :: e.allArgs)) (hmem : x.number ∈ markers t) :
    (∀ m ∈ markers t, m ≤ e.last.number → m = x.number) ∧ Above e.last.number a ∧
      Above e.last.number b := by
  have hxy : x.number < y.number := (List.rel_of_pairwise_cons h List.mem_cons_self).1
  have hxliteral : Closed x.literal := (List.rel_of_pairwise_cons h List.mem_cons_self).2
  have hyliteral : Closed y.literal :=
    (List.rel_of_pairwise_cons (List.Pairwise.of_cons h) e.last_mem).2
  obtain ⟨-, -, hlta, hltb⟩ := e.step_of_two arg h ht hfill
  have hunique {m : ℕ} := e.eq_of_mem_markers [x, y] [a, b] (m := m) arg h rfl ht hfill
    (markers_closed_append ht _ ▸ List.mem_append_left _ hmem) hx hspread
  -- all three texts are parts of the result
  refine ⟨fun m hm hle => ?_, fun m hm => ?_, fun m hm => ?_⟩
  · exact hunique (markers_closed_append ht _ ▸ List.mem_append_left _ hm) hle
  · refine Nat.lt_of_not_le fun hle => (hlta m hm).ne' (hunique ?_ hle)
    exact mem_markers_result ht hxliteral _ hm
  · refine Nat.lt_of_not_le fun hle => (hxy.trans (hltb m hm)).ne' (hunique ?_ hle)
    simp only [List.cons_append, List.nil_append, filled]
    rw [← List.append_assoc a, ← List.append_assoc t]
    exact mem_markers_result (closed_append t (closed_append a hxliteral)) hyliteral _ hm

theorem notMem_of_two (arg : ArgFunction α) (h : InOrder (x :: y :: e.allSlots))
    (hy : y.number < 10) (hspread : e.last.number < 10 * x.number) (ht : Closed t)
    (hfill : arg.fill (t ++ template (x :: y :: e.allSlots)) (a :: b :: e.allArgs) =
      t ++ filled (x :: y :: e.allSlots) (a :: b :: e.allArgs)) : x.number ∉ markers t := by
  intro hmem
  have hrest : InOrder (y :: e.allSlots) := List.Pairwise.of_cons h
  have hending : InOrder e.allSlots := List.Pairwise.of_cons hrest
  have hxy : x.number < y.number := (List.rel_of_pairwise_cons h List.mem_cons_self).1
  have hxliteral : Closed x.literal := (List.rel_of_pairwise_cons h List.mem_cons_self).2
  have hyliteral : Closed y.literal := (List.rel_of_pairwise_cons hrest e.last_mem).2
  have hylast := e.number_lt hrest
  have hxlast : x.number ≤ e.last.number := (hxy.trans hylast).le
  obtain ⟨hfirst, hsecond, -, -⟩ := e.step_of_two arg h ht hfill
  obtain ⟨hta, ha, hb⟩ := e.unique_of_two arg h (hxy.trans hy) hspread ht hfill hmem
  have hclosed : Closed (replace x.number a t ++ (a ++ x.literal)) :=
    closed_append _ (closed_append a hxliteral)
  cases hdigit : digitAt a with
  | none =>
    -- no later step reaches the front, so the result has lost the marker
    have hreplace := e.above_replace (hxy.trans hy) hta ha hdigit
    have hsettled := e.fill_of_above [y] [b] arg hrest rfl hclosed
      (above_append (closed_replace _ a ht) hreplace x ha) (by simpa using hb)
    simp only [List.singleton_append] at hsettled
    rw [hsettled] at hfirst
    have hsame : replace x.number a t = t := by
      simpa only [filled, ← List.append_assoc, List.append_cancel_right_eq] using hfirst
    exact e.replace_ne hmem hxlast hreplace hsame
  | some d =>
    have hopensa := opens_of_digitAt hdigit
    by_cases hopensb : Opens b
    · -- both texts open, so the difference in front stays
      have hopens : ∀ c ∈ b :: e.allArgs, Opens c :=
        List.forall_mem_cons.mpr ⟨hopensb, fun c hc => (e.unmarked c hc).opens⟩
      have hlags := lags_of_fill arg hrest (by simp [e.length_allArgs]) hopens (.inl hfirst)
      rw [List.append_assoc] at hlags
      exact not_lags_replace hmem hopensa _ _ hlags
    by_cases hyfront : y.number ∈ markers (replace x.number a t ++ (a ++ x.literal))
    · -- the second step clears the front, so the result has lost the marker
      have honly := e.eq_of_mem_front (hxy.trans hy) hy (hspread.trans (by omega)) hylast.le ht hta
        ha hyfront
      have hnext := e.above_replace hy honly hb (digitAt_of_not_opens hopensb)
      have hsettled := e.fill_of_above [] [] arg hending rfl
        (closed_append _ (closed_append b hyliteral))
        (above_append (closed_replace _ b hclosed) hnext y hb) (by simp)
      simp only [List.nil_append] at hsettled
      rw [hsettled] at hsecond
      have hsame : replace y.number b (replace x.number a t ++ (a ++ x.literal)) =
          t ++ (a ++ x.literal) := by
        simpa only [filled, ← List.append_assoc, List.append_cancel_right_eq] using hsecond
      rw [hsame] at hnext
      have := hnext x.number (markers_closed_append ht _ ▸ List.mem_append_left _ hmem)
      omega
    · -- the second step leaves the front alone, and so do the others
      rw [replace_of_notMem hyfront] at hsecond
      have hlags := lags_of_fill arg hending e.length_allArgs.le
        (fun c hc => (e.unmarked c hc).opens) (.inl hsecond)
      simp only [List.append_assoc] at hlags
      exact not_lags_replace hmem hopensa _ _ hlags

theorem above_of_two (arg : ArgFunction α) (h : InOrder (x :: y :: e.allSlots))
    (hy : y.number < 10) (hspread : e.last.number < 10 * x.number) (ht : Closed t)
    (hfill : arg.fill (t ++ template (x :: y :: e.allSlots)) (a :: b :: e.allArgs) =
      t ++ filled (x :: y :: e.allSlots) (a :: b :: e.allArgs)) :
    Above e.last.number (t ++ (a ++ x.literal) ++ (b ++ y.literal)) := by
  have hrest : InOrder (y :: e.allSlots) := List.Pairwise.of_cons h
  have hxy : x.number < y.number := (List.rel_of_pairwise_cons h List.mem_cons_self).1
  have hliteral : Closed x.literal := (List.rel_of_pairwise_cons h List.mem_cons_self).2
  have hnumber := e.notMem_of_two arg h hy hspread ht hfill
  obtain ⟨hfirst, -, -, -⟩ := e.step_of_two arg h ht hfill
  have hresult : t ++ filled (x :: y :: e.allSlots) (a :: b :: e.allArgs) =
      t ++ (a ++ x.literal) ++ filled (y :: e.allSlots) (b :: e.allArgs) := by
    simp only [filled, List.append_assoc]
  rw [replace_of_notMem hnumber, hresult] at hfirst
  exact e.above_of_one arg hrest hy (hspread.trans (by omega))
    (closed_append t (closed_append a hliteral)) hfirst

/-- The result is the filled template exactly when no text holds a marker of the template. -/
theorem fill_two_iff (arg : ArgFunction α) (h : InOrder (x :: y :: e.allSlots))
    (hy : y.number < 10) (hspread : e.last.number < 10 * x.number) (ht : Closed t) :
    arg.fill (t ++ template (x :: y :: e.allSlots)) (a :: b :: e.allArgs) =
        t ++ filled (x :: y :: e.allSlots) (a :: b :: e.allArgs) ↔
      Above e.last.number t ∧ Above e.last.number a ∧ Above e.last.number b := by
  constructor
  · intro hfill
    have hliteral : Closed x.literal := (List.rel_of_pairwise_cons h List.mem_cons_self).2
    have habove := e.above_of_two arg h hy hspread ht hfill
    rw [Above, markers_append_literal (closed_append t (closed_append a hliteral)) b y,
      markers_append_literal ht a x] at habove
    simp only [List.mem_append] at habove
    exact ⟨fun m hm => habove m (.inl (.inl hm)), fun m hm => habove m (.inl (.inr hm)),
      fun m hm => habove m (.inr hm)⟩
  · rintro ⟨habove, ha, hb⟩
    exact e.fill_of_above [x, y] [a, b] arg h rfl ht habove
      (by simp [ha, hb])

end Ending

structure Settled (t : List α) : Prop where
  closed : Closed t
  markers_eq : markers t = []

instance (t : List α) : Decidable (Settled t) :=
  decidable_of_iff (Closed t ∧ markers t = []) ⟨fun h => ⟨h.1, h.2⟩, fun h => ⟨h.1, h.2⟩⟩

theorem Settled.append {a t : List α} (ht : Settled t) (ha : Unmarked a) {z : Slot α}
    (hliteral : Closed z.literal) : Settled (t ++ (a ++ z.literal)) where
  closed := closed_append t (closed_append a hliteral)
  markers_eq := by
    rw [markers_append_literal ht.closed a z, ht.markers_eq, markers_eq_nil_of_notMem ha.2]
    rfl

theorem Settled.fill_cons {t : List α} (ht : Settled t) (arg : ArgFunction α) {z : Slot α}
    {slots : List (Slot α)} (h : InOrder (z :: slots)) (c : List α) (args : List (List α)) :
    arg.fill (t ++ template (z :: slots)) (c :: args) =
      arg.fill (t ++ (c ++ z.literal) ++ template slots) args := by
  rw [ArgFunction.fill_cons, (apply_template arg h (by simp [ht.markers_eq]) c).2,
    replace_of_notMem (by simp [ht.markers_eq])]
  simp only [List.append_assoc]

theorem Ending.fill_three_iff (e : Ending α) {x y z : Slot α} {a b c t : List α} (ht : Settled t)
    (arg : ArgFunction α) (h : InOrder (z :: x :: y :: e.allSlots)) (hy : y.number < 10)
    (hspread : e.last.number < 10 * x.number) :
    arg.fill (t ++ template (z :: x :: y :: e.allSlots)) (c :: a :: b :: e.allArgs) =
        t ++ filled (z :: x :: y :: e.allSlots) (c :: a :: b :: e.allArgs) ↔
      Above e.last.number c ∧ Above e.last.number a ∧ Above e.last.number b := by
  have hliteral : Closed z.literal := (List.rel_of_pairwise_cons h List.mem_cons_self).2
  have hresult : t ++ filled (z :: x :: y :: e.allSlots) (c :: a :: b :: e.allArgs) =
      t ++ (c ++ z.literal) ++ filled (x :: y :: e.allSlots) (a :: b :: e.allArgs) := by
    simp only [filled, List.append_assoc]
  have hfront : Above e.last.number (t ++ (c ++ z.literal)) ↔ Above e.last.number c := by
    rw [Above, markers_append_literal ht.closed, ht.markers_eq, List.nil_append]
    rfl
  rw [ht.fill_cons arg h, hresult, e.fill_two_iff arg (List.Pairwise.of_cons h) hy hspread
    (closed_append t (closed_append c hliteral)), hfront]

theorem Settled.replace_append {t : List α} (ht : Settled t) (n : ℕ) (a u : List α) :
    replace n a (t ++ u) = t ++ replace n a u := by
  obtain ⟨v, c, rfl, hc, hdigit⟩ := closed_iff.mp ht.closed
  have hsplit : replace n a (v ++ c :: u) = replace n a v ++ replace n a (c :: u) :=
    Markers.replace_append n a v hdigit
  have hmarkers : markers v ++ markers [c] = [] :=
    (markers_append v (v := [c]) hdigit).symm.trans ht.markers_eq
  have hv : n ∉ markers v := by simp [(List.append_eq_nil_iff.mp hmarkers).1]
  rw [List.append_assoc, List.singleton_append, hsplit, replace_of_notMem hv, replace_cons_of_ne hc,
    List.append_assoc, List.singleton_append]

/-- Whatever texts the steps fill in behind it, a settled front stays. -/
theorem Settled.prefix_fill {t : List α} (ht : Settled t) (arg : ArgFunction α)
    {slots : List (Slot α)} {args : List (List α)} (h : InOrder slots)
    (hlength : args.length ≤ slots.length) (u : List α) :
    t <+: arg.fill (t ++ u ++ template slots) args := by
  induction args generalizing slots u with
  | nil =>
    rw [ArgFunction.fill_nil, List.append_assoc]
    exact List.prefix_append t _
  | cons a args ih =>
    cases slots with
    | nil => cases hlength
    | cons slot slots =>
      simp only [List.length_cons, Nat.add_le_add_iff_right] at hlength
      rw [ArgFunction.fill_cons]
      -- the step replaces a marker behind the front, in the slot or before it
      by_cases hu : ∀ m ∈ markers (t ++ u), slot.number ≤ m
      · rw [(apply_template arg h hu a).2, ht.replace_append]
        have hrest := ih (List.Pairwise.of_cons h) hlength
          (replace slot.number a u ++ (a ++ slot.literal))
        simpa only [List.append_assoc] using hrest
      · simp only [not_forall, not_le] at hu
        obtain ⟨m, hm, hlt⟩ := hu
        obtain ⟨n, -, happly⟩ := apply_template_of_lt arg h hm hlt a
        rw [happly, ht.replace_append]
        exact ih h (hlength.trans (Nat.le_succ _)) (replace n a u)

end EdgeScope.Markers
