import EdgeScope.Text.PlaceMarkers

/-!
# Templates that are filled in step by step

A template has numbered slots with literal text between them. Each step replaces the markers of the
lowest number, wherever they are, so a text filled in earlier is filled in again where it
holds markers.
-/

namespace EdgeScope.Markers
open MarkerAlphabet

variable {α : Type*} [MarkerAlphabet α] {a s t u v : List α} {args : List (List α)} {m n : ℕ}

/-- A text whose end takes no part in a marker. -/
def Closed (s : List α) : Prop := ∃ c, s.getLast? = some c ∧ c ≠ mark ∧ digit c = none

theorem closed_iff : Closed s ↔ ∃ u c, s = u ++ [c] ∧ c ≠ mark ∧ digit c = none := by
  simp only [Closed, List.getLast?_eq_some_iff]
  constructor
  · rintro ⟨c, ⟨u, hs⟩, hc⟩
    exact ⟨u, c, hs, hc⟩
  · rintro ⟨u, c, hs, hc⟩
    exact ⟨c, ⟨u, hs⟩, hc⟩

theorem closed_append (u : List α) (h : Closed v) : Closed (u ++ v) := by
  obtain ⟨c, hc, hclosed⟩ := h
  exact ⟨c, by rw [List.getLast?_append, hc]; rfl, hclosed⟩

/-- A text that does not begin with a mark. -/
def Opens (a : List α) : Prop := ∃ c, a.head? = some c ∧ c ≠ mark

/-- A text that forms no marker of its own. -/
def Unmarked (a : List α) : Prop := a ≠ [] ∧ mark ∉ a

theorem Unmarked.opens (h : Unmarked a) : Opens a := by
  obtain ⟨hne, hmark⟩ := h
  cases a with
  | nil => exact absurd rfl hne
  | cons c a => exact ⟨c, rfl, fun hc => hmark (hc ▸ List.mem_cons_self)⟩

theorem opens_of_digitAt {d : ℕ} (h : digitAt a = some d) : Opens a := by
  obtain ⟨c, z, rfl, hc⟩ := digitAt_eq_some_iff.mp h
  refine ⟨c, rfl, ?_⟩
  rintro rfl
  rw [digit_mark] at hc
  cases hc

theorem digitAt_of_not_opens (h : ¬ Opens a) : digitAt a = none := by
  cases a with
  | nil => rfl
  | cons c a =>
    by_cases hc : c = mark
    · rw [hc]
      exact digit_mark
    · exact absurd ⟨c, rfl, hc⟩ h

variable [DecidableEq α]

instance (s : List α) : Decidable (Closed s) :=
  match h : s.getLast? with
  | none => isFalse fun ⟨_, hc, _⟩ => by simp [h] at hc
  | some c => decidable_of_iff (c ≠ mark ∧ digit c = none) (by simp [Closed, h])

instance (a : List α) : Decidable (Unmarked a) :=
  inferInstanceAs (Decidable (_ ∧ _))

theorem markers_closed_append (h : Closed u) (v : List α) :
    markers (u ++ v) = markers u ++ markers v := by
  obtain ⟨u, c, rfl, hmark, hdigit⟩ := closed_iff.mp h
  have hlast : digitAt (c :: v) = none := hdigit
  have hsingle : digitAt [c] = none := hdigit
  rw [List.append_assoc, List.singleton_append, markers_append u hlast, markers_append u hsingle,
    markers_cons_of_ne hmark, markers_cons_of_ne hmark, markers_nil, List.append_nil]

/-- A function that fills in one text, as far as it is documented: while there is a marker, the
markers of the lowest number are replaced. -/
structure ArgFunction (α : Type*) [MarkerAlphabet α] [DecidableEq α] where
  apply : List α → List α → List α
  apply_eq : ∀ {s : List α} {n : ℕ} (a : List α), lowest s = some n → apply s a = replace n a s

namespace ArgFunction

/-- A text without a marker is left as it is. -/
def documented : ArgFunction α where
  apply s a :=
    match lowest s with
    | none => s
    | some n => replace n a s
  apply_eq a h := by rw [h]

def fill (arg : ArgFunction α) (s : List α) (args : List (List α)) : List α :=
  args.foldl arg.apply s

@[simp] theorem fill_nil (arg : ArgFunction α) (s : List α) : arg.fill s [] = s := rfl

@[simp] theorem fill_cons (arg : ArgFunction α) (s a : List α) (args : List (List α)) :
    arg.fill s (a :: args) = arg.fill (arg.apply s a) args := rfl

end ArgFunction

/-- A marker of a template, and the text up to the next one. -/
structure Slot (α : Type*) [MarkerAlphabet α] [DecidableEq α] where
  number : ℕ
  text : List α
  literal : List α
  markerAt_text : markerAt text = some (number, [])
  digitAt_literal : digitAt literal = none
  markers_literal : markers literal = []

/-- The numbers grow, and no slot but the last one can join what is filled in next. -/
def InOrder (slots : List (Slot α)) : Prop :=
  slots.Pairwise fun x y => x.number < y.number ∧ Closed x.literal

instance (slots : List (Slot α)) : Decidable (InOrder slots) :=
  inferInstanceAs (Decidable (List.Pairwise _ _))

def template (slots : List (Slot α)) : List α := slots.flatMap fun slot => slot.text ++ slot.literal

/-- The template with every slot replaced by its own text. -/
def filled : List (Slot α) → List (List α) → List α
  | slot :: slots, a :: args => a ++ (slot.literal ++ filled slots args)
  | _, _ => []

/-- A text all of whose markers have higher numbers than the slots. -/
def Clear (slots : List (Slot α)) (s : List α) : Prop :=
  ∀ m ∈ markers s, ∀ slot ∈ slots, slot.number < m

variable {slot : Slot α} {slots : List (Slot α)}

@[simp] theorem filled_nil (args : List (List α)) : filled ([] : List (Slot α)) args = [] := by
  cases args <;> rfl

theorem Slot.text_ne_nil (slot : Slot α) : slot.text ≠ [] := by
  intro hnil
  have hmarker := slot.markerAt_text
  rw [hnil] at hmarker
  cases hmarker

theorem markers_append_literal (ht : Closed t) (a : List α) (slot : Slot α) :
    markers (t ++ (a ++ slot.literal)) = markers t ++ markers a := by
  rw [markers_closed_append ht, markers_append a slot.digitAt_literal, slot.markers_literal,
    List.append_nil]

theorem template_cons (slot : Slot α) (slots : List (Slot α)) :
    template (slot :: slots) = slot.text ++ (slot.literal ++ template slots) := by
  rw [template, List.flatMap_cons, List.append_assoc]
  rfl

theorem digitAt_template (slots : List (Slot α)) : digitAt (template slots) = none := by
  cases slots with
  | nil => rfl
  | cons slot slots =>
    have hhead := digitAt_of_markerAt slot.markerAt_text
    rw [template_cons, digitAt_append slot.text_ne_nil, hhead]

theorem digitAt_literal_template (slot : Slot α) (slots : List (Slot α)) :
    digitAt (slot.literal ++ template slots) = none :=
  digitAt_append_of_none slot.digitAt_literal (digitAt_template slots)

theorem markerAt_template (slot : Slot α) (slots : List (Slot α)) :
    markerAt (template (slot :: slots)) =
      some (slot.number, slot.literal ++ template slots) := by
  rw [template_cons, markerAt_append slot.text_ne_nil (digitAt_literal_template slot slots),
    slot.markerAt_text]
  rfl

theorem markers_template (slots : List (Slot α)) :
    markers (template slots) = slots.map Slot.number := by
  induction slots with
  | nil => rfl
  | cons slot slots ih =>
    rw [(markerAt_rest (markerAt_template slot slots)).2, markers_append _ (digitAt_template slots),
      slot.markers_literal, ih]
    rfl

theorem InOrder.lt_of_mem (h : InOrder (slot :: slots)) {m : ℕ}
    (hm : m ∈ markers (template slots)) : slot.number < m := by
  rw [markers_template, List.mem_map] at hm
  obtain ⟨next, hnext, rfl⟩ := hm
  exact (List.rel_of_pairwise_cons h hnext).1

theorem markers_front (t : List α) (slots : List (Slot α)) :
    markers (t ++ template slots) = markers t ++ slots.map Slot.number := by
  rw [markers_append t (digitAt_template slots), markers_template]

/-- Where no marker in front is lower, a step fills in the first slot. -/
theorem apply_template (arg : ArgFunction α) (h : InOrder (slot :: slots))
    (ht : ∀ m ∈ markers t, slot.number ≤ m) (a : List α) :
    lowest (t ++ template (slot :: slots)) = some slot.number ∧
      arg.apply (t ++ template (slot :: slots)) a =
        replace slot.number a t ++ (a ++ (slot.literal ++ template slots)) := by
  have hlowest : lowest (t ++ template (slot :: slots)) = some slot.number := by
    rw [lowest, markers_front, List.map_cons, List.min?_eq_some_iff]
    refine ⟨by simp, fun m hm => ?_⟩
    rw [List.mem_append, List.mem_cons, ← markers_template] at hm
    obtain hm | rfl | hm := hm
    · exact ht m hm
    · exact le_rfl
    · exact (h.lt_of_mem hm).le
  have hrest : slot.number ∉ markers (slot.literal ++ template slots) := by
    rw [markers_append _ (digitAt_template slots), slot.markers_literal, List.nil_append]
    exact fun hm => absurd (h.lt_of_mem hm) (lt_irrefl _)
  refine ⟨hlowest, ?_⟩
  rw [arg.apply_eq a hlowest, replace_append _ a t (digitAt_template _),
    replace_of_marker (markerAt_template slot slots), replace_of_notMem hrest]

/-- A lower marker in front takes the step, and the template stays. -/
theorem apply_template_of_lt (arg : ArgFunction α) (h : InOrder (slot :: slots))
    (hm : m ∈ markers t) (hlt : m < slot.number) (a : List α) :
    ∃ n, lowest (t ++ template (slot :: slots)) = some n ∧
      arg.apply (t ++ template (slot :: slots)) a =
        replace n a t ++ template (slot :: slots) := by
  have hmem : m ∈ markers (t ++ template (slot :: slots)) := by
    rw [markers_front]
    exact List.mem_append_left _ hm
  obtain ⟨n, hn⟩ : ∃ n, lowest (t ++ template (slot :: slots)) = some n :=
    Option.isSome_iff_exists.mp (List.isSome_min?_of_mem hmem)
  have hle : n ≤ m := (List.min?_eq_some_iff.mp hn).2 m hmem
  have hrest : n ∉ markers (template (slot :: slots)) := by
    rw [markers_template, List.map_cons, List.mem_cons, ← markers_template]
    rintro (rfl | hmem)
    · omega
    · have := h.lt_of_mem hmem
      omega
  refine ⟨n, hn, ?_⟩
  rw [arg.apply_eq a hn, replace_append n a t (digitAt_template _), replace_of_notMem hrest]

/-- A text that does not end with the last slot of the template. -/
def Finished (slots : List (Slot α)) (s : List α) : Prop :=
  ∀ last, slots.getLast? = some last → ¬ last.text ++ last.literal <:+ s

theorem Finished.tail {s : List α} (h : Finished (slot :: slots) s) : Finished slots s := by
  intro last hlast
  refine h last ?_
  rw [List.getLast?_cons, hlast]
  rfl

/-- Fewer texts than slots leave the last slot. -/
theorem not_finished_of_short (arg : ArgFunction α) (h : InOrder slots)
    (hshort : args.length < slots.length) (t : List α) :
    ¬ Finished slots (arg.fill (t ++ template slots) args) := by
  induction args generalizing slots t with
  | nil =>
    intro hfinished
    obtain ⟨front, last, rfl⟩ := (List.eq_nil_or_concat' slots).resolve_left
      (List.ne_nil_of_length_pos hshort)
    refine hfinished last (by simp) ?_
    rw [ArgFunction.fill_nil, template, List.flatMap_append, List.flatMap_singleton,
      ← List.append_assoc]
    exact List.suffix_append _ _
  | cons a args ih =>
    cases slots with
    | nil => cases hshort
    | cons slot slots =>
      simp only [List.length_cons, Nat.add_lt_add_iff_right] at hshort
      rw [ArgFunction.fill_cons]
      by_cases ht : ∀ m ∈ markers t, slot.number ≤ m
      · rw [(apply_template arg h ht a).2, ← List.append_assoc, ← List.append_assoc]
        exact fun hfinished => ih (List.Pairwise.of_cons h) hshort _ hfinished.tail
      · simp only [not_forall, not_le] at ht
        obtain ⟨m, hm, hlt⟩ := ht
        obtain ⟨n, -, happly⟩ := apply_template_of_lt arg h hm hlt a
        rw [happly]
        exact ih h (hshort.trans (Nat.lt_succ_self _)) (replace n a t)

/-- As many texts as slots fill in the last slot only if the first step fills in the first one. -/
theorem le_of_finished (arg : ArgFunction α) (h : InOrder (slot :: slots))
    (hlength : args.length = slots.length)
    (hfinished : Finished (slot :: slots) (arg.fill (t ++ template (slot :: slots)) (a :: args))) :
    ∀ m ∈ markers t, slot.number ≤ m := by
  by_contra ht
  simp only [not_forall, not_le] at ht
  obtain ⟨m, hm, hlt⟩ := ht
  obtain ⟨n, -, happly⟩ := apply_template_of_lt arg h hm hlt a
  rw [ArgFunction.fill_cons, happly] at hfinished
  exact not_finished_of_short arg h (by simp [hlength]) (replace n a t) hfinished

/-- Texts in front and texts filled in that are clear of the slots stay as they are. -/
theorem fill_of_clear (arg : ArgFunction α) (h : InOrder slots)
    (hlength : args.length = slots.length) (hclosed : Closed t) (ht : Clear slots t)
    (hargs : ∀ a ∈ args, Clear slots a) :
    arg.fill (t ++ template slots) args = t ++ filled slots args := by
  induction slots generalizing t args with
  | nil =>
    obtain rfl := List.length_eq_zero_iff.mp hlength
    rfl
  | cons slot slots ih =>
    obtain _ | ⟨a, args⟩ := args
    · cases hlength
    obtain ⟨ha, hargs⟩ := List.forall_mem_cons.mp hargs
    have hnumber : slot.number ∉ markers t :=
      fun hm => absurd (ht _ hm slot List.mem_cons_self) (lt_irrefl _)
    rw [ArgFunction.fill_cons,
      (apply_template arg h (fun m hm => (ht m hm slot List.mem_cons_self).le) a).2,
      replace_of_notMem hnumber, filled]
    obtain rfl | hne := eq_or_ne slots []
    · obtain rfl := List.length_eq_zero_iff.mp (Nat.succ.inj hlength)
      rfl
    have hliteral : Closed slot.literal := by
      obtain ⟨next, hnext⟩ := List.exists_mem_of_ne_nil slots hne
      exact (List.rel_of_pairwise_cons h hnext).2
    -- the front has grown by a text and a literal, both clear of the slots left
    have hfront : Clear slots (t ++ (a ++ slot.literal)) := by
      intro m hm next hnext
      rw [markers_append_literal hclosed a slot, List.mem_append] at hm
      obtain hm | hm := hm
      · exact ht m hm next (List.mem_cons_of_mem slot hnext)
      · exact ha m hm next (List.mem_cons_of_mem slot hnext)
    have hrest := ih (t := t ++ (a ++ slot.literal)) (List.Pairwise.of_cons h)
      (Nat.succ.inj hlength) (closed_append _ (closed_append _ hliteral)) hfront
      fun b hb m hm next hnext => hargs b hb m hm next (List.mem_cons_of_mem slot hnext)
    simpa only [List.append_assoc] using hrest

/-- The text is the result, or has a mark where the two begin to differ. -/
def Lags (result s : List α) : Prop :=
  s = result ∨ ∃ u c v w, s = u ++ mark :: v ∧ result = u ++ c :: w ∧ c ≠ mark

theorem lags_of_replace {result : List α} (ha : Opens a) (h : Lags result (replace n a s)) :
    Lags result s := by
  by_cases hn : n ∈ markers s
  · obtain ⟨u, t, rest, rfl, hmarker, hreplace⟩ := replace_split hn a
    obtain ⟨z, rfl, -⟩ := markerAt_eq_some_iff.mp hmarker
    obtain ⟨c, hc, hne⟩ := ha
    obtain ⟨b, rfl⟩ := List.head?_eq_some_iff.mp hc
    rw [hreplace, List.cons_append] at h
    obtain rfl | ⟨u', c', v, w, hsplit, rfl, hne'⟩ := h
    · exact .inr ⟨u, c, z, _, rfl, rfl, hne⟩
    · -- the earlier one of the two places counts
      obtain ⟨y, rfl, hy⟩ | ⟨y, rfl, hy⟩ := List.append_eq_append_iff.mp hsplit
      · cases y with
        | nil => exact absurd (List.cons.inj hy).1 hne
        | cons d y =>
          obtain ⟨rfl, -⟩ := List.cons.inj hy
          refine .inr ⟨u, c, z, y ++ c' :: w, rfl, ?_, hne⟩
          rw [List.append_assoc, List.cons_append]
      · cases y with
        | nil => exact absurd (List.cons.inj hy).1.symm hne
        | cons d y =>
          obtain ⟨rfl, -⟩ := List.cons.inj hy
          refine .inr ⟨u', c', y ++ mark :: z, w, ?_, rfl, hne'⟩
          rw [List.append_assoc, List.cons_append]
  · rwa [replace_of_notMem hn] at h

theorem not_lags_replace (hn : n ∈ markers t) (ha : Opens a) (v w : List α) :
    ¬ Lags (t ++ w) (replace n a t ++ v) := by
  obtain ⟨u, t, rest, rfl, hmarker, hreplace⟩ := replace_split hn a
  obtain ⟨z, rfl, -⟩ := markerAt_eq_some_iff.mp hmarker
  obtain ⟨c, hc, hne⟩ := ha
  obtain ⟨b, rfl⟩ := List.head?_eq_some_iff.mp hc
  rw [hreplace]
  simp only [List.append_assoc, List.cons_append]
  rintro (h | ⟨u', c', v', w', hs, hresult, hne'⟩)
  · exact hne (List.cons.inj (List.append_cancel_left h)).1
  · obtain ⟨y, rfl, hy⟩ | ⟨y, rfl, hy⟩ := List.append_eq_append_iff.mp hs
    · rw [List.append_assoc] at hresult
      have hrest := List.append_cancel_left hresult
      cases y with
      | nil => exact hne (List.cons.inj hy).1
      | cons d y => exact hne ((List.cons.inj hy).1.trans (List.cons.inj hrest).1.symm)
    · rw [List.append_assoc] at hresult
      have hrest := List.append_cancel_left hresult
      cases y with
      | nil => exact hne (List.cons.inj hy).1.symm
      | cons d y => exact hne' ((List.cons.inj hrest).1.symm.trans (List.cons.inj hy).1.symm)

/-- Steps with texts without a mark in front only catch up. -/
theorem lags_of_fill (arg : ArgFunction α) (h : InOrder slots) {result : List α}
    (hlength : args.length ≤ slots.length) (hargs : ∀ a ∈ args, Opens a)
    (hlags : Lags result (arg.fill (t ++ template slots) args)) :
    Lags result (t ++ template slots) := by
  induction args generalizing slots t with
  | nil => exact hlags
  | cons a args ih =>
    cases slots with
    | nil => cases hlength
    | cons slot slots =>
      simp only [List.length_cons, Nat.add_le_add_iff_right] at hlength
      obtain ⟨ha, hargs⟩ := List.forall_mem_cons.mp hargs
      rw [ArgFunction.fill_cons] at hlags
      -- whichever marker the step replaces, the text lagged before
      by_cases ht : ∀ m ∈ markers t, slot.number ≤ m
      · obtain ⟨hlowest, happly⟩ := apply_template arg h ht a
        have hstep := arg.apply_eq a hlowest
        rw [happly, ← List.append_assoc, ← List.append_assoc] at hlags
        have hback := ih (List.Pairwise.of_cons h) hlength hargs hlags
        rw [List.append_assoc, List.append_assoc, ← happly, hstep] at hback
        exact lags_of_replace ha hback
      · simp only [not_forall, not_le] at ht
        obtain ⟨m, hm, hlt⟩ := ht
        obtain ⟨n, hlowest, happly⟩ := apply_template_of_lt arg h hm hlt a
        have hstep := arg.apply_eq a hlowest
        rw [happly] at hlags
        have hback := ih h (hlength.trans (Nat.le_succ _)) hargs hlags
        rw [← happly, hstep] at hback
        exact lags_of_replace ha hback

theorem Unmarked.clear (h : Unmarked a) (slots : List (Slot α)) : Clear slots a := by
  intro m hm
  rw [markers_eq_nil_of_notMem h.2] at hm
  cases hm

/-- Texts without a mark are in place at the end only if no marker in front took their place. -/
theorem clear_of_fill (arg : ArgFunction α) (h : InOrder slots)
    (hlength : args.length = slots.length) (hclosed : Closed t) (hargs : ∀ a ∈ args, Unmarked a)
    (hfinished : Finished slots (t ++ filled slots args))
    (hfill : arg.fill (t ++ template slots) args = t ++ filled slots args) : Clear slots t := by
  induction slots generalizing t args with
  | nil => exact fun _ _ _ hslot => absurd hslot List.not_mem_nil
  | cons slot slots ih =>
    obtain _ | ⟨a, args⟩ := args
    · cases hlength
    have hlength' : args.length = slots.length := Nat.succ.inj hlength
    obtain ⟨ha, hargs⟩ := List.forall_mem_cons.mp hargs
    have hle := le_of_finished arg h hlength' (hfill ▸ hfinished)
    have happly := (apply_template arg h hle a).2
    rw [ArgFunction.fill_cons, happly, ← List.append_assoc, ← List.append_assoc] at hfill
    -- a marker of this number in front would have been replaced, and the result shows it
    have hnumber : slot.number ∉ markers t := by
      intro hmem
      have hlags := lags_of_fill arg (List.Pairwise.of_cons h) hlength'.le
        (fun b hb => (hargs b hb).opens) (.inl hfill)
      rw [List.append_assoc, List.append_assoc] at hlags
      exact not_lags_replace hmem ha.opens _ _ hlags
    have hlt : ∀ m ∈ markers t, slot.number < m :=
      fun m hm => lt_of_le_of_ne (hle m hm) fun he => hnumber (he ▸ hm)
    obtain rfl | hne := eq_or_ne slots []
    · intro m hm next hnext
      rw [List.mem_singleton.mp hnext]
      exact hlt m hm
    have hliteral : Closed slot.literal := by
      obtain ⟨next, hnext⟩ := List.exists_mem_of_ne_nil slots hne
      exact (List.rel_of_pairwise_cons h hnext).2
    have hsame : t ++ filled (slot :: slots) (a :: args) =
        t ++ a ++ slot.literal ++ filled slots args := by
      simp only [filled, List.append_assoc]
    rw [replace_of_notMem hnumber, hsame] at hfill
    have hrest := ih (List.Pairwise.of_cons h) hlength' (closed_append (t ++ a) hliteral) hargs
      (hsame ▸ hfinished.tail) hfill
    intro m hm next hnext
    obtain rfl | hnext := List.mem_cons.mp hnext
    · exact hlt m hm
    · refine hrest m ?_ next hnext
      rw [List.append_assoc, markers_closed_append hclosed]
      exact List.mem_append_left _ hm

/-- What is left of markers up to the last number begins with the first digit of the last text. -/
theorem leads_of_mem_markers_fill (arg : ArgFunction α) {last : Slot α} {b : List α}
    (h : InOrder (slots ++ [last])) (hlength : args.length = slots.length)
    (hlast : 10 ≤ last.number) (hb : Unmarked b)
    (hfinished : Finished (slots ++ [last])
      (arg.fill (t ++ template (slots ++ [last])) (args ++ [b])))
    (hm : m ∈ markers (arg.fill (t ++ template (slots ++ [last])) (args ++ [b])))
    (hle : m ≤ last.number) : ∃ d, digitAt b = some d ∧ Leads d m := by
  induction slots generalizing t args with
  | nil =>
    obtain rfl := List.length_eq_zero_iff.mp hlength
    simp only [List.nil_append, ArgFunction.fill_cons, ArgFunction.fill_nil] at hm hfinished
    -- only the last step can leave a new marker: no lower one is there before it
    have hmin : ∀ k ∈ markers t, last.number ≤ k :=
      le_of_finished arg h (rfl : List.length [] = List.length []) hfinished
    obtain ⟨hlowest, happly⟩ := apply_template arg h hmin b
    rw [arg.apply_eq b hlowest] at hm
    have hfloor (k : ℕ) (hk : k ∈ markers (t ++ template [last])) : last.number ≤ k :=
      (List.min?_eq_some_iff.mp hlowest).2 k hk
    obtain ⟨hm, hne⟩ | hm | hm := mem_markers_replace (fun k hk _ => hlast.trans (hfloor k hk))
      (by simp [markers_eq_nil_of_notMem hb.2]) (.inr ⟨hb.2, hb.1⟩) hm
    · exact absurd (le_antisymm hle (hfloor m hm)) hne
    · rw [markers_eq_nil_of_notMem hb.2] at hm
      cases hm
    · exact hm
  | cons slot slots ih =>
    obtain _ | ⟨a, args⟩ := args
    · cases hlength
    rw [List.cons_append] at h hm hfinished
    rw [List.cons_append] at hm hfinished
    have hlength' : args.length = slots.length := Nat.succ.inj hlength
    have hmin := le_of_finished arg h (by simp [hlength']) hfinished
    have happly := (apply_template arg h hmin a).2
    rw [ArgFunction.fill_cons, happly, ← List.append_assoc, ← List.append_assoc] at hm hfinished
    exact ih (List.Pairwise.of_cons h) hlength' hfinished.tail hm

theorem mem_of_markerAt (h : markerAt s = some (m, [])) :
    mark ∈ s ∧ ∀ c ∈ s, c = mark ∨ digit c ≠ none := by
  obtain ⟨z, rfl, hnumber⟩ := markerAt_eq_some_iff.mp h
  refine ⟨List.mem_cons_self, ?_⟩
  obtain ⟨d, z, k, rfl, hd, ⟨-, -, rfl⟩ | ⟨e, he, -, hrest⟩⟩ := numberAt_eq_some_iff.mp hnumber
  · simp [hd]
  · obtain ⟨c, z, rfl, hc⟩ := digitAt_eq_some_iff.mp he
    obtain rfl : z = [] := hrest
    simp [hd, hc]

theorem not_suffix_of_markerAt (h : markerAt s = some (m, [])) (hclosed : Closed t)
    (hb : Unmarked a) : ¬ s <:+ t ++ a := by
  obtain ⟨hmark, hall⟩ := mem_of_markerAt h
  obtain ⟨u, c, rfl, hc, hdigit⟩ := closed_iff.mp hclosed
  intro hsuffix
  have hnot : c ∉ s := fun hmem => (hall c hmem).elim hc fun hsome => hsome hdigit
  rw [List.append_assoc, List.singleton_append] at hsuffix
  -- the marker would lie in the text, which has no mark, or reach the closing character
  obtain hshort | hlong := List.suffix_or_suffix_of_suffix hsuffix (List.suffix_append u (c :: a))
  · obtain he | hmem := List.mem_cons.mp (hshort.subset hmark)
    · exact hc he.symm
    · exact hb.2 hmem
  · exact hnot (hlong.subset List.mem_cons_self)

theorem closed_filled (h : InOrder (slots ++ [slot])) (hne : slots ≠ [])
    (hlength : args.length = slots.length) : Closed (filled slots args) := by
  induction slots generalizing args with
  | nil => exact absurd rfl hne
  | cons next slots ih =>
    obtain _ | ⟨a, args⟩ := args
    · cases hlength
    rw [List.cons_append] at h
    have hliteral : Closed next.literal :=
      (List.rel_of_pairwise_cons h (List.mem_append_right slots List.mem_cons_self)).2
    rw [filled]
    obtain rfl | hne := eq_or_ne slots []
    · rw [filled_nil, List.append_nil]
      exact closed_append a hliteral
    · exact closed_append a (closed_append _ (ih (List.Pairwise.of_cons h) hne
        (Nat.succ.inj hlength)))

theorem filled_concat (hlength : args.length = slots.length) (last : Slot α) (b : List α) :
    filled (slots ++ [last]) (args ++ [b]) = filled slots args ++ (b ++ last.literal) := by
  induction slots generalizing args with
  | nil =>
    obtain rfl := List.length_eq_zero_iff.mp hlength
    simp [filled]
  | cons slot slots ih =>
    obtain _ | ⟨a, args⟩ := args
    · cases hlength
    simp only [List.cons_append, filled, ih (Nat.succ.inj hlength), List.append_assoc]

/-- A template that ends with its last slot is finished with a text without a mark there. -/
theorem finished_filled {last : Slot α} {b : List α} (h : InOrder (slots ++ [last]))
    (hlength : args.length = slots.length) (hclosed : Closed t) (hliteral : last.literal = [])
    (hb : Unmarked b) :
    Finished (slots ++ [last]) (t ++ filled (slots ++ [last]) (args ++ [b])) := by
  intro final hfinal
  obtain rfl : last = final := by simpa using hfinal
  have hfront : Closed (t ++ filled slots args) := by
    obtain rfl | hne := eq_or_ne slots []
    · obtain rfl := List.length_eq_zero_iff.mp hlength
      rwa [filled_nil, List.append_nil]
    · exact closed_append t (closed_filled h hne hlength)
  rw [filled_concat hlength, hliteral, List.append_nil, List.append_nil, ← List.append_assoc]
  exact not_suffix_of_markerAt last.markerAt_text hfront hb

end EdgeScope.Markers
