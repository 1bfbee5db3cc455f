import EdgeScope.Text.Numerals

/-!
# What trimming leaves

White space at either end makes no difference, and what is left has none there.
-/

namespace EdgeScope.Text

section While

variable {α : Type*} {p : α → Bool} {x y : List α} {a : α}

theorem rdropWhile_append_of_pos (h : ∀ b ∈ y, p b = true) :
    (x ++ y).rdropWhile p = x.rdropWhile p := by
  rw [List.rdropWhile, List.rdropWhile, List.reverse_append,
    List.dropWhile_append_of_pos fun b hb => h b (List.mem_reverse.mp hb)]

end While

theorem trim_surround {blank blank' : Bytes} (h : IsBlank blank) (h' : IsBlank blank') (s : Bytes) :
    trim (blank ++ s ++ blank') = trim s := by
  rw [trim, trim, List.append_assoc, List.dropWhile_append_of_pos h, List.dropWhile_append]
  split
  · rename_i hempty
    have hblank' : blank'.dropWhile isSpace = [] := List.dropWhile_eq_nil_iff.mpr h'
    rw [List.isEmpty_iff.mp hempty, hblank']
  · exact rdropWhile_append_of_pos h'

theorem IsBlank.append {s t : Bytes} (hs : IsBlank s) (ht : IsBlank t) : IsBlank (s ++ t) :=
  fun b hb => (List.mem_append.mp hb).elim (hs b) (ht b)

theorem trim_append_blank {blank : Bytes} (h : IsBlank blank) (s : Bytes) :
    trim (s ++ blank) = trim s := by
  simpa using trim_surround isBlank_nil h s

theorem trim_blank_append {blank : Bytes} (h : IsBlank blank) (s : Bytes) :
    trim (blank ++ s) = trim s := by
  simpa using trim_surround h isBlank_nil s

/-- A string with no white space at its ends. -/
def IsTrimmed (s : Bytes) : Prop := Ends isSpace s ∧ Ends isSpace s.reverse

theorem trim_of_isTrimmed {s : Bytes} (h : IsTrimmed s) : trim s = s := by
  have hleft : s.dropWhile isSpace = s := dropWhile_append_of_head (x := []) (by simp) h.1
  have hright : s.reverse.dropWhile isSpace = s.reverse :=
    dropWhile_append_of_head (x := []) (by simp) h.2
  rw [trim, hleft, List.rdropWhile, hright, List.reverse_reverse]

/-- A string is its trimmed part between white space. -/
theorem exists_surround_trim (s : Bytes) : ∃ blank blank', IsBlank blank ∧ IsBlank blank' ∧
    s = blank ++ trim s ++ blank' := by
  refine ⟨s.takeWhile isSpace, (s.dropWhile isSpace).rtakeWhile isSpace,
    fun b hb => List.mem_takeWhile_imp hb, fun b hb => List.mem_rtakeWhile_imp hb, ?_⟩
  rw [trim, List.append_assoc, List.rdropWhile_append_rtakeWhile, List.takeWhile_append_dropWhile]

theorem ends_dropWhile (p : Byte → Bool) (s : Bytes) : Ends p (s.dropWhile p) := by
  intro b hb
  have hhead := List.head?_dropWhile_not p s
  rw [hb] at hhead
  simpa using hhead

/-- A separator that is no white space keeps what surrounds it apart. -/
theorem trim_separator {a : Byte} (ha : isSpace a = false) (x y : Bytes) :
    ∃ x' y', trim (x ++ a :: y) = x' ++ a :: y' ∧ trim x' = trim x ∧ trim y' = trim y ∧
      Ends isSpace x' ∧ ∀ b, b ∈ x' → b ∈ x := by
  refine ⟨x.dropWhile isSpace, y.rdropWhile isSpace, ?_, ?_, ?_, ends_dropWhile isSpace x,
    fun b hb => (List.dropWhile_suffix _).subset hb⟩
  · have hsplit : x ++ a :: y = x.takeWhile isSpace ++ (x.dropWhile isSpace ++
        a :: y.rdropWhile isSpace) ++ y.rtakeWhile isSpace := by
      rw [List.append_assoc, List.append_assoc, List.cons_append,
        List.rdropWhile_append_rtakeWhile, ← List.append_assoc, List.takeWhile_append_dropWhile]
    rw [hsplit, trim_surround (fun b hb => List.mem_takeWhile_imp hb)
      (fun b hb => List.mem_rtakeWhile_imp hb)]
    apply trim_of_isTrimmed
    constructor
    · cases hx : x.dropWhile isSpace with
      | nil => simpa using ha
      | cons b x' =>
        have := ends_dropWhile isSpace x
        rw [hx] at this
        simpa using this
    · rw [List.rdropWhile, List.reverse_append, List.reverse_cons, List.reverse_reverse]
      cases hy : y.reverse.dropWhile isSpace with
      | nil => simpa using ha
      | cons b y' =>
        have := ends_dropWhile isSpace y.reverse
        rw [hy] at this
        simpa using this
  · conv_rhs => rw [← List.takeWhile_append_dropWhile (p := isSpace) (l := x)]
    rw [trim_blank_append fun b hb => List.mem_takeWhile_imp hb]
  · conv_rhs => rw [← List.rdropWhile_append_rtakeWhile (p := isSpace) (l := y)]
    rw [trim_append_blank fun b hb => List.mem_rtakeWhile_imp hb]

end EdgeScope.Text
