import EdgeScope.Agent.ServiceOperands
import EdgeScope.Text.Table

/-!
# The names the validator accepts

The position of the suffix is compared with the length minus 8, in `std::size_t`. For seven
bytes this is `npos`, the answer of a search that has failed; for fewer bytes it is no position
at all.
-/

namespace EdgeScope
open Text

namespace AgentConfig

structure IsServiceUnit (name : Bytes) : Prop where
  nonempty : 1 ≤ name.length
  short : name.length ≤ 128
  bytes : ∀ b ∈ name, isServiceNameByte b = true
  ending : ascii ".service" <:+ name

/-- The suffix occurs at the end at the earliest. -/
def EndsAtFirst (name : Bytes) : Prop :=
  ∀ i, i + 8 < name.length → ¬ ascii ".service" <+: name.drop i

theorem suffix_iff_prefix_drop {needle s : Bytes} :
    needle <:+ s ↔ needle.length ≤ s.length ∧ needle <+: s.drop (s.length - needle.length) := by
  constructor
  · intro h
    refine ⟨h.length_le, ?_⟩
    rw [← List.suffix_iff_eq_drop.mp h]
  · rintro ⟨hle, hpre⟩
    rw [hpre.eq_of_length (by rw [List.length_drop]; omega)]
    exact List.drop_suffix _ _

/-- The search answers the length minus 8 when the name ends with the suffix and has it nowhere
before. -/
theorem find_service_iff {name : Bytes} (h : 8 ≤ name.length) :
    find (ascii ".service") name = some (name.length - 8) ↔
      ascii ".service" <:+ name ∧ EndsAtFirst name := by
  have hlength : (ascii ".service").length = 8 := by decide
  constructor
  · intro hfind
    obtain ⟨hat, hfirst⟩ := find_eq_some hfind
    refine ⟨suffix_iff_prefix_drop.mpr ⟨by omega, by rwa [hlength]⟩, ?_⟩
    intro i hi
    exact hfirst i (by omega)
  · rintro ⟨hsuffix, hfirst⟩
    cases hfind : find (ascii ".service") name with
    | none => exact absurd hsuffix.isInfix (find_eq_none_iff.mp hfind)
    | some i =>
      obtain ⟨hat, hbefore⟩ := find_eq_some hfind
      have hle := hat.length_le
      rw [List.length_drop, hlength] at hle
      have hend := (suffix_iff_prefix_drop.mp hsuffix).2
      rw [hlength] at hend
      have hnotbefore : ¬ name.length - 8 < i := fun hlt => hbefore _ hlt hend
      have hnotearlier : ¬ i + 8 < name.length := fun hlt => hfirst i hlt hat
      rw [show i = name.length - 8 by omega]

/-- Below eight bytes only the length 7 has `npos` for its difference to 8. -/
theorem find_service_short {name : Bytes} (h : name.length < 8) :
    (find (ascii ".service") name).getD npos = (name.length + wordSize - 8) % wordSize ↔
      name.length = 7 := by
  have hnone : find (ascii ".service") name = none := by
    rw [find_eq_none_iff]
    intro hinfix
    have hle := hinfix.length_le
    rw [show (ascii ".service").length = 8 by decide] at hle
    omega
  rw [hnone, Option.getD_none]
  unfold npos wordSize
  omega

theorem find_service_long {name : Bytes} (h : 8 ≤ name.length) (hshort : name.length ≤ 128) :
    (find (ascii ".service") name).getD npos = (name.length + wordSize - 8) % wordSize ↔
      find (ascii ".service") name = some (name.length - 8) := by
  have hword : (name.length + wordSize - 8) % wordSize = name.length - 8 := by
    unfold wordSize
    omega
  rw [hword]
  cases find (ascii ".service") name with
  | none =>
    simp only [Option.getD_none, reduceCtorEq, iff_false]
    unfold npos wordSize
    omega
  | some i => simp

theorem isValidServiceName_iff (name : Bytes) : isValidServiceName name = true ↔
    (∀ b ∈ name, isServiceNameByte b = true) ∧ (name.length = 7 ∨
      8 ≤ name.length ∧ name.length ≤ 128 ∧ ascii ".service" <:+ name ∧ EndsAtFirst name) := by
  have hunfold : isValidServiceName name = true ↔ (name ≠ [] ∧ name.length ≤ 128 ∧
      (find (ascii ".service") name).getD npos = (name.length + wordSize - 8) % wordSize) ∧
        ∀ b ∈ name, isServiceNameByte b = true := by
    unfold isValidServiceName
    rw [← List.all_eq_true]
    split
    · rename_i hbad
      simp only [Bool.false_eq_true, false_iff]
      rintro ⟨⟨hne, hshort, hfind⟩, -⟩
      obtain h | h | h := hbad
      · exact hne h
      · omega
      · exact h hfind
    · rename_i hgood
      push Not at hgood
      simp [hgood]
  rw [hunfold, and_comm, and_congr_right_iff]
  intro _
  obtain hlong | hlong := Nat.lt_or_ge name.length 8
  · rw [find_service_short hlong]
    -- the search fails, and npos is the wrapped size at seven bytes only
    constructor
    · rintro ⟨-, -, h⟩
      exact .inl h
    · rintro (h | ⟨h, -⟩)
      · exact ⟨fun hnil => by simp [hnil] at h, by omega, h⟩
      · omega
  · constructor
    · rintro ⟨-, hshort, h⟩
      rw [find_service_long hlong hshort, find_service_iff hlong] at h
      exact .inr ⟨hlong, hshort, h⟩
    · rintro (h | ⟨-, hshort, h⟩)
      · omega
      · refine ⟨fun hnil => by simp [hnil] at hlong, hshort, ?_⟩
        rw [find_service_long hlong hshort, find_service_iff hlong]
        exact h

theorem valid_of_load {path : Bytes} {text : Option Bytes} {config : AgentConfig}
    (h : load path text = .ok config) :
    ∀ name ∈ config.allowedServices, isValidServiceName name = true := by
  refine load_rule (P := fun c => ∀ name ∈ c.allowedServices, isValidServiceName name = true)
    (by decide) (fun hparsed hsetting => ?_) h
  obtain hsame | ⟨-, hvalid⟩ := (loadSetting_cases hsetting).2
  · rw [hsame]
    exact hparsed
  · exact hvalid

theorem trim_of_notSpace {s : Bytes} (h : ∀ b ∈ s, isSpace b = false) : trim s = s := by
  have hleft : s.dropWhile isSpace = s := by
    rw [List.dropWhile_eq_self_iff]
    intro hpos
    simp [h _ (List.getElem_mem hpos)]
  unfold trim
  rw [hleft, List.rdropWhile_eq_self_iff]
  intro hne
  simp [h _ (List.getLast_mem hne)]

theorem isSpace_of_isServiceNameByte {b : Byte} (h : isServiceNameByte b = true) :
    isSpace b = false := by
  by_contra hspace
  simp only [isSpace, Bool.not_eq_false, Bool.or_eq_true, Bool.and_eq_true,
    decide_eq_true_eq] at hspace
  have hchars (c : Char) (hc : b = charByte c) (hrange : 32 < (charByte c).toNat) : False := by
    rw [hc] at hspace
    omega
  simp only [isServiceNameByte, isAlnum, isDigit, Bool.or_eq_true, Bool.and_eq_true,
    decide_eq_true_eq] at h
  obtain ((((((h | h) | h) | h) | h) | h) | h) := h
  · omega
  · omega
  · omega
  · exact hchars '-' h (by decide)
  · exact hchars '_' h (by decide)
  · exact hchars '.' h (by decide)
  · exact hchars '@' h (by decide)

theorem ne_nil_of_isValidServiceName {name : Bytes} (h : isValidServiceName name = true) :
    name ≠ [] := by
  rintro rfl
  simp [isValidServiceName] at h

def servicesSetting (names : List Bytes) : Bytes :=
  ascii "allowed_services=" ++ [charByte ','].intercalate names

section Setting

variable {names : List Bytes} (hvalid : ∀ name ∈ names, isValidServiceName name = true)

include hvalid

theorem splitServices_intercalate : splitServices ([charByte ','].intercalate names) = names := by
  have hcomma : ∀ name ∈ names, charByte ',' ∉ name := fun name hname h =>
    absurd (bytes_of_isValidServiceName (hvalid name hname) _ h) (by decide)
  have hne : ∀ name ∈ names, name ≠ [] := fun name hname =>
    ne_nil_of_isValidServiceName (hvalid name hname)
  have htrim : names.map trim = names := by
    conv_rhs => rw [← List.map_id names]
    refine List.map_congr_left fun name hname => trim_of_notSpace fun b hb => ?_
    exact isSpace_of_isServiceNameByte (bytes_of_isValidServiceName (hvalid name hname) b hb)
  rw [splitServices, getlines_intercalate hcomma hne, htrim]
  exact List.filter_eq_self.mpr fun name hname => by simpa using hne name hname

theorem notSpace_intercalate : ∀ b ∈ [charByte ','].intercalate names, isSpace b = false := by
  intro b hb
  by_contra hspace
  rw [Bool.not_eq_false] at hspace
  refine notMem_intercalate (t := charByte ',') ?_ (fun name hname h => ?_) hb
  · rintro rfl
    exact absurd hspace (by decide)
  · have hname' := isSpace_of_isServiceNameByte
      (bytes_of_isValidServiceName (hvalid name hname) b h)
    exact absurd (hspace.symm.trans hname') (by decide)

theorem load_services (path : Bytes) : load path (some (servicesSetting names)) =
    .ok { default with allowedServices := names } := by
  have hlist := notSpace_intercalate hvalid
  have hkey : (ascii "allowed_services=").all (!isSpace ·) = true := by decide
  have hspace : ∀ b ∈ servicesSetting names, isSpace b = false := by
    intro b hb
    obtain hb | hb := List.mem_append.mp hb
    · simpa using List.all_eq_true.mp hkey b hb
    · exact hlist b hb
  have hnewline : newline ∉ servicesSetting names := by
    intro h
    exact absurd (hspace _ h) (by decide)
  have hne : servicesSetting names ≠ [] := List.append_ne_nil_of_left_ne_nil (by decide) _
  have hcomment : (servicesSetting names).head? ≠ some (charByte '#') := by
    simp [servicesSetting, ascii, charByte]
  have hline : loadLine 1 (servicesSetting names) default = loadSetting 1
      (ascii "allowed_services") ([charByte ','].intercalate names) default := by
    have hfind : findChar (charByte '=') (servicesSetting names) = some 16 := rfl
    have htake : (servicesSetting names).take 16 = ascii "allowed_services" := rfl
    have hdrop : (servicesSetting names).drop (16 + 1) = [charByte ','].intercalate names := rfl
    unfold loadLine
    simp only [trim_of_notSpace hspace, hne, hcomment, or_self, if_false, hfind, htake, hdrop,
      trim_of_notSpace hlist]
    rw [show trim (ascii "allowed_services") = ascii "allowed_services" by decide]
  have hall : names.all isValidServiceName = true := List.all_eq_true.mpr hvalid
  unfold load
  simp only
  rw [getlines_of_notMem hnewline, if_neg hne, loadLines, hline]
  unfold loadSetting
  rw [if_neg (by decide), if_neg (by decide), if_neg (by decide), if_neg (by decide),
    if_pos rfl, splitServices_intercalate hvalid, if_pos hall]
  rfl

end Setting

/-- The names that are loaded from a text are those of service units exactly when none of them
has seven bytes, and any names of service units in which the suffix occurs only at the end can be
loaded. -/
theorem loaded_names_iff (path : Bytes) :
    (∀ (text : Bytes) (config : AgentConfig), load path (some text) = .ok config →
      ((∀ name ∈ config.allowedServices, IsServiceUnit name) ↔
        ∀ name ∈ configuredServices text, name.length ≠ 7)) ∧
    ∀ names, (∀ name ∈ names, IsServiceUnit name ∧ EndsAtFirst name) →
      load path (some (servicesSetting names)) =
        .ok { default with allowedServices := names } := by
  constructor
  · intro text config hload
    rw [← load_allowedServices hload]
    refine forall₂_congr fun name hname => ?_
    have hvalid := valid_of_load hload name hname
    obtain ⟨hbytes, hcases⟩ := (isValidServiceName_iff name).mp hvalid
    constructor
    · intro hunit
      have hle := hunit.ending.length_le
      rw [show (ascii ".service").length = 8 by decide] at hle
      omega
    · intro hseven
      obtain h | ⟨hlong, hshort, hsuffix, -⟩ := hcases
      · exact absurd h hseven
      · exact ⟨by omega, hshort, hbytes, hsuffix⟩
  · intro names hnames
    refine load_services (fun name hname => ?_) path
    obtain ⟨hunit, hfirst⟩ := hnames name hname
    have hle := hunit.ending.length_le
    rw [show (ascii ".service").length = 8 by decide] at hle
    exact (isValidServiceName_iff name).mpr
      ⟨hunit.bytes, .inr ⟨hle, hunit.short, hunit.ending, hfirst⟩⟩

theorem loaded_names_two_services :
    let names := [ascii "ssh.service", ascii "getty@tty1.service"]
    (∀ name ∈ names, IsServiceUnit name) ∧
      load [] (some (servicesSetting names)) = .ok { default with allowedServices := names } := by
  intro names
  have hunits := ((loaded_names_iff []).1
    (ascii "allowed_services=ssh.service, getty@tty1.service\n")
    { default with allowedServices := names } (by decide +kernel)).mpr (by decide)
  refine ⟨hunits, (loaded_names_iff []).2 names fun name hname => ⟨hunits name hname, ?_⟩⟩
  intro i hi
  obtain rfl | rfl := List.mem_pair.mp hname
  · have hbefore : ∀ j < 3, ¬ ascii ".service" <+: (ascii "ssh.service").drop j := by decide
    rw [show (ascii "ssh.service").length = 11 by decide] at hi
    exact hbefore i (by omega)
  · have hbefore : ∀ j < 10, ¬ ascii ".service" <+: (ascii "getty@tty1.service").drop j := by
      decide
    rw [show (ascii "getty@tty1.service").length = 18 by decide] at hi
    exact hbefore i (by omega)

theorem loaded_names_seven_bytes :
    ∃ config, load [] (some (ascii "allowed_services=network\n")) = .ok config ∧
      ascii "network" ∈ config.allowedServices ∧ ¬ IsServiceUnit (ascii "network") := by
  refine ⟨_, rfl, by decide, fun hunit => ?_⟩
  exact absurd hunit.ending.length_le (by decide)

end AgentConfig
end EdgeScope
