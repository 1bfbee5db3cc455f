import EdgeScope.Agent.ServiceManager
import EdgeScope.Text.Search

/-!
# Runs of `systemctl`

`PosixServiceCommandRunner` collects what its child writes, read by read, up to 64 KiB, and
`ListServices` looks for the properties of a service in that text.
-/

namespace EdgeScope
open Text

namespace PosixServiceCommandRunner

def kMaximumOutputBytes : ℕ := 64 * 1024
def kBufferBytes : ℕ := 4096

/-- The results of the reads from the pipe before the first that is empty or fails. -/
structure PipeReads where
  reads : List Bytes
  positive : ∀ data ∈ reads, 0 < data.length
  bounded : ∀ data ∈ reads, data.length ≤ kBufferBytes

inductive ChildStatus
  | exited (code : ℕ)
  | other
  deriving DecidableEq

/-- What the system does during a run. A call that fails has the text of its error. -/
structure RunEnvironment where
  pipeFails : Option Bytes
  forkFails : Option Bytes
  output : PipeReads
  status : ChildStatus

/-- The loop over the reads, which ends when the limit is reached. -/
def readLoop : List Bytes → Bytes → Bytes
  | [], output => output
  | data :: reads, output =>
    let remaining := kMaximumOutputBytes - output.length
    let output := output ++ data.take (min data.length remaining)
    if kMaximumOutputBytes ≤ output.length then output else readLoop reads output

def exitCode : ChildStatus → ℤ
  | .exited code => code
  | .other => -1

def run (env : RunEnvironment) : Except Bytes CommandResult :=
  match env.pipeFails with
  | some message => .error (ascii "pipe failed: " ++ message)
  | none =>
    match env.forkFails with
    | some message => .error (ascii "fork failed: " ++ message)
    | none => .ok ⟨exitCode env.status, readLoop env.output.reads []⟩

/-- The runner of a `ServiceManager` that is given none. -/
def runner (system : ℕ → List Bytes → RunEnvironment) : ServiceCommandRunner :=
  fun n arguments => run (system n arguments)

/-- However the text is cut into reads, its first 64 KiB are collected. -/
theorem readLoop_eq (reads : List Bytes) {output : Bytes}
    (h : output.length ≤ kMaximumOutputBytes) :
    readLoop reads output = (output ++ reads.flatten).take kMaximumOutputBytes := by
  induction reads generalizing output with
  | nil => rw [readLoop, List.flatten_nil, List.append_nil, List.take_of_length_le h]
  | cons data reads ih =>
    have hpart : data.take (min data.length (kMaximumOutputBytes - output.length)) =
        data.take (kMaximumOutputBytes - output.length) :=
      List.take_eq_take_iff.mpr (by omega)
    have htake : (output ++ data).take kMaximumOutputBytes =
        output ++ data.take (kMaximumOutputBytes - output.length) := by
      rw [List.take_append, List.take_of_length_le h]
    rw [readLoop, List.flatten_cons, ← List.append_assoc]
    simp only [hpart, ← htake]
    have hlength : ((output ++ data).take kMaximumOutputBytes).length =
        min kMaximumOutputBytes (output ++ data).length := List.length_take
    split
    · -- the limit lies in this read, and what follows it is not collected
      have hfull : kMaximumOutputBytes ≤ (output ++ data).length := by omega
      exact (List.take_append_of_le_length hfull).symm
    · have hroom : (output ++ data).length ≤ kMaximumOutputBytes := by omega
      rw [List.take_of_length_le hroom, ih hroom]

end PosixServiceCommandRunner

namespace ServiceManager
open PosixServiceCommandRunner

structure ShownProperty where
  key : Bytes
  value : Bytes
  plain : charByte '=' ∉ key
  single : newline ∉ key ∧ newline ∉ value

def ShownProperty.line (p : ShownProperty) : Bytes := p.key ++ charByte '=' :: p.value

def propertiesText (properties : List ShownProperty) : Bytes :=
  properties.flatMap fun p => p.line ++ [newline]

def shownValue (properties : List ShownProperty) (key : Bytes) : Bytes :=
  match properties.find? fun p => p.key = key with
  | none => []
  | some p => p.value

theorem getlines_propertiesText (properties : List ShownProperty) :
    getlines newline (propertiesText properties) = properties.map ShownProperty.line := by
  induction properties with
  | nil => rfl
  | cons p properties ih =>
    have hline : newline ∉ p.line := by
      simp only [ShownProperty.line, List.mem_append, List.mem_cons, not_or]
      exact ⟨p.single.1, by decide, p.single.2⟩
    rw [propertiesText, List.flatMap_cons, List.append_assoc, List.singleton_append,
      getlines_append_cons hline, ← propertiesText, ih, List.map_cons]

theorem isPrefixOf_line {key : Bytes} (hkey : charByte '=' ∉ key) (p : ShownProperty) :
    (key ++ ascii "=").isPrefixOf p.line = decide (p.key = key) := by
  rw [Bool.eq_iff_iff, List.isPrefixOf_iff_prefix, decide_eq_true_eq]
  constructor
  · rintro ⟨rest, hrest⟩
    have hsplit : p.key ++ charByte '=' :: p.value = key ++ charByte '=' :: rest := by
      rw [← ShownProperty.line, ← hrest, List.append_assoc]
      rfl
    have hfind := congrArg (findChar (charByte '=')) hsplit
    rw [findChar_separator p.plain, findChar_separator hkey, Option.some.injEq] at hfind
    exact (List.append_inj hsplit hfind).1
  · rintro rfl
    exact ⟨p.value, by rw [ShownProperty.line, List.append_assoc]; rfl⟩

theorem valueFor_propertiesText (properties : List ShownProperty) {key : Bytes}
    (hkey : charByte '=' ∉ key) :
    valueFor (propertiesText properties) key = shownValue properties key := by
  unfold valueFor shownValue
  simp only [getlines_propertiesText]
  induction properties with
  | nil => rfl
  | cons p properties ih =>
    rw [List.map_cons, List.find?_cons, isPrefixOf_line hkey, List.find?_cons]
    by_cases hp : p.key = key
    · have hline : p.line = (p.key ++ ascii "=") ++ p.value := by
        rw [ShownProperty.line, List.append_assoc]
        rfl
      simp only [hp, decide_true]
      rw [hline, hp, List.drop_left]
    · simp only [hp, decide_false]
      exact ih

/-- What is reported of a service whose properties have been shown. -/
def reported (name : Bytes) (status : ChildStatus) (properties : List ShownProperty) :
    ServiceInfo :=
  let value := shownValue properties
  if status = .exited 0 ∧ value (ascii "LoadState") ≠ [] then
    ⟨name, value (ascii "Description"), value (ascii "LoadState"), value (ascii "ActiveState"),
      value (ascii "SubState")⟩
  else
    ⟨name, value (ascii "Description"), ascii "unavailable", ascii "unknown", ascii "unknown"⟩

theorem serviceInfo_eq_reported (name : Bytes) (status : ChildStatus)
    (properties : List ShownProperty) :
    serviceInfo name ⟨exitCode status, propertiesText properties⟩ =
      reported name status properties := by
  have hexit : exitCode status ≠ 0 ↔ status ≠ .exited 0 := by
    cases status with
    | exited code => simp [exitCode]
    | other => simp [exitCode]
  have hvalue {key : Bytes} (hkey : charByte '=' ∉ key) :=
    valueFor_propertiesText properties hkey
  simp only [serviceInfo, reported, hvalue (show charByte '=' ∉ ascii "LoadState" by decide),
    hvalue (show charByte '=' ∉ ascii "Description" by decide),
    hvalue (show charByte '=' ∉ ascii "ActiveState" by decide),
    hvalue (show charByte '=' ∉ ascii "SubState" by decide), hexit]
  by_cases hstatus : status = .exited 0
  · by_cases hload : shownValue properties (ascii "LoadState") = []
    · rw [if_pos (.inr hload), if_neg fun h => h.2 hload]
    · rw [if_neg (by simp [hstatus, hload]), if_pos ⟨hstatus, hload⟩]
  · rw [if_pos (.inl hstatus), if_neg fun h => hstatus h.1]

/-- A run that starts, and whose child writes this text in whatever reads. -/
structure Writes (env : RunEnvironment) (text : Bytes) : Prop where
  pipe : env.pipeFails = none
  fork : env.forkFails = none
  text : env.output.reads.flatten = text

theorem run_of_writes {env : RunEnvironment} {text : Bytes} (h : Writes env text)
    (hfits : text.length ≤ kMaximumOutputBytes) : run env = .ok ⟨exitCode env.status, text⟩ := by
  have hread := readLoop_eq env.output.reads
    (show ([] : Bytes).length ≤ kMaximumOutputBytes from Nat.zero_le _)
  rw [List.nil_append, h.text, List.take_of_length_le hfits] at hread
  simp only [run, h.pipe, h.fork, hread]

theorem listLoop_runs {runner : ServiceCommandRunner} {names : List Bytes}
    {infos : ℕ → Bytes → ServiceInfo} (n : ℕ) (services : List ServiceInfo)
    (h : ∀ i name, names[i]? = some name → ∃ result,
      runner (n + i) (showArguments name) = .ok result ∧
        serviceInfo name result = infos (n + i) name) :
    listLoop runner n names services = ⟨names.map showArguments,
      .ok (services ++ names.mapIdx fun i name => infos (n + i) name)⟩ := by
  induction names generalizing n services with
  | nil => simp [listLoop]
  | cons name names ih =>
    obtain ⟨result, hresult, hinfo⟩ := h 0 name rfl
    have hrest := ih (n + 1) (services ++ [infos n name])
      fun i name' hname' => by
        rw [Nat.add_assoc, Nat.add_comm 1]
        exact h (i + 1) name' hname'
    rw [Nat.add_zero] at hresult hinfo
    rw [listLoop, hresult]
    simp only [hinfo, hrest, List.map_cons, List.mapIdx_cons, Nat.add_zero, List.append_assoc,
      List.singleton_append, Nat.add_assoc, Nat.add_comm 1]

theorem listLoop_fails {runner : ServiceCommandRunner} {error : Bytes} {name : Bytes}
    {front back : List Bytes} (n : ℕ) (services : List ServiceInfo)
    (hfront : ∀ i name', front[i]? = some name' →
      ∃ result, runner (n + i) (showArguments name') = .ok result)
    (h : runner (n + front.length) (showArguments name) = .error error) :
    listLoop runner n (front ++ name :: back) services =
      ⟨(front ++ [name]).map showArguments, .error error⟩ := by
  induction front generalizing n services with
  | nil =>
    rw [List.length_nil, Nat.add_zero] at h
    rw [List.nil_append, listLoop, h]
    rfl
  | cons name' front ih =>
    obtain ⟨result, hresult⟩ := hfront 0 name' rfl
    rw [Nat.add_zero] at hresult
    have hrest := ih (n + 1) (services ++ [serviceInfo name' result])
      (fun i name'' hname'' => by
        have hnext := hfront (i + 1) name'' hname''
        rwa [Nat.add_comm i, ← Nat.add_assoc] at hnext)
      (by rwa [List.length_cons, Nat.add_comm front.length, ← Nat.add_assoc] at h)
    rw [List.cons_append, listLoop, hresult]
    simp only [hrest, List.cons_append, List.map_cons]

/-- Every service of the whitelist is reported, in order, with the properties that its run has
shown: in any order of the lines and cut into any reads. A run that cannot be made, for want of
a pipe or a process, leaves no report at all, and no service behind it is asked for. -/
theorem listServices_shows (allowedServices : List Bytes)
    (system : ℕ → List Bytes → RunEnvironment) (properties : ℕ → List ShownProperty)
    (hfits : ∀ n, (propertiesText (properties n)).length ≤ kMaximumOutputBytes) :
    ((∀ n name, allowedServices[n]? = some name →
        Writes (system n (showArguments name)) (propertiesText (properties n))) →
      listServices allowedServices (runner system) =
        ⟨allowedServices.map showArguments, .ok (allowedServices.mapIdx fun n name =>
          reported name (system n (showArguments name)).status (properties n))⟩) ∧
    ∀ front name back message, allowedServices = front ++ name :: back →
      (∀ n name', front[n]? = some name' →
        Writes (system n (showArguments name')) (propertiesText (properties n))) →
      let env := system front.length (showArguments name)
      (env.pipeFails = some message →
        listServices allowedServices (runner system) =
          ⟨(front ++ [name]).map showArguments, .error (ascii "pipe failed: " ++ message)⟩) ∧
      (env.pipeFails = none → env.forkFails = some message →
        listServices allowedServices (runner system) =
          ⟨(front ++ [name]).map showArguments, .error (ascii "fork failed: " ++ message)⟩) := by
  have hrun {n : ℕ} {name : Bytes}
      (h : Writes (system n (showArguments name)) (propertiesText (properties n))) :
      runner system n (showArguments name) =
        .ok ⟨exitCode (system n (showArguments name)).status, propertiesText (properties n)⟩ :=
    run_of_writes h (hfits n)
  constructor
  · intro hwrites
    let infos (n : ℕ) (name : Bytes) : ServiceInfo :=
      reported name (system n (showArguments name)).status (properties n)
    have hloop := listLoop_runs 0 [] (show ∀ n name, allowedServices[n]? = some name →
      ∃ result, runner system (0 + n) (showArguments name) = .ok result ∧
        serviceInfo name result = infos (0 + n) name from
      fun n name hname => by
        rw [Nat.zero_add]
        exact ⟨_, hrun (hwrites n name hname), serviceInfo_eq_reported ..⟩)
    simp only [Nat.zero_add, List.nil_append] at hloop
    exact hloop
  · rintro front name back message rfl hwrites env
    have hfails {error : Bytes}
        (h : runner system front.length (showArguments name) = .error error) :
        listServices (front ++ name :: back) (runner system) =
          ⟨(front ++ [name]).map showArguments, .error error⟩ := by
      refine listLoop_fails 0 [] (fun n name' hname' => ?_) (by rwa [Nat.zero_add])
      rw [Nat.zero_add]
      exact ⟨_, hrun (hwrites n name' hname')⟩
    constructor
    · intro hpipe
      refine hfails ?_
      simp only [runner, run, env] at hpipe ⊢
      rw [hpipe]
    · intro hpipe hfork
      refine hfails ?_
      simp only [runner, run, env] at hpipe hfork ⊢
      rw [hpipe, hfork]

def shownProperties : List ShownProperty :=
  [⟨ascii "LoadState", ascii "loaded", by decide, by decide⟩,
    ⟨ascii "ActiveState", ascii "a=b", by decide, by decide⟩,
    ⟨ascii "Description", ascii "A service", by decide, by decide⟩]

/-- Their text in two reads, the first of which ends inside a key. -/
def shownEnvironment : RunEnvironment where
  pipeFails := none
  forkFails := none
  output := ⟨[(propertiesText shownProperties).take 21, (propertiesText shownProperties).drop 21],
    by decide, by decide +kernel⟩
  status := .exited 0

theorem listServices_shows_one :
    (listServices [ascii "a.service"] (runner fun _ _ => shownEnvironment)).result =
      .ok [⟨ascii "a.service", ascii "A service", ascii "loaded", ascii "a=b", []⟩] := by
  have hwrites : Writes shownEnvironment (propertiesText shownProperties) := by
    refine ⟨rfl, rfl, ?_⟩
    simp [shownEnvironment]
  have hfits : (propertiesText shownProperties).length ≤ kMaximumOutputBytes := by decide
  rw [(listServices_shows [ascii "a.service"] (fun _ _ => shownEnvironment)
    (fun _ => shownProperties) fun _ => hfits).1 fun _ _ _ => hwrites]
  decide

end ServiceManager
end EdgeScope
