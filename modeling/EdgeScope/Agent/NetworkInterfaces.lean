import EdgeScope.Agent.NetworkCollector
import EdgeScope.Store.Grouping
import EdgeScope.Text.Extraction

/-!
# The interfaces of the host

`getifaddrs` lists an interface once for each of its addresses, in any order. `GetInterfaces`
collects the entries of a name in a `std::map`, and adds the counters and the state that the
kernel shows under `/sys/class/net`.
-/

namespace EdgeScope.NetworkCollector
open Store Text

inductive SocketAddress
  | inet (address : Bytes)
  | inet6 (address : Bytes)
  | other

structure IfAddrs where
  name : Option Bytes
  address : Option SocketAddress

/-- The answer of `getifaddrs`, or the text of its error, and the files that can be read. -/
structure InterfaceHost where
  ifAddrs : Except Bytes (List IfAddrs)
  readFile : Bytes → Except Errno Bytes

def readTextFile (file : Except Errno Bytes) : Bytes :=
  match file with
  | .error _ => []
  | .ok contents => (getlines newline contents).headD []

def readCounter (file : Except Errno Bytes) : ℕ :=
  match file with
  | .error _ => 0
  | .ok contents =>
    match scanUInt64 contents with
    | none => 0
    | some (value, _) => value

def emptyInterface : NetworkInterfaceInfo := ⟨[], [], [], 0, 0, []⟩

def shownIpv4 (inetNtop : InetNtop) (entry : IfAddrs) : Option Bytes :=
  match entry.address with
  | some (.inet address) => inetNtop false address
  | _ => none

def shownIpv6 (inetNtop : InetNtop) (entry : IfAddrs) : Option Bytes :=
  match entry.address with
  | some (.inet6 address) => inetNtop true address
  | _ => none

def addEntry (inetNtop : InetNtop) (entry : IfAddrs) (interface : NetworkInterfaceInfo) :
    NetworkInterfaceInfo :=
  { interface with
    name := entry.name.getD []
    ipv4Addresses := interface.ipv4Addresses ++ (shownIpv4 inetNtop entry).toList
    ipv6Addresses := interface.ipv6Addresses ++ (shownIpv6 inetNtop entry).toList }

/-- The name of an interface has no slash. -/
def basePath (name : Bytes) : Bytes := ascii "/sys/class/net/" ++ name

def addStatistics (readFile : Bytes → Except Errno Bytes) (interface : NetworkInterfaceInfo) :
    NetworkInterfaceInfo :=
  let base := basePath interface.name
  let state := readTextFile (readFile (base ++ ascii "/operstate"))
  { interface with
    rxBytes := readCounter (readFile (base ++ ascii "/statistics/rx_bytes"))
    txBytes := readCounter (readFile (base ++ ascii "/statistics/tx_bytes"))
    state := if state = [] then ascii "unknown" else state }

def getInterfaces (inetNtop : InetNtop) (host : InterfaceHost) :
    Except Bytes (List NetworkInterfaceInfo) :=
  match host.ifAddrs with
  | .error message => .error (ascii "getifaddrs failed: " ++ message)
  | .ok entries =>
    let byName := group IfAddrs.name (addEntry inetNtop) emptyInterface
      (compare : Bytes → Bytes → Ordering) entries
    .ok (byName.toList.map fun pair => addStatistics host.readFile pair.2)

/-- The file begins with the number, or is none of which anything can be read. -/
def CounterIs (file : Except Errno Bytes) (value : ℕ) : Prop :=
  (∃ contents rest, file = .ok contents ∧ BeginsWithNumber value rest contents) ∨
    value = 0 ∧ ¬ ∃ contents value' rest, file = .ok contents ∧
      BeginsWithNumber value' rest contents

/-- The first line of the file, where there is one that is not empty. -/
def StateIs (file : Except Errno Bytes) (state : Bytes) : Prop :=
  (∃ contents, file = .ok contents ∧ state = contents.takeWhile (· ≠ newline) ∧ state ≠ []) ∨
    state = ascii "unknown" ∧
      ∀ contents, file = .ok contents → contents.takeWhile (· ≠ newline) = []

/-- An entry of the interface with an address of the family, which has this text. -/
def HasText (family : Bytes → SocketAddress) (ntop : Bytes → Option Bytes) (name : Bytes)
    (entry : IfAddrs) (text : Bytes) : Prop :=
  entry.name = some name ∧
    ∃ address, entry.address = some (family address) ∧ ntop address = some text

/-- The record has what the list and the files say of the interface it names. -/
structure Describes (inetNtop : InetNtop) (readFile : Bytes → Except Errno Bytes)
    (entries : List IfAddrs) (interface : NetworkInterfaceInfo) : Prop where
  ipv4 : Picks (HasText .inet (inetNtop false) interface.name) entries interface.ipv4Addresses
  ipv6 : Picks (HasText .inet6 (inetNtop true) interface.name) entries interface.ipv6Addresses
  rx : CounterIs (readFile (ascii "/sys/class/net/" ++ interface.name ++
    ascii "/statistics/rx_bytes")) interface.rxBytes
  tx : CounterIs (readFile (ascii "/sys/class/net/" ++ interface.name ++
    ascii "/statistics/tx_bytes")) interface.txBytes
  state : StateIs (readFile (ascii "/sys/class/net/" ++ interface.name ++
    ascii "/operstate")) interface.state

theorem counterIs_iff (file : Except Errno Bytes) (value : ℕ) :
    CounterIs file value ↔ value = readCounter file := by
  unfold CounterIs readCounter
  cases file with
  | error errno => simp
  | ok contents =>
    simp only [Except.ok.injEq, exists_and_left, exists_eq_left', ← scanUInt64_eq_some_iff]
    cases scanUInt64 contents with
    | none => simp
    | some read =>
      obtain ⟨counter, rest⟩ := read
      simp [eq_comm]

theorem stateIs_iff (file : Except Errno Bytes) (state : Bytes) :
    StateIs file state ↔
      state = if readTextFile file = [] then ascii "unknown" else readTextFile file := by
  have hfirst (contents : Bytes) : (getlines newline contents).headD [] =
      contents.takeWhile (· ≠ newline) := by
    by_cases hne : contents = []
    · subst hne
      rfl
    · rw [getlines_eq_cons hne, List.headD_cons]
  unfold StateIs readTextFile
  cases file with
  | error errno => simp
  | ok contents =>
    simp only [Except.ok.injEq, exists_eq_left', forall_eq', hfirst]
    generalize contents.takeWhile (· ≠ newline) = line
    by_cases hline : line = []
    · subst hline
      simp
    · rw [if_neg hline]
      constructor
      · rintro (⟨rfl, -⟩ | ⟨-, h⟩)
        · rfl
        · exact absurd h hline
      · rintro rfl
        exact .inl ⟨rfl, hline⟩

def interfaceOf (inetNtop : InetNtop) (readFile : Bytes → Except Errno Bytes)
    (entries : List IfAddrs) (name : Bytes) : NetworkInterfaceInfo :=
  addStatistics readFile
    { name := name
      ipv4Addresses := (under IfAddrs.name name entries).filterMap (shownIpv4 inetNtop)
      ipv6Addresses := (under IfAddrs.name name entries).filterMap (shownIpv6 inetNtop)
      rxBytes := 0
      txBytes := 0
      state := [] }

theorem picks_hasText {family : Bytes → SocketAddress} {ntop : Bytes → Option Bytes}
    {shown : IfAddrs → Option Bytes}
    (hshown : ∀ entry text, shown entry = some text ↔
      ∃ address, entry.address = some (family address) ∧ ntop address = some text)
    (name : Bytes) (entries : List IfAddrs) (texts : List Bytes) :
    Picks (HasText family ntop name) entries texts ↔
      texts = (under IfAddrs.name name entries).filterMap shown := by
  rw [under, List.filterMap_filter]
  refine picks_iff_filterMap fun entry text => ?_
  rw [HasText, ← hshown]
  by_cases hname : entry.name = some name <;> simp [hname]

theorem describes_iff (inetNtop : InetNtop) (readFile : Bytes → Except Errno Bytes)
    (entries : List IfAddrs) (interface : NetworkInterfaceInfo) :
    Describes inetNtop readFile entries interface ↔
      interface = interfaceOf inetNtop readFile entries interface.name := by
  have hipv4 (entry : IfAddrs) (text : Bytes) : shownIpv4 inetNtop entry = some text ↔
      ∃ address, entry.address = some (.inet address) ∧ inetNtop false address = some text := by
    rcases h : entry.address with _ | ⟨_ | _ | _⟩ <;> simp [shownIpv4, h]
  have hipv6 (entry : IfAddrs) (text : Bytes) : shownIpv6 inetNtop entry = some text ↔
      ∃ address, entry.address = some (.inet6 address) ∧ inetNtop true address = some text := by
    rcases h : entry.address with _ | ⟨_ | _ | _⟩ <;> simp [shownIpv6, h]
  obtain ⟨name, ipv4Addresses, ipv6Addresses, rxBytes, txBytes, state⟩ := interface
  simp only [interfaceOf, addStatistics, basePath, NetworkInterfaceInfo.mk.injEq, true_and,
    ← picks_hasText hipv4, ← picks_hasText hipv6, ← counterIs_iff]
  constructor
  · rintro ⟨h4, h6, hrx, htx, hstate⟩
    exact ⟨h4, h6, hrx, htx, (stateIs_iff _ _).mp hstate⟩
  · rintro ⟨h4, h6, hrx, htx, hstate⟩
    exact ⟨h4, h6, hrx, htx, (stateIs_iff _ _).mpr hstate⟩

theorem foldl_addEntry {inetNtop : InetNtop} {name : Bytes} {entries : List IfAddrs}
    (hname : ∀ entry ∈ entries, entry.name = some name) (hne : entries ≠ [])
    (interface : NetworkInterfaceInfo) :
    entries.foldl (fun interface entry => addEntry inetNtop entry interface) interface =
      { interface with
        name := name
        ipv4Addresses := interface.ipv4Addresses ++ entries.filterMap (shownIpv4 inetNtop)
        ipv6Addresses := interface.ipv6Addresses ++ entries.filterMap (shownIpv6 inetNtop) } := by
  have hcons (f : IfAddrs → Option Bytes) (entry : IfAddrs) (entries : List IfAddrs) :
      (entry :: entries).filterMap f = (f entry).toList ++ entries.filterMap f := by
    cases h : f entry <;> simp [h]
  induction entries generalizing interface with
  | nil => exact absurd rfl hne
  | cons entry entries ih =>
    obtain ⟨hentry, hrest⟩ := List.forall_mem_cons.mp hname
    rw [List.foldl_cons, hcons, hcons]
    cases entries with
    | nil => simp [addEntry, hentry]
    | cons next entries =>
      rw [ih hrest (List.cons_ne_nil _ _)]
      simp only [addEntry, List.append_assoc]

theorem addStatistics_group {inetNtop : InetNtop} {readFile : Bytes → Except Errno Bytes}
    {entries : List IfAddrs} {name : Bytes} (h : ∃ entry ∈ entries, entry.name = some name) :
    addStatistics readFile ((under IfAddrs.name name entries).foldl
      (fun interface entry => addEntry inetNtop entry interface) emptyInterface) =
        interfaceOf inetNtop readFile entries name := by
  have hname : ∀ entry ∈ under IfAddrs.name name entries, entry.name = some name := by
    intro entry hentry
    simpa using (List.mem_filter.mp hentry).2
  have hne : under IfAddrs.name name entries ≠ [] := by
    obtain ⟨entry, hentry, hsome⟩ := h
    exact List.ne_nil_of_mem (List.mem_filter.mpr ⟨hentry, decide_eq_true hsome⟩)
  rw [foldl_addEntry hname hne]
  rfl

theorem map_name_group (inetNtop : InetNtop) (readFile : Bytes → Except Errno Bytes)
    (entries : List IfAddrs) :
    let byName := group IfAddrs.name (addEntry inetNtop) emptyInterface
      (compare : Bytes → Bytes → Ordering) entries
    (byName.toList.map fun pair => addStatistics readFile pair.2).map NetworkInterfaceInfo.name =
      byName.toList.map Prod.fst := by
  intro byName
  rw [List.map_map]
  apply List.map_congr_left
  rintro ⟨name, interface⟩ hpair
  obtain ⟨hentry, rfl⟩ := (mem_group_iff _ _ _).mp hpair
  exact congrArg NetworkInterfaceInfo.name (addStatistics_group hentry)

theorem mem_getInterfaces_iff (inetNtop : InetNtop) (readFile : Bytes → Except Errno Bytes)
    (entries : List IfAddrs) (interface : NetworkInterfaceInfo) :
    interface ∈ (group IfAddrs.name (addEntry inetNtop) emptyInterface
      (compare : Bytes → Bytes → Ordering) entries).toList.map
        (fun pair => addStatistics readFile pair.2) ↔
      (∃ entry ∈ entries, entry.name = some interface.name) ∧
        Describes inetNtop readFile entries interface := by
  rw [describes_iff]
  simp only [List.mem_map, Prod.exists, mem_group_iff]
  constructor
  · rintro ⟨name, _, ⟨hentry, rfl⟩, rfl⟩
    rw [addStatistics_group hentry]
    exact ⟨hentry, rfl⟩
  · rintro ⟨hentry, hinterface⟩
    refine ⟨interface.name, _, ⟨hentry, rfl⟩, ?_⟩
    rw [addStatistics_group hentry, ← hinterface]

/-- Whatever the list of the system, every name on it has exactly one record, which has all that
is to be had of the interface, and the records are in the order of the names. -/
theorem getInterfaces_describes (inetNtop : InetNtop) (host : InterfaceHost) :
    (∀ interfaces, getInterfaces inetNtop host = .ok interfaces ↔
      ∃ entries, host.ifAddrs = .ok entries ∧
        (interfaces.map NetworkInterfaceInfo.name).Pairwise (fun a b => compare a b = .lt) ∧
        (∀ name, name ∈ interfaces.map NetworkInterfaceInfo.name ↔
          ∃ entry ∈ entries, entry.name = some name) ∧
        ∀ interface ∈ interfaces, Describes inetNtop host.readFile entries interface) ∧
    ∀ error, getInterfaces inetNtop host = .error error ↔
      ∃ message, host.ifAddrs = .error message ∧
        error = ascii "getifaddrs failed: " ++ message := by
  unfold getInterfaces
  cases host.ifAddrs with
  | error message => simp [eq_comm]
  | ok entries =>
    refine ⟨fun interfaces => ?_, fun error => by simp⟩
    let byName := group IfAddrs.name (addEntry inetNtop) emptyInterface
      (compare : Bytes → Bytes → Ordering) entries
    have hsorted : ((byName.toList.map fun pair => addStatistics host.readFile pair.2).map
        NetworkInterfaceInfo.name).Pairwise (fun a b => compare a b = .lt) := by
      rw [map_name_group inetNtop host.readFile entries]
      exact List.pairwise_map.mpr Std.TreeMap.ordered_keys_toList
    have hmem := mem_getInterfaces_iff inetNtop host.readFile entries
    simp only [Except.ok.injEq, exists_eq_left']
    constructor
    · rintro rfl
      refine ⟨hsorted, fun name => ?_, fun interface h => ((hmem interface).mp h).2⟩
      constructor
      · intro h
        obtain ⟨interface, hinterface, rfl⟩ := List.mem_map.mp h
        exact ((hmem interface).mp hinterface).1
      · intro h
        have hdescribes : Describes inetNtop host.readFile entries
            (interfaceOf inetNtop host.readFile entries name) := (describes_iff ..).mpr rfl
        exact List.mem_map.mpr ⟨_, (hmem _).mpr ⟨h, hdescribes⟩, rfl⟩
    · rintro ⟨hpairwise, hnames, hdescribes⟩
      refine eq_of_increasing hsorted hpairwise fun interface => (hmem interface).trans ?_
      constructor
      · rintro ⟨hentry, h⟩
        obtain ⟨interface', hinterface', hname⟩ := List.mem_map.mp ((hnames _).mpr hentry)
        have hsame : interface = interface' := by
          rw [(describes_iff ..).mp h, (describes_iff ..).mp (hdescribes interface' hinterface'),
            hname]
        exact hsame ▸ hinterface'
      · intro h
        exact ⟨(hnames _).mp (List.mem_map.mpr ⟨interface, h, rfl⟩), hdescribes interface h⟩

def wireAndLoopback : InterfaceHost where
  ifAddrs := .ok [⟨some (ascii "w"), some (.inet [1])⟩, ⟨none, some (.inet [2])⟩,
    ⟨some (ascii "lo"), some (.inet6 [3])⟩, ⟨some (ascii "w"), none⟩,
    ⟨some (ascii "w"), some (.inet [4])⟩]
  readFile path :=
    if path = ascii "/sys/class/net/w/statistics/rx_bytes" then .ok (ascii "700\n")
    else if path = ascii "/sys/class/net/w/operstate" then .ok (ascii "up\n")
    else .error .enoent

theorem getInterfaces_wire :
    getInterfaces (fun _ address => some address) wireAndLoopback =
      .ok [⟨ascii "lo", [], [[3]], 0, 0, ascii "unknown"⟩,
        ⟨ascii "w", [[1], [4]], [], 700, 0, ascii "up"⟩] := by
  refine ((getInterfaces_describes _ wireAndLoopback).1 _).mpr ⟨_, rfl, by decide, ?_, ?_⟩
  · intro name
    simp [eq_comm]
    tauto
  · simp only [List.forall_mem_cons, List.not_mem_nil, false_implies, implies_true, and_true]
    refine ⟨(describes_iff ..).mpr ?_, (describes_iff ..).mpr ?_⟩ <;> rfl

end EdgeScope.NetworkCollector
