import EdgeScope.Agent.TcpRows
import EdgeScope.Store.Grouping

/-!
# The connections of the host and their owners

`ListTcpConnections` reads the tables of the kernel, and then looks for the owner of each socket:
every process directory is scanned for a descriptor that links to the socket. What cannot be read
is passed over.
-/

namespace EdgeScope.NetworkCollector
open Store Text

/-- A `directory_iterator`: it stands at an entry, or it has come to the end or to an error. -/
inductive DirectoryIterator (α : Type)
  | finished
  | failed (errno : Errno)
  | entry (value : α) (next : DirectoryIterator α)

def DirectoryIterator.entries {α : Type} : DirectoryIterator α → List α
  | .finished => []
  | .failed _ => []
  | .entry value next => value :: next.entries

/-- The files of the kernel, the directory `/proc`, and the links of the descriptors in
`/proc/<name>/fd`. -/
structure ConnectionHost where
  tcp : Except Errno Bytes
  tcp6 : Except Errno Bytes
  processes : DirectoryIterator Bytes
  descriptors : Bytes → DirectoryIterator (Except Errno Bytes)

abbrev SocketPidMap := Std.HashMap ℕ ℤ

def processPid (name : Bytes) : Option ℤ :=
  match parseUnsigned name 10 with
  | none => none
  | some pid => if 0 < pid ∧ pid ≤ 2 ^ 31 - 1 then some pid else none

def socketInode (target : Bytes) : Option ℕ :=
  if (ascii "socket:[").isPrefixOf target ∧ target.getLast? = some (charByte ']') then
    parseUnsigned ((target.drop 8).take (target.length - 9)) 10
  else none

/-- The link of a descriptor. `emplace` keeps the process found first. -/
def addLink (pid : ℤ) (link : Except Errno Bytes) (result : SocketPidMap) : SocketPidMap :=
  match link with
  | .error _ => result
  | .ok target =>
    match socketInode target with
    | none => result
    | some inode => result.insertIfNew inode pid

def scanDescriptors (pid : ℤ) :
    DirectoryIterator (Except Errno Bytes) → SocketPidMap → SocketPidMap
  | .finished, result => result
  | .failed _, result => result
  | .entry link next, result => scanDescriptors pid next (addLink pid link result)

def scanProcesses (descriptors : Bytes → DirectoryIterator (Except Errno Bytes)) :
    DirectoryIterator Bytes → SocketPidMap → SocketPidMap
  | .finished, result => result
  | .failed _, result => result
  | .entry name next, result =>
    match processPid name with
    | none => scanProcesses descriptors next result
    | some pid =>
      scanProcesses descriptors next (scanDescriptors pid (descriptors name) result)

def buildSocketPidMap (host : ConnectionHost) : SocketPidMap :=
  scanProcesses host.descriptors host.processes ∅

def emptyConnection : TcpConnectionInfo := ⟨[], [], 0, [], 0, [], 0, 0⟩

def readTcpLines (inetNtop : InetNtop) (ipv6 : Bool) :
    List Bytes → List TcpConnectionInfo → List TcpConnectionInfo
  | [], connections => connections
  | line :: lines, connections =>
    readTcpLines inetNtop ipv6 lines <|
      match parseTcpLine inetNtop line ipv6 emptyConnection with
      | .error _ => connections
      | .ok connection => connections ++ [connection]

def readTcpFile (inetNtop : InetNtop) (path : Bytes) (file : Except Errno Bytes) (ipv6 : Bool)
    (connections : List TcpConnectionInfo) : Except Bytes (List TcpConnectionInfo) :=
  match file with
  | .error _ => .error (ascii "failed to open " ++ path)
  | .ok contents =>
    .ok (readTcpLines inetNtop ipv6 (getlines newline contents).tail connections)

def withOwner (socketPids : SocketPidMap) (connection : TcpConnectionInfo) : TcpConnectionInfo :=
  match socketPids[connection.inode]? with
  | none => connection
  | some pid => { connection with pid := pid }

def listTcpConnections (inetNtop : InetNtop) (host : ConnectionHost) :
    Except Bytes (List TcpConnectionInfo) :=
  match readTcpFile inetNtop (ascii "/proc/net/tcp") host.tcp false [] with
  | .error error => .error error
  | .ok connections =>
    -- a host without the second table has no connections of that family
    let connections :=
      match readTcpFile inetNtop (ascii "/proc/net/tcp6") host.tcp6 true connections with
      | .error _ => connections
      | .ok connections => connections
    .ok (connections.map (withOwner (buildSocketPidMap host)))

def heldBy (pid : ℤ) (links : List (Except Errno Bytes)) : List (ℕ × ℤ) :=
  links.filterMap fun link => (link.toOption.bind socketInode).map (·, pid)

/-- All sockets with the processes that hold them, in the order of the scan. -/
def heldSockets (host : ConnectionHost) : List (ℕ × ℤ) :=
  host.processes.entries.flatMap fun name =>
    match processPid name with
    | none => []
    | some pid => heldBy pid (host.descriptors name).entries

theorem scanDescriptors_eq (pid : ℤ) (links : DirectoryIterator (Except Errno Bytes))
    (result : SocketPidMap) : scanDescriptors pid links result =
      (heldBy pid links.entries).foldl (fun m p => m.insertIfNew p.1 p.2) result := by
  induction links generalizing result with
  | finished => rfl
  | failed errno => rfl
  | entry link next ih =>
    have hcons (links : List (Except Errno Bytes)) : heldBy pid (link :: links) =
        heldBy pid [link] ++ heldBy pid links := by
      rw [heldBy, ← List.singleton_append, List.filterMap_append]
      rfl
    rw [scanDescriptors, ih, DirectoryIterator.entries, hcons, List.foldl_append]
    cases link with
    | error errno => rfl
    | ok target => cases h : socketInode target <;> simp [addLink, heldBy, Except.toOption, h]

theorem scanProcesses_eq (host : ConnectionHost) (processes : DirectoryIterator Bytes)
    (result : SocketPidMap) : scanProcesses host.descriptors processes result =
      (heldSockets { host with processes := processes }).foldl
        (fun m p => m.insertIfNew p.1 p.2) result := by
  induction processes generalizing result with
  | finished => rfl
  | failed errno => rfl
  | entry name next ih =>
    simp only [heldSockets, DirectoryIterator.entries, List.flatMap_cons, List.foldl_append] at ih ⊢
    rw [scanProcesses]
    cases processPid name with
    | none => exact ih result
    | some pid => simp only [ih, scanDescriptors_eq]

theorem getElem?_buildSocketPidMap (host : ConnectionHost) (inode : ℕ) :
    (buildSocketPidMap host)[inode]? = (heldSockets host).lookup inode := by
  rw [buildSocketPidMap, scanProcesses_eq, getElem?_foldl_insertIfNew]
  simp

def NamesPid (name : Bytes) (pid : ℤ) : Prop :=
  IsDigits name ∧ pid = digitsValue name ∧ 0 < pid ∧ pid < 2 ^ 31

def LinksSocket (target : Bytes) (inode : ℕ) : Prop :=
  ∃ digits, target = ascii "socket:[" ++ (digits ++ ascii "]") ∧ IsDigits digits ∧
    digitsValue digits = inode ∧ inode < wordSize

theorem parseUnsigned_ten_iff {text : Bytes} {value : ℕ} : parseUnsigned text 10 = some value ↔
    IsDigits text ∧ digitsValue text = value ∧ value < wordSize := by
  rw [parseUnsigned_eq_some_iff, isRadix_ten_iff]
  refine and_congr_right fun h => ?_
  rw [radixValue_ten h.2]

theorem processPid_eq_some_iff {name : Bytes} {pid : ℤ} :
    processPid name = some pid ↔ NamesPid name pid := by
  unfold processPid
  cases h : parseUnsigned name 10 with
  | none =>
    refine iff_of_false nofun ?_
    rintro ⟨hdigits, hpid, -, hmax⟩
    have hread : parseUnsigned name 10 = some (digitsValue name) :=
      parseUnsigned_ten_iff.mpr ⟨hdigits, rfl, by unfold wordSize; omega⟩
    cases h.symm.trans hread
  | some value =>
    obtain ⟨hdigits, rfl, -⟩ := parseUnsigned_ten_iff.mp h
    simp only [NamesPid, hdigits, true_and, Option.ite_none_right_eq_some, Option.some.injEq]
    constructor
    · rintro ⟨⟨hpos, hmax⟩, rfl⟩
      exact ⟨rfl, by omega, by omega⟩
    · rintro ⟨rfl, hpos, hmax⟩
      exact ⟨⟨by omega, by omega⟩, rfl⟩

theorem socketInode_bracketed (text : Bytes) :
    socketInode (ascii "socket:[" ++ (text ++ ascii "]")) = parseUnsigned text 10 := by
  have hbegins : (ascii "socket:[").isPrefixOf (ascii "socket:[" ++ (text ++ ascii "]")) := by
    rw [List.isPrefixOf_iff_prefix]
    exact List.prefix_append _ _
  have hends : (ascii "socket:[" ++ (text ++ ascii "]")).getLast? = some (charByte ']') := by
    rw [← List.append_assoc, List.getLast?_append]
    rfl
  have hdrop : (ascii "socket:[" ++ (text ++ ascii "]")).drop 8 = text ++ ascii "]" := rfl
  have hlength : (ascii "socket:[" ++ (text ++ ascii "]")).length - 9 = text.length := by
    have hbegin : (ascii "socket:[").length = 8 := rfl
    have hend : (ascii "]").length = 1 := rfl
    simp only [List.length_append, hbegin, hend]
    omega
  rw [socketInode, if_pos ⟨hbegins, hends⟩, hdrop, hlength, List.take_left]

theorem socketInode_eq_some_iff {target : Bytes} {inode : ℕ} :
    socketInode target = some inode ↔ LinksSocket target inode := by
  constructor
  · intro h
    have hread := h
    unfold socketInode at h
    split_ifs at h with hlink
    obtain ⟨hbegins, hlast⟩ := hlink
    obtain ⟨rest, rfl⟩ := List.isPrefixOf_iff_prefix.mp hbegins
    -- the bracket that closes is not the one that opens
    have hrest : rest ≠ [] := by
      rintro rfl
      rw [List.append_nil] at hlast
      revert hlast
      decide
    rw [List.getLast?_append_of_ne_nil _ hrest] at hlast
    obtain ⟨text, rfl⟩ := List.getLast?_eq_some_iff.mp hlast
    rw [show [charByte ']'] = ascii "]" from rfl, socketInode_bracketed] at hread
    exact ⟨text, rfl, parseUnsigned_ten_iff.mp hread⟩
  · rintro ⟨digits, rfl, hdigits⟩
    rw [socketInode_bracketed]
    exact parseUnsigned_ten_iff.mpr hdigits

/-- A process holds a socket where one of its descriptors links to it. -/
theorem mem_heldSockets_iff {host : ConnectionHost} {inode : ℕ} {pid : ℤ} :
    (inode, pid) ∈ heldSockets host ↔ ∃ name ∈ host.processes.entries, NamesPid name pid ∧
      ∃ target, .ok target ∈ (host.descriptors name).entries ∧ LinksSocket target inode := by
  have hheld (holder : ℤ) (links : List (Except Errno Bytes)) :
      (inode, pid) ∈ heldBy holder links ↔
        holder = pid ∧ ∃ target, .ok target ∈ links ∧ LinksSocket target inode := by
    simp only [heldBy, List.mem_filterMap, Option.map_eq_some_iff, Option.bind_eq_some_iff,
      Prod.mk.injEq, ← socketInode_eq_some_iff]
    constructor
    · rintro ⟨link, hlink, found, ⟨target, htarget, hfound⟩, rfl, rfl⟩
      cases link with
      | error errno => cases htarget
      | ok text =>
        cases htarget
        exact ⟨rfl, target, hlink, hfound⟩
    · rintro ⟨rfl, target, hlink, hfound⟩
      exact ⟨_, hlink, inode, ⟨target, rfl, hfound⟩, rfl, rfl⟩
  simp only [heldSockets, List.mem_flatMap, ← processPid_eq_some_iff]
  refine exists_congr fun name => and_congr_right fun _ => ?_
  cases processPid name with
  | none => simp
  | some holder => simp only [hheld, Option.some.injEq]

/-- A line of a table behind its header: a row, or one that has been cut short. -/
inductive TableLine (ipv6 : Bool)
  | row (row : TcpRow ipv6) (line : Bytes) (shows : IsLineOf row.columns line)
      (single : newline ∉ line)
  | short (line : Bytes) (lacks : (scanWords line).length < 10) (single : newline ∉ line)

variable {ipv6 : Bool}

def TableLine.text : TableLine ipv6 → Bytes
  | .row _ line _ _ => line
  | .short line _ _ => line

def TableLine.row? : TableLine ipv6 → Option (TcpRow ipv6)
  | .row shown _ _ _ => some shown
  | .short _ _ _ => none

theorem TableLine.notMem_text (l : TableLine ipv6) : newline ∉ l.text := by
  cases l <;> assumption

structure TcpTable (ipv6 : Bool) where
  header : Bytes
  lines : List (TableLine ipv6)
  single : newline ∉ header

def TcpTable.rows (table : TcpTable ipv6) : List (TcpRow ipv6) :=
  table.lines.filterMap TableLine.row?

def TcpTable.text (table : TcpTable ipv6) : Bytes :=
  table.header ++ newline :: table.lines.flatMap fun l => l.text ++ [newline]

theorem TcpTable.getlines_text (table : TcpTable ipv6) :
    getlines newline table.text = table.header :: table.lines.map TableLine.text := by
  have hlines (lines : List (TableLine ipv6)) :
      getlines newline (lines.flatMap fun l => l.text ++ [newline]) = lines.map TableLine.text := by
    induction lines with
    | nil => rfl
    | cons l lines ih =>
      rw [List.flatMap_cons, List.append_assoc, List.singleton_append,
        getlines_append_cons l.notMem_text, ih, List.map_cons]
  rw [text, getlines_append_cons table.single, hlines]

def TcpRow.connection (inetNtop : InetNtop) (owner : ℕ → Option ℤ) (row : TcpRow ipv6) :
    TcpConnectionInfo where
  protocol := if ipv6 then ascii "tcp6" else ascii "tcp4"
  localAddress := (inetNtop ipv6 row.localEndpoint.address).getD []
  localPort := row.localEndpoint.port.toNat
  remoteAddress := (inetNtop ipv6 row.remoteEndpoint.address).getD []
  remotePort := row.remoteEndpoint.port.toNat
  state := tcpStateName (printDigits 16 2 row.state.toNat)
  inode := row.inode.toNat
  pid := (owner row.inode.toNat).getD 0

def ShowsAddresses (inetNtop : InetNtop) : Prop :=
  ∀ ipv6 (address : Bytes), address.length = (if ipv6 then 16 else 4) →
    (inetNtop ipv6 address).isSome

theorem parseTcpLine_of_isLineOf {inetNtop : InetNtop} (hshows : ShowsAddresses inetNtop)
    {row : TcpRow ipv6} {line : Bytes} (hline : IsLineOf row.columns line) :
    parseTcpLine inetNtop line ipv6 emptyConnection =
      .ok (row.connection inetNtop fun _ => none) := by
  have hread (e : Endpoint ipv6) : parseEndpoint inetNtop e.text ipv6 =
      some ((inetNtop ipv6 e.address).getD [], e.port.toNat) := by
    obtain ⟨shown, hshown⟩ := Option.isSome_iff_exists.mp (hshows ipv6 e.address e.length_address)
    rw [parseEndpoint_eq_some_iff]
    exact ⟨e.address, e.isEndpoint, by rw [hshown]; rfl⟩
  obtain ⟨hcount, hlocal, hremote, hstate, hinode⟩ := row.columns_spec
  rw [parseTcpLine, hline.scanWords_eq]
  simp only [if_neg (not_lt.mpr hcount), hlocal, hremote, hstate, hinode, hread,
    parseUnsigned_decimal row.inode.toNat_lt]
  rfl

theorem readTcpLines_table {inetNtop : InetNtop} (hshows : ShowsAddresses inetNtop)
    (lines : List (TableLine ipv6)) (connections : List TcpConnectionInfo) :
    readTcpLines inetNtop ipv6 (lines.map TableLine.text) connections =
      connections ++ (lines.filterMap TableLine.row?).map
        (TcpRow.connection inetNtop fun _ => none) := by
  induction lines generalizing connections with
  | nil => simp [readTcpLines]
  | cons l lines ih =>
    cases l with
    | row row line hline hsingle =>
      have hread := parseTcpLine_of_isLineOf hshows hline
      simp only [List.map_cons, TableLine.text, readTcpLines, hread, ih, TableLine.row?,
        List.filterMap_cons, List.append_assoc, List.singleton_append]
    | short line hlacks hsingle =>
      have hread : parseTcpLine inetNtop line ipv6 emptyConnection =
          .error (ascii "not enough fields in /proc/net/tcp line") := by
        rw [parseTcpLine]
        exact if_pos hlacks
      simp only [List.map_cons, TableLine.text, readTcpLines, hread, ih, TableLine.row?,
        List.filterMap_cons]

theorem readTcpFile_table {inetNtop : InetNtop} (hshows : ShowsAddresses inetNtop) (path : Bytes)
    (table : TcpTable ipv6) (connections : List TcpConnectionInfo) :
    readTcpFile inetNtop path (.ok table.text) ipv6 connections =
      .ok (connections ++ table.rows.map (TcpRow.connection inetNtop fun _ => none)) := by
  simp only [readTcpFile, table.getlines_text, List.tail_cons, readTcpLines_table hshows,
    TcpTable.rows]

theorem withOwner_connection (inetNtop : InetNtop) (socketPids : SocketPidMap)
    (row : TcpRow ipv6) : withOwner socketPids (row.connection inetNtop fun _ => none) =
      row.connection inetNtop fun inode => socketPids[inode]? := by
  have hinode : (row.connection inetNtop fun _ => none).inode = row.inode.toNat := rfl
  rw [withOwner, hinode]
  split
  · rename_i h
    simp only [TcpRow.connection, h]
  · rename_i h
    simp only [TcpRow.connection, h, Option.getD_some]

/-- From the tables of the kernel, however they are spaced and whatever short lines they hold,
every row becomes one record, in order, the rows of the second table behind those of the first
and none where it cannot be read. The pid of a record is the first process of the scan with a
descriptor for the socket, and 0 where the scan has found none. -/
theorem listTcpConnections_tables {inetNtop : InetNtop} (hshows : ShowsAddresses inetNtop)
    (host : ConnectionHost) (table : TcpTable false) (htcp : host.tcp = .ok table.text) :
    let owner inode := (heldSockets host).lookup inode
    (∀ table6 : TcpTable true, host.tcp6 = .ok table6.text →
      listTcpConnections inetNtop host = .ok (table.rows.map (TcpRow.connection inetNtop owner) ++
        table6.rows.map (TcpRow.connection inetNtop owner))) ∧
    (∀ errno, host.tcp6 = .error errno →
      listTcpConnections inetNtop host =
        .ok (table.rows.map (TcpRow.connection inetNtop owner))) := by
  intro owner
  have howners {ipv6 : Bool} (rows : List (TcpRow ipv6)) :
      (rows.map (TcpRow.connection inetNtop fun _ => none)).map
        (withOwner (buildSocketPidMap host)) = rows.map (TcpRow.connection inetNtop owner) := by
    rw [List.map_map]
    refine List.map_congr_left fun row _ => ?_
    rw [Function.comp_apply, withOwner_connection]
    simp only [getElem?_buildSocketPidMap, owner]
  unfold listTcpConnections
  rw [htcp, readTcpFile_table hshows, List.nil_append]
  constructor
  · intro table6 htcp6
    simp only [htcp6, readTcpFile_table hshows, List.map_append, howners]
  · intro errno htcp6
    simp only [htcp6, readTcpFile, howners]

/-- The row of a listening socket, behind a line that has been cut. -/
def loopbackTable : TcpTable false where
  header := ascii "  sl  local_address rem_address   st"
  lines := [.short (ascii "   9: 0100007F") (by decide +kernel) (by decide +kernel),
    .row loopbackRow (loopbackLine.dropLast) (by
      let blanks := [ascii "   ", ascii " ", ascii " ", ascii " ", ascii " ", ascii " ", ascii " ",
        ascii "  ", ascii "        ", ascii " "]
      have hcolumns : IsColumns (blanks.zip loopbackRow.columns) :=
        ⟨by decide +kernel, by decide +kernel, by decide +kernel⟩
      exact ⟨blanks.zip loopbackRow.columns, [], hcolumns, by decide, by decide +kernel,
        by decide +kernel⟩) (by decide +kernel)]
  single := by decide +kernel

/-- Two processes share the socket, and a third one cannot be looked into. -/
def sharingHost : ConnectionHost where
  tcp := .ok loopbackTable.text
  tcp6 := .error .enoent
  processes := .entry (ascii "self") <| .entry (ascii "40") <| .entry (ascii "42") <|
    .entry (ascii "41") .finished
  descriptors name :=
    if name = ascii "40" then .failed .eacces
    else .entry (.ok (ascii "/dev/null")) <| .entry (.error .enoent) <|
      .entry (.ok (ascii "socket:[12345]")) .finished

theorem listTcpConnections_sharing :
    listTcpConnections inetNtopDotted sharingHost = .ok [⟨ascii "tcp4", ascii "127.0.0.1", 8080,
      ascii "0.0.0.0", 0, ascii "LISTEN", 12345, 42⟩] := by
  have hshows : ShowsAddresses inetNtopDotted := fun _ _ _ => rfl
  rw [(listTcpConnections_tables hshows sharingHost loopbackTable rfl).2 .enoent rfl]
  have hrows : loopbackTable.rows = [loopbackRow] := rfl
  rw [hrows, List.map_singleton, Except.ok.injEq, List.cons.injEq]
  simp only [TcpConnectionInfo.mk.injEq, TcpRow.connection]
  decide +kernel

end EdgeScope.NetworkCollector
