import EdgeScope.Agent.DiagnosticCollector
import EdgeScope.Text.Radix

/-!
# `NetworkCollector`

A line of `/proc/net/tcp` or `/proc/net/tcp6`. The kernel prints an address as one or four words
of the host, so the bytes of each word stand in reverse order.
-/

namespace EdgeScope.NetworkCollector
open Text

/-- `inet_ntop` for an address of the family, `AF_INET6` where the flag is set. -/
abbrev InetNtop := Bool → Bytes → Option Bytes

def parseUnsigned (text : Bytes) (base : ℕ) : Option ℕ :=
  if text = [] then none
  else
    match fromChars base text with
    | some (value, []) => some value
    | _ => none

def expectedSize (ipv6 : Bool) : ℕ := if ipv6 then 32 else 8
def wordCount (ipv6 : Bool) : ℕ := if ipv6 then 4 else 1

def source (word byte : ℕ) : ℕ := word * 8 + (3 - byte) * 2

def parseByte (addressHex : Bytes) (source : ℕ) : Option Byte :=
  (parseUnsigned ((addressHex.drop source).take 2) 16).map UInt8.ofNat

def parseWord (addressHex : Bytes) (word : ℕ) : Option Bytes :=
  ((List.range 4).map (source word)).mapM (parseByte addressHex)

def parseAddress (addressHex : Bytes) (wordCount : ℕ) : Option Bytes :=
  ((List.range wordCount).mapM (parseWord addressHex)).map List.flatten

def parseEndpoint (inetNtop : InetNtop) (text : Bytes) (ipv6 : Bool) : Option (Bytes × ℕ) :=
  match findChar (charByte ':') text with
  | none => none
  | some separator =>
    let addressHex := text.take separator
    let portHex := text.drop (separator + 1)
    match parseUnsigned portHex 16 with
    | none => none
    | some port =>
      if 65535 < port then none
      else if addressHex.length ≠ expectedSize ipv6 then none
      else
        match parseAddress addressHex (wordCount ipv6) with
        | none => none
        | some bytes =>
          match inetNtop ipv6 bytes with
          | none => none
          | some address => some (address, port)

def tcpStateNames : List (Bytes × Bytes) :=
  [(ascii "01", ascii "ESTABLISHED"), (ascii "02", ascii "SYN_SENT"),
   (ascii "03", ascii "SYN_RECV"), (ascii "04", ascii "FIN_WAIT1"),
   (ascii "05", ascii "FIN_WAIT2"), (ascii "06", ascii "TIME_WAIT"),
   (ascii "07", ascii "CLOSE"), (ascii "08", ascii "CLOSE_WAIT"),
   (ascii "09", ascii "LAST_ACK"), (ascii "0A", ascii "LISTEN"),
   (ascii "0B", ascii "CLOSING"), (ascii "0C", ascii "NEW_SYN_RECV")]

def tcpStateName (state : Bytes) : Bytes :=
  match tcpStateNames.lookup state with
  | none => ascii "UNKNOWN(" ++ state ++ ascii ")"
  | some name => name

def parseTcpLine (inetNtop : InetNtop) (line : Bytes) (ipv6 : Bool)
    (connection : TcpConnectionInfo) : Except Bytes TcpConnectionInfo :=
  let fields := scanWords line
  if fields.length < 10 then .error (ascii "not enough fields in /proc/net/tcp line")
  else
    match parseEndpoint inetNtop (fields.getD 1 []) ipv6,
      parseEndpoint inetNtop (fields.getD 2 []) ipv6 with
    | some (localAddress, localPort), some (remoteAddress, remotePort) =>
      match parseUnsigned (fields.getD 9 []) 10 with
      | none => .error (ascii "invalid inode in /proc/net/tcp line")
      | some inode =>
        .ok { connection with
          protocol := if ipv6 then ascii "tcp6" else ascii "tcp4"
          localAddress := localAddress
          localPort := localPort
          remoteAddress := remoteAddress
          remotePort := remotePort
          state := tcpStateName (fields.getD 3 [])
          inode := inode }
    | _, _ => .error (ascii "invalid endpoint in /proc/net/tcp line")

end EdgeScope.NetworkCollector
