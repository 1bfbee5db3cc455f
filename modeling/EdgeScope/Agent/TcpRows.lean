import EdgeScope.Agent.NetworkCollector
import EdgeScope.Text.Search

/-!
# Rows of `/proc/net/tcp`

What a kernel with the low byte first prints for a connection is read back, and nothing but an
endpoint in the form of the kernel is taken for one.
-/

namespace EdgeScope.NetworkCollector
open Text

/-- The words of an address as the host holds them, the low byte first. -/
def hostWords : ℕ → Bytes → List ℕ
  | 0, _ => []
  | n + 1, address =>
    Nat.ofDigits 256 ((address.take 4).map UInt8.toNat) :: hostWords n (address.drop 4)

/-- The words a string of hexadecimal digits denotes, eight digits a word. -/
def hexWords : ℕ → Bytes → List ℕ
  | 0, _ => []
  | n + 1, hex => radixValue 16 (hex.take 8) :: hexWords n (hex.drop 8)

theorem parseUnsigned_eq_some_iff {text : Bytes} {base value : ℕ} :
    parseUnsigned text base = some value ↔
      IsRadix base text ∧ radixValue base text = value ∧ value < wordSize := by
  rw [← fromChars_eq_some_nil_iff]
  unfold parseUnsigned
  split_ifs with hempty
  · subst hempty
    simp [fromChars]
  · split
    · rename_i hread
      simp [hread]
    · rename_i hfails
      refine iff_of_false nofun fun hread => ?_
      exact hfails value hread

def pairByte (pair : Byte × Byte) : Byte := UInt8.ofNat (digitOf pair.1 * 16 + digitOf pair.2)

theorem toNat_pairByte {a b : Byte} (ha : digitOf a < 16) (hb : digitOf b < 16) :
    (pairByte (a, b)).toNat = digitOf a * 16 + digitOf b := by
  rw [pairByte, UInt8.toNat_ofNat', Nat.mod_eq_of_lt (by simp only; omega)]

theorem parsePair_eq_some_iff {pair : Byte × Byte} {byte : Byte} :
    (parseUnsigned [pair.1, pair.2] 16).map UInt8.ofNat = some byte ↔
      (digitOf pair.1 < 16 ∧ digitOf pair.2 < 16) ∧ pairByte pair = byte := by
  have hvalue : radixValue 16 [pair.1, pair.2] = digitOf pair.1 * 16 + digitOf pair.2 := by
    simp [radixValue, Nat.ofDigits_cons]
    ring
  simp only [Option.map_eq_some_iff, parseUnsigned_eq_some_iff, hvalue]
  constructor
  · rintro ⟨value, ⟨⟨-, hdigits⟩, rfl, -⟩, rfl⟩
    exact ⟨by simpa using hdigits, rfl⟩
  · rintro ⟨hdigits, rfl⟩
    refine ⟨_, ⟨⟨by simp, by simpa using hdigits⟩, rfl, ?_⟩, rfl⟩
    unfold wordSize
    omega

theorem parsePairs_eq_some_iff {pairs : List (Byte × Byte)} {bytes : Bytes} :
    (pairs.mapM fun pair => (parseUnsigned [pair.1, pair.2] 16).map UInt8.ofNat) = some bytes ↔
      (∀ pair ∈ pairs, digitOf pair.1 < 16 ∧ digitOf pair.2 < 16) ∧ pairs.map pairByte = bytes := by
  induction pairs generalizing bytes with
  | nil => simp
  | cons pair pairs ih =>
    simp only [List.mapM_cons, Option.bind_eq_bind, Option.bind_eq_some_iff, parsePair_eq_some_iff,
      ih, Option.pure_def, Option.some_inj, List.forall_mem_cons, List.map_cons]
    constructor
    · rintro ⟨byte, ⟨hpair, rfl⟩, bytes, ⟨hpairs, rfl⟩, rfl⟩
      exact ⟨⟨hpair, hpairs⟩, rfl⟩
    · rintro ⟨⟨hpair, hpairs⟩, rfl⟩
      exact ⟨_, ⟨hpair, rfl⟩, _, ⟨hpairs, rfl⟩, rfl⟩

theorem eq_of_ofDigits_eq {s t : Bytes} (hlength : s.length = t.length)
    (h : Nat.ofDigits 256 (s.map UInt8.toNat) = Nat.ofDigits 256 (t.map UInt8.toNat)) : s = t := by
  have hbytes (s : Bytes) : ∀ d ∈ s.map UInt8.toNat, d < 256 := by
    intro d hd
    obtain ⟨b, -, rfl⟩ := List.mem_map.mp hd
    exact b.toNat_lt
  have hmap := Nat.ofDigits_inj_of_len_eq (by decide) (by simpa using hlength) (hbytes s)
    (hbytes t) h
  exact (List.map_inj_right fun _ _ => UInt8.toNat_inj.mp).mp hmap

/-- The first eight digits are a word, whose bytes are read from its end. -/
theorem parseWord_zero {hex word : Bytes} (h : 8 ≤ hex.length) :
    parseWord hex 0 = some word ↔
      (∀ b ∈ hex.take 8, digitOf b < 16) ∧ word.length = 4 ∧
        Nat.ofDigits 256 (word.map UInt8.toNat) = radixValue 16 (hex.take 8) := by
  obtain ⟨a₀, a₁, a₂, a₃, a₄, a₅, a₆, a₇, rest, rfl⟩ : ∃ a₀ a₁ a₂ a₃ a₄ a₅ a₆ a₇ rest,
      hex = a₀ :: a₁ :: a₂ :: a₃ :: a₄ :: a₅ :: a₆ :: a₇ :: rest := by
    match hex, h with
    | _ :: _ :: _ :: _ :: _ :: _ :: _ :: _ :: _, _ => exact ⟨_, _, _, _, _, _, _, _, _, rfl⟩
  have hread : parseWord (a₀ :: a₁ :: a₂ :: a₃ :: a₄ :: a₅ :: a₆ :: a₇ :: rest) 0 =
      [(a₆, a₇), (a₄, a₅), (a₂, a₃), (a₀, a₁)].mapM fun pair =>
        (parseUnsigned [pair.1, pair.2] 16).map UInt8.ofNat := rfl
  have htake : (a₀ :: a₁ :: a₂ :: a₃ :: a₄ :: a₅ :: a₆ :: a₇ :: rest).take 8 =
      [a₀, a₁, a₂, a₃, a₄, a₅, a₆, a₇] := rfl
  rw [hread, htake, parsePairs_eq_some_iff]
  simp only [List.forall_mem_cons, List.not_mem_nil, IsEmpty.forall_iff, forall_const, and_true]
  have hvalue (h₀ : digitOf a₀ < 16) (h₁ : digitOf a₁ < 16) (h₂ : digitOf a₂ < 16)
      (h₃ : digitOf a₃ < 16) (h₄ : digitOf a₄ < 16) (h₅ : digitOf a₅ < 16) (h₆ : digitOf a₆ < 16)
      (h₇ : digitOf a₇ < 16) :
      Nat.ofDigits 256 (([(a₆, a₇), (a₄, a₅), (a₂, a₃), (a₀, a₁)].map pairByte).map UInt8.toNat) =
        radixValue 16 [a₀, a₁, a₂, a₃, a₄, a₅, a₆, a₇] := by
    simp only [List.map_cons, List.map_nil, toNat_pairByte h₀ h₁, toNat_pairByte h₂ h₃,
      toNat_pairByte h₄ h₅, toNat_pairByte h₆ h₇, radixValue, List.reverse_cons, List.reverse_nil,
      List.nil_append, List.cons_append, Nat.ofDigits_cons, Nat.ofDigits_nil]
    ring
  constructor
  · rintro ⟨⟨⟨h₆, h₇⟩, ⟨h₄, h₅⟩, ⟨h₂, h₃⟩, h₀, h₁⟩, rfl⟩
    exact ⟨⟨h₀, h₁, h₂, h₃, h₄, h₅, h₆, h₇⟩, rfl, hvalue h₀ h₁ h₂ h₃ h₄ h₅ h₆ h₇⟩
  · rintro ⟨⟨h₀, h₁, h₂, h₃, h₄, h₅, h₆, h₇⟩, hlength, hword⟩
    rw [← hvalue h₀ h₁ h₂ h₃ h₄ h₅ h₆ h₇] at hword
    exact ⟨⟨⟨h₆, h₇⟩, ⟨h₄, h₅⟩, ⟨h₂, h₃⟩, h₀, h₁⟩, (eq_of_ofDigits_eq hlength hword).symm⟩

theorem parseWord_succ (hex : Bytes) (word : ℕ) :
    parseWord hex (word + 1) = parseWord (hex.drop 8) word := by
  have hsource (byte : ℕ) : source (word + 1) byte = 8 + source word byte := by
    unfold source
    omega
  have hbyte (byte : ℕ) : parseByte hex (source (word + 1) byte) =
      parseByte (hex.drop 8) (source word byte) := by
    rw [parseByte, parseByte, List.drop_drop, hsource]
  simp only [parseWord, List.mapM_map, Function.comp_def, hbyte]

theorem parseAddress_succ (hex : Bytes) (n : ℕ) :
    parseAddress hex (n + 1) =
      (parseWord hex 0).bind fun word => (parseAddress (hex.drop 8) n).map (word ++ ·) := by
  rw [parseAddress, parseAddress, List.range_succ_eq_map, List.mapM_cons, List.mapM_map]
  simp only [Function.comp_def, Nat.succ_eq_add_one, parseWord_succ]
  cases parseWord hex 0 with
  | none => rfl
  | some word => cases (List.range n).mapM (parseWord (hex.drop 8)) <;> rfl

/-- The bytes read are those whose words are printed. -/
theorem parseAddress_eq_some_iff {n : ℕ} {hex address : Bytes} (h : hex.length = 8 * n) :
    parseAddress hex n = some address ↔
      (∀ b ∈ hex, digitOf b < 16) ∧ address.length = 4 * n ∧
        hostWords n address = hexWords n hex := by
  induction n generalizing hex address with
  | zero =>
    rw [Nat.mul_zero, List.length_eq_zero_iff] at h
    subst h
    simp [parseAddress, hostWords, hexWords, eq_comm]
  | succ n ih =>
    have hlength : (hex.drop 8).length = 8 * n := by
      rw [List.length_drop]
      omega
    have hdigits : (∀ b ∈ hex, digitOf b < 16) ↔
        (∀ b ∈ hex.take 8, digitOf b < 16) ∧ ∀ b ∈ hex.drop 8, digitOf b < 16 := by
      conv_lhs => rw [← List.take_append_drop 8 hex, List.forall_mem_append]
    rw [parseAddress_succ, hdigits, hostWords, hexWords, List.cons.injEq]
    simp only [Option.bind_eq_some_iff, Option.map_eq_some_iff, ih hlength,
      parseWord_zero (show 8 ≤ hex.length by omega)]
    constructor
    · rintro ⟨word, ⟨htake, hword, hvalue⟩, rest, ⟨hdrop, hrest, hwords⟩, rfl⟩
      rw [List.take_left' hword, List.drop_left' hword, List.length_append]
      exact ⟨⟨htake, hdrop⟩, by omega, hvalue, hwords⟩
    · rintro ⟨⟨htake, hdrop⟩, haddress, hvalue, hwords⟩
      refine ⟨address.take 4, ⟨htake, ?_, hvalue⟩, address.drop 4, ⟨hdrop, ?_, hwords⟩,
        List.take_append_drop 4 address⟩
      · rw [List.length_take]
        omega
      · rw [List.length_drop]
        omega

theorem hexWords_append {n : ℕ} {word hex : Bytes} (h : word.length = 8) :
    hexWords (n + 1) (word ++ hex) = radixValue 16 word :: hexWords n hex := by
  rw [hexWords, List.take_left' h, List.drop_left' h]

/-- The words of an address as the kernel prints them. -/
def printWords (words : List ℕ) : Bytes := words.flatMap (printDigits 16 8)

theorem length_hostWords (n : ℕ) (address : Bytes) : (hostWords n address).length = n := by
  induction n generalizing address with
  | zero => rfl
  | succ n ih => simp [hostWords, ih]

theorem hostWords_lt {n : ℕ} {address : Bytes} {word : ℕ} (h : word ∈ hostWords n address) :
    word < 16 ^ 8 := by
  induction n generalizing address with
  | zero => cases h
  | succ n ih =>
    rw [hostWords, List.mem_cons] at h
    obtain rfl | h := h
    · have hbytes : ∀ d ∈ (address.take 4).map UInt8.toNat, d < 256 := by
        intro d hd
        obtain ⟨b, -, rfl⟩ := List.mem_map.mp hd
        exact b.toNat_lt
      have hlength : ((address.take 4).map UInt8.toNat).length ≤ 4 := by simp
      calc Nat.ofDigits 256 ((address.take 4).map UInt8.toNat)
          < 256 ^ ((address.take 4).map UInt8.toNat).length :=
            Nat.ofDigits_lt_base_pow_length (by decide) hbytes
        _ ≤ 256 ^ 4 := Nat.pow_le_pow_right (by decide) hlength
        _ = 16 ^ 8 := by decide
    · exact ih h

theorem length_printWords (words : List ℕ) : (printWords words).length = 8 * words.length := by
  induction words with
  | nil => rfl
  | cons word words ih =>
    rw [printWords, List.flatMap_cons, List.length_append, length_printDigits, ← printWords, ih,
      List.length_cons]
    omega

theorem digitOf_of_mem_printWords {words : List ℕ} {b : Byte} (h : b ∈ printWords words) :
    digitOf b < 16 := by
  obtain ⟨word, -, hb⟩ := List.mem_flatMap.mp h
  exact digitOf_of_mem_printDigits (by decide) (by decide) hb

theorem hexWords_printWords {n : ℕ} {words : List ℕ} (hn : words.length = n)
    (h : ∀ word ∈ words, word < 16 ^ 8) : hexWords n (printWords words) = words := by
  subst hn
  induction words with
  | nil => rfl
  | cons word words ih =>
    rw [List.forall_mem_cons] at h
    rw [printWords, List.flatMap_cons, List.length_cons,
      hexWords_append (length_printDigits 8 word),
      radixValue_printDigits (by decide) (by decide) h.1, ← printWords, ih h.2]

/-- The digits of the words of an address, a colon, and the digits of a port. -/
def IsEndpoint (ipv6 : Bool) (text address : Bytes) (port : ℕ) : Prop :=
  ∃ addressHex portHex, text = addressHex ++ charByte ':' :: portHex ∧
    addressHex.length = (if ipv6 then 32 else 8) ∧ (∀ b ∈ addressHex, digitOf b < 16) ∧
    address.length = (if ipv6 then 16 else 4) ∧
    hostWords (wordCount ipv6) address = hexWords (wordCount ipv6) addressHex ∧
    IsRadix 16 portHex ∧ radixValue 16 portHex = port ∧ port ≤ 65535

theorem expectedSize_eq (ipv6 : Bool) : expectedSize ipv6 = 8 * wordCount ipv6 := by
  cases ipv6 <;> rfl

theorem length_address_eq (ipv6 : Bool) : (if ipv6 then 16 else 4) = 4 * wordCount ipv6 := by
  cases ipv6 <;> rfl

/-- A column is an endpoint, and nothing else is accepted. -/
theorem parseEndpoint_eq_some_iff {inetNtop : InetNtop} {ipv6 : Bool} {text shown : Bytes}
    {port : ℕ} : parseEndpoint inetNtop text ipv6 = some (shown, port) ↔
      ∃ address, IsEndpoint ipv6 text address port ∧ inetNtop ipv6 address = some shown := by
  constructor
  · intro h
    unfold parseEndpoint at h
    split at h
    · cases h
    · rename_i separator hseparator
      obtain ⟨addressHex, portHex, rfl, -, rfl⟩ := findChar_eq_some_iff.mp hseparator
      rw [take_separator, drop_separator] at h
      simp only at h
      split at h
      · cases h
      · rename_i port hport
        obtain ⟨hradix, hvalue, -⟩ := parseUnsigned_eq_some_iff.mp hport
        -- the port fits, and the address has the digits of its family
        split_ifs at h with hlarge hsize
        split at h
        · cases h
        · rename_i address haddress
          rw [expectedSize_eq] at hsize
          obtain ⟨hdigits, hlength, hwords⟩ := (parseAddress_eq_some_iff (by omega)).mp haddress
          split at h
          · cases h
          · rename_i shown hshown
            cases h
            refine ⟨address, ⟨addressHex, portHex, rfl, ?_, hdigits, ?_, hwords, hradix, hvalue,
              by omega⟩, hshown⟩
            · exact (not_not.mp hsize).trans (expectedSize_eq ipv6).symm
            · rw [hlength, length_address_eq]
  · rintro ⟨address, ⟨addressHex, portHex, rfl, hsize, hdigits, hlength, hwords, hradix, hvalue,
      hport⟩, hshown⟩
    have hcolon : charByte ':' ∉ addressHex := fun hmem =>
      absurd (hdigits _ hmem) (by decide)
    have hsize' : addressHex.length = 8 * wordCount ipv6 := hsize.trans (expectedSize_eq ipv6)
    have haddress : parseAddress addressHex (wordCount ipv6) = some address :=
      (parseAddress_eq_some_iff hsize').mpr
        ⟨hdigits, hlength.trans (length_address_eq ipv6), hwords⟩
    have hread : parseUnsigned portHex 16 = some port := by
      rw [parseUnsigned_eq_some_iff]
      refine ⟨hradix, hvalue, ?_⟩
      unfold wordSize
      omega
    rw [parseEndpoint, findChar_separator hcolon]
    simp only [take_separator, drop_separator, hread, if_neg (not_lt.mpr hport)]
    rw [if_neg (not_not.mpr (hsize'.trans (expectedSize_eq ipv6).symm)), haddress]
    simp only [hshown]

structure Endpoint (ipv6 : Bool) where
  address : Bytes
  port : UInt16
  length_address : address.length = if ipv6 then 16 else 4

def Endpoint.text {ipv6 : Bool} (e : Endpoint ipv6) : Bytes :=
  printWords (hostWords (wordCount ipv6) e.address) ++
    charByte ':' :: printDigits 16 4 e.port.toNat

theorem Endpoint.isEndpoint {ipv6 : Bool} (e : Endpoint ipv6) :
    IsEndpoint ipv6 e.text e.address e.port.toNat := by
  have hport : e.port.toNat < 16 ^ 4 := e.port.toNat_lt
  have hwords := length_hostWords (wordCount ipv6) e.address
  refine ⟨_, _, rfl, ?_, fun b hb => digitOf_of_mem_printWords hb, e.length_address, ?_, ⟨?_, ?_⟩,
    radixValue_printDigits (by decide) (by decide) hport, Nat.le_of_lt_succ hport⟩
  · rw [length_printWords, hwords, ← expectedSize_eq, expectedSize]
  · exact (hexWords_printWords hwords fun word hword => hostWords_lt hword).symm
  · intro hempty
    have := congrArg List.length hempty
    rw [length_printDigits] at this
    cases this
  · exact fun b hb => digitOf_of_mem_printDigits (by decide) (by decide) hb

/-- What the kernel tells of a connection. The five columns between the state and the inode and
those behind it are not read. -/
structure TcpRow (ipv6 : Bool) where
  slot : Bytes
  localEndpoint : Endpoint ipv6
  remoteEndpoint : Endpoint ipv6
  state : Byte
  ignored : List Bytes
  inode : UInt64
  further : List Bytes
  length_ignored : ignored.length = 5

def TcpRow.columns {ipv6 : Bool} (row : TcpRow ipv6) : List Bytes :=
  [row.slot, row.localEndpoint.text, row.remoteEndpoint.text, printDigits 16 2 row.state.toNat] ++
    row.ignored ++ decimal row.inode.toNat :: row.further

theorem TcpRow.columns_spec {ipv6 : Bool} (row : TcpRow ipv6) :
    10 ≤ row.columns.length ∧ row.columns.getD 1 [] = row.localEndpoint.text ∧
      row.columns.getD 2 [] = row.remoteEndpoint.text ∧
      row.columns.getD 3 [] = printDigits 16 2 row.state.toNat ∧
      row.columns.getD 9 [] = decimal row.inode.toNat := by
  have hlength := row.length_ignored
  refine ⟨?_, rfl, rfl, rfl, ?_⟩
  · simp only [columns, List.length_append, List.length_cons, List.length_nil]
    omega
  · rw [columns, List.getD_eq_getElem?_getD, List.getElem?_append_right (by simp [hlength])]
    simp [hlength]

theorem parseUnsigned_decimal {n : ℕ} (h : n < wordSize) :
    parseUnsigned (decimal n) 10 = some n := by
  rw [parseUnsigned, if_neg (decimal_ne_nil n), fromChars_decimal h]

abbrev InetPton := Bool → Bytes → Option Bytes

/-- Rows are read back, only endpoints are accepted, and endpoints that differ are read
differently. All that is assumed of `inet_ntop` is that it shows each address of the family in a
form `inet_pton` reads back. -/
theorem parseTcpLine_row {inetNtop : InetNtop} {inetPton : InetPton} {ipv6 : Bool}
    (hshows : ∀ address : Bytes, address.length = (if ipv6 then 16 else 4) →
      ∃ shown, inetNtop ipv6 address = some shown ∧ inetPton ipv6 shown = some address) :
    (∀ (row : TcpRow ipv6) (line : Bytes) (connection : TcpConnectionInfo),
      IsLineOf row.columns line → ∃ localAddress remoteAddress,
        inetNtop ipv6 row.localEndpoint.address = some localAddress ∧
        inetNtop ipv6 row.remoteEndpoint.address = some remoteAddress ∧
        parseTcpLine inetNtop line ipv6 connection = .ok { connection with
          protocol := if ipv6 then ascii "tcp6" else ascii "tcp4"
          localAddress := localAddress
          localPort := row.localEndpoint.port.toNat
          remoteAddress := remoteAddress
          remotePort := row.remoteEndpoint.port.toNat
          state := tcpStateName (printDigits 16 2 row.state.toNat)
          inode := row.inode.toNat }) ∧
    (∀ text shown port, parseEndpoint inetNtop text ipv6 = some (shown, port) →
      ∃ address, IsEndpoint ipv6 text address port ∧ inetNtop ipv6 address = some shown) ∧
    ∀ text text' address address' port port', IsEndpoint ipv6 text address port →
      IsEndpoint ipv6 text' address' port' →
        parseEndpoint inetNtop text ipv6 = parseEndpoint inetNtop text' ipv6 →
          address = address' ∧ port = port' := by
  -- an endpoint as the kernel prints it is read, and shows its own address
  have hread {text address : Bytes} {port : ℕ} (h : IsEndpoint ipv6 text address port) :
      ∃ shown, inetNtop ipv6 address = some shown ∧ inetPton ipv6 shown = some address ∧
        parseEndpoint inetNtop text ipv6 = some (shown, port) := by
    obtain ⟨-, -, -, -, -, hlength, -⟩ := id h
    obtain ⟨shown, hntop, hpton⟩ := hshows address hlength
    exact ⟨shown, hntop, hpton, parseEndpoint_eq_some_iff.mpr ⟨address, h, hntop⟩⟩
  refine ⟨?_, fun text shown port => parseEndpoint_eq_some_iff.mp, ?_⟩
  · intro row line connection hline
    obtain ⟨localAddress, hlocal, -, hlocalRead⟩ := hread row.localEndpoint.isEndpoint
    obtain ⟨remoteAddress, hremote, -, hremoteRead⟩ := hread row.remoteEndpoint.isEndpoint
    obtain ⟨hcount, hlocalColumn, hremoteColumn, hstate, hinode⟩ := row.columns_spec
    refine ⟨localAddress, remoteAddress, hlocal, hremote, ?_⟩
    rw [parseTcpLine, hline.scanWords_eq]
    simp only [if_neg (not_lt.mpr hcount), hlocalColumn, hremoteColumn, hstate, hinode, hlocalRead,
      hremoteRead, parseUnsigned_decimal row.inode.toNat_lt]
  · intro text text' address address' port port' h h' hsame
    -- both show the same text, and the text has one address
    obtain ⟨shown, -, hpton, hparsed⟩ := hread h
    obtain ⟨shown', -, hpton', hparsed'⟩ := hread h'
    rw [hparsed, hparsed', Option.some_inj, Prod.mk.injEq] at hsame
    obtain ⟨rfl, hport⟩ := hsame
    rw [hpton, Option.some_inj] at hpton'
    exact ⟨hpton', hport⟩

def dotted : Bytes → Bytes
  | [a, b, c, d] => decimal a.toNat ++ charByte '.' :: (decimal b.toNat ++ charByte '.' ::
      (decimal c.toNat ++ charByte '.' :: decimal d.toNat))
  | _ => []

def undotted (text : Bytes) : Bytes :=
  (getlines (charByte '.') text).map fun part => UInt8.ofNat (digitsValue part)

def inetNtopDotted : InetNtop := fun _ address => some (dotted address)
def inetPtonDotted : InetPton := fun _ text => some (undotted text)

theorem undotted_dotted {address : Bytes} (h : address.length = 4) :
    undotted (dotted address) = address := by
  match address, h with
  | [a, b, c, d], _ =>
    have hdot (n : ℕ) : charByte '.' ∉ decimal n := fun hmem =>
      absurd (isDigit_of_mem_decimal hmem) (by decide)
    rw [undotted, dotted, getlines_append_cons (hdot _), getlines_append_cons (hdot _),
      getlines_append_cons (hdot _), getlines_of_notMem (hdot _), if_neg (decimal_ne_nil _)]
    simp [digitsValue_decimal]

def loopbackRow : TcpRow false :=
  ⟨ascii "0:", ⟨[127, 0, 0, 1], 8080, rfl⟩, ⟨[0, 0, 0, 0], 0, rfl⟩, 10,
    [ascii "00000000:00000000", ascii "00:00000000", ascii "00000000", ascii "1000", ascii "0"],
    12345, [], rfl⟩

def loopbackLine : Bytes :=
  ascii "   0: 0100007F:1F90 00000000:0000 0A 00000000:00000000 00:00000000 00000000  1000" ++
    ascii "        0 12345\n"

theorem isLineOf_loopback : IsLineOf loopbackRow.columns loopbackLine := by
  let blanks := [ascii "   ", ascii " ", ascii " ", ascii " ", ascii " ", ascii " ", ascii " ",
    ascii "  ", ascii "        ", ascii " "]
  have hcolumns : IsColumns (blanks.zip loopbackRow.columns) :=
    ⟨by decide +kernel, by decide +kernel, by decide +kernel⟩
  exact ⟨blanks.zip loopbackRow.columns, ascii "\n", hcolumns, by decide, by decide +kernel,
    by decide +kernel⟩

theorem parseTcpLine_loopback :
    parseTcpLine inetNtopDotted loopbackLine false ⟨[], [], 0, [], 0, [], 0, 0⟩ =
      .ok ⟨ascii "tcp4", ascii "127.0.0.1", 8080, ascii "0.0.0.0", 0, ascii "LISTEN",
        12345, 0⟩ := by
  have hshows : ∀ address : Bytes, address.length = (if false then 16 else 4) →
      ∃ shown, inetNtopDotted false address = some shown ∧
        inetPtonDotted false shown = some address :=
    fun address h => ⟨_, rfl, congrArg some (undotted_dotted h)⟩
  obtain ⟨hrows, -⟩ := parseTcpLine_row hshows
  obtain ⟨localAddress, remoteAddress, hlocal, hremote, hline⟩ :=
    hrows loopbackRow loopbackLine ⟨[], [], 0, [], 0, [], 0, 0⟩ isLineOf_loopback
  cases hlocal
  cases hremote
  rw [hline]
  simp only [Except.ok.injEq, TcpConnectionInfo.mk.injEq]
  decide +kernel

end EdgeScope.NetworkCollector
