import VirtioBench.Sniff.Packet

/- The reports of sniff.c (code_dump/vm_tap/sniff.c; the functions of raw_sockets/raw_eth_receive.c
   and raw_sockets/sniffer/rcv.c are the same): for every packet the fields of its headers and three
   dumps, written to log.txt.

   A struct is what the cast of a pointer reads from the buffer, on a little-endian machine.

   Correspondence (C ↔ Lean):
     `struct ethhdr`, `iphdr`, `tcphdr`, `udphdr`, `icmphdr`  ↔ the structures of these names
     `print_ethernet_header`, `print_ip_header`               ↔ `printEthernetHeader`, `printIpHeader`
     `print_tcp_packet`, `print_udp_packet`, `print_icmp_packet`
                                                              ↔ `printTcpPacket`, ...
     the switch of `ProcessPacket`                            ↔ `kindOf`, `report`

   None of these functions compares the size of the packet with what it reads. `reach` is how far
   they read, and the two results about it are:
   1. `Agree.report`: a report is a function of the bytes up to `reach`, if the packet has them;
   2. `Agree.shows_last`: the last of these bytes is shown in the report. -/
namespace VirtioBench.Sniff

open Bytes Hexdump

/-! ## Headers -/

structure Ethhdr where
  hDest : List UInt8
  hSource : List UInt8
  hProto : Nat

structure Iphdr where
  version : Nat
  ihl : Nat
  tos : Nat
  totLen : Nat
  id : Nat
  ttl : Nat
  protocol : UInt8
  check : Nat
  saddr : List Char
  daddr : List Char

structure Tcphdr where
  source : Nat
  dest : Nat
  seq : Nat
  ackSeq : Nat
  doff : Nat
  flags : UInt8
  window : Nat
  check : Nat
  urgPtr : Nat

structure Udphdr where
  source : Nat
  dest : Nat
  len : Nat
  check : Nat

structure Icmphdr where
  type : Nat
  code : Nat
  checksum : Nat

/-- A field of two bytes that is not converted from network order. -/
def le16 (b : Buffer) (off : Nat) : Nat := (b off).toNat + 256 * (b (off + 1)).toNat

def ntohl (b : Buffer) (off : Nat) : Nat := 65536 * ntohs b off + ntohs b (off + 2)

def ethhdr (b : Buffer) : Ethhdr :=
  { hDest := read b 0 6, hSource := read b 6 6, hProto := le16 b 12 }

def iphdr (b : Buffer) : Iphdr :=
  let ip := sizeEthernet
  { version := (b ip >>> 4).toNat, ihl := ipHl (b ip), tos := (b (ip + 1)).toNat,
    totLen := ntohs b (ip + 2), id := ntohs b (ip + 4), ttl := (b (ip + 8)).toNat,
    protocol := b (ip + 9), check := ntohs b (ip + 10), saddr := inetNtoa b (ip + 12),
    daddr := inetNtoa b (ip + 16) }

def tcphdr (b : Buffer) (tcp : Nat) : Tcphdr :=
  { source := ntohs b tcp, dest := ntohs b (tcp + 2), seq := ntohl b (tcp + 4),
    ackSeq := ntohl b (tcp + 8), doff := thOff (b (tcp + 12)), flags := b (tcp + 13),
    window := ntohs b (tcp + 14), check := ntohs b (tcp + 16), urgPtr := le16 b (tcp + 18) }

def udphdr (b : Buffer) (udp : Nat) : Udphdr :=
  { source := ntohs b udp, dest := ntohs b (udp + 2), len := ntohs b (udp + 4),
    check := ntohs b (udp + 6) }

def icmphdr (b : Buffer) (icmp : Nat) : Icmphdr :=
  { type := (b icmp).toNat, code := (b (icmp + 1)).toNat, checksum := ntohs b (icmp + 2) }

/-! ## Reports -/

/-- A line of a report: a label, a number and the end of the line. -/
def line (label : String) (n : Nat) : List Char := text label ++ dec n ++ ['\n']

def macAddress (addr : List UInt8) : List Char := ['-'].intercalate (addr.map (hexByte upperDigit))

def printEthernetHeader (eth : Ethhdr) : List Char :=
  text "\nEthernet Header\n"
    ++ text "   |-Destination Address : " ++ macAddress eth.hDest ++ text " \n"
    ++ text "   |-Source Address      : " ++ macAddress eth.hSource ++ text " \n"
    ++ text "   |-Protocol            : " ++ dec eth.hProto ++ text " \n"

def printIpHeader (eth : Ethhdr) (iph : Iphdr) : List Char :=
  printEthernetHeader eth ++ text "\nIP Header\n"
    ++ line "   |-IP Version        : " iph.version
    ++ text "   |-IP Header Length  : " ++ dec iph.ihl ++ text " DWORDS or " ++ dec (iph.ihl * 4)
    ++ text " Bytes\n"
    ++ line "   |-Type Of Service   : " iph.tos
    ++ text "   |-IP Total Length   : " ++ dec iph.totLen ++ text "  Bytes(Size of Packet)\n"
    ++ line "   |-Identification    : " iph.id
    ++ line "   |-TTL      : " iph.ttl
    ++ line "   |-Protocol : " iph.protocol.toNat
    ++ line "   |-Checksum : " iph.check
    ++ text "   |-Source IP        : " ++ iph.saddr ++ ['\n']
    ++ text "   |-Destination IP   : " ++ iph.daddr ++ ['\n']

/-- A bit of the flags, the lowest of them FIN. -/
def flag (tcph : Tcphdr) (bit : Nat) : Nat := tcph.flags.toNat / 2 ^ bit % 2

def printTcpHeader (tcph : Tcphdr) : List Char :=
  text "\nTCP Header\n"
    ++ line "   |-Source Port      : " tcph.source
    ++ line "   |-Destination Port : " tcph.dest
    ++ line "   |-Sequence Number    : " tcph.seq
    ++ line "   |-Acknowledge Number : " tcph.ackSeq
    ++ text "   |-Header Length      : " ++ dec tcph.doff ++ text " DWORDS or " ++ dec (tcph.doff * 4)
    ++ text " BYTES\n"
    ++ line "   |-Urgent Flag          : " (flag tcph 5)
    ++ line "   |-Acknowledgement Flag : " (flag tcph 4)
    ++ line "   |-Push Flag            : " (flag tcph 3)
    ++ line "   |-Reset Flag           : " (flag tcph 2)
    ++ line "   |-Synchronise Flag     : " (flag tcph 1)
    ++ line "   |-Finish Flag          : " (flag tcph 0)
    ++ line "   |-Window         : " tcph.window
    ++ line "   |-Checksum       : " tcph.check
    ++ line "   |-Urgent Pointer : " tcph.urgPtr
    ++ text "\n                        DATA Dump                         \n"

def printUdpHeader (udph : Udphdr) : List Char :=
  text "\nUDP Header\n"
    ++ line "   |-Source Port      : " udph.source
    ++ line "   |-Destination Port : " udph.dest
    ++ line "   |-UDP Length       : " udph.len
    ++ line "   |-UDP Checksum     : " udph.check ++ ['\n']

def printIcmpHeader (icmph : Icmphdr) : List Char :=
  text "\nICMP Header\n" ++ text "   |-Type : " ++ dec icmph.type
    ++ (if icmph.type = 11 then text "  (TTL Expired)\n"
      else if icmph.type = 0 then text "  (ICMP Echo Reply)\n" else [])
    ++ line "   |-Code : " icmph.code
    ++ line "   |-Checksum : " icmph.checksum ++ ['\n']

/-- The end of every report: three calls of `PrintData`, of `iphdrlen` bytes from the start of the
buffer, of the next `hdrlen` and of what is behind the headers. -/
def printDumps (b : Buffer) (title : String) (iphdrlen hdrlen headerSize : Nat) (size : Int) :
    List Char :=
  text "IP Header\n" ++ printData b 0 iphdrlen
    ++ text title ++ printData b iphdrlen hdrlen
    ++ text "Data Payload\n" ++ printData b headerSize (size - headerSize)
    ++ text "\n###########################################################"

/-- `sizeof` of a pointer to a header. -/
def sizeofPointer : Nat := 8

def printTcpPacket (b : Buffer) (size : Int) : List Char :=
  let iphdrlen := (iphdr b).ihl * 4
  let tcph := tcphdr b (iphdrlen + sizeEthernet)
  text "\n\n***********************TCP Packet*************************\n"
    ++ printIpHeader (ethhdr b) (iphdr b) ++ printTcpHeader tcph
    ++ printDumps b "TCP Header\n" iphdrlen (tcph.doff * 4)
        (sizeEthernet + iphdrlen + tcph.doff * 4) size

def printUdpPacket (b : Buffer) (size : Int) : List Char :=
  let iphdrlen := (iphdr b).ihl * 4
  text "\n\n***********************UDP Packet*************************\n"
    ++ printIpHeader (ethhdr b) (iphdr b) ++ printUdpHeader (udphdr b (iphdrlen + sizeEthernet))
    ++ printDumps b "UDP Header\n" iphdrlen sizeofPointer
        (sizeEthernet + iphdrlen + sizeofPointer) size

def printIcmpPacket (b : Buffer) (size : Int) : List Char :=
  let iphdrlen := (iphdr b).ihl * 4
  text "\n\n***********************ICMP Packet*************************\n"
    ++ printIpHeader (ethhdr b) (iphdr b) ++ printIcmpHeader (icmphdr b (iphdrlen + sizeEthernet))
    ++ printDumps b "UDP Header\n" iphdrlen sizeofPointer
        (sizeEthernet + iphdrlen + sizeofPointer) size

/-- The cases of the switch over `iph->protocol`. -/
inductive Kind where
  | icmp
  | igmp
  | tcp
  | udp
  | others
  deriving DecidableEq, Repr

def kindOf (protocol : UInt8) : Kind :=
  if protocol = 1 then .icmp else if protocol = 2 then .igmp else if protocol = 6 then .tcp
  else if protocol = 17 then .udp else .others

/-- What the switch writes to the log. -/
def report (b : Buffer) (size : Int) : List Char :=
  match kindOf (iphdr b).protocol with
  | .icmp => printIcmpPacket b size
  | .tcp => printTcpPacket b size
  | .udp => printUdpPacket b size
  | .igmp | .others => []

/-! ## What a report reads -/

/-- How far a report reads, but for the last dump. -/
def reach (b : Buffer) : Nat :=
  let iphdrlen := (iphdr b).ihl * 4
  match kindOf (iphdr b).protocol with
  | .tcp => max 34 (max (sizeEthernet + iphdrlen + 20)
      (iphdrlen + (tcphdr b (iphdrlen + sizeEthernet)).doff * 4))
  | .udp => max 34 (sizeEthernet + iphdrlen + 8)
  | .icmp => max 34 (sizeEthernet + iphdrlen + 4)
  | .igmp | .others => 24

section Reads
variable {b b' : Buffer} {n off : Nat}

/-- The buffers are the same up to `n`. -/
def Agree (n : Nat) (b b' : Buffer) : Prop := ∀ k, k < n → b k = b' k

theorem Agree.mono {m : Nat} (h : Agree n b b') (hm : m ≤ n) : Agree m b b' :=
  fun k hk => h k (by omega)

theorem Agree.ntohs (h : Agree n b b') (hoff : off + 1 < n) : ntohs b off = ntohs b' off := by
  rw [Sniff.ntohs, Sniff.ntohs, h off (by omega), h (off + 1) hoff]

theorem Agree.ntohl (h : Agree n b b') (hoff : off + 3 < n) : ntohl b off = ntohl b' off := by
  rw [Sniff.ntohl, Sniff.ntohl, h.ntohs (by omega), h.ntohs (by omega)]

theorem Agree.le16 (h : Agree n b b') (hoff : off + 1 < n) : le16 b off = le16 b' off := by
  rw [Sniff.le16, Sniff.le16, h off (by omega), h (off + 1) hoff]

theorem Agree.inetNtoa (h : Agree n b b') (hoff : off + 3 < n) :
    inetNtoa b off = inetNtoa b' off := by
  rw [Sniff.inetNtoa, Sniff.inetNtoa, h off (by omega), h (off + 1) (by omega),
    h (off + 2) (by omega), h (off + 3) hoff]

theorem Agree.read (h : Agree n b b') {len : Nat} (hoff : off + len ≤ n) :
    read b off len = read b' off len :=
  List.map_congr_left (fun k hk => h (off + k) (by have := List.mem_range.mp hk; omega))

theorem Agree.ethhdr (h : Agree n b b') (hn : 14 ≤ n) : ethhdr b = ethhdr b' := by
  rw [Sniff.ethhdr, Sniff.ethhdr, h.read (by omega), h.read (by omega), h.le16 (by omega)]

/-- A header is known but for its last field. -/
theorem Agree.iphdr_but (h : Agree n b b') (hn : 30 ≤ n) :
    iphdr b' = { iphdr b with daddr := Sniff.inetNtoa b' 30 } := by
  simp only [Sniff.iphdr, sizeEthernet, h 14 (by omega), h (14 + 1) (by omega),
    h (14 + 8) (by omega), h (14 + 9) (by omega), h.ntohs (show 14 + 2 + 1 < n by omega),
    h.ntohs (show 14 + 4 + 1 < n by omega), h.ntohs (show 14 + 10 + 1 < n by omega),
    h.inetNtoa (show 14 + 12 + 3 < n by omega)]

theorem Agree.tcphdr_but (h : Agree n b b') {tcp : Nat} (hn : tcp + 18 ≤ n) :
    tcphdr b' tcp = { tcphdr b tcp with urgPtr := Sniff.le16 b' (tcp + 18) } := by
  simp only [Sniff.tcphdr, h.ntohs (show tcp + 1 < n by omega),
    h.ntohs (show tcp + 2 + 1 < n by omega), h.ntohl (show tcp + 4 + 3 < n by omega),
    h.ntohl (show tcp + 8 + 3 < n by omega), h (tcp + 12) (by omega), h (tcp + 13) (by omega),
    h.ntohs (show tcp + 14 + 1 < n by omega), h.ntohs (show tcp + 16 + 1 < n by omega)]

theorem Agree.udphdr_but (h : Agree n b b') {udp : Nat} (hn : udp + 6 ≤ n) :
    udphdr b' udp = { udphdr b udp with check := Sniff.ntohs b' (udp + 6) } := by
  simp only [Sniff.udphdr, h.ntohs (show udp + 1 < n by omega),
    h.ntohs (show udp + 2 + 1 < n by omega), h.ntohs (show udp + 4 + 1 < n by omega)]

theorem Agree.icmphdr_but (h : Agree n b b') {icmp : Nat} (hn : icmp + 2 ≤ n) :
    icmphdr b' icmp = { icmphdr b icmp with checksum := Sniff.ntohs b' (icmp + 2) } := by
  simp only [Sniff.icmphdr, h icmp (by omega), h (icmp + 1) (by omega)]

theorem Agree.iphdr (h : Agree n b b') (hn : 34 ≤ n) : iphdr b = iphdr b' := by
  rw [h.iphdr_but (by omega), ← h.inetNtoa (by omega)]
  rfl

theorem Agree.tcphdr (h : Agree n b b') {tcp : Nat} (hn : tcp + 20 ≤ n) :
    tcphdr b tcp = tcphdr b' tcp := by
  rw [h.tcphdr_but (by omega), ← h.le16 (by omega)]
  rfl

theorem Agree.udphdr (h : Agree n b b') {udp : Nat} (hn : udp + 8 ≤ n) :
    udphdr b udp = udphdr b' udp := by
  rw [h.udphdr_but (by omega), ← h.ntohs (by omega)]
  rfl

theorem Agree.icmphdr (h : Agree n b b') {icmp : Nat} (hn : icmp + 4 ≤ n) :
    icmphdr b icmp = icmphdr b' icmp := by
  rw [h.icmphdr_but (by omega), ← h.ntohs (by omega)]
  rfl

theorem Agree.printData (h : Agree n b b') {data : Nat} {size : Int} (hn : data + size.toNat ≤ n) :
    printData b data size = printData b' data size :=
  printData_congr (fun i hi => h (data + i) (by omega))

theorem Agree.printDumps (h : Agree n b b') {title : String} {iphdrlen hdrlen headerSize : Nat}
    (hn : iphdrlen + hdrlen ≤ n) :
    printDumps b title iphdrlen hdrlen headerSize n =
      printDumps b' title iphdrlen hdrlen headerSize n := by
  have hrest : Sniff.printData b headerSize ((n : Int) - headerSize) =
      Sniff.printData b' headerSize ((n : Int) - headerSize) :=
    printData_congr (fun i hi => h (headerSize + i) (by omega))
  rw [Sniff.printDumps, Sniff.printDumps, h.printData (show 0 + (iphdrlen : Int).toNat ≤ n by omega),
    h.printData (show iphdrlen + (hdrlen : Int).toNat ≤ n by omega), hrest]

theorem le_reach (b : Buffer) : 24 ≤ reach b := by
  rw [reach]
  split <;> omega

/-- A report is a function of the bytes of its frame. -/
theorem Agree.report (h : Agree n b b') (hn : reach b ≤ n) : report b n = report b' n := by
  have hfirst := le_reach b
  have heth : sizeEthernet = 14 := rfl
  have hptr : sizeofPointer = 8 := rfl
  have hproto : (Sniff.iphdr b).protocol = (Sniff.iphdr b').protocol := h 23 (by omega)
  rw [Sniff.report, Sniff.report, ← hproto]
  rw [reach] at hn
  cases hkind : kindOf (Sniff.iphdr b).protocol with
  | icmp =>
    simp only [hkind] at hn ⊢
    rw [printIcmpPacket, printIcmpPacket, ← h.ethhdr (by omega), ← h.iphdr (by omega),
      ← h.icmphdr (by omega), ← h.printDumps (by omega)]
  | tcp =>
    simp only [hkind] at hn ⊢
    rw [printTcpPacket, printTcpPacket, ← h.ethhdr (by omega), ← h.iphdr (by omega),
      ← h.tcphdr (by omega), ← h.printDumps (by omega)]
  | udp =>
    simp only [hkind] at hn ⊢
    rw [printUdpPacket, printUdpPacket, ← h.ethhdr (by omega), ← h.iphdr (by omega),
      ← h.udphdr (by omega), ← h.printDumps (by omega)]
  | igmp => rfl
  | others => rfl

end Reads

/-! ## What a report shows -/

theorem dec_line {m m' : Nat} {rest rest' : List Char}
    (h : dec m ++ ('\n' :: rest) = dec m' ++ ('\n' :: rest')) : m = m' := by
  have hread : ∀ m rest, readNat (dec m ++ ('\n' :: rest)) = m := by
    intro m rest
    have hpad : decPad 0 m = dec m := by simp [decPad, dec]
    rw [← hpad]
    exact readNat_decPad 0 m rfl
  rw [← hread m rest, h, hread]

section Shows
variable {b b' : Buffer} {n : Nat} {rest rest' : List Char}

theorem Agree.last_ntohs {off : Nat} (h : Agree (off + 1) b b')
    (heq : Sniff.ntohs b off = Sniff.ntohs b' off) : b (off + 1) = b' (off + 1) := by
  rw [Sniff.ntohs, Sniff.ntohs, h off (by omega)] at heq
  exact UInt8.toNat_inj.mp (by omega)

theorem Agree.last_le16 {off : Nat} (h : Agree (off + 1) b b')
    (heq : Sniff.le16 b off = Sniff.le16 b' off) : b (off + 1) = b' (off + 1) := by
  rw [Sniff.le16, Sniff.le16, h off (by omega)] at heq
  exact UInt8.toNat_inj.mp (by omega)

/-- Of two headers that differ from the last byte of the address on, that byte is printed. -/
theorem Agree.shows_iphdr (h : Agree 33 b b')
    (heq : printIpHeader (Sniff.ethhdr b) (Sniff.iphdr b) ++ rest =
      printIpHeader (Sniff.ethhdr b') (Sniff.iphdr b') ++ rest') : b 33 = b' 33 := by
  have haddr : (Sniff.iphdr b).daddr = Sniff.inetNtoa b 30 := rfl
  rw [← h.ethhdr (by omega), h.iphdr_but (by omega)] at heq
  unfold printIpHeader at heq
  simp only [haddr, Sniff.inetNtoa, h 30 (by omega), h (30 + 1) (by omega),
    h (30 + 2) (by omega), List.append_assoc, List.append_cancel_left_eq] at heq
  exact UInt8.toNat_inj.mp (dec_line heq)

/-- Either that byte is the first in which the buffers differ, or the headers are the same. -/
theorem Agree.past_iphdr {p : Nat} (h : Agree p b b') (hp : 33 ≤ p)
    (heq : printIpHeader (Sniff.ethhdr b) (Sniff.iphdr b) ++ rest =
      printIpHeader (Sniff.ethhdr b') (Sniff.iphdr b') ++ rest') :
    b p = b' p ∨ 33 < p ∧ Sniff.iphdr b' = Sniff.iphdr b ∧ rest = rest' := by
  by_cases haddr : p = 33
  · subst haddr
    exact .inl (h.shows_iphdr heq)
  · have hiph := h.iphdr (by omega)
    rw [← hiph, ← h.ethhdr (by omega)] at heq
    exact .inr ⟨by omega, hiph.symm, List.append_cancel_left heq⟩

theorem Agree.shows_tcphdr {tcp : Nat} (h : Agree (tcp + 19) b b')
    (heq : printTcpHeader (Sniff.tcphdr b tcp) ++ rest =
      printTcpHeader (Sniff.tcphdr b' tcp) ++ rest') : b (tcp + 19) = b' (tcp + 19) := by
  rw [h.tcphdr_but (by omega)] at heq
  unfold printTcpHeader at heq
  simp only [line, flag, List.append_assoc, List.append_cancel_left_eq] at heq
  exact h.last_le16 (dec_line heq)

theorem Agree.shows_udphdr {udp : Nat} (h : Agree (udp + 7) b b')
    (heq : printUdpHeader (Sniff.udphdr b udp) ++ rest =
      printUdpHeader (Sniff.udphdr b' udp) ++ rest') : b (udp + 7) = b' (udp + 7) := by
  rw [h.udphdr_but (by omega)] at heq
  unfold printUdpHeader at heq
  simp only [line, List.append_assoc, List.append_cancel_left_eq] at heq
  exact h.last_ntohs (dec_line heq)

theorem Agree.shows_icmphdr {icmp : Nat} (h : Agree (icmp + 3) b b')
    (heq : printIcmpHeader (Sniff.icmphdr b icmp) ++ rest =
      printIcmpHeader (Sniff.icmphdr b' icmp) ++ rest') : b (icmp + 3) = b' (icmp + 3) := by
  rw [h.icmphdr_but (by omega)] at heq
  unfold printIcmpHeader at heq
  simp only [line, List.append_assoc, List.append_cancel_left_eq] at heq
  exact h.last_ntohs (dec_line heq)

/-- The last dump of a report that ends within the headers is empty. -/
theorem Agree.shows_dumps {title : String} {iphdrlen hdrlen headerSize : Nat} (h : Agree iphdrlen b b')
    (hn : n ≤ headerSize)
    (heq : Sniff.printDumps b title iphdrlen hdrlen headerSize n =
      Sniff.printDumps b' title iphdrlen hdrlen headerSize n) :
    Bytes.read b iphdrlen hdrlen = Bytes.read b' iphdrlen hdrlen := by
  have hempty : ∀ c : Buffer, Sniff.printData c headerSize ((n : Int) - headerSize) = [] := by
    intro c
    have hsize : ((n : Int) - headerSize).toNat = 0 := by omega
    rw [Sniff.printData, hsize, List.range_zero, List.flatMap_nil]
  rw [Sniff.printDumps, Sniff.printDumps, hempty, hempty,
    h.printData (show 0 + (iphdrlen : Int).toNat ≤ iphdrlen by omega)] at heq
  simp only [List.append_cancel_right_eq, List.append_cancel_left_eq] at heq
  have hread := congrArg dumpedData heq
  rwa [dumpedData_printData, dumpedData_printData] at hread

/-- The last byte a report reads is shown, if the report is more than a counter. -/
theorem Agree.shows_last {p : Nat} (h : Agree p b b') (hp : p + 1 = reach b) (hn : n ≤ p)
    (hmore : 24 ≤ p) (heq : Sniff.report b n = Sniff.report b' n) : b p = b' p := by
  have heth : sizeEthernet = 14 := rfl
  have hproto : (Sniff.iphdr b).protocol = (Sniff.iphdr b').protocol := h 23 (by omega)
  rw [Sniff.report, Sniff.report, ← hproto] at heq
  rw [reach] at hp
  cases hkind : kindOf (Sniff.iphdr b).protocol with
  | igmp =>
    simp only [hkind] at hp
    omega
  | others =>
    simp only [hkind] at hp
    omega
  | icmp =>
    simp only [hkind] at hp heq
    rw [printIcmpPacket, printIcmpPacket] at heq
    simp only [List.append_assoc, List.append_cancel_left_eq] at heq
    obtain haddr | ⟨hlt, hiph, hrest⟩ := h.past_iphdr (by omega) heq
    · exact haddr
    · obtain rfl : p = (Sniff.iphdr b).ihl * 4 + sizeEthernet + 3 := by omega
      rw [hiph] at hrest
      exact h.shows_icmphdr hrest
  | udp =>
    simp only [hkind] at hp heq
    rw [printUdpPacket, printUdpPacket] at heq
    simp only [List.append_assoc, List.append_cancel_left_eq] at heq
    obtain haddr | ⟨hlt, hiph, hrest⟩ := h.past_iphdr (by omega) heq
    · exact haddr
    · obtain rfl : p = (Sniff.iphdr b).ihl * 4 + sizeEthernet + 7 := by omega
      rw [hiph] at hrest
      exact h.shows_udphdr hrest
  | tcp =>
    simp only [hkind] at hp heq
    rw [printTcpPacket, printTcpPacket] at heq
    simp only [List.append_assoc, List.append_cancel_left_eq] at heq
    obtain haddr | ⟨hlt, hiph, hrest⟩ := h.past_iphdr (by omega) heq
    · exact haddr
    · rw [hiph] at hrest
      by_cases hptr : p = (Sniff.iphdr b).ihl * 4 + sizeEthernet + 19
      · subst hptr
        exact h.shows_tcphdr hrest
      · -- the options end behind the frame: their dump shows the byte
        rw [← h.tcphdr (by omega)] at hrest
        have hread := (h.mono (by omega)).shows_dumps (by omega) (List.append_cancel_left hrest)
        have hat := List.map_inj_left.mp hread (p - (Sniff.iphdr b).ihl * 4)
          (List.mem_range.mpr (by omega))
        rwa [Nat.add_sub_cancel' (by omega)] at hat

end Shows

end VirtioBench.Sniff
