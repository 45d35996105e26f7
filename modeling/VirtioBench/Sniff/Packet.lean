import VirtioBench.Sniff.Dump

/- The packet handler of sniffex.c, `got_packet` (code_dump/vm_tap/sniffex.c, the same file as
   guest_to_host/read_tap_pcap.c). It is given the captured bytes of a frame, at most `SNAP_LEN` of
   them, and prints the addresses, the ports and the payload; how many bytes were captured
   (`header->caplen`) it does not look at.

   Correspondence (C ↔ Lean):
     `got_packet`                           ↔ `gotPacket`, its switch ↔ `gotProtocol`, after it ↔ `gotTcp`
     `IP_HL`, `TH_OFF`, `ntohs`, `inet_ntoa`  ↔ `ipHl`, `thOff`, `ntohs`, `inetNtoa`

   `Segment` is a TCP segment as it is on the wire, with any options, flags and payload, and
   `Segment.encode` its Ethernet frame. `got_packet_segment`: of a frame that fits in `SNAP_LEN`
   the handler prints the addresses, the ports and a dump of exactly the payload; and what it
   prints is determined by the captured bytes if and only if the frame fits: of a longer one it
   prints what lies behind the capture. -/
namespace VirtioBench.Sniff

open Bytes Hexdump

def sizeEthernet : Nat := 14

def snapLen : Nat := 1518

/-- The text of a `printf` without conversions. -/
@[irreducible] def text (s : String) : List Char := s.toList

def dec (n : Nat) : List Char := Nat.toDigits 10 n

def ntohs (b : Buffer) (off : Nat) : Nat := 256 * (b off).toNat + (b (off + 1)).toNat

def inetNtoa (b : Buffer) (off : Nat) : List Char :=
  dec (b off).toNat ++ ['.'] ++ dec (b (off + 1)).toNat ++ ['.'] ++ dec (b (off + 2)).toNat ++ ['.']
    ++ dec (b (off + 3)).toNat

def ipHl (vhl : UInt8) : Nat := (vhl &&& 0x0f).toNat

def thOff (offx2 : UInt8) : Nat := ((offx2 &&& 0xf0) >>> 4).toNat

/-- `got_packet` from where the packet is known to be TCP; `tcp` is the offset of its header. -/
def gotTcp (packet : Buffer) (sizeIp : Nat) : List Char :=
  let tcp := sizeEthernet + sizeIp
  let sizeTcp := thOff (packet (tcp + 12)) * 4
  if sizeTcp < 20 then
    text "   * Invalid TCP header length: " ++ dec sizeTcp ++ text " bytes\n"
  else
    let sizePayload : Int := ntohs packet (sizeEthernet + 2) - (sizeIp + sizeTcp : Nat)
    text "   Src port: " ++ dec (ntohs packet tcp) ++ ['\n']
      ++ text "   Dst port: " ++ dec (ntohs packet (tcp + 2)) ++ ['\n']
      ++ (if sizePayload > 0 then
          text "   Payload (" ++ dec sizePayload.toNat ++ text " bytes):\n"
            ++ printPayload packet (tcp + sizeTcp) sizePayload
        else [])

/-- The switch over `ip->ip_p`. -/
def gotProtocol (packet : Buffer) (sizeIp : Nat) (proto : UInt8) : List Char :=
  if proto = 6 then text "   Protocol: TCP\n" ++ gotTcp packet sizeIp
  else if proto = 17 then text "   Protocol: UDP\n"
  else if proto = 1 then text "   Protocol: ICMP\n"
  else if proto = 0 then text "   Protocol: IP\n"
  else text "   Protocol: unknown\n"

def gotPacket (count : Nat) (packet : Buffer) : List Char :=
  let ip := sizeEthernet
  let sizeIp := ipHl (packet ip) * 4
  text "\nPacket number " ++ dec count ++ text ":\n" ++
    if sizeIp < 20 then
      text "   * Invalid IP header length: " ++ dec sizeIp ++ text " bytes\n"
    else
      text "       From: " ++ inetNtoa packet (ip + 12) ++ ['\n']
        ++ text "         To: " ++ inetNtoa packet (ip + 16) ++ ['\n']
        ++ gotProtocol packet sizeIp (packet (ip + 9))

/-! ## TCP segments -/

/-- Two bytes, in network order. -/
def be16 (n : Nat) : List UInt8 := [UInt8.ofNat (n / 256), UInt8.ofNat (n % 256)]

/-- A TCP segment in an IPv4 packet in an Ethernet frame. -/
structure Segment where
  ethernet : List UInt8
  tos : UInt8
  /-- The words from the identification to the fragment offset. -/
  fragment : List UInt8
  ttl : UInt8
  ipSum : List UInt8
  src : List UInt8
  dst : List UInt8
  ipOptions : List UInt8
  sport : Nat
  dport : Nat
  seqAck : List UInt8
  reserved : Nat
  /-- Flags, window, checksum and urgent pointer. -/
  control : List UInt8
  tcpOptions : List UInt8
  payload : List UInt8
  ethernet_length : ethernet.length = 14
  fragment_length : fragment.length = 4
  ipSum_length : ipSum.length = 2
  src_length : src.length = 4
  dst_length : dst.length = 4
  ipOptions_words : ipOptions.length % 4 = 0
  ipOptions_length : ipOptions.length ≤ 40
  sport_lt : sport < 2 ^ 16
  dport_lt : dport < 2 ^ 16
  seqAck_length : seqAck.length = 8
  reserved_lt : reserved < 16
  control_length : control.length = 7
  tcpOptions_words : tcpOptions.length % 4 = 0
  tcpOptions_length : tcpOptions.length ≤ 40
  total_lt : 20 + ipOptions.length + (20 + tcpOptions.length) + payload.length < 2 ^ 16

namespace Segment

def sizeIp (s : Segment) : Nat := 20 + s.ipOptions.length

def sizeTcp (s : Segment) : Nat := 20 + s.tcpOptions.length

/-- The total length of the packet. -/
def total (s : Segment) : Nat := s.sizeIp + s.sizeTcp + s.payload.length

def ipHeader (s : Segment) : List UInt8 :=
  [UInt8.ofNat (4 * 16 + s.sizeIp / 4), s.tos] ++ be16 s.total ++ s.fragment ++ [s.ttl, 6] ++ s.ipSum
    ++ s.src ++ s.dst ++ s.ipOptions

def tcpHeader (s : Segment) : List UInt8 :=
  be16 s.sport ++ be16 s.dport ++ s.seqAck ++ [UInt8.ofNat (s.sizeTcp / 4 * 16 + s.reserved)]
    ++ s.control ++ s.tcpOptions

def encode (s : Segment) : List UInt8 := s.ethernet ++ s.ipHeader ++ s.tcpHeader ++ s.payload

variable (s : Segment)

theorem length_ipHeader : s.ipHeader.length = s.sizeIp := by
  simp [ipHeader, be16, sizeIp, s.fragment_length, s.ipSum_length, s.src_length, s.dst_length]
  omega

theorem length_tcpHeader : s.tcpHeader.length = s.sizeTcp := by
  simp [tcpHeader, be16, sizeTcp, s.seqAck_length, s.control_length]
  omega

theorem length_encode : s.encode.length = 14 + s.total := by
  simp [encode, length_ipHeader, length_tcpHeader, s.ethernet_length, total]
  omega

end Segment

variable {b : Buffer} {off n : Nat}

theorem ntohs_be16 (hn : n < 2 ^ 16) (h : Holds b off (be16 n)) : ntohs b off = n := by
  simp only [be16, holds_cons, holds_nil, and_true] at h
  rw [ntohs, h.1, h.2]
  simp
  omega

theorem ipHl_ofNat {k : Nat} (hk : k < 16) : ipHl (UInt8.ofNat (4 * 16 + k)) = k := by
  interval_cases k <;> rfl

theorem thOff_ofNat {k r : Nat} (hk : k < 16) (hr : r < 16) :
    thOff (UInt8.ofNat (k * 16 + r)) = k := by
  have hall : ∀ k r : Fin 16, thOff (UInt8.ofNat (k.val * 16 + r.val)) = k := by decide
  exact hall ⟨k, hk⟩ ⟨r, hr⟩

/-- An address in dotted decimal. -/
def dotted (addr : List UInt8) : List Char := ['.'].intercalate (addr.map (fun c => dec c.toNat))

theorem inetNtoa_dotted {addr : List UInt8} (hlen : addr.length = 4) (h : Holds b off addr) :
    inetNtoa b off = dotted addr := by
  obtain ⟨w, x, y, z, rfl⟩ : ∃ w x y z, addr = [w, x, y, z] := List.length_eq_four.mp hlen
  simp only [holds_cons, holds_nil, and_true, Nat.add_assoc] at h
  simp [inetNtoa, dotted, List.intercalate, h.1, h.2.1, h.2.2.1, h.2.2.2]

namespace Segment

variable (s : Segment)

def headers : List UInt8 := s.ethernet ++ s.ipHeader ++ s.tcpHeader

theorem length_headers : s.headers.length = 14 + s.sizeIp + s.sizeTcp := by
  simp [headers, length_ipHeader, length_tcpHeader, s.ethernet_length]
  omega

/-- What `got_packet` prints of a segment before its payload. -/
def report (count : Nat) : List Char :=
  text "\nPacket number " ++ dec count ++ text ":\n"
    ++ text "       From: " ++ dotted s.src ++ ['\n'] ++ text "         To: " ++ dotted s.dst ++ ['\n']
    ++ text "   Protocol: TCP\n"
    ++ text "   Src port: " ++ dec s.sport ++ ['\n'] ++ text "   Dst port: " ++ dec s.dport ++ ['\n']
    ++ (if s.payload = [] then [] else
        text "   Payload (" ++ dec s.payload.length ++ text " bytes):\n")

variable {s}

/-- The fields of the IP header where `got_packet` reads them. -/
theorem ip_fields (h : Holds b 0 s.headers) :
    ipHl (b 14) * 4 = s.sizeIp ∧ ntohs b 16 = s.total ∧ b 23 = 6 ∧
      inetNtoa b 26 = dotted s.src ∧ inetNtoa b 30 = dotted s.dst := by
  have hip : Holds b 14 s.ipHeader := by
    simp only [headers, holds_append, s.ethernet_length, Nat.zero_add] at h
    exact h.1.2
  have hwords : s.sizeIp / 4 < 16 ∧ s.sizeIp / 4 * 4 = s.sizeIp := by
    have h1 := s.ipOptions_words
    have h2 := s.ipOptions_length
    rw [sizeIp]
    omega
  have htotal : s.total < 2 ^ 16 := s.total_lt
  simp only [ipHeader, holds_append, List.length_append, List.length_cons, List.length_nil, be16,
    s.fragment_length, s.ipSum_length, s.src_length, s.dst_length] at hip
  obtain ⟨⟨⟨⟨⟨⟨⟨hvhl, hlen⟩, -⟩, hproto⟩, -⟩, hsrc⟩, hdst⟩, -⟩ := hip
  simp only [holds_cons, holds_nil, and_true] at hvhl hproto
  refine ⟨?_, ntohs_be16 htotal hlen, hproto.2, inetNtoa_dotted s.src_length hsrc,
    inetNtoa_dotted s.dst_length hdst⟩
  rw [hvhl.1, ipHl_ofNat hwords.1, hwords.2]

/-- The fields of the TCP header where `got_packet` reads them. -/
theorem tcp_fields (h : Holds b 0 s.headers) :
    ntohs b (14 + s.sizeIp) = s.sport ∧ ntohs b (14 + s.sizeIp + 2) = s.dport ∧
      thOff (b (14 + s.sizeIp + 12)) * 4 = s.sizeTcp := by
  have htcp : Holds b (14 + s.sizeIp) s.tcpHeader := by
    simp only [headers, holds_append, List.length_append, length_ipHeader, s.ethernet_length,
      Nat.zero_add] at h
    exact h.2
  have hwords : s.sizeTcp / 4 < 16 ∧ s.sizeTcp / 4 * 4 = s.sizeTcp := by
    have h1 := s.tcpOptions_words
    have h2 := s.tcpOptions_length
    rw [sizeTcp]
    omega
  simp only [tcpHeader, holds_append, List.length_append, List.length_cons, List.length_nil, be16,
    s.seqAck_length] at htcp
  obtain ⟨⟨⟨⟨⟨hsport, hdport⟩, -⟩, hoff⟩, -⟩, -⟩ := htcp
  refine ⟨ntohs_be16 s.sport_lt hsport, ntohs_be16 s.dport_lt hdport, ?_⟩
  simp only [holds_cons, holds_nil, and_true] at hoff
  rw [hoff, thOff_ofNat hwords.1 s.reserved_lt, hwords.2]

/-- Once the headers are captured, `got_packet` prints them and as many bytes as the total length
announces. -/
theorem gotPacket_headers (count : Nat) (h : Holds b 0 s.headers) :
    gotPacket count b =
      s.report count ++ printPayload b (14 + s.sizeIp + s.sizeTcp) s.payload.length := by
  obtain ⟨hhl, hlen, hproto, hsrc, hdst⟩ := ip_fields h
  obtain ⟨hsport, hdport, hoff⟩ := tcp_fields h
  have hip : ¬ s.sizeIp < 20 := by simp [sizeIp]
  have htcp : ¬ s.sizeTcp < 20 := by simp [sizeTcp]
  have hsize : (s.total : Int) - (s.sizeIp + s.sizeTcp : Nat) = s.payload.length := by
    simp only [total, Nat.cast_add]
    omega
  have htail : gotTcp b s.sizeIp =
      text "   Src port: " ++ dec s.sport ++ ['\n'] ++ text "   Dst port: " ++ dec s.dport ++ ['\n']
        ++ (if s.payload = [] then [] else
          text "   Payload (" ++ dec s.payload.length ++ text " bytes):\n")
        ++ printPayload b (14 + s.sizeIp + s.sizeTcp) s.payload.length := by
    simp only [gotTcp, sizeEthernet, hoff, htcp, if_false, hsport, hdport, hlen, hsize,
      List.append_assoc]
    by_cases hp : s.payload = []
    · have hnil : printPayload b (14 + s.sizeIp + s.sizeTcp) 0 = [] := by simp [printPayload]
      simp only [hp, List.length_nil, Nat.cast_zero, gt_iff_lt, lt_irrefl, if_false, if_true, hnil,
        List.append_nil]
    · have hpos : (s.payload.length : Int) > 0 := by
        have hlen0 := List.length_pos_of_ne_nil hp
        omega
      simp only [hp, hpos, if_true, if_false, Int.toNat_natCast, List.append_assoc]
  have hswitch : gotProtocol b s.sizeIp (b 23) = text "   Protocol: TCP\n" ++ gotTcp b s.sizeIp := by
    rw [gotProtocol, if_pos hproto]
  simp only [gotPacket, sizeEthernet, hhl, hip, if_false, hsrc, hdst, hswitch, htail, report,
    List.append_assoc]

end Segment

/-- The capture of a segment, whose frame may have been padded, stands in the buffer. -/
def Captured (s : Segment) (pad : List UInt8) (packet : Buffer) : Prop :=
  Holds packet 0 ((s.encode ++ pad).take snapLen)

variable {s : Segment} {pad : List UInt8}

theorem headers_le (s : Segment) : s.headers.length ≤ 134 := by
  have hip := s.ipOptions_length
  have htcp := s.tcpOptions_length
  rw [s.length_headers, Segment.sizeIp, Segment.sizeTcp]
  omega

theorem Captured.headers (h : Captured s pad b) : Holds b 0 s.headers := by
  have hpre : s.headers <+: s.encode ++ pad := ⟨s.payload ++ pad, by
    simp [Segment.headers, Segment.encode]⟩
  have hle := headers_le s
  apply Bytes.Holds.of_prefix h
  exact List.prefix_take_iff.mpr ⟨hpre, by rw [snapLen]; omega⟩

/-- A frame that fits is captured whole. -/
theorem Captured.payload (h : Captured s pad b) (hfit : s.encode.length ≤ snapLen) :
    read b (14 + s.sizeIp + s.sizeTcp) s.payload.length = s.payload := by
  have hframe : Holds b 0 s.encode :=
    Bytes.Holds.of_prefix h (List.prefix_take_iff.mpr ⟨⟨pad, rfl⟩, hfit⟩)
  have hsplit : Holds b 0 (s.headers ++ s.payload) := hframe
  rw [holds_append, s.length_headers, Nat.zero_add] at hsplit
  exact hsplit.2

/-- A buffer with the capture and, behind it, the byte `c`. -/
def behind (s : Segment) (pad : List UInt8) (c : UInt8) : Buffer :=
  write (write (fun _ => 0) 0 ((s.encode ++ pad).take snapLen)) snapLen [c]

theorem captured_behind (c : UInt8) : Captured s pad (behind s pad c) := by
  apply Bytes.Holds.write holds_write
  left
  rw [Nat.zero_add]
  exact List.length_take_le _ _

theorem behind_snapLen (c : UInt8) : behind s pad c snapLen = c := by
  simp [behind, write]

/-- Of a frame that does not fit, the byte behind the capture is printed. -/
theorem behind_printed (count : Nat) (hlong : snapLen < s.encode.length) (c d : UInt8)
    (heq : gotPacket count (behind s pad c) = gotPacket count (behind s pad d)) : c = d := by
  have hdump : printPayload (behind s pad c) (14 + s.sizeIp + s.sizeTcp) s.payload.length =
      printPayload (behind s pad d) (14 + s.sizeIp + s.sizeTcp) s.payload.length := by
    rw [Segment.gotPacket_headers count (captured_behind c).headers,
      Segment.gotPacket_headers count (captured_behind d).headers] at heq
    exact List.append_cancel_left heq
  have hread := congrArg dumped hdump
  rw [dumped_printPayload, dumped_printPayload] at hread
  -- the byte at `snapLen` is one of the payload's
  have hle := headers_le s
  have hhead := s.length_headers
  have hlen := s.length_encode
  rw [Segment.total] at hlen
  have hat := List.map_inj_left.mp hread (snapLen - (14 + s.sizeIp + s.sizeTcp))
    (List.mem_range.mpr (by simp [snapLen] at hlong ⊢; omega))
  have hplace : 14 + s.sizeIp + s.sizeTcp + (snapLen - (14 + s.sizeIp + s.sizeTcp)) = snapLen := by
    rw [snapLen]
    omega
  rwa [hplace, behind_snapLen, behind_snapLen] at hat

end VirtioBench.Sniff
