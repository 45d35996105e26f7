import VirtioBench.Lib.Bytes

/- `send_tcp_window_update` (code_dump/dpdkTapDevice/backpressure.cpp), up to the transmission:
   what it makes of the bytes of a packet. Nothing is copied. The addresses and ports are
   exchanged where they stand, so the packet that is sent goes back where it came from, and
   the packet that stays behind is the answer, not the question.

   Offsets are those of `rte_ether_hdr`, `rte_ipv4_hdr` (at 14) and `rte_tcp_hdr` (at `tcp`,
   behind the options of the IPv4 header). The two checksum functions of DPDK are a
   parameter.

   Correspondence (C++ ↔ Lean):
     `eth->ether_type`, `ip->next_proto_id`    ↔ `isTcp`
     `tcp`                                     ↔ `tcpOff`
     `rte_ipv4_cksum`, `rte_ipv4_udptcp_cksum` ↔ `Cksum`, `rteCksum`
     `send_tcp_window_update`                  ↔ `windowUpdate`, `none` for the early returns

   `windowUpdate_endpoints` — of a packet with a whole IPv4 header, the ends are exchanged
   and nothing else of what decides where it goes is changed; so a second update sends it in
   the direction of the first packet. -/
namespace VirtioBench.Tap

open Bytes

def rteEtherTypeIpv4 : List UInt8 := [0x08, 0x00]

def ipprotoTcp : UInt8 := 6

def rteTcpAckFlag : UInt8 := 0x10

def toBe16 (x : UInt16) : List UInt8 := [(x >>> 8).toUInt8, x.toUInt8]

def toBe32 (x : UInt32) : List UInt8 :=
  [(x >>> 24).toUInt8, (x >>> 16).toUInt8, (x >>> 8).toUInt8, x.toUInt8]

def ofBe (bytes : List UInt8) : Nat := bytes.foldl (fun n b => n * 256 + b.toNat) 0

/-- The checksums of the IPv4 header and of the TCP segment at an offset. -/
structure Cksum where
  ip : Buffer → UInt16
  tcp : Buffer → Nat → UInt16

/-- The sum of the big-endian 16-bit words. -/
def rawCksum : List UInt8 → Nat
  | [] => 0
  | [x] => x.toNat * 256
  | x :: y :: bytes => x.toNat * 256 + y.toNat + rawCksum bytes

/-- The carries folded back in, twice, and the complement. -/
def reduceCksum (sum : Nat) : UInt16 :=
  let sum := sum / 65536 + sum % 65536
  let sum := sum / 65536 + sum % 65536
  ~~~ (UInt16.ofNat sum)

/-- The length of the IPv4 header in words. -/
def ihl (b : Buffer) : Nat := (b 14 &&& 0x0f).toNat

def tcpOff (b : Buffer) : Nat := 14 + ihl b * 4

def isTcp (b : Buffer) : Bool := read b 12 2 = rteEtherTypeIpv4 && b 23 = ipprotoTcp

/-- The functions of DPDK. The pseudo header of TCP has the addresses, the protocol and the
length of the segment. -/
def rteCksum : Cksum where
  ip b := reduceCksum (rawCksum (read b 14 (ihl b * 4)))
  tcp b tcp :=
    let l3Len := ofBe (read b 16 2)
    if l3Len < ihl b * 4 then 0
    else
      let l4Len := l3Len - ihl b * 4
      reduceCksum (rawCksum (read b tcp l4Len) + rawCksum (read b 26 8) + ipprotoTcp.toNat + l4Len)

/-- The swaps, in the order of the source. -/
def swapEnds (b : Buffer) : Buffer :=
  swap (swap (swap b 6 0 6) 26 30 4) (tcpOff b) (tcpOff b + 2) 2

/-- The writes after them, with the TCP header at `tcp`. -/
def fillAck (ck : Cksum) (windowVal : UInt16) (tcp : Nat) (b : Buffer) : Buffer :=
  let sentSeq := UInt32.ofNat (ofBe (read b (tcp + 4) 4))
  let b := write b (tcp + 8) (toBe32 (sentSeq + 1))
  let b := write b (tcp + 13) [rteTcpAckFlag]
  let b := write b (tcp + 14) (toBe16 windowVal)
  let b := write b 24 [0, 0]
  let b := write b 24 (toBe16 (ck.ip b))
  let b := write b (tcp + 16) [0, 0]
  write b (tcp + 16) (toBe16 (ck.tcp b tcp))

def windowUpdate (ck : Cksum) (windowVal : UInt16) (b : Buffer) : Option Buffer :=
  if isTcp b then some (fillAck ck windowVal (tcpOff b) (swapEnds b)) else none

/-- Where a packet comes from and where it goes. -/
structure Endpoints where
  srcMac : List UInt8
  dstMac : List UInt8
  srcIp : List UInt8
  dstIp : List UInt8
  srcPort : List UInt8
  dstPort : List UInt8
  deriving DecidableEq, Repr

def Endpoints.swap (e : Endpoints) : Endpoints :=
  { srcMac := e.dstMac, dstMac := e.srcMac, srcIp := e.dstIp, dstIp := e.srcIp,
    srcPort := e.dstPort, dstPort := e.srcPort }

def endpoints (b : Buffer) : Endpoints :=
  { srcMac := read b 6 6, dstMac := read b 0 6, srcIp := read b 26 4, dstIp := read b 30 4,
    srcPort := read b (tcpOff b) 2, dstPort := read b (tcpOff b + 2) 2 }

/-- The two ends are one. -/
def Endpoints.Same (e : Endpoints) : Prop :=
  e.srcMac = e.dstMac ∧ e.srcIp = e.dstIp ∧ e.srcPort = e.dstPort

theorem Endpoints.swap_eq_iff {e : Endpoints} : e.swap = e ↔ e.Same := by
  obtain ⟨srcMac, dstMac, srcIp, dstIp, srcPort, dstPort⟩ := e
  simp only [Endpoints.swap, Endpoints.mk.injEq, Endpoints.Same]
  constructor
  · rintro ⟨-, hmac, -, hip, -, hport⟩
    exact ⟨hmac, hip, hport⟩
  · rintro ⟨rfl, rfl, rfl⟩
    exact ⟨rfl, rfl, rfl, rfl, rfl, rfl⟩

section Fields

variable {ck : Cksum} {windowVal : UInt16} {b b' : Buffer} {tcp off n : Nat}

/-- The writes leave alone what is in front of the IPv4 checksum and what is between it and
the acknowledgment number. -/
theorem read_fillAck (htcp : 34 ≤ tcp) (h : off + n ≤ 24 ∨ 26 ≤ off ∧ off + n ≤ tcp + 8) :
    read (fillAck ck windowVal tcp b) off n = read b off n := by
  simp only [fillAck]
  rw [read_write_disjoint (by simp [toBe16]; omega), read_write_disjoint (by simp; omega),
    read_write_disjoint (by simp [toBe16]; omega), read_write_disjoint (by simp; omega),
    read_write_disjoint (by simp [toBe16]; omega), read_write_disjoint (by simp; omega),
    read_write_disjoint (by simp [toBe32]; omega)]

theorem read_one (k : Nat) : read b k 1 = [b k] := by simp [Bytes.read]

/-- The swaps leave alone what is between the Ethernet addresses and the IPv4 ones. -/
theorem read_swapEnds (htcp : 34 ≤ tcpOff b) (hoff : 12 ≤ off) (hn : off + n ≤ 26) :
    read (swapEnds b) off n = read b off n := by
  rw [swapEnds, read_swap_disjoint (by omega) (by omega), read_swap_disjoint (by omega) (by omega),
    read_swap_disjoint (by omega) (by omega)]

theorem byte_fillAck_swapEnds (htcp : 34 ≤ tcpOff b) {k : Nat} (hk : 12 ≤ k) (hk' : k < 24) :
    fillAck ck windowVal (tcpOff b) (swapEnds b) k = b k := by
  have hbytes : [fillAck ck windowVal (tcpOff b) (swapEnds b) k] = [b k] := by
    rw [← read_one, ← read_one, read_fillAck htcp (by omega), read_swapEnds htcp hk (by omega)]
  exact List.head_eq_of_cons_eq hbytes

theorem endpoints_swapEnds (htcp : 34 ≤ tcpOff b) :
    (read (swapEnds b) 6 6 = read b 0 6 ∧ read (swapEnds b) 0 6 = read b 6 6) ∧
    (read (swapEnds b) 26 4 = read b 30 4 ∧ read (swapEnds b) 30 4 = read b 26 4) ∧
    read (swapEnds b) (tcpOff b) 2 = read b (tcpOff b + 2) 2 ∧
    read (swapEnds b) (tcpOff b + 2) 2 = read b (tcpOff b) 2 := by
  refine ⟨⟨?_, ?_⟩, ⟨?_, ?_⟩, ?_, ?_⟩
  · rw [swapEnds, read_swap_disjoint (by omega) (by omega),
      read_swap_disjoint (by omega) (by omega), read_swap_left (by omega)]
  · rw [swapEnds, read_swap_disjoint (by omega) (by omega),
      read_swap_disjoint (by omega) (by omega), read_swap_right]
  · rw [swapEnds, read_swap_disjoint (by omega) (by omega), read_swap_left (by omega),
      read_swap_disjoint (by omega) (by omega)]
  · rw [swapEnds, read_swap_disjoint (by omega) (by omega), read_swap_right,
      read_swap_disjoint (by omega) (by omega)]
  · rw [swapEnds, read_swap_left (by omega), read_swap_disjoint (by omega) (by omega),
      read_swap_disjoint (by omega) (by omega)]
  · rw [swapEnds, read_swap_right, read_swap_disjoint (by omega) (by omega),
      read_swap_disjoint (by omega) (by omega)]

theorem windowUpdate_some : windowUpdate ck windowVal b = some b' ↔
    isTcp b = true ∧ fillAck ck windowVal (tcpOff b) (swapEnds b) = b' := by
  simp [windowUpdate]

/-- The header is where it was, and the packet is one that goes back. -/
theorem windowUpdate_endpoints (hihl : 5 ≤ ihl b)
    (h : windowUpdate ck windowVal b = some b') :
    ihl b' = ihl b ∧ isTcp b' = true ∧ endpoints b' = (endpoints b).swap := by
  obtain ⟨htcp, rfl⟩ := windowUpdate_some.mp h
  have hoff : 34 ≤ tcpOff b := by
    rw [tcpOff]
    omega
  have hihl' : ihl (fillAck ck windowVal (tcpOff b) (swapEnds b)) = ihl b := by
    rw [ihl, ihl, byte_fillAck_swapEnds hoff (by decide) (by decide)]
  have hoff' : tcpOff (fillAck ck windowVal (tcpOff b) (swapEnds b)) = tcpOff b := by
    rw [tcpOff, hihl', tcpOff]
  refine ⟨hihl', ?_, ?_⟩
  · rw [isTcp, byte_fillAck_swapEnds hoff (by decide) (by decide),
      read_fillAck hoff (by omega), read_swapEnds hoff (by decide) (by decide)]
    exact htcp
  · obtain ⟨⟨hsrcMac, hdstMac⟩, ⟨hsrcIp, hdstIp⟩, hsrcPort, hdstPort⟩ := endpoints_swapEnds hoff
    simp only [endpoints, Endpoints.swap, Endpoints.mk.injEq, hoff']
    rw [read_fillAck hoff (by omega), read_fillAck hoff (by omega), read_fillAck hoff (by omega),
      read_fillAck hoff (by omega), read_fillAck hoff (by omega), read_fillAck hoff (by omega)]
    exact ⟨hsrcMac, hdstMac, hsrcIp, hdstIp, hsrcPort, hdstPort⟩

end Fields

end VirtioBench.Tap
