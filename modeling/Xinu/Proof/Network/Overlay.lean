import Xinu.Proof.Network.Fragments
import Xinu.System.TcpInput
import Xinu.System.Udp

namespace Xinu
open Lib (Byte load store)

variable {order : ByteOrder} {mem mem' : Int → Byte} {a : Int} {len : Nat}

def bytesChksum (order : ByteOrder) (bytes : List Byte) : Nat := netChksum order (inMemory bytes) 0 bytes.length

theorem netChksum_bytes (order : ByteOrder) (mem : Int → Byte) (a : Int) (len : Nat) :
    netChksum order mem a len = bytesChksum order (load mem a len) := by
  rw [bytesChksum, Lib.length_load]
  symm
  apply netChksum_shift
  intro i lower upper
  rw [Int.zero_add]
  exact inMemory_load lower upper

theorem bytesChksum_ones (order : ByteOrder) {bytes : List Byte} (bound : bytes.length < 65536) :
    bytesChksum order bytes = hs2net order (65535 - Lib.onesSum (Lib.words bytes)) := by
  have same : load (inMemory bytes) 0 bytes.length = bytes := Lib.load_store_same
  rw [bytesChksum, netChksum_ones order (inMemory bytes) 0 bound, same]

def pseudoHeader (proto : Nat) (src dst : Netaddr) (len : Nat) : List Byte :=
  src.addr.take 4 ++ dst.addr.take 4 ++ [0, BitVec.ofNat 8 proto] ++ net16 len

def overlay (order : ByteOrder) (mem : Int → Byte) (pseu : Int) (proto len : Nat) (src dst : Netaddr) : Int → Byte :=
  let mem := store mem pseu (src.addr.take 4)
  let mem := store mem (pseu + 4) (dst.addr.take 4)
  let mem := store mem (pseu + 8) [0, BitVec.ofNat 8 proto]
  put16 order mem (pseu + 10) (hs2net order len)

theorem overlay_off {i : Int} {proto : Nat} {src dst : Netaddr} (off : i < a ∨ a + 12 ≤ i) :
    overlay order mem a proto len src dst i = mem i := by
  have srcLength : (src.addr.take 4).length ≤ 4 := List.length_take_le _ _
  have dstLength : (dst.addr.take 4).length ≤ 4 := List.length_take_le _ _
  rw [overlay, put16_off (by omega) (by omega), Lib.store_off (by simp; omega), Lib.store_off (by omega),
    Lib.store_off (by omega)]

theorem overlay_store {proto : Nat} {src dst : Netaddr} (hsrc : 4 ≤ src.addr.length) (hdst : 4 ≤ dst.addr.length) :
    overlay order mem a proto len src dst = store mem a (pseudoHeader proto src dst len) := by
  have srcLength : (src.addr.take 4).length = 4 := List.length_take_of_le hsrc
  have dstLength : (dst.addr.take 4).length = 4 := List.length_take_of_le hdst
  rw [overlay, put16_net, pseudoHeader, ← Lib.store_append, ← Lib.store_append, ← Lib.store_append]
  simp only [List.length_append, srcLength, dstLength]
  rfl

theorem overlay_restored {proto : Nat} {src dst : Netaddr} :
    store (overlay order mem a proto len src dst) a (load mem a 12) = mem := by
  funext i
  by_cases within : a ≤ i ∧ i < a + 12
  · rw [Lib.store_within (by rw [Lib.length_load]; exact within) 0, Lib.getD_load (by omega)]
    congr 1
    omega
  · rw [Lib.store_off (by rw [Lib.length_load]; exact within)]
    exact overlay_off (by omega)

theorem overlay_chksum {curr : Int} {proto : Nat} {src dst : Netaddr} (hsrc : 4 ≤ src.addr.length)
    (hdst : 4 ≤ dst.addr.length) :
    netChksum order (overlay order mem (curr - 12) proto len src dst) (curr - 12) (len + 12) =
      bytesChksum order (pseudoHeader proto src dst len ++ load mem curr len) := by
  have length : (pseudoHeader proto src dst len).length = 12 := by
    simp only [pseudoHeader, net16, List.length_append, List.length_take_of_le hsrc, List.length_take_of_le hdst]
    rfl
  have segment : curr - 12 + (12 : Nat) = curr := by omega
  rw [netChksum_bytes, overlay_store hsrc hdst, Nat.add_comm, Lib.load_append, Lib.load_stored length,
    Lib.load_store_apart (by rw [length]; omega), segment]

theorem tcpChksumBuf_eq (order : ByteOrder) (mem : Int → Byte) (curr : Int) (len : Nat) (src dst : Netaddr) :
    tcpChksumBuf order mem curr len src dst = (tcpChksum order mem curr len src dst, mem) :=
  congrArg (Prod.mk _) overlay_restored

theorem udpChksumBuf_eq (order : ByteOrder) (mem : Int → Byte) (curr : Int) (len : Nat) (src dst : Netaddr) :
    udpChksumBuf order mem curr len src dst = (udpChksum order mem curr len src dst, mem) :=
  congrArg (Prod.mk _) overlay_restored

/-- A checksum verifies where it is stored, the sum fits its 32 bits, it is the complement of the one's complement sum
of the words, and the pseudo header leaves no trace. -/
theorem internet_checksum (order : ByteOrder) (mem : Int → Byte) (a : Int) (len : Nat) :
    (∀ k : Nat, 2 * k + 2 ≤ len → get16 order mem (a + 2 * k) = 0 →
      netChksum order (put16 order mem (a + 2 * k) (netChksum order mem a len)) a len = 0) ∧
    (len ≤ 65535 → ∀ n, n ≤ len → chksumAdd order mem a n < 2 ^ 32) ∧
    netChksum order mem a len = bytesChksum order (load mem a len) ∧
    (∀ bytes : List Byte, bytes.length ≤ 65535 →
      bytesChksum order bytes = hs2net order (65535 - Lib.onesSum (Lib.words bytes))) ∧
    ∀ src dst : Netaddr, 4 ≤ src.addr.length → 4 ≤ dst.addr.length →
      tcpChksumBuf order mem a len src dst =
        (bytesChksum order (pseudoHeader IPv4_PROTO_TCP src dst len ++ load mem a len), mem) ∧
      udpChksumBuf order mem a len src dst =
        (bytesChksum order (pseudoHeader IPv4_PROTO_UDP src dst len ++ load mem a len), mem) := by
  refine ⟨fun k within cleared => stored_verifies within cleared, ?_, netChksum_bytes order mem a len, ?_, ?_⟩
  · intro bound n within
    exact chksumAdd_lt (by omega)
  · intro bytes bound
    exact bytesChksum_ones order (Nat.lt_succ_of_le bound)
  · intro src dst hsrc hdst
    rw [tcpChksumBuf_eq, udpChksumBuf_eq]
    exact ⟨congrArg (·, mem) (overlay_chksum hsrc hdst), congrArg (·, mem) (overlay_chksum hsrc hdst)⟩

def oddSource : Netaddr := { type := ETHER_TYPE_IPv4, addr := [10, 0, 0, 2], bound := Netaddr.ipv4_fits }
def oddDestination : Netaddr := { type := ETHER_TYPE_IPv4, addr := [10, 0, 0, 1], bound := Netaddr.ipv4_fits }

def oddSegment : Int → Byte := store (fun _ => 9) 12 [0x12, 0x34, 0, 0, 0xff, 0xff, 0xab]

theorem oddSegment_checksum :
    netChksum .little (put16 .little oddSegment (12 + 2 * (1 : Nat)) (netChksum .little oddSegment 12 7)) 12 7 = 0 ∧
    netChksum .little oddSegment 12 7 = hs2net .little (65535 - (0x1234 + 0xab00)) ∧
    udpChksumBuf .little oddSegment 12 7 oddSource oddDestination =
      (hs2net .little (65535 - (0x0a00 + 2 + 0x0a00 + 1 + 17 + 7 + 0x1234 + 0xab00)), oddSegment) := by
  obtain ⟨verifies, -, bytes, ones, pseudo⟩ := internet_checksum .little oddSegment 12 7
  refine ⟨verifies 1 (by decide) (by decide +kernel), ?_, ?_⟩
  · rw [bytes, ones _ (by decide)]
    decide +kernel
  · rw [(pseudo oddSource oddDestination (by decide) (by decide)).2, ones _ (by decide +kernel)]
    exact congrArg (·, oddSegment) (by decide +kernel)

end Xinu
