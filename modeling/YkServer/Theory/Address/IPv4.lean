import YkServer.Core.Address

/-!
# Subnets of IPv4

The mask of a subnet is made by shifting an `int`. With a length of two or more the results are
what they should be, whatever the byte order of the host is: swapping the bytes of a mask
and of an address is the same as swapping those of the result. With a length of 1 the
shifted one is the least `int`, from which one cannot be subtracted; with a length of 0
it is shifted by its width.

## Main definitions

* `IPv4Address.network`: The address as it is sent.
* `IPv4Address.SubnetAlgebra`: What is expected of the three functions.

## Theorems

* `createMask_eq`, `createMask_none`: Masks.
* `subnetAlgebra_iff`: When the functions do what is expected.
-/

namespace YkServer

open Lib

/-- The `int` is shifted and one is subtracted. -/
theorem pred_shiftOne (count : Nat) (h : count < 31) :
    (shiftOne count).bind pred = some ((2 ^ count - 1 : Nat) : Int) := by
  have hlt : 2 ^ count < 2 ^ 31 := Nat.pow_lt_pow_right (by decide) h
  have hpos := Nat.two_pow_pos count
  rw [shiftOne, if_pos (Nat.lt_succ_of_lt h), Option.bind_some, intOfWord_small _ hlt, pred,
    if_pos (by omega), Int.natCast_sub hpos]
  rfl

theorem createMask_eq (w : Nat) (bits : UInt32) (hbits : bits.toNat ≤ w)
    (hshift : w < bits.toNat + 31) : createMask w bits = some (~~~leadingOnes w bits.toNat) := by
  have hcount : (w + 2 ^ 64 - bits.toNat) % 2 ^ 64 = w - bits.toNat := by omega
  have hmask : createMask w bits =
      ((shiftOne (w - bits.toNat)).bind pred).bind (fun v => some (BitVec.ofInt w v)) := by
    rw [createMask, hcount, Option.bind_assoc]
    rfl
  rw [hmask, pred_shiftOne _ (by omega), Option.bind_some, BitVec.ofInt_natCast]
  refine congrArg some (BitVec.eq_of_getMsbD_eq (fun i hi => ?_))
  rw [BitVec.getMsbD_not, getMsbD_leading _ i hi, BitVec.getMsbD_eq_getLsbD, BitVec.getLsbD_ofNat,
    Nat.testBit_two_pow_sub_one, decide_eq_true hi, Bool.true_and, Bool.true_and,
    decide_eq_true (by omega), Bool.true_and, ← decide_not]
  exact decide_eq_decide.2 (by omega)

/-- For lengths of 0 and 1 there is no mask of 32 bits. -/
theorem createMask_none (bits : UInt32) (hbits : bits.toNat < 2) : createMask 32 bits = none := by
  rcases Nat.lt_or_ge bits.toNat 1 with h | h
  · rw [createMask, show (32 + 2 ^ 64 - bits.toNat) % 2 ^ 64 = 32 by omega]
    rfl
  · rw [createMask, show (32 + 2 ^ 64 - bits.toNat) % 2 ^ 64 = 31 by omega]
    rfl

namespace IPv4Address

/-- The bytes of a word in the memory of a host. -/
def memory (host : ByteOrder) (x : BitVec 32) : Vector (BitVec 8) 4 :=
  match host with
  | .littleEndian =>
    #v[x.extractLsb' 0 8, x.extractLsb' 8 8, x.extractLsb' 16 8, x.extractLsb' 24 8]
  | .bigEndian => #v[x.extractLsb' 24 8, x.extractLsb' 16 8, x.extractLsb' 8 8, x.extractLsb' 0 8]

/-- The word in network order: its bytes as they are in memory, the first one in front. -/
def network (host : ByteOrder) (x : BitVec 32) : BitVec 32 :=
  (memory host x)[0] ++ (memory host x)[1] ++ (memory host x)[2] ++ (memory host x)[3]

/-- What is expected of a length: the functions have the results of the mask of its leading
    bits, they keep the family and the port, the address of a network is that of the
    network, and two addresses are in one network if their leading bits are the same. -/
def SubnetAlgebra (host : ByteOrder) (a : IPv4Address) (n : UInt32) : Prop :=
  ∃ mask net broadcast, subnetMask host n = some (some mask) ∧
    networkAddress host a n = some (some net) ∧
    broadcastAddress host a n = some (some broadcast) ∧
    network host mask.addr = leadingOnes 32 n.toNat ∧
    network host net.addr = network host a.addr &&& leadingOnes 32 n.toNat ∧
    network host broadcast.addr = network host a.addr ||| ~~~leadingOnes 32 n.toNat ∧
    (net.family = a.family ∧ net.port = a.port) ∧
    (broadcast.family = a.family ∧ broadcast.port = a.port) ∧
    networkAddress host net n = some (some net) ∧
    ∀ b net', networkAddress host b n = some (some net') →
      (net'.addr = net.addr ↔
        ∀ k < n.toNat, (network host b.addr).getMsbD k = (network host a.addr).getMsbD k)

/-- What the code swaps is the network order. -/
theorem network_eq (host : ByteOrder) (x : BitVec 32) :
    network host x = byteswapOnLittleEndian32 host x := by
  cases host with
  | littleEndian => rfl
  | bigEndian =>
      change x.extractLsb' (8 * (3 - 0)) 8 ++ x.extractLsb' (8 * (3 - 1)) 8 ++
        x.extractLsb' (8 * (3 - 2)) 8 ++ x.extractLsb' (8 * (3 - 3)) 8 = x
      rw [← extract_swap32 x 0 (by decide), ← extract_swap32 x 1 (by decide),
        ← extract_swap32 x 2 (by decide), ← extract_swap32 x 3 (by decide)]
      exact swap32_swap32 x

variable (host : ByteOrder)

theorem network_and (x y : BitVec 32) :
    network host (x &&& y) = network host x &&& network host y := by
  rw [network_eq, network_eq, network_eq]
  cases host with
  | littleEndian => exact swap32_and x y
  | bigEndian => rfl

theorem network_or (x y : BitVec 32) :
    network host (x ||| y) = network host x ||| network host y := by
  rw [network_eq, network_eq, network_eq]
  cases host with
  | littleEndian => exact swap32_or x y
  | bigEndian => rfl

theorem network_not (x : BitVec 32) : network host (~~~x) = ~~~network host x := by
  rw [network_eq, network_eq]
  cases host with
  | littleEndian => exact swap32_not x
  | bigEndian => rfl

theorem network_byteswap (x : BitVec 32) : network host (byteswapOnLittleEndian32 host x) = x := by
  rw [network_eq]
  cases host with
  | littleEndian => exact swap32_swap32 x
  | bigEndian => rfl

theorem network_inj (x y : BitVec 32) : network host x = network host y ↔ x = y := by
  refine ⟨fun h => ?_, fun h => by rw [h]⟩
  have hback : ∀ z, byteswapOnLittleEndian32 host (network host z) = z := by
    intro z
    rw [← network_eq, network_eq host z, network_byteswap]
  rw [← hback x, h, hback]

/-- The mask as the code applies it. -/
def hostMask (n : UInt32) : BitVec 32 := byteswapOnLittleEndian32 host (~~~leadingOnes 32 n.toNat)

theorem network_not_hostMask (n : UInt32) :
    network host (~~~hostMask host n) = leadingOnes 32 n.toNat := by
  rw [network_not, hostMask, network_byteswap, BitVec.not_not]

theorem le_size (n : UInt32) (hn : n.toNat ≤ 32) : ¬n > 32 := by
  rw [gt_iff_lt, UInt32.lt_iff_toNat_lt, Nat.not_lt]
  exact hn

section Lengths

variable (n : UInt32) (hn : n.toNat ≤ 32) (htwo : 2 ≤ n.toNat)

include hn htwo

theorem mask_eq : createMask 32 n = some (~~~leadingOnes 32 n.toNat) :=
  createMask_eq 32 n hn (by omega)

theorem networkAddress_eq (a : IPv4Address) :
    networkAddress host a n = some (some { a with addr := a.addr &&& ~~~hostMask host n }) := by
  rw [networkAddress, if_neg (le_size n hn), mask_eq n hn htwo]
  rfl

theorem broadcastAddress_eq (a : IPv4Address) :
    broadcastAddress host a n = some (some { a with addr := a.addr ||| hostMask host n }) := by
  rw [broadcastAddress, if_neg (le_size n hn), mask_eq n hn htwo]
  rfl

theorem subnetMask_eq :
    subnetMask host n = some (some ⟨afInet, 0, ~~~hostMask host n⟩) := by
  rw [subnetMask, mask_eq n hn htwo]
  rfl

end Lengths

/-- For every address, every length and every byte order, the functions do what is expected if
    and only if the length is two or more. -/
theorem subnetAlgebra_iff (a : IPv4Address) (n : UInt32) (hn : n.toNat ≤ 32) :
    SubnetAlgebra host a n ↔ 2 ≤ n.toNat := by
  constructor
  · rintro ⟨mask, -, -, hmask, -⟩
    by_contra hlt
    rw [subnetMask, createMask_none n (Nat.not_le.1 hlt)] at hmask
    cases hmask
  · intro htwo
    refine ⟨_, _, _, subnetMask_eq host n hn htwo, networkAddress_eq host n hn htwo a,
      broadcastAddress_eq host n hn htwo a, network_not_hostMask host n, ?_, ?_, ⟨rfl, rfl⟩,
      ⟨rfl, rfl⟩, ?_, ?_⟩
    · rw [network_and, network_not_hostMask]
    · rw [network_or, hostMask, network_byteswap]
    · rw [networkAddress_eq host n hn htwo, BitVec.and_assoc, BitVec.and_self]
    · intro b net' hnet'
      rw [networkAddress_eq host n hn htwo, Option.some.injEq, Option.some.injEq] at hnet'
      rw [← hnet', ← network_inj host, network_and, network_and, network_not_hostMask]
      exact and_leading_iff n.toNat hn _ _

/-- The network of `192.168.0.1` with 24 bits is that of `192.168.0.0`, and keeps the port. -/
theorem subnetAlgebra_24 :
    ∃ net, networkAddress .littleEndian ⟨afInet, 0x5000, 0x0100a8c0⟩ 24 = some (some net) ∧
      network .littleEndian net.addr = 0xc0a80000 ∧ net.port = 0x5000 := by
  rcases (subnetAlgebra_iff .littleEndian ⟨afInet, 0x5000, 0x0100a8c0⟩ 24 (by decide)).2
    (by decide) with ⟨-, net, -, -, hnet, -, -, haddr, -, ⟨-, hport⟩, -⟩
  exact ⟨net, hnet, haddr.trans (by decide), hport⟩

/-- The length 0 is admitted, and an `int` is shifted by 32. -/
theorem subnetAlgebra_not_0 :
    ¬SubnetAlgebra .littleEndian ⟨afInet, 0x5000, 0x0100a8c0⟩ 0 := by
  rintro ⟨mask, -, -, hmask, -⟩
  cases hmask

end IPv4Address

end YkServer
