import YkServer.Theory.Address.IPv4

/-!
# Subnets of IPv6

The byte a length ends in is masked, and those behind it are filled. `subnetMask` and
`broadcastAddress` do so as they should for every length below 128. `networkAddress` has
lost the complement of the mask and keeps the part of the byte that it should clear, and
has no loop for the bytes behind, so it is right where there is nothing to clear. A length
of 128 ends behind the last byte.

## Main definitions

* `bit`: The bits of an address.
* `IPv6Address.SubnetBits`: What is expected of the three functions.

## Theorems

* `bit_set`, `fill_spec`: What is stored.
* `subnetBits_iff`: When the functions do what is expected.
-/

namespace YkServer

open Lib

/-- A bit of an address, counted from the first. -/
def bit (addr : Vector (BitVec 8) 16) (k : Nat) : Bool :=
  match addr[k / 8]? with
  | some b => b.getMsbD (k % 8)
  | none => false

theorem bit_eq (addr : Vector (BitVec 8) 16) (k : Nat) (h : k / 8 < 16) :
    bit addr k = addr[k / 8].getMsbD (k % 8) := by
  rw [bit, Vector.getElem?_eq_getElem h]

theorem bit_set (addr : Vector (BitVec 8) 16) (i : Nat) (v : BitVec 8) (h : i < 16) (k : Nat)
    (hk : k < 128) :
    bit (addr.set i v h) k = if k / 8 = i then v.getMsbD (k % 8) else bit addr k := by
  rw [bit_eq _ k (by omega), bit_eq _ k (by omega), Vector.getElem_set]
  by_cases hi : k / 8 = i
  · rw [if_pos hi.symm, if_pos hi]
  · rw [if_neg (Ne.symm hi), if_neg hi]

theorem bit_replicate (k : Nat) : bit (Vector.replicate 16 0) k = false := by
  rw [bit]
  split
  · rename_i b hb
    rcases Vector.getElem?_eq_some_iff.1 hb with ⟨hlt, rfl⟩
    rw [Vector.getElem_replicate]
    exact BitVec.getMsbD_zero
  · rfl

/-- A loop fills the bytes it comes by. -/
theorem fill_spec (v : BitVec 8) (n i : Nat) (addr : Vector (BitVec 8) 16) (h : i + n ≤ 16) :
    ∃ addr', fill v n i addr = some addr' ∧ ∀ k < 128,
      bit addr' k = if i ≤ k / 8 ∧ k / 8 < i + n then v.getMsbD (k % 8) else bit addr k := by
  induction n generalizing i addr with
  | zero =>
      refine ⟨addr, rfl, fun k _ => ?_⟩
      rw [if_neg (by omega)]
  | succ n ih =>
      rcases ih (i + 1) (addr.set i v (by omega)) (by omega) with ⟨addr', hrest, hbits⟩
      refine ⟨addr', ?_, fun k hk => ?_⟩
      · rw [fill, store, dif_pos (show i < 16 by omega)]
        exact hrest
      · rw [hbits k hk, bit_set _ _ _ _ k hk]
        by_cases hi : k / 8 = i
        · rw [if_neg (by omega), if_pos hi, if_pos (by omega)]
        · rw [if_neg hi]
          by_cases hin : i ≤ k / 8 ∧ k / 8 < i + (n + 1)
          · rw [if_pos (by omega), if_pos hin]
          · rw [if_neg (by omega), if_neg hin]

namespace IPv6Address

/-- What is expected of a length: no index is out of range, and the bits of the results are
    those of the address up to the length and the same ones behind it. -/
def SubnetBits (a : IPv6Address) (n : UInt32) : Prop :=
  ∃ net broadcast mask, networkAddress a n = some net ∧ broadcastAddress a n = some broadcast ∧
    subnetMask n = some mask ∧ ∀ k < 128,
      bit net.addr k = (bit a.addr k && decide (k < n.toNat)) ∧
      bit broadcast.addr k = (bit a.addr k || decide (n.toNat ≤ k)) ∧
      bit mask.addr k = decide (k < n.toNat)

/-- The mask of the byte the length ends in. -/
theorem mask_eq (n : UInt32) : createMask 8 (n % 8) = some (~~~leadingOnes 8 (n.toNat % 8)) := by
  have hmod : (n % 8).toNat = n.toNat % 8 := UInt32.toNat_mod n 8
  have hlt := Nat.mod_lt n.toNat (show 0 < 8 by decide)
  rw [createMask_eq 8 (n % 8) (by omega) (by omega), hmod]

theorem getMsbD_not_leading (r i : Nat) (hi : i < 8) :
    (~~~leadingOnes 8 r).getMsbD i = !decide (i < r) := by
  rw [BitVec.getMsbD_not, getMsbD_leading r i hi, decide_eq_true hi, Bool.true_and]

theorem getMsbD_ones (i : Nat) (hi : i < 8) : (0xff : BitVec 8).getMsbD i = true := by
  change (BitVec.allOnes 8).getMsbD i = true
  rw [BitVec.getMsbD_allOnes, decide_eq_true hi]

theorem getMsbD_zero_byte (i : Nat) : (0 : BitVec 8).getMsbD i = false := BitVec.getMsbD_zero

section Lengths

variable (a : IPv6Address) (n : UInt32) (hn : n.toNat < 128)

include hn

/-- `networkAddress` clears the first bits of the byte, and nothing else. -/
theorem networkAddress_bits :
    ∃ net, networkAddress a n = some net ∧ ∀ k < 128,
      bit net.addr k =
        (bit a.addr k && !decide (k / 8 = n.toNat / 8 ∧ k % 8 < n.toNat % 8)) := by
  have hi : n.toNat / 8 < 16 := by omega
  have hdiv : (n / 8).toNat = n.toNat / 8 := UInt32.toNat_div n 8
  refine ⟨⟨a.family, a.port, a.addr.set (n.toNat / 8)
    (a.addr[n.toNat / 8] &&& ~~~leadingOnes 8 (n.toNat % 8)) hi⟩, ?_, fun k hk => ?_⟩
  · rw [networkAddress, mask_eq, hdiv, Vector.getElem?_eq_getElem hi]
    simp only [store, dif_pos hi, Option.bind_eq_bind, Option.bind_some]
  · rw [bit_set _ _ _ _ k hk]
    by_cases hk' : k / 8 = n.toNat / 8
    · rw [if_pos hk', BitVec.getMsbD_and, getMsbD_not_leading _ _ (Nat.mod_lt _ (by decide)),
        bit_eq _ k (by omega)]
      simp only [hk', true_and]
    · rw [if_neg hk', decide_eq_false (fun h => hk' h.1), Bool.not_false, Bool.and_true]

theorem broadcastAddress_bits :
    ∃ broadcast, broadcastAddress a n = some broadcast ∧ ∀ k < 128,
      bit broadcast.addr k = (bit a.addr k || decide (n.toNat ≤ k)) := by
  have hi : n.toNat / 8 < 16 := by omega
  have hdiv : (n / 8).toNat = n.toNat / 8 := UInt32.toNat_div n 8
  rcases fill_spec 0xff (16 - (n.toNat / 8 + 1)) (n.toNat / 8 + 1)
    (a.addr.set (n.toNat / 8) (a.addr[n.toNat / 8] ||| ~~~leadingOnes 8 (n.toNat % 8)) hi)
    (by omega) with ⟨addr, hfill, hbits⟩
  refine ⟨{ a with addr := addr }, ?_, fun k hk => ?_⟩
  · rw [broadcastAddress, mask_eq, hdiv, Vector.getElem?_eq_getElem hi]
    simp only [store, dif_pos hi, Option.bind_eq_bind, Option.bind_some, hfill]
  · rw [hbits k hk, bit_set _ _ _ _ k hk]
    have hr := Nat.mod_lt k (show 0 < 8 by decide)
    by_cases hbehind : n.toNat / 8 + 1 ≤ k / 8
    · rw [if_pos (by omega), getMsbD_ones _ hr, decide_eq_true (by omega), Bool.or_true]
    · rw [if_neg (by omega)]
      by_cases hk' : k / 8 = n.toNat / 8
      · rw [if_pos hk', BitVec.getMsbD_or, getMsbD_not_leading _ _ hr, bit_eq _ k (by omega),
          ← decide_not]
        simp only [hk']
        exact congrArg _ (decide_eq_decide.2 (by omega))
      · rw [if_neg hk', decide_eq_false (show ¬n.toNat ≤ k by omega), Bool.or_false]

theorem subnetMask_bits :
    ∃ mask, subnetMask n = some mask ∧ ∀ k < 128, bit mask.addr k = decide (k < n.toNat) := by
  have hi : n.toNat / 8 < 16 := by omega
  have hdiv : (n / 8).toNat = n.toNat / 8 := UInt32.toNat_div n 8
  rcases fill_spec 0xff (n.toNat / 8) 0
    ((Vector.replicate 16 0).set (n.toNat / 8) (~~~~~~leadingOnes 8 (n.toNat % 8)) hi)
    (by omega) with ⟨addr, hfill, hbits⟩
  refine ⟨⟨afInet6, 0, addr⟩, ?_, fun k hk => ?_⟩
  · rw [subnetMask, mask_eq, hdiv]
    simp only [store, dif_pos hi, Option.bind_eq_bind, Option.bind_some, hfill]
  · rw [hbits k hk, bit_set _ _ _ _ k hk, BitVec.not_not, bit_replicate]
    have hr := Nat.mod_lt k (show 0 < 8 by decide)
    by_cases hfront : k / 8 < n.toNat / 8
    · rw [if_pos (by omega), getMsbD_ones _ hr, decide_eq_true (by omega)]
    · rw [if_neg (by omega)]
      by_cases hk' : k / 8 = n.toNat / 8
      · rw [if_pos hk', getMsbD_leading _ _ hr]
        exact decide_eq_decide.2 (by omega)
      · rw [if_neg hk', decide_eq_false (show ¬k < n.toNat by omega)]

end Lengths

/-- For every address and every length the functions do what is expected if and only if the
    length ends in the address, and the address is zero from the byte on in which it ends. -/
theorem subnetBits_iff (a : IPv6Address) (n : UInt32) (hn : n.toNat ≤ 128) :
    SubnetBits a n ↔
      n.toNat < 128 ∧ ∀ i (hi : i < 16), n.toNat / 8 ≤ i → a.addr[i] = 0 := by
  constructor
  · rintro ⟨net, broadcast, mask, hnet, hbroadcast, hmask, hbits⟩
    have hlt : n.toNat < 128 := by
      by_contra hge
      have hdiv : (n / 8).toNat = 16 := by
        rw [UInt32.toNat_div]
        change n.toNat / 8 = 16
        omega
      rw [networkAddress, mask_eq, hdiv] at hnet
      cases hnet
    rcases networkAddress_bits a n hlt with ⟨net', hnet', hbits'⟩
    rw [hnet, Option.some.injEq] at hnet'
    refine ⟨hlt, fun i hi hle => BitVec.eq_of_getMsbD_eq (fun r hr => ?_)⟩
    -- A set bit would be cleared where it should be kept, or kept where it should be cleared.
    have hk : (8 * i + r) / 8 = i := by omega
    have hk' : (8 * i + r) % 8 = r := by omega
    have hsame := (hbits (8 * i + r) (by omega)).1
    rw [hnet', hbits' _ (by omega), bit_eq _ _ (by omega)] at hsame
    simp only [hk, hk'] at hsame
    rw [getMsbD_zero_byte]
    by_contra hset
    rw [Bool.not_eq_false] at hset
    rw [hset, Bool.true_and, Bool.true_and, ← decide_not, decide_eq_decide] at hsame
    omega
  · rintro ⟨hlt, hzero⟩
    rcases networkAddress_bits a n hlt with ⟨net, hnet, hnetbits⟩
    rcases broadcastAddress_bits a n hlt with ⟨broadcast, hbroadcast, hbroadcastbits⟩
    rcases subnetMask_bits n hlt with ⟨mask, hmask, hmaskbits⟩
    refine ⟨net, broadcast, mask, hnet, hbroadcast, hmask, fun k hk =>
      ⟨?_, hbroadcastbits k hk, hmaskbits k hk⟩⟩
    rw [hnetbits k hk]
    by_cases hbehind : n.toNat / 8 ≤ k / 8
    · rw [bit_eq _ k (by omega), hzero (k / 8) (by omega) hbehind, getMsbD_zero_byte,
        Bool.false_and, Bool.false_and]
    · rw [decide_eq_false (by omega), Bool.not_false, decide_eq_true (show k < n.toNat by omega)]

/-- An address of a network of 32 bits with its last byte. -/
def addressEnding (last : BitVec 8) : IPv6Address :=
  ⟨afInet6, 0, #v[0x20, 0x01, 0x0d, 0xb8, 0, 0, 0, 0, 0, 0, 0, 0, 0, 0, 0, last]⟩

/-- The broadcast address of a network of 32 bits has all bits of the last byte set. -/
theorem subnetBits_32 :
    ∃ net broadcast, networkAddress (addressEnding 0) 32 = some net ∧
      broadcastAddress (addressEnding 0) 32 = some broadcast ∧
      ∀ k < 128, 120 ≤ k → bit net.addr k = false ∧ bit broadcast.addr k = true := by
  rcases (subnetBits_iff (addressEnding 0) 32 (by decide)).2 ⟨by decide, by decide⟩ with
    ⟨net, broadcast, mask, hnet, hbroadcast, -, hbits⟩
  refine ⟨net, broadcast, hnet, hbroadcast, fun k hk hlast => ?_⟩
  have hlen : (32 : UInt32).toNat = 32 := rfl
  rcases hbits k hk with ⟨hnetbit, hbroadcastbit, -⟩
  rw [hlen, decide_eq_false (by omega), Bool.and_false] at hnetbit
  rw [hlen, decide_eq_true (by omega), Bool.or_true] at hbroadcastbit
  exact ⟨hnetbit, hbroadcastbit⟩

/-- The last byte is not cleared. -/
theorem subnetBits_not_32 : ¬SubnetBits (addressEnding 1) 32 := by
  rintro ⟨net, broadcast, mask, hnet, -, -, hbits⟩
  have hsame : networkAddress (addressEnding 1) 32 = some (addressEnding 1) := by decide
  rw [hsame, Option.some.injEq] at hnet
  rw [← hnet] at hbits
  exact absurd (hbits 127 (by decide)).1 (by decide)

end IPv6Address

end YkServer
