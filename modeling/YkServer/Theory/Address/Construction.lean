import YkServer.Theory.Address.IPv4
import YkServer.Theory.Address.Lookup
import YkServer.Theory.Address.Text
import YkServer.Theory.Util.Decimal

/-!
# New Addresses

What an address is made of, and what it is found to be afterwards.

There are two constructors with an address and a port, and a `Create` for each class that
reads the address from a text. All of them swap the port as a word of 32 bits and keep
the low half of it, which on a little-endian host is zero whatever the port is. The
constructor of `IPv4Address` does not look at its address, and that of `IPv6Address` copies
the pointer to it and what is behind the pointer. Both classes have the family of IPv4.

## Main definitions

* `dotted`: The text of an IPv4 address.
* `KeepsPort`: The port is not lost.
* `IPv4Address.Built`, `IPv6Address.Built`: What a new address should be.

## Theorems

* `getPort_iff`: When the port that is read back is the one that was given.
* `IPv4Address.insert_eq`, `dotted_inj`: Which address is printed.
* `IPv4Address.built_construct_iff`, `IPv4Address.built_create_iff`: New addresses of IPv4.
* `IPv6Address.construct_parts`, `IPv6Address.create_parts`: New addresses of IPv6.
* `construction_iff`: When a new address is what it should be.
-/

namespace YkServer

open Lib

/-! ## Ports -/

/-- The host is big-endian, or there is nothing to lose. -/
def KeepsPort (host : ByteOrder) (p : BitVec 16) : Prop := p = 0 ∨ host = .bigEndian

/-- The bytes of a port are in the high half of the swapped word. -/
theorem swap32_low (p : BitVec 16) : (swap32 (p.setWidth 32)).setWidth 16 = (0 : BitVec 16) := by
  refine BitVec.eq_of_getLsbD_eq (fun i hi => ?_)
  rw [BitVec.getLsbD_setWidth, getLsbD_swap32 _ i (by omega), BitVec.getLsbD_setWidth,
    BitVec.getLsbD_of_ge p _ (by omega), Bool.and_false, Bool.and_false]
  exact BitVec.getLsbD_zero.symm

/-- When the port that is read back is the one that was given. -/
theorem getPort_iff (host : ByteOrder) (p : BitVec 16) :
    byteswapOnLittleEndian16 host
        ((byteswapOnLittleEndian32 host (p.setWidth 32)).setWidth 16) = p ↔
      KeepsPort host p := by
  cases host with
  | littleEndian =>
      have hport : byteswapOnLittleEndian16 .littleEndian
          ((byteswapOnLittleEndian32 .littleEndian (p.setWidth 32)).setWidth 16) = 0 := by
        rw [byteswapOnLittleEndian32, swap32_low]
        rfl
      rw [hport]
      exact ⟨fun h => Or.inl h.symm, fun h => (h.resolve_right (by simp)).symm⟩
  | bigEndian =>
      simp [KeepsPort, byteswapOnLittleEndian16, byteswapOnLittleEndian32]

/-! ## IPv4 -/

/-- The text of an address that is given as a number: its bytes, the first one in front. -/
def dotted (a : BitVec 32) : List UInt8 :=
  printed (a.extractLsb' 24 8).toNat ++ 46 :: printed (a.extractLsb' 16 8).toNat ++
    46 :: printed (a.extractLsb' 8 8).toNat ++ 46 :: printed (a.extractLsb' 0 8).toNat

/-- A printed number has no dot. -/
theorem dot_not_mem_printed (n : Nat) : 46 ∉ printed n := by
  intro h
  cases (printed_digits n).2 46 h

/-- A byte is a byte of the word. -/
theorem extract_of_shift (a : BitVec 32) (k : Nat) :
    ((a >>> k) &&& 0xff).toNat = (a.extractLsb' k 8).toNat := by
  rw [BitVec.toNat_and, BitVec.toNat_ushiftRight, BitVec.extractLsb'_toNat]
  exact Nat.and_two_pow_sub_one_eq_mod _ 8

/-- A text is the text of one address. -/
theorem dotted_inj (a b : BitVec 32) (h : dotted a = dotted b) : a = b := by
  have hdot := dot_not_mem_printed
  simp only [dotted, List.append_assoc, List.cons_append] at h
  rcases parts_inj 46 _ _ _ _ (hdot _) (hdot _) h with ⟨h₁, h⟩
  rcases parts_inj 46 _ _ _ _ (hdot _) (hdot _) h with ⟨h₂, h⟩
  rcases parts_inj 46 _ _ _ _ (hdot _) (hdot _) h with ⟨h₃, h₄⟩
  have hbytes : swap32 a = swap32 b := by
    rw [swap32, swap32, BitVec.eq_of_toNat_eq (printed_inj _ _ h₁),
      BitVec.eq_of_toNat_eq (printed_inj _ _ h₂), BitVec.eq_of_toNat_eq (printed_inj _ _ h₃),
      BitVec.eq_of_toNat_eq (printed_inj _ _ h₄)]
  rw [← swap32_swap32 a, hbytes, swap32_swap32]

namespace IPv4Address

/-- What is printed. -/
theorem insert_eq (host : ByteOrder) (m : IPv4Address) :
    insert host m = dotted (network host m.addr) ++
      58 :: printed (byteswapOnLittleEndian16 host m.port).toNat := by
  have hlast := extract_of_shift (network host m.addr) 0
  rw [BitVec.ushiftRight_zero] at hlast
  unfold insert dotted
  simp only [← network_eq, extract_of_shift, hlast, ascii]
  simp

/-- What an address made of `a` and `p` should be. -/
structure Built (host : ByteOrder) (a : BitVec 32) (p : BitVec 16) (m : IPv4Address) : Prop where
  port : getPort host m = p
  shown : insert host m = dotted a ++ 58 :: printed (getPort host m).toNat
  family : getFamily m = afInet

theorem shown_iff (host : ByteOrder) (a : BitVec 32) (m : IPv4Address) :
    insert host m = dotted a ++ 58 :: printed (getPort host m).toNat ↔
      network host m.addr = a := by
  rw [insert_eq, getPort, List.append_left_inj]
  exact ⟨dotted_inj _ _, fun h => by rw [h]⟩

/-- The constructor has the address zero. -/
theorem built_construct_iff (host : ByteOrder) (a : BitVec 32) (p : BitVec 16) :
    Built host a p (construct host a (p.setWidth 32)) ↔ a = 0 ∧ KeepsPort host p := by
  have haddr : network host (construct host a (p.setWidth 32)).addr = 0 := by
    rw [network_eq]
    cases host
    · exact (by decide : swap32 0 = 0)
    · rfl
  rw [← getPort_iff]
  constructor
  · intro h
    exact ⟨((shown_iff host a _).1 h.shown).symm.trans haddr, h.port⟩
  · rintro ⟨rfl, hport⟩
    exact ⟨hport, (shown_iff host 0 _).2 haddr, rfl⟩

/-- `Create` has the address of the text. -/
theorem built_create_iff (host : ByteOrder) (a : BitVec 32) (p : BitVec 16) (text : List UInt8)
    (inetPton : List UInt8 → Option (BitVec 32))
    (htext : (inetPton text).map (network host) = some a) :
    (∃ m, create host inetPton text (p.setWidth 32) = some m ∧ Built host a p m) ↔
      KeepsPort host p := by
  rcases Option.map_eq_some_iff.1 htext with ⟨addr, haddr, hnetwork⟩
  rw [create, haddr, ← getPort_iff]
  constructor
  · rintro ⟨m, hm, hbuilt⟩
    cases hm
    exact hbuilt.port
  · intro hport
    exact ⟨_, rfl, hport, (shown_iff host a _).2 hnetwork, rfl⟩

end IPv4Address

/-! ## IPv6 -/

namespace IPv6Address

/-- What an address made of `b` and `p` should be. -/
structure Built (host : ByteOrder) (b : Vector (BitVec 8) 16) (p : BitVec 16)
    (m : IPv6Address) : Prop where
  port : getPort host m = p
  shown : ∃ text, insert host m =
      some (ascii "[" ++ text ++ ascii "] :" ++ printed (getPort host m).toNat) ∧
    expand text = some (groups b)
  family : getFamily m = afInet6

theorem shown_iff (host : ByteOrder) (b : Vector (BitVec 8) 16) (m : IPv6Address) :
    (∃ text, insert host m =
        some (ascii "[" ++ text ++ ascii "] :" ++ printed (getPort host m).toNat) ∧
      expand text = some (groups b)) ↔ m.addr = b := by
  rcases insert_expands host m with ⟨text, hinsert, -, hexpand, -⟩
  rw [hinsert]
  constructor
  · rintro ⟨text', heq, hexpand'⟩
    rw [Option.some.injEq, getPort, List.append_left_inj, List.append_left_inj,
      List.append_right_inj] at heq
    rw [← heq, hexpand, Option.some.injEq] at hexpand'
    exact groups_inj _ _ hexpand'
  · rintro rfl
    exact ⟨text, rfl, hexpand⟩

/-- The constructor has what is in memory where the pointer is, and the family of IPv4. -/
theorem construct_parts (host : ByteOrder) (memory b : Vector (BitVec 8) 16) (p : BitVec 16) :
    (getPort host (construct host memory b (p.setWidth 32)) = p ↔ KeepsPort host p) ∧
      ((∃ text, insert host (construct host memory b (p.setWidth 32)) =
          some (ascii "[" ++ text ++ ascii "] :" ++
            printed (getPort host (construct host memory b (p.setWidth 32))).toNat) ∧
        expand text = some (groups b)) ↔ memory = b) ∧
      getFamily (construct host memory b (p.setWidth 32)) ≠ afInet6 :=
  ⟨getPort_iff host p, shown_iff host b _, by simp [construct, getFamily, afInet, afInet6]⟩

/-- `Create` has the address of the text, and the family of IPv4. -/
theorem create_parts (host : ByteOrder) (b : Vector (BitVec 8) 16) (p : BitVec 16)
    (text : List UInt8) (inetPton : List UInt8 → Option (Vector (BitVec 8) 16))
    (htext : inetPton text = some b) :
    ∃ m, create host inetPton text (p.setWidth 32) = some m ∧
      (getPort host m = p ↔ KeepsPort host p) ∧
      (∃ shown, insert host m =
          some (ascii "[" ++ shown ++ ascii "] :" ++ printed (getPort host m).toNat) ∧
        expand shown = some (groups b)) ∧
      getFamily m ≠ afInet6 := by
  rw [create, htext]
  exact ⟨_, rfl, getPort_iff host p, (shown_iff host b _).2 rfl,
    by simp [new, getFamily, afInet, afInet6]⟩

end IPv6Address

/-! ## All constructors -/

/-- A new address of IPv4 is what it should be exactly if its port is kept and, for the
    constructor, the address is zero. A new address of IPv6 never is. -/
theorem construction_iff (host : ByteOrder) (a : BitVec 32) (b : Vector (BitVec 8) 16)
    (p : BitVec 16) (text text' : List UInt8) (inetPton : List UInt8 → Option (BitVec 32))
    (inetPton' : List UInt8 → Option (Vector (BitVec 8) 16)) (memory : Vector (BitVec 8) 16)
    (htext : (inetPton text).map (IPv4Address.network host) = some a)
    (htext' : inetPton' text' = some b) :
    (IPv4Address.Built host a p (.construct host a (p.setWidth 32)) ↔
        a = 0 ∧ KeepsPort host p) ∧
      ((∃ m, IPv4Address.create host inetPton text (p.setWidth 32) = some m ∧
        IPv4Address.Built host a p m) ↔ KeepsPort host p) ∧
      ¬ IPv6Address.Built host b p (.construct host memory b (p.setWidth 32)) ∧
      ¬ ∃ m, IPv6Address.create host inetPton' text' (p.setWidth 32) = some m ∧
        IPv6Address.Built host b p m := by
  refine ⟨IPv4Address.built_construct_iff host a p,
    IPv4Address.built_create_iff host a p text inetPton htext, fun h => ?_, ?_⟩
  · exact (IPv6Address.construct_parts host memory b p).2.2 h.family
  · rintro ⟨m, hm, h⟩
    rcases IPv6Address.create_parts host b p text' inetPton' htext' with ⟨m', hm', -, -, hno⟩
    rw [hm, Option.some.injEq] at hm'
    exact hno (hm' ▸ h.family)

/-- An `inet_pton` that knows one text. -/
def inetPtonOf {α : Type} (known : List UInt8) (addr : α) (text : List UInt8) : Option α :=
  if text = known then some addr else none

/-- The sixteen bytes of `::1`. -/
def loopback : Vector (BitVec 8) 16 := #v[0, 0, 0, 0, 0, 0, 0, 0, 0, 0, 0, 0, 0, 0, 0, 1]

/-- `10.0.0.1` with the port 80 on a big-endian host: what `Create` makes of it, and the
    constructor. -/
theorem construction_iff_ten :
    (∃ m, IPv4Address.create .bigEndian (inetPtonOf (ascii "10.0.0.1") 0x0a000001)
        (ascii "10.0.0.1") 80 = some m ∧ IPv4Address.getPort .bigEndian m = 80 ∧
        IPv4Address.insert .bigEndian m = ascii "10.0.0.1:80") ∧
      ¬ IPv4Address.Built .bigEndian 0x0a000001 80 (.construct .bigEndian 0x0a000001 80) := by
  have hall := construction_iff .bigEndian 0x0a000001 loopback 80 (ascii "10.0.0.1") (ascii "::1")
    (inetPtonOf (ascii "10.0.0.1") 0x0a000001) (inetPtonOf (ascii "::1") loopback) loopback rfl rfl
  rcases hall.2.1.2 (Or.inr rfl) with ⟨m, hm, hbuilt⟩
  refine ⟨⟨m, hm, hbuilt.port, ?_⟩, fun h => absurd (hall.1.1 h).1 (by decide)⟩
  rw [hbuilt.shown, hbuilt.port]
  decide

/-- `10.0.0.1` and `::1` with the port 80 on a little-endian host. -/
theorem not_built_ten :
    ¬ IPv4Address.Built .littleEndian 0x0a000001 80 (.construct .littleEndian 0x0a000001 80) ∧
      (¬ ∃ m, IPv4Address.create .littleEndian (inetPtonOf (ascii "10.0.0.1") 0x0100000a)
        (ascii "10.0.0.1") 80 = some m ∧ IPv4Address.Built .littleEndian 0x0a000001 80 m) ∧
      (∀ memory, ¬ IPv6Address.Built .littleEndian loopback 80
        (.construct .littleEndian memory loopback 80)) ∧
      ¬ ∃ m, IPv6Address.create .littleEndian (inetPtonOf (ascii "::1") loopback) (ascii "::1") 80 =
        some m ∧ IPv6Address.Built .littleEndian loopback 80 m := by
  refine ⟨fun h => ?_, ?_, fun memory h => ?_, ?_⟩
  · exact absurd h.port (by decide)
  · rintro ⟨m, hm, h⟩
    rw [IPv4Address.create, inetPtonOf, if_pos rfl, Option.some.injEq] at hm
    subst hm
    exact absurd h.port (by decide)
  · exact absurd (show afInet = afInet6 from h.family) (by decide)
  · rintro ⟨m, hm, h⟩
    rw [IPv6Address.create, inetPtonOf, if_pos rfl, Option.some.injEq] at hm
    subst hm
    exact absurd h.family (by decide)

end YkServer
