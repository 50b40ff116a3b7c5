import Mathlib.Data.List.TakeWhile
import YkServer.Core.Address
import YkServer.Core.ServiceDiscovery
import YkServer.Theory.Util.Decimal

/-!
# Names of Providers

Which texts `ServiceItemInfo::Create` takes for the name of a provider.

It looks for a colon, takes the number behind it with `stoi` and the address in front of it with
`inet_addr`, and compares the address with zero. But `stoi` throws where there is no number,
takes numbers that are no port, and does not look at what comes behind the number, and a text
that is no address is not zero for `inet_addr` but `INADDR_NONE`. So a text that is not a
provider is refused only if it has no colon, or if it has a number behind it and in front of it
an address that is zero.

## Main definitions

* `quadText`, `quadWord`: A dotted quad and its address.
* `InetAddr`: What `inet_addr` does with dotted quads.
* `ServiceItemInfo.Valid`: The names of providers.
* `ServiceItemInfo.Judges`, `ServiceItemInfo.Identifies`: What `Create` should do.
* `ServiceItemInfo.Judged`: Where it does that.

## Theorems

* `quadWord_inj`: An address has one dotted quad.
* `stoi_digits`: A number of digits.
* `ServiceItemInfo.create_valid`: The name of a provider.
* `ServiceItemInfo.judges_iff`: One text.
* `ServiceItemInfo.create_iff`: Two texts and their ids.
-/

namespace YkServer

open Lib

/-- `a.b.c.d`. -/
def quadText (a b c d : UInt8) : List UInt8 :=
  printed a.toNat ++ 46 :: printed b.toNat ++ 46 :: printed c.toNat ++ 46 :: printed d.toNat

/-- The address of `a.b.c.d` as a word of the host: the four bytes in memory. -/
def quadWord (host : ByteOrder) (a b c d : UInt8) : UInt32 :=
  match host with
  | .littleEndian =>
      UInt32.ofNat (a.toNat + b.toNat * 256 + c.toNat * 65536 + d.toNat * 16777216)
  | .bigEndian =>
      UInt32.ofNat (a.toNat * 16777216 + b.toNat * 65536 + c.toNat * 256 + d.toNat)

/-- `inet_addr` knows the addresses of dotted quads. -/
structure InetAddr (host : ByteOrder) (inetAddr : List UInt8 → UInt32) : Prop where
  quad : ∀ a b c d, inetAddr (quadText a b c d) = quadWord host a b c d

theorem toNat_quadWord (host : ByteOrder) (a b c d : UInt8) :
    (quadWord host a b c d).toNat = match host with
      | .littleEndian => a.toNat + b.toNat * 256 + c.toNat * 65536 + d.toNat * 16777216
      | .bigEndian => a.toNat * 16777216 + b.toNat * 65536 + c.toNat * 256 + d.toNat := by
  have ha := a.toNat_lt
  have hb := b.toNat_lt
  have hc := c.toNat_lt
  have hd := d.toNat_lt
  cases host with
  | littleEndian =>
      rw [quadWord, UInt32.toNat_ofNat', Nat.mod_eq_of_lt (by omega)]
  | bigEndian =>
      rw [quadWord, UInt32.toNat_ofNat', Nat.mod_eq_of_lt (by omega)]

theorem quadWord_eq_zero (host : ByteOrder) (a b c d : UInt8) :
    quadWord host a b c d = 0 ↔ a = 0 ∧ b = 0 ∧ c = 0 ∧ d = 0 := by
  have hword := toNat_quadWord host a b c d
  simp only [← UInt32.toNat_inj, ← UInt8.toNat_inj, hword]
  cases host with
  | littleEndian =>
      simp only [UInt32.reduceToNat, UInt8.reduceToNat]
      omega
  | bigEndian =>
      simp only [UInt32.reduceToNat, UInt8.reduceToNat]
      omega

theorem quadWord_inj (host : ByteOrder) (a b c d a' b' c' d' : UInt8) :
    quadWord host a b c d = quadWord host a' b' c' d' ↔ a = a' ∧ b = b' ∧ c = c' ∧ d = d' := by
  have hword := toNat_quadWord host a b c d
  have hword' := toNat_quadWord host a' b' c' d'
  have ha := a.toNat_lt
  have hb := b.toNat_lt
  have hc := c.toNat_lt
  have hd := d.toNat_lt
  have ha' := a'.toNat_lt
  have hb' := b'.toNat_lt
  have hc' := c'.toNat_lt
  have hd' := d'.toNat_lt
  simp only [← UInt32.toNat_inj, ← UInt8.toNat_inj, hword, hword']
  cases host with
  | littleEndian =>
      simp only []
      omega
  | bigEndian =>
      simp only []
      omega

/-! ## Numbers -/

/-- A number of digits. -/
theorem stoi_digits (digits : List UInt8) (hne : digits ≠ [])
    (hdigits : ∀ c ∈ digits, isDigit c = true) (hsmall : decimal digits < 2 ^ 31) :
    stoi digits = some (decimal digits : Int) := by
  have hleading := leading_digits digits [] hne hdigits (fun c hc => by cases hc)
  rw [List.append_nil] at hleading
  have hrange : decide (-2 ^ 31 ≤ (decimal digits : Int) ∧ (decimal digits : Int) < 2 ^ 31)
      = true := by
    rw [decide_eq_true_eq]
    omega
  rcases digits with _ | ⟨c, cs⟩
  · exact absurd rfl hne
  · have hc := hdigits c List.mem_cons_self
    have hdrop : (c :: cs).dropWhile isSpace = c :: cs := by
      rw [List.dropWhile_cons, if_neg (Bool.eq_false_iff.1 (not_isSpace_of_isDigit c hc))]
    rw [stoi, hdrop]
    split
    -- The first character is a digit and no sign.
    · next heq =>
        rw [(List.cons.inj heq).1] at hc
        exact absurd hc (by decide)
    · next heq =>
        rw [(List.cons.inj heq).1] at hc
        exact absurd hc (by decide)
    · rw [hleading]
      exact Option.filter_some.trans (if_pos hrange)

theorem ofInt64_natCast (n : Nat) : UInt64.ofInt (n : Int) = UInt64.ofNat n := by
  rw [← UInt64.toNat_inj, UInt64.ofInt, UInt64.toNat_ofNat', UInt64.toNat_ofNat']
  omega

theorem ofInt16_natCast (n : Nat) : UInt16.ofInt (n : Int) = UInt16.ofNat n := by
  rw [← UInt16.toNat_inj, UInt16.ofInt, UInt16.toNat_ofNat', UInt16.toNat_ofNat']
  omega

/-! ## Providers -/

namespace ServiceItemInfo

/-- A dotted quad that is not zero, a colon, and a port. -/
def Valid (text : List UInt8) : Prop :=
  ∃ a b c d digits, text = quadText a b c d ++ 58 :: digits
    ∧ ¬(a = 0 ∧ b = 0 ∧ c = 0 ∧ d = 0) ∧ digits ≠ []
    ∧ (∀ x ∈ digits, isDigit x = true) ∧ decimal digits ≤ 65535

section

variable (host : ByteOrder) (inetAddr : List UInt8 → UInt32)

/-- `Create` makes an item of the name of a provider and of no other text, and does not
    throw. -/
def Judges (text data : List UInt8) : Prop :=
  (Valid text → ∃ item, create inetAddr text data = .ok (some item))
    ∧ (¬ Valid text → create inetAddr text data = .ok none)

/-- Items of two texts have the same id exactly if they have the same address and port. -/
def Identifies (text text' data data' : List UInt8) : Prop :=
  ∀ item item', create inetAddr text data = .ok (some item) →
    create inetAddr text' data' = .ok (some item') →
    (item.id = item'.id ↔ item.ip = item'.ip ∧ item.port = item'.port)

/-- The text has no colon, or is the name of a provider, or has a number behind its first colon
    and an address that is zero in front of it. -/
def Judged (text : List UInt8) : Prop :=
  58 ∉ text ∨ Valid text
    ∨ (stoi (text.dropWhile (· ≠ 58)).tail).isSome = true
      ∧ inetAddr (text.takeWhile (· ≠ 58)) = 0

theorem colon_not_mem_quadText (a b c d : UInt8) : 58 ∉ quadText a b c d := by
  have hprinted (n : Nat) : 58 ∉ printed n := by
    intro h
    exact absurd ((printed_digits n).2 58 h) (by decide)
  rw [quadText]
  simp only [List.mem_append, List.mem_cons, hprinted, or_false, false_or]
  decide

/-- The parts of the name of a provider. -/
theorem parts_valid (a b c d : UInt8) (digits : List UInt8) :
    (quadText a b c d ++ 58 :: digits).takeWhile (· ≠ 58) = quadText a b c d
      ∧ (quadText a b c d ++ 58 :: digits).dropWhile (· ≠ 58) = 58 :: digits := by
  have hquad : ∀ x ∈ quadText a b c d, decide (x ≠ 58) = true := by
    intro x hx
    rw [decide_eq_true_eq]
    rintro rfl
    exact colon_not_mem_quadText a b c d hx
  rw [List.takeWhile_append_of_pos hquad, List.dropWhile_append_of_pos hquad]
  exact ⟨List.append_nil _, rfl⟩

variable (hinet : InetAddr host inetAddr) (data : List UInt8)

/-- A text without a colon. -/
theorem create_no_colon (text : List UInt8) (h : 58 ∉ text) :
    create inetAddr text data = .ok none := by
  have hdrop : text.dropWhile (· ≠ 58) = [] := by
    rw [List.dropWhile_eq_nil_iff]
    intro x hx
    rw [decide_eq_true_eq]
    rintro rfl
    exact h hx
  rw [create, hdrop]

/-- A text with a colon. -/
theorem create_colon (text : List UInt8) (h : 58 ∈ text) :
    create inetAddr text data =
      match stoi (text.dropWhile (· ≠ 58)).tail with
      | none => .error ()
      | some port =>
        if inetAddr (text.takeWhile (· ≠ 58)) = 0 then .ok none
        else .ok (some {
          id := ((inetAddr (text.takeWhile (· ≠ 58))).toUInt64 <<< 32) ||| UInt64.ofInt port
          port := UInt16.ofInt port
          ip := text.takeWhile (· ≠ 58)
          data := data }) := by
  rcases hdrop : text.dropWhile (· ≠ 58) with _ | ⟨c, rest⟩
  · rw [List.dropWhile_eq_nil_iff] at hdrop
    exact absurd (hdrop 58 h) (by decide)
  · rw [create, hdrop]
    rfl

theorem colon_mem_of_valid (text : List UInt8) (h : Valid text) : 58 ∈ text := by
  rcases h with ⟨a, b, c, d, digits, rfl, -⟩
  exact List.mem_append_right _ List.mem_cons_self

include hinet

/-- The name of a provider. -/
theorem create_valid (text : List UInt8) (h : Valid text) :
    ∃ a b c d port, port < 65536 ∧ create inetAddr text data = .ok (some {
      id := ((quadWord host a b c d).toUInt64 <<< 32) ||| UInt64.ofNat port
      port := UInt16.ofNat port
      ip := quadText a b c d
      data := data }) := by
  have hcolon := colon_mem_of_valid text h
  rcases h with ⟨a, b, c, d, digits, rfl, hzero, hne, hdigits, hport⟩
  rcases parts_valid a b c d digits with ⟨htake, hdrop⟩
  refine ⟨a, b, c, d, decimal digits, by omega, ?_⟩
  rw [create_colon inetAddr data _ hcolon, htake, hdrop, List.tail_cons,
    stoi_digits digits hne hdigits (by omega), hinet.quad, ← ofInt64_natCast,
    ← ofInt16_natCast]
  exact if_neg (fun h => hzero ((quadWord_eq_zero host a b c d).1 h))

/-- One text is judged right exactly if it is as `Judged` says. -/
theorem judges_iff (text : List UInt8) :
    Judges inetAddr text data ↔ Judged inetAddr text := by
  constructor
  · rintro ⟨hvalid, hother⟩
    by_cases hcolon : 58 ∈ text
    · by_cases hv : Valid text
      · exact Or.inr (Or.inl hv)
      · have hnone := hother hv
        rw [create_colon inetAddr data text hcolon] at hnone
        refine Or.inr (Or.inr ?_)
        rcases hport : stoi (text.dropWhile (· ≠ 58)).tail with _ | port
        · simp only [hport, reduceCtorEq] at hnone
        · simp only [hport] at hnone
          by_cases hzero : inetAddr (text.takeWhile (· ≠ 58)) = 0
          · exact ⟨by rw [hport]; rfl, hzero⟩
          · rw [if_neg hzero] at hnone
            cases hnone
    · exact Or.inl hcolon
  · intro h
    refine ⟨fun hv => ?_, fun hv => ?_⟩
    · rcases create_valid host inetAddr hinet data text hv with ⟨a, b, c, d, port, -, hrun⟩
      exact ⟨_, hrun⟩
    · rcases h with hcolon | hvalid | ⟨hport, hzero⟩
      · exact create_no_colon inetAddr data text hcolon
      · exact absurd hvalid hv
      · by_cases hcolon : 58 ∈ text
        · rcases Option.isSome_iff_exists.1 hport with ⟨port, hport⟩
          rw [create_colon inetAddr data text hcolon, hport]
          exact if_pos hzero
        · exact create_no_colon inetAddr data text hcolon

omit hinet in
/-- The id of an item whose port is one. -/
theorem toNat_id (word : UInt32) (port : Nat) (hport : port < 65536) :
    ((word.toUInt64 <<< 32) ||| UInt64.ofNat port).toNat = word.toNat * 2 ^ 32 + port := by
  have hw := word.toNat_lt
  have hor := Nat.two_pow_add_eq_or_of_lt (show port < 2 ^ 32 by omega) word.toNat
  rw [UInt64.toNat_or, UInt64.toNat_shiftLeft, UInt32.toNat_toUInt64, UInt64.toNat_ofNat',
    Nat.mod_eq_of_lt (show port < 2 ^ 64 by omega)]
  simp only [UInt64.reduceToNat, Nat.reduceMod, Nat.shiftLeft_eq]
  rw [Nat.mod_eq_of_lt (by omega), Nat.mul_comm, ← hor]

/-- Items of two names of providers. -/
theorem identifies_valid (text text' data' : List UInt8) (h : Valid text) (h' : Valid text') :
    Identifies inetAddr text text' data data' := by
  intro item item' hrun hrun'
  rcases create_valid host inetAddr hinet data text h with ⟨a, b, c, d, port, hport, hcreate⟩
  rcases create_valid host inetAddr hinet data' text' h' with
    ⟨a', b', c', d', port', hport', hcreate'⟩
  rw [hcreate, Except.ok.injEq, Option.some.injEq] at hrun
  rw [hcreate', Except.ok.injEq, Option.some.injEq] at hrun'
  subst hrun
  subst hrun'
  have hid := toNat_id (quadWord host a b c d) port hport
  have hid' := toNat_id (quadWord host a' b' c' d') port' hport'
  have hports : UInt16.ofNat port = UInt16.ofNat port' ↔ port = port' := by
    rw [← UInt16.toNat_inj, UInt16.toNat_ofNat', UInt16.toNat_ofNat']
    omega
  have hwords : (quadWord host a b c d).toNat = (quadWord host a' b' c' d').toNat
      ↔ quadText a b c d = quadText a' b' c' d' := by
    rw [UInt32.toNat_inj]
    constructor
    · intro h
      rcases (quadWord_inj host a b c d a' b' c' d').1 h with ⟨rfl, rfl, rfl, rfl⟩
      rfl
    · intro h
      rw [← hinet.quad, ← hinet.quad, h]
  simp only [← UInt64.toNat_inj, hid, hid', hports, ← hwords]
  omega

/-- Two texts are judged right, and their items told apart by the ids, exactly if both are as
    `Judged` says. -/
theorem create_iff (text text' data data' : List UInt8) :
    Judges inetAddr text data ∧ Judges inetAddr text' data'
        ∧ Identifies inetAddr text text' data data'
      ↔ Judged inetAddr text ∧ Judged inetAddr text' := by
  rw [judges_iff host inetAddr hinet, judges_iff host inetAddr hinet]
  refine ⟨fun h => ⟨h.1, h.2.1⟩, fun h => ⟨h.1, h.2, ?_⟩⟩
  by_cases hv : Valid text ∧ Valid text'
  · exact identifies_valid host inetAddr hinet data text text' data' hv.1 hv.2
  · -- One of them gives no item.
    intro item item' hrun hrun'
    by_cases hfirst : Valid text
    · have hnone := ((judges_iff host inetAddr hinet data' text').2 h.2).2
        (fun hsecond => hv ⟨hfirst, hsecond⟩)
      rw [hnone] at hrun'
      cases hrun'
    · rw [((judges_iff host inetAddr hinet data text).2 h.1).2 hfirst] at hrun
      cases hrun

end

/-! ## Texts that are judged wrong -/

theorem getlines_word (delim : UInt8) (line word rest : List UInt8) (h : delim ∉ word) :
    getlines delim line (word ++ delim :: rest) = (line ++ word) :: getlines delim [] rest := by
  induction word generalizing line with
  | nil => rw [List.nil_append, getlines, if_pos rfl, List.append_nil]
  | cons c word ih =>
      rw [List.mem_cons, not_or] at h
      rw [List.cons_append, getlines, if_neg (fun heq => h.1 heq.symm), ih _ h.2,
        List.append_assoc, List.singleton_append]

theorem getlines_last (delim : UInt8) (line word : List UInt8) (h : delim ∉ word)
    (hne : line ++ word ≠ []) : getlines delim line word = [line ++ word] := by
  induction word generalizing line with
  | nil =>
      rw [List.append_nil] at hne ⊢
      rw [getlines, if_neg hne]
  | cons c word ih =>
      rw [List.mem_cons, not_or] at h
      have heq : line ++ c :: word = line ++ [c] ++ word := by
        rw [List.append_assoc, List.singleton_append]
      rw [heq] at hne ⊢
      rw [getlines, if_neg (fun heq => h.1 heq.symm), ih _ h.2 hne]

/-- A part of a dotted quad. -/
def isByte (part : List UInt8) : Bool :=
  part == printed (decimal part) && decide (decimal part < 256)

/-- An `inet_addr` that takes dotted quads, and gives `INADDR_NONE` for everything else. -/
def strictInetAddr (text : List UInt8) : UInt32 :=
  match getlines 46 [] text with
  | [p, q, r, s] =>
    if isByte p && isByte q && isByte r && isByte s then
      quadWord .littleEndian (UInt8.ofNat (decimal p)) (UInt8.ofNat (decimal q))
        (UInt8.ofNat (decimal r)) (UInt8.ofNat (decimal s))
    else 0xffffffff
  | _ => 0xffffffff

theorem isByte_printed (a : UInt8) : isByte (printed a.toNat) = true := by
  rw [isByte, decimal_printed, Bool.and_eq_true, beq_iff_eq, decide_eq_true_eq]
  exact ⟨rfl, a.toNat_lt⟩

theorem inetAddr_strict : InetAddr .littleEndian strictInetAddr where
  quad a b c d := by
    have hdot (n : Nat) : 46 ∉ printed n := fun h => absurd ((printed_digits n).2 46 h) (by decide)
    have hlines : getlines 46 [] (quadText a b c d)
        = [printed a.toNat, printed b.toNat, printed c.toNat, printed d.toNat] := by
      simp only [quadText, List.append_assoc, List.cons_append]
      rw [getlines_word 46 _ _ _ (hdot _), getlines_word 46 _ _ _ (hdot _),
        getlines_word 46 _ _ _ (hdot _),
        getlines_last 46 _ _ (hdot _) (by rw [List.nil_append]; exact (printed_digits _).1)]
      rfl
    simp only [strictInetAddr, hlines, isByte_printed, decimal_printed, UInt8.ofNat_toNat,
      Bool.and_self, if_true]

/-- Two names of providers. -/
theorem create_iff_two :
    Judges strictInetAddr (ascii "10.0.0.1:80") []
      ∧ Judges strictInetAddr (ascii "10.0.0.2:80") []
      ∧ Identifies strictInetAddr (ascii "10.0.0.1:80") (ascii "10.0.0.2:80") [] [] := by
  refine (create_iff .littleEndian strictInetAddr inetAddr_strict _ _ _ _).2 ⟨?_, ?_⟩
  · exact Or.inr (Or.inl ⟨10, 0, 0, 1, ascii "80", rfl, by decide, by decide, by decide +kernel,
      by decide⟩)
  · exact Or.inr (Or.inl ⟨10, 0, 0, 2, ascii "80", rfl, by decide, by decide, by decide +kernel,
      by decide⟩)

/-- A text with no address gives an item, a text with no port throws, and two addresses with the
    port -1 have one id. -/
theorem not_judges :
    ¬ Judges strictInetAddr (ascii "x:80") []
      ∧ ¬ Judges strictInetAddr (ascii "10.0.0.1:x") []
      ∧ ¬ Identifies strictInetAddr (ascii "10.0.0.1:-1") (ascii "10.0.0.2:-1") [] [] := by
  refine ⟨fun h => ?_, fun h => ?_, fun h => ?_⟩
  · have hno : ¬ Valid (ascii "x:80") := by
      rintro ⟨a, b, c, d, digits, heq, -⟩
      have hquad := (parts_valid a b c d digits).1
      rw [← heq] at hquad
      -- There is no dot in front of the colon.
      have hdot : 46 ∈ quadText a b c d :=
        List.mem_append_right _ List.mem_cons_self
      rw [← hquad] at hdot
      exact absurd hdot (by decide)
    have hnone := h.2 hno
    cases hnone
  · have hno : ¬ Valid (ascii "10.0.0.1:x") := by
      rintro ⟨a, b, c, d, digits, heq, -, -, hdigits, -⟩
      have hrest := (parts_valid a b c d digits).2
      rw [← heq] at hrest
      have hx : ascii "x" = digits := (List.cons.inj hrest).2
      exact absurd (hdigits 120 (hx ▸ List.mem_cons_self)) (by decide)
    have hnone := h.2 hno
    cases hnone
  · have hids := (h _ _ rfl rfl).1 (by decide +kernel)
    exact absurd hids.1 (by decide)

end ServiceItemInfo

end YkServer
