import YkServer.Core.Address

/-!
# The Text of an IPv6 Address

`insert` prints the groups of an address in one pass and leaves out the first run of zero
groups. The text is read back by the rules for IPv6 addresses: eight groups of up to four
hexadecimal digits between colons, or fewer groups and two colons in a row that stand for
the rest, all zero.

## Main definitions

* `groups`: The groups of an address.
* `expand`: The reader.
* `shown`: The printed groups.

## Theorems

* `insertGroups_eq`: The pass prints that.
* `expand_shown`: Reading it back.
* `insert_expands`: The same for an address.
-/

namespace YkServer

open Lib

namespace IPv6Address

/-- The groups of an address, in network order. -/
def groups (addr : Vector (BitVec 8) 16) : List (BitVec 16) :=
  List.ofFn (fun i : Fin 8 => (addr[2 * i.val] ++ addr[2 * i.val + 1] : BitVec 16))

/-! ## The reader -/

/-- A hexadecimal digit, in either case. -/
def hexDigit (c : UInt8) : Option Nat :=
  if 48 ≤ c && c ≤ 57 then some (c.toNat - 48)
  else if 97 ≤ c && c ≤ 102 then some (c.toNat - 87)
  else if 65 ≤ c && c ≤ 70 then some (c.toNat - 55)
  else none

def hexValue (s : List UInt8) : Option Nat :=
  s.foldlM (fun v c => (hexDigit c).map (16 * v + ·)) 0

/-- One to four digits. -/
def readGroup (s : List UInt8) : Option (BitVec 16) :=
  if 1 ≤ s.length && s.length ≤ 4 then (hexValue s).map (BitVec.ofNat 16) else none

/-- Groups between colons. -/
def readGroups (s : List UInt8) : Option (List (BitVec 16)) := (s.splitOn 58).mapM readGroup

/-- What is in front of the first two colons in a row, and what is behind them. -/
def cut : List UInt8 → Option (List UInt8 × List UInt8)
  | [] => none
  | c :: s =>
    if c = 58 && s.head? = some 58 then some ([], s.tail)
    else (cut s).map (fun parts => (c :: parts.1, parts.2))

/-- The groups on one side of the cut, where there may be none. -/
def readSide (s : List UInt8) : Option (List (BitVec 16)) :=
  if s = [] then some [] else readGroups s

/-- The address a text stands for. -/
def expand (s : List UInt8) : Option (List (BitVec 16)) :=
  match cut s with
  | none => do
    let gs ← readGroups s
    if gs.length = 8 then some gs else none
  | some (front, back) => do
    let gs ← readSide front
    let hs ← readSide back
    if gs.length + hs.length < 8 then
      some (gs ++ List.replicate (8 - (gs.length + hs.length)) 0 ++ hs)
    else none

example : expand (ascii "2001:db8::1") = some [0x2001, 0xdb8, 0, 0, 0, 0, 0, 1] := by decide

/-! ## Numbers -/

/-- A digit as it is printed. -/
def digit (d : Nat) : UInt8 := UInt8.ofNat (Nat.digitChar d).toNat

theorem hexDigit_digit : ∀ d < 16, hexDigit (digit d) = some d := by decide

theorem hex_eq (n : Nat) :
    hex n = if n < 16 then [digit n] else hex (n / 16) ++ [digit (n % 16)] := by
  rw [hex, Nat.toDigits_eq_if (by decide)]
  by_cases h : n < 16
  · rw [if_pos h, if_pos h]
    rfl
  · rw [if_neg h, if_neg h, List.map_append]
    rfl

/-- What holds of printed numbers. -/
theorem hex_induction (P : Nat → List UInt8 → Prop) (hone : ∀ n < 16, P n [digit n])
    (hmore : ∀ n s, 16 ≤ n → P (n / 16) s → P n (s ++ [digit (n % 16)])) (n : Nat) :
    P n (hex n) := by
  induction n using Nat.strong_induction_on with
  | _ n ih =>
      rw [hex_eq]
      by_cases h : n < 16
      · rw [if_pos h]
        exact hone n h
      · rw [if_neg h]
        exact hmore n _ (Nat.not_lt.1 h) (ih (n / 16) (by omega))

theorem hexValue_concat (s : List UInt8) (c : UInt8) (v d : Nat) (hs : hexValue s = some v)
    (hc : hexDigit c = some d) : hexValue (s ++ [c]) = some (16 * v + d) := by
  rw [hexValue] at hs
  rw [hexValue, List.foldlM_append, hs]
  simp only [Option.bind_eq_bind, Option.bind_some, List.foldlM_cons, List.foldlM_nil, hc,
    Option.map_some, Option.pure_def]

theorem hexValue_hex (n : Nat) : hexValue (hex n) = some n := by
  refine hex_induction (fun n s => hexValue s = some n) (fun n hn => ?_) (fun n s _ hs => ?_) n
  · have hone := hexValue_concat [] (digit n) 0 n rfl (hexDigit_digit n hn)
    rw [Nat.mul_zero, Nat.zero_add] at hone
    exact hone
  · rw [hexValue_concat s _ (n / 16) (n % 16) hs (hexDigit_digit _ (Nat.mod_lt _ (by decide))),
      Nat.div_add_mod]

/-- A printed number has a digit in front and no colon. -/
theorem hex_digits (n : Nat) : hex n ≠ [] ∧ 58 ∉ hex n := by
  have hcolon : ∀ d < 16, digit d ≠ 58 := by decide
  refine hex_induction (fun _ s => s ≠ [] ∧ 58 ∉ s) (fun n hn => ?_) (fun n s _ hs => ?_) n
  · refine ⟨List.cons_ne_nil _ _, fun h => ?_⟩
    exact hcolon n hn (List.mem_singleton.1 h).symm
  · refine ⟨List.append_ne_nil_of_left_ne_nil hs.1 _, fun h => ?_⟩
    rcases List.mem_append.1 h with hmem | hmem
    · exact hs.2 hmem
    · exact hcolon _ (Nat.mod_lt n (by decide)) (List.mem_singleton.1 hmem).symm

theorem length_hex (g : BitVec 16) : (hex g.toNat).length ≤ 4 := by
  rw [hex, List.length_map]
  exact (Nat.length_toDigits_le_iff (by decide) (by decide)).2 g.isLt

theorem readGroup_hex (g : BitVec 16) : readGroup (hex g.toNat) = some g := by
  have hlen := length_hex g
  have hpos := List.length_pos_iff.2 (hex_digits g.toNat).1
  rw [readGroup, if_pos (by simp only [Bool.and_eq_true, decide_eq_true_eq]; omega), hexValue_hex,
    Option.map_some, BitVec.ofNat_toNat, BitVec.setWidth_eq]

/-! ## The printed groups -/

/-- Groups, each behind a colon. -/
def behindColons (gs : List (BitVec 16)) : List UInt8 := gs.flatMap (fun g => 58 :: hex g.toNat)

/-- Groups with colons between them. -/
def joined : List (BitVec 16) → List UInt8
  | [] => []
  | g :: gs => hex g.toNat ++ behindColons gs

/-- The groups in front of the first run of zeros, and those behind it, if there is one. -/
def shown (gs : List (BitVec 16)) : List UInt8 :=
  if 0 ∈ gs then
    joined (gs.takeWhile (· ≠ 0)) ++
      58 :: 58 :: joined ((gs.dropWhile (· ≠ 0)).dropWhile (· = 0))
  else joined gs

theorem behindColons_cons (g : BitVec 16) (gs : List (BitVec 16)) :
    behindColons (g :: gs) = 58 :: joined (g :: gs) := rfl

theorem joined_eq (gs : List (BitVec 16)) :
    joined gs = [58].intercalate (gs.map (fun g => hex g.toNat)) := by
  induction gs with
  | nil => rfl
  | cons g gs ih =>
      cases gs with
      | nil => rw [joined, List.map_singleton, List.intercalate_singleton, behindColons,
          List.flatMap_nil, List.append_nil]
      | cons h gs =>
          rw [joined, behindColons_cons, ih, List.map_cons, List.map_cons, List.map_cons,
            List.intercalate_cons_cons, List.append_assoc]
          rfl

theorem joined_eq_nil (gs : List (BitVec 16)) : joined gs = [] ↔ gs = [] := by
  cases gs with
  | nil => exact iff_of_true rfl rfl
  | cons g gs =>
      refine iff_of_false (fun h => ?_) (List.cons_ne_nil _ _)
      exact (hex_digits g.toNat).1 (List.append_eq_nil_iff.1 h).1

theorem readGroups_joined (gs : List (BitVec 16)) (h : gs ≠ []) :
    readGroups (joined gs) = some gs := by
  have hwords : ∀ s ∈ gs.map (fun g => hex g.toNat), 58 ∉ s := by
    intro s hs
    rcases List.mem_map.1 hs with ⟨g, -, rfl⟩
    exact (hex_digits g.toNat).2
  rw [readGroups, joined_eq, List.splitOn_intercalate 58 hwords (by rwa [ne_eq, List.map_eq_nil_iff])]
  clear hwords h
  induction gs with
  | nil => rfl
  | cons g gs ih =>
      rw [List.map_cons, List.mapM_cons, readGroup_hex, ih]
      rfl

theorem readSide_joined (gs : List (BitVec 16)) : readSide (joined gs) = some gs := by
  by_cases h : gs = []
  · rw [h]
    rfl
  · rw [readSide, if_neg (fun hnil => h ((joined_eq_nil gs).1 hnil)), readGroups_joined gs h]

/-! ## Where the text is cut -/

/-- A part of the text that is in front of the cut. -/
def inFront (s : List UInt8) (parts : List UInt8 × List UInt8) : List UInt8 × List UInt8 :=
  (s ++ parts.1, parts.2)

theorem map_inFront (s t : List UInt8) (cuts : Option (List UInt8 × List UInt8)) :
    (cuts.map (inFront t)).map (inFront s) = cuts.map (inFront (s ++ t)) := by
  rw [Option.map_map]
  refine congrArg (fun f => cuts.map f) (funext (fun parts => ?_))
  simp only [Function.comp_apply, inFront, List.append_assoc]

/-- The cut is not at a byte that is not followed by a colon, or is none. -/
theorem cut_cons (c : UInt8) (s : List UInt8) (h : c = 58 → s.head? ≠ some 58) :
    cut (c :: s) = (cut s).map (inFront [c]) := by
  rw [cut, if_neg]
  · rfl
  · rw [Bool.and_eq_true, decide_eq_true_eq, decide_eq_true_eq]
    exact fun hboth => h hboth.1 hboth.2

theorem cut_word (s t : List UInt8) (hs : 58 ∉ s) : cut (s ++ t) = (cut t).map (inFront s) := by
  induction s with
  | nil => exact Option.map_id'.symm
  | cons c s ih =>
      rw [List.mem_cons, not_or] at hs
      rw [List.cons_append, cut_cons c _ (fun hc => absurd hc.symm hs.1), ih hs.2, map_inFront,
        List.singleton_append]

theorem cut_behindColons (gs : List (BitVec 16)) (t : List UInt8) :
    cut (behindColons gs ++ t) = (cut t).map (inFront (behindColons gs)) := by
  induction gs with
  | nil => exact Option.map_id'.symm
  | cons g gs ih =>
      rcases hex_digits g.toNat with ⟨hne, hcolon⟩
      have hnext : (hex g.toNat ++ (behindColons gs ++ t)).head? ≠ some 58 := by
        rw [List.head?_append_of_ne_nil _ hne]
        exact fun h => hcolon (List.mem_of_head? h)
      rw [behindColons_cons, joined, List.cons_append, List.append_assoc,
        cut_cons 58 _ (fun _ => hnext), cut_word _ _ hcolon, ih, map_inFront, map_inFront,
        List.singleton_append, List.cons_append]

theorem cut_joined (gs : List (BitVec 16)) (t : List UInt8) :
    cut (joined gs ++ t) = (cut t).map (inFront (joined gs)) := by
  cases gs with
  | nil => exact Option.map_id'.symm
  | cons g gs =>
      rw [joined, List.append_assoc, cut_word _ _ (hex_digits g.toNat).2, cut_behindColons,
        map_inFront]

/-- The first run of zeros is not empty. -/
theorem zeros_split (gs : List (BitVec 16)) (h : 0 ∈ gs) :
    ∃ k, gs = gs.takeWhile (· ≠ 0) ++ List.replicate (k + 1) 0 ++
      (gs.dropWhile (· ≠ 0)).dropWhile (· = 0) := by
  induction gs with
  | nil => exact absurd h List.not_mem_nil
  | cons g gs ih =>
      by_cases hg : g = 0
      · refine ⟨(gs.takeWhile (· = 0)).length, ?_⟩
        have hrun : gs.takeWhile (· = 0) = List.replicate (gs.takeWhile (· = 0)).length 0 :=
          List.eq_replicate_of_mem (fun x hx =>
            of_decide_eq_true (List.all_eq_true.1 List.all_takeWhile x hx))
        rw [hg, List.takeWhile_cons_of_neg (by decide), List.dropWhile_cons_of_neg (by decide),
          List.dropWhile_cons_of_pos (by decide), List.nil_append, List.replicate_succ, ← hrun,
          List.cons_append, List.takeWhile_append_dropWhile]
      · rcases ih ((List.mem_cons.1 h).resolve_left (Ne.symm hg)) with ⟨k, hsplit⟩
        have htake : (g :: gs).takeWhile (· ≠ 0) = g :: gs.takeWhile (· ≠ 0) :=
          List.takeWhile_cons_of_pos (decide_eq_true hg)
        have hdrop : (g :: gs).dropWhile (· ≠ 0) = gs.dropWhile (· ≠ 0) :=
          List.dropWhile_cons_of_pos (decide_eq_true hg)
        refine ⟨k, ?_⟩
        rw [htake, hdrop, List.cons_append, List.cons_append, ← hsplit]

/-- The printed groups are read back. -/
theorem expand_shown (gs : List (BitVec 16)) (h : gs.length = 8) :
    expand (shown gs) = some gs := by
  by_cases hzero : 0 ∈ gs
  · rcases zeros_split gs hzero with ⟨k, hsplit⟩
    rw [shown, if_pos hzero]
    generalize gs.takeWhile (· ≠ 0) = front at hsplit ⊢
    generalize (gs.dropWhile (· ≠ 0)).dropWhile (· = 0) = back at hsplit ⊢
    have hlen : front.length + (k + 1) + back.length = 8 := by
      rw [← h, hsplit, List.length_append, List.length_append, List.length_replicate]
    have hcut : cut (joined front ++ 58 :: 58 :: joined back) =
        some (joined front, joined back) := by
      rw [cut_joined]
      exact congrArg (fun s => some (s, joined back)) (List.append_nil (joined front))
    simp only [expand, hcut, readSide_joined, Option.bind_eq_bind, Option.bind_some]
    rw [if_pos (by omega), show 8 - (front.length + back.length) = k + 1 by omega, ← hsplit]
  · rw [shown, if_neg hzero]
    have hcut : cut (joined gs) = none := by
      rw [← List.append_nil (joined gs), cut_joined]
      rfl
    have hne : gs ≠ [] := by
      intro hnil
      rw [hnil] at h
      cases h
    simp only [expand, hcut, readGroups_joined gs hne, Option.bind_eq_bind, Option.bind_some]
    rw [if_pos h]

/-! ## The pass -/

/-- The loop of `insert` over groups, with the group before if there is one. -/
def pass : Option (BitVec 16) → Bool → List (BitVec 16) → List UInt8 × Bool
  | _, used, [] => ([], used)
  | before, used, g :: gs =>
    if g = 0 && !used then pass (some g) used gs
    else
      let compress := decide (before = some 0) && !used
      let rest := pass (some g) (used || compress) gs
      ((if compress then ascii ":" else []) ++ (if before.isSome then ascii ":" else []) ++
        hex g.toNat ++ rest.1, rest.2)

/-- Behind the two colons all groups are printed. -/
theorem pass_used (b : BitVec 16) (gs : List (BitVec 16)) :
    pass (some b) true gs = (behindColons gs, true) := by
  induction gs generalizing b with
  | nil => rfl
  | cons g gs ih =>
      rw [pass, Bool.not_true, Bool.and_false, if_neg Bool.false_ne_true]
      simp only [Bool.and_false, Bool.or_false, ih]
      rfl

/-- A run of zeros is passed over. -/
theorem pass_zeros (before : Option (BitVec 16)) (k : Nat) (gs : List (BitVec 16)) :
    pass before false (List.replicate (k + 1) 0 ++ gs) = pass (some 0) false gs := by
  induction k generalizing before with
  | zero => rfl
  | succ k ih =>
      rw [List.replicate_succ, List.cons_append]
      exact ih (some 0)

/-- The first group behind the zeros has two colons in front of it. -/
theorem pass_behind (g : BitVec 16) (gs : List (BitVec 16)) (hg : g ≠ 0) :
    pass (some 0) false (g :: gs) = (58 :: 58 :: joined (g :: gs), true) := by
  have hcond : (decide (g = 0) && !false) = false := by rw [decide_eq_false hg, Bool.false_and]
  rw [pass, hcond, if_neg Bool.false_ne_true]
  simp only [decide_true, Bool.not_false, Bool.and_true, Bool.or_true, pass_used]
  rfl

/-- In front of the zeros the groups are printed with colons between them. -/
theorem pass_front (before : Option (BitVec 16)) (hbefore : before ≠ some 0)
    (front gs : List (BitVec 16)) (hfront : ∀ g ∈ front, g ≠ 0) :
    ∃ last, last ≠ some 0 ∧ pass before false (front ++ gs) =
      ((if before.isSome then behindColons front else joined front) ++ (pass last false gs).1,
        (pass last false gs).2) := by
  induction front generalizing before with
  | nil =>
      refine ⟨before, hbefore, ?_⟩
      rw [joined, behindColons, List.flatMap_nil, ite_self]
      rfl
  | cons g front ih =>
      have hg : g ≠ 0 := hfront g List.mem_cons_self
      have hcond : (decide (g = 0) && !false) = false := by rw [decide_eq_false hg, Bool.false_and]
      rcases ih (some g) (fun h => hg (Option.some.inj h))
        (fun x hx => hfront x (List.mem_cons_of_mem g hx)) with ⟨last, hlast, hpass⟩
      refine ⟨last, hlast, ?_⟩
      rw [List.cons_append, pass, hcond, if_neg Bool.false_ne_true]
      simp only [decide_eq_false hbefore, Bool.false_and, Bool.or_false, hpass]
      cases before with
      | none => simp [joined]
      | some b => simp [behindColons, ascii]

/-- The pass prints the text. -/
theorem pass_shown (gs : List (BitVec 16)) :
    (if !(pass none false gs).2 && gs.getLast? = some 0 then
      (pass none false gs).1 ++ ascii "::" else (pass none false gs).1) = shown gs := by
  by_cases hzero : 0 ∈ gs
  · rcases zeros_split gs hzero with ⟨k, hsplit⟩
    have hfront : ∀ g ∈ gs.takeWhile (· ≠ 0), g ≠ 0 :=
      fun g hg => of_decide_eq_true (List.all_eq_true.1 List.all_takeWhile g hg)
    have hhead := List.head?_dropWhile_not (· = 0) (gs.dropWhile (· ≠ 0))
    rw [shown, if_pos hzero]
    generalize gs.takeWhile (· ≠ 0) = front at hsplit hfront ⊢
    generalize (gs.dropWhile (· ≠ 0)).dropWhile (· = 0) = back at hsplit hhead ⊢
    rcases pass_front none (fun h => by cases h) front (List.replicate (k + 1) 0 ++ back) hfront
      with ⟨last, -, hpass⟩
    rw [← List.append_assoc, ← hsplit, pass_zeros] at hpass
    rw [hpass]
    cases back with
    | nil =>
        have hlast : gs.getLast? = some 0 := by
          rw [hsplit, List.append_nil, List.replicate_succ', ← List.append_assoc,
            List.getLast?_concat]
        rw [hlast]
        simp [pass, ascii, joined]
    | cons g back =>
        have hg : g ≠ 0 := of_decide_eq_false hhead
        rw [pass_behind g back hg]
        rfl
  · rcases pass_front none (fun h => by cases h) gs [] (fun g hg h => hzero (h ▸ hg)) with
      ⟨last, -, hpass⟩
    rw [List.append_nil] at hpass
    have hlast : ¬gs.getLast? = some 0 := fun h => hzero (List.mem_of_getLast? h)
    rw [hpass, decide_eq_false hlast, Bool.and_false, if_neg Bool.false_ne_true, shown,
      if_neg hzero]
    exact List.append_nil _

/-! ## Groups in memory -/

variable (host : ByteOrder) (addr : Vector (BitVec 8) 16)

theorem byteswap16_byteswap16 (x : BitVec 16) :
    byteswapOnLittleEndian16 host (byteswapOnLittleEndian16 host x) = x := by
  cases host with
  | littleEndian => exact swap16_swap16 x
  | bigEndian => rfl

theorem byteswap16_eq_zero (x : BitVec 16) : byteswapOnLittleEndian16 host x = 0 ↔ x = 0 := by
  have hzero : byteswapOnLittleEndian16 host 0 = 0 := by cases host <;> rfl
  refine ⟨fun h => ?_, fun h => by rw [h, hzero]⟩
  rw [← byteswap16_byteswap16 host x, h, hzero]

theorem length_groups : (groups addr).length = 8 := List.length_ofFn

/-- A group is in memory as the host does not read it. -/
theorem load16_eq (i : Nat) (hi : i < 8) :
    ∃ g, (groups addr)[i]? = some g ∧
      load16 host addr i = some (byteswapOnLittleEndian16 host g) := by
  have hfirst : 2 * i < 16 := by omega
  have hsecond : 2 * i + 1 < 16 := by omega
  refine ⟨addr[2 * i] ++ addr[2 * i + 1], ?_, ?_⟩
  · rw [groups, List.getElem?_ofFn, dif_pos hi]
  · rw [load16, Vector.getElem?_eq_getElem hfirst, Vector.getElem?_eq_getElem hsecond]
    cases host with
    | littleEndian => exact congrArg some (swap16_append _ _).symm
    | bigEndian => rfl

/-- The group before, if there is one. -/
def groupBefore (i : Nat) : Option (BitVec 16) :=
  if i = 0 then none else (groups addr)[i - 1]?

theorem insertLoop_eq (n i : Nat) (used : Bool) (h : i + n = 8) :
    insertLoop host addr n i used =
      some (pass (groupBefore addr i) used ((groups addr).drop i)) := by
  induction n generalizing i used with
  | zero =>
      rw [insertLoop, List.drop_of_length_le (by rw [length_groups]; omega)]
      rfl
  | succ n ih =>
      rcases load16_eq host addr i (by omega) with ⟨g, hg, hload⟩
      have hlt : i < (groups addr).length := by rw [length_groups]; omega
      have hsplit : (groups addr).drop i = g :: (groups addr).drop (i + 1) := by
        rw [List.drop_eq_getElem_cons hlt]
        exact congrArg (· :: _) (List.getElem_eq_iff hlt |>.2 hg)
      have hnext : groupBefore addr (i + 1) = some g := by
        rw [groupBefore, if_neg (Nat.succ_ne_zero i), Nat.add_sub_cancel, hg]
      have hzero : zeroBefore host addr i = some (decide (groupBefore addr i = some 0)) := by
        by_cases hi : i = 0
        · rw [zeroBefore, if_pos hi, groupBefore, if_pos hi]
          rfl
        · rcases load16_eq host addr (i - 1) (by omega) with ⟨b, hb, hloadb⟩
          rw [zeroBefore, if_neg hi, groupBefore, if_neg hi, hloadb, hb, Option.map_some]
          simp only [byteswap16_eq_zero, Option.some.injEq]
      have hsome : (groupBefore addr i).isSome = decide (i ≠ 0) := by
        by_cases hi : i = 0
        · rw [groupBefore, if_pos hi, decide_eq_false (not_not_intro hi)]
          rfl
        · rcases load16_eq host addr (i - 1) (by omega) with ⟨b, hb, -⟩
          rw [groupBefore, if_neg hi, hb, decide_eq_true hi]
          rfl
      rw [insertLoop, hload, hsplit, pass]
      simp only [Option.bind_eq_bind, Option.bind_some, byteswap16_eq_zero,
        byteswap16_byteswap16, hzero, hsome, decide_eq_true_eq, ih (i + 1) _ (by omega), hnext]
      exact (apply_ite some _ _ _).symm

/-- What `insert` prints between the brackets. -/
theorem insertGroups_eq : insertGroups host addr = some (shown (groups addr)) := by
  rcases load16_eq host addr 7 (by decide) with ⟨g, hg, hload⟩
  have hlast : (groups addr).getLast? = some g := by
    rw [List.getLast?_eq_getElem?, length_groups, hg]
  rw [insertGroups, insertLoop_eq host addr 8 0 false rfl, hload, ← pass_shown, hlast]
  simp only [Option.bind_eq_bind, Option.bind_some, byteswap16_eq_zero, Option.some.injEq]
  rfl

/-- The groups are the address. -/
theorem groups_inj (a b : Vector (BitVec 8) 16) (h : groups a = groups b) : a = b := by
  have hbyte : ∀ i (hi : i < 8), a[2 * i] = b[2 * i] ∧ a[2 * i + 1] = b[2 * i + 1] := by
    intro i hi
    have hsame := congrArg (fun gs => gs[i]?) h
    rw [groups, groups, List.getElem?_ofFn, List.getElem?_ofFn, dif_pos hi, dif_pos hi,
      Option.some.injEq] at hsame
    have hhigh := congrArg (fun g => BitVec.extractLsb' 8 8 g) hsame
    have hlow := congrArg (fun g => BitVec.extractLsb' 0 8 g) hsame
    simp only [extract_low, extract_high] at hhigh hlow
    exact ⟨hhigh, hlow⟩
  refine Vector.ext (fun i hi => ?_)
  rcases hbyte (i / 2) (by omega) with ⟨heven, hodd⟩
  rcases Nat.mod_two_eq_zero_or_one i with hmod | hmod
  · have hi' : 2 * (i / 2) = i := by omega
    simpa only [hi'] using heven
  · have hi' : 2 * (i / 2) + 1 = i := by omega
    simpa only [hi'] using hodd

/-- For every address and every byte order the text between the brackets is read back as the
    address, so no other address has that text. -/
theorem insert_expands (m : IPv6Address) :
    ∃ text, insert host m = some (ascii "[" ++ text ++ ascii "] :" ++
        printed (byteswapOnLittleEndian16 host m.port).toNat) ∧
      insertGroups host m.addr = some text ∧ expand text = some (groups m.addr) ∧
      ∀ other addr', insertGroups other addr' = some text → addr' = m.addr := by
  refine ⟨shown (groups m.addr), ?_, insertGroups_eq host m.addr,
    expand_shown _ (length_groups m.addr), fun other addr' h => ?_⟩
  · rw [insert, insertGroups_eq]
    rfl
  · rw [insertGroups_eq, Option.some.injEq] at h
    refine groups_inj _ _ ?_
    have hread := expand_shown _ (length_groups addr')
    rw [h, expand_shown _ (length_groups m.addr), Option.some.injEq] at hread
    exact hread.symm

end IPv6Address

end YkServer
