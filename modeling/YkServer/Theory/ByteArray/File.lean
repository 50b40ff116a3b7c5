import YkServer.Theory.ByteArray.Reachable
import YkServer.Theory.ByteArray.Cursor

/-!
# Dumping to a File

`writeToFile` walks the nodes from the cursor on and hands a part of each to the
file. The part of a node is computed as the smaller of what is left and a whole
block, less the offset in the node. That is the rest of the node when a whole block
is left. When less is left it is the offset too short, and by an offset that may be
larger than what is left.

So the dump is right from a node boundary, and from inside a node when a whole block
is still to come. The loop is then the loop of the buffer lists. Everywhere else
what it writes is not the data: either the walk goes wrong, or it goes on in the next
node while bytes of this one are missing. What tells the two apart is the address of
the first byte written, so the comparison is made on addresses and not on bytes,
which could agree by chance.

Reading a file into a new array is a write for each block of it, so a right dump
comes back whatever the two block sizes are.

## Main definitions

* `cells`: The addresses a list of segments covers.
* `reload`: Read a file into an array and print it from the start.
* `Dumped`: What is expected of a dump.

## Theorems

* `dump_eq_segments`: The loop, where it is right.
* `dump_first`: The first byte written, in any case.
* `readFromFile_written`: Reading a file.
* `writeToFile_iff`: When a dump is what is expected.
-/

namespace YkServer

open Lib

namespace ByteArray

/-- The addresses a list of segments covers, in order. -/
def cells (b : Nat) (iovs : List Iovec) : List Nat :=
  iovs.flatMap (fun v => List.range' (v.node * b + v.off) v.len)

/-- Read a file into an array and print it from the start. -/
def reload (fuel : Nat) (content : List UInt8) : Prog Exn ByteArray (List UInt8) := do
  readFromFile fuel content
  setPosition 0
  toString

/-- What is expected of a dump: the addresses from the cursor to the end of the data,
    and that the file gives the same text again, in a new array of any block size. -/
def Dumped (s : ByteArray) : Prop :=
  ∃ iovs, writeToFile true s = .ok (true, iovs) s ∧
    cells s.baseSize iovs = List.range' s.position (s.size - s.position) ∧
    ∀ baseSize heap fuel, 1 ≤ baseSize → (gather s.nodes iovs).length < fuel →
      ∃ bytes t, toString s = .ok bytes s ∧
        reload fuel (gather s.nodes iovs) (new baseSize heap) = .ok bytes t

theorem cells_cons (b : Nat) (v : Iovec) (iovs : List Iovec) :
    cells b (v :: iovs) = List.range' (v.node * b + v.off) v.len ++ cells b iovs := by
  rw [cells, List.flatMap_cons, cells]

/-- The list loop covers the range. -/
theorem cells_segments (b : Nat) (ns : List Node) (hns : ∀ n ∈ ns, n.size = b) (i npos : Nat)
    (hnpos : npos < b) (len : Nat) (iovs : List Iovec)
    (hseg : segments ns i npos len = some iovs) :
    cells b iovs = List.range' (i * b + npos) len := by
  induction ns generalizing i npos len iovs with
  | nil => simp only [segments, reduceCtorEq] at hseg
  | cons n rest ih =>
      have hn : n.size = b := hns n List.mem_cons_self
      have hrest : ∀ m ∈ rest, m.size = b := fun m hm => hns m (List.mem_cons_of_mem n hm)
      rcases segments_cases n rest i npos len iovs hseg with ⟨-, rfl⟩ | ⟨hle, tl, htail, rfl⟩
      · rw [cells_cons, cells, List.flatMap_nil, List.append_nil]
      · -- The rest starts where the first segment ends.
        have hnext : (i + 1) * b + 0 = i * b + npos + (n.size - npos) := by
          rw [Nat.add_mul, Nat.one_mul]
          omega
        rw [cells_cons, ih hrest (i + 1) 0 (by omega) _ tl htail, hnext, List.range'_append_1,
          Nat.add_sub_cancel' hle]

/-! ## The loop -/

theorem dump_zero (b : Nat) (ns : List Node) (i pos : Nat) : dump b ns i pos 0 = some [] := by
  cases ns with
  | nil => rw [dump, if_pos rfl]
  | cons n rest => rw [dump, if_pos rfl]

/-- From a node boundary the dump is the buffer list. -/
theorem dump_aligned (b : Nat) (hb : 0 < b) (ns : List Node) (hns : ∀ n ∈ ns, n.size = b)
    (i r : Nat) (hr : 0 < r) : dump b ns i (i * b) r = segments ns i 0 r := by
  induction ns generalizing i r with
  | nil => rw [dump, if_neg (by omega), segments]
  | cons n rest ih =>
      have hn : n.size = b := hns n List.mem_cons_self
      have hrest : ∀ m ∈ rest, m.size = b := fun m hm => hns m (List.mem_cons_of_mem n hm)
      rw [dump, segments, if_neg (by omega), Nat.mul_mod_left, intOfWord_zero, hn]
      by_cases hin : r ≤ b
      -- The last segment: nothing is left behind it.
      · simp only [if_neg (Nat.not_lt.mpr hin), Int.sub_zero, lt_irrefl, false_or,
          Int.toNat_natCast, Int.toNat_zero, Nat.sub_self, Nat.sub_zero, dump_zero]
        rw [if_neg (by omega), if_pos hin]
      · have hnext : i * b + b = (i + 1) * b := by rw [Nat.add_mul, Nat.one_mul]
        simp only [if_pos (Nat.lt_of_not_le hin), Int.sub_zero, lt_irrefl, false_or,
          Int.toNat_natCast, Int.toNat_zero, Nat.sub_zero, hnext]
        rw [if_neg (by omega), if_neg hin, ih hrest (i + 1) (r - b) (by omega)]

/-- Where a whole block is left, or the cursor is at a node boundary, the dump is the
    buffer list. -/
theorem dump_eq_segments (b : Nat) (hb : 0 < b) (ns : List Node) (hns : ∀ n ∈ ns, n.size = b)
    (i d r : Nat) (hd : d < b) (hint : d < 2 ^ 31) (hr : 0 < r) (hleft : d = 0 ∨ b ≤ r) :
    dump b ns i (i * b + d) r = segments ns i d r := by
  by_cases hzero : d = 0
  · rw [hzero, Nat.add_zero, dump_aligned b hb ns hns i r hr]
  · have hbr : b ≤ r := hleft.resolve_left hzero
    cases ns with
    | nil => rw [dump, if_neg (by omega), segments]
    | cons n rest =>
        have hn : n.size = b := hns n List.mem_cons_self
        have hrest : ∀ m ∈ rest, m.size = b := fun m hm => hns m (List.mem_cons_of_mem n hm)
        have hmod : (i * b + d) % b = d := by
          rw [Nat.mul_add_mod_self_right, Nat.mod_eq_of_lt hd]
        have hwhole : (if b < r then b else r) = b := by
          by_cases hlt : b < r
          · rw [if_pos hlt]
          · rw [if_neg hlt]
            omega
        have hlen : ((b : Int) - (d : Int)).toNat = b - d := by omega
        have hnext : i * b + d + (b - d) = (i + 1) * b := by
          rw [Nat.add_mul, Nat.one_mul]
          omega
        -- The rest of the node is written, and the next round starts at a boundary.
        rw [dump, segments, if_neg (by omega), hmod, intOfWord_small d hint, hn, hwhole]
        simp only [hlen, hnext, Int.toNat_natCast]
        rw [if_neg (by omega), if_neg (by omega),
          dump_aligned b hb rest hrest (i + 1) (r - (b - d)) (by omega)]

/-- The first byte written, wherever the dump starts: it is in this node or a later
    one, at the narrowed offset. Empty segments may come before it, and they do not
    change the offset. -/
theorem dump_first (b : Nat) (ns : List Node) (i pos r : Nat) (iovs : List Iovec)
    (hr : 0 < r) (hrun : dump b ns i pos r = some iovs) :
    0 ≤ intOfWord (pos % b) ∧
      ∃ j, i ≤ j ∧ (cells b iovs).head? = some (j * b + (intOfWord (pos % b)).toNat) := by
  induction ns generalizing i iovs with
  | nil =>
      rw [dump, if_neg (by omega)] at hrun
      cases hrun
  | cons n rest ih =>
      rw [dump, if_neg (by omega)] at hrun
      simp only [] at hrun
      set diff := intOfWord (pos % b) with hdiff
      set len : Int := ((if b < r then b else r : Nat) : Int) - diff with hlen
      by_cases hbad : diff < 0 ∨ len < 0
      · rw [if_pos hbad] at hrun
        cases hrun
      · rw [if_neg hbad] at hrun
        rcases hrec : dump b rest (i + 1) (pos + len.toNat) (r - len.toNat) with _ | tl
        · simp only [hrec, reduceCtorEq] at hrun
        · simp only [hrec, Option.some.injEq] at hrun
          refine ⟨by omega, ?_⟩
          rw [← hrun, cells_cons]
          by_cases hempty : len.toNat = 0
          · rw [hempty, Nat.add_zero, Nat.sub_zero] at hrec
            rcases (ih (i + 1) tl hrec).2 with ⟨j, hj, hhead⟩
            refine ⟨j, by omega, ?_⟩
            simp only [hempty, List.range'_zero, List.nil_append]
            exact hhead
          · refine ⟨i, le_refl _, ?_⟩
            rw [List.head?_append, List.head?_range', if_neg hempty]
            rfl

/-- Inside a node with less than a block left, the first segment stops short by the
    offset, and the next one is in another node. -/
theorem dump_short (b : Nat) (ns : List Node) (i d r : Nat) (iovs : List Iovec) (hd : 0 < d)
    (hint : d < 2 ^ 31) (hr : 0 < r) (hdb : d < b) (hrb : r < b)
    (hrun : dump b ns i (i * b + d) r = some iovs) :
    cells b iovs ≠ List.range' (i * b + d) r := by
  cases ns with
  | nil =>
      rw [dump, if_neg (by omega)] at hrun
      cases hrun
  | cons n rest =>
      have hmod : (i * b + d) % b = d := by
        rw [Nat.mul_add_mod_self_right, Nat.mod_eq_of_lt hdb]
      rw [dump, if_neg (by omega), hmod, intOfWord_small d hint,
        if_neg (by omega : ¬b < r)] at hrun
      by_cases hneg : r < d
      · rw [if_pos (by omega)] at hrun
        cases hrun
      · have hlen : ((r : Int) - (d : Int)).toNat = r - d := by omega
        have hleft : r - (r - d) = d := by omega
        rw [if_neg (by omega), hlen, hleft] at hrun
        rcases hrec : dump b rest (i + 1) (i * b + d + (r - d)) d with _ | tl
        · simp only [hrec, reduceCtorEq] at hrun
        · simp only [hrec, Option.some.injEq, Int.toNat_natCast] at hrun
          rcases dump_first b rest (i + 1) _ d tl hd hrec with ⟨-, j, hj, hhead⟩
          intro hcells
          -- Behind the first segment the next address is still one of this node.
          have hsplit : List.range' (i * b + d) r
              = List.range' (i * b + d) (r - d) ++ List.range' (i * b + d + (r - d)) d := by
            rw [List.range'_append_1, Nat.sub_add_cancel (Nat.le_of_not_lt hneg)]
          rw [← hrun, cells_cons, hsplit] at hcells
          have htail := List.append_cancel_left hcells
          rw [htail, List.head?_range', if_neg (by omega), Option.some.injEq] at hhead
          have hnode : (i + 1) * b ≤ j * b := Nat.mul_le_mul_right b hj
          rw [Nat.add_mul, Nat.one_mul] at hnode
          omega

theorem intOfWord_toNat_lt (n : Nat) : (intOfWord n).toNat < 2 ^ 31 := by
  rw [intOfWord]
  by_cases hlow : n % 2 ^ 32 < 2 ^ 31
  · rw [if_pos hlow]
    omega
  · rw [if_neg hlow]
    omega

/-- An offset that does not fit an `int` is not where the dump starts. -/
theorem dump_far (b : Nat) (ns : List Node) (i d r : Nat) (iovs : List Iovec) (hr : 0 < r)
    (hdb : d < b) (hfar : 2 ^ 31 ≤ d) (hrun : dump b ns i (i * b + d) r = some iovs) :
    cells b iovs ≠ List.range' (i * b + d) r := by
  have hmod : (i * b + d) % b = d := by
    rw [Nat.mul_add_mod_self_right, Nat.mod_eq_of_lt hdb]
  rcases dump_first b ns i _ r iovs hr hrun with ⟨-, j, -, hhead⟩
  rw [hmod] at hhead
  have hsmall := intOfWord_toNat_lt d
  intro hcells
  rw [hcells, List.head?_range', if_neg (by omega), Option.some.injEq] at hhead
  -- The offset of an address is its remainder.
  have hoff := congrArg (· % b) hhead
  simp only [hmod, Nat.mul_add_mod_self_right] at hoff
  rw [Nat.mod_eq_of_lt (by omega)] at hoff
  omega

/-! ## Reading a file -/

/-- Reading a file is writing it, block by block. -/
theorem readFromFile_written (fuel : Nat) (content : List UInt8) (s : ByteArray)
    (bs : List UInt8) (hfuel : content.length < fuel) (h : Written s bs) :
    ∃ s', readFromFile fuel content s = .ok () s' ∧ Written s' (bs ++ content) := by
  induction fuel generalizing content s bs with
  | zero => omega
  | succ fuel ih =>
      rcases write_written s bs (content.take s.baseSize) h with ⟨s₁, hrun₁, h₁⟩
      rw [readFromFile, bind_ok _ _ _ _ _ (get_apply s), bind_ok _ _ _ _ _ hrun₁]
      by_cases hshort : content.length < s.baseSize
      · rw [if_pos hshort]
        rw [List.take_of_length_le (by omega)] at h₁
        exact ⟨s₁, rfl, h₁⟩
      · rw [if_neg hshort]
        have hbase := h.inv.base_pos
        rcases ih (content.drop s.baseSize) s₁ _ (by rw [List.length_drop]; omega) h₁ with
          ⟨s₂, hrun₂, h₂⟩
        rw [List.append_assoc, List.take_append_drop] at h₂
        exact ⟨s₂, hrun₂, h₂⟩

/-- A file read into a new array and printed is its content. -/
theorem reload_eq (baseSize : Nat) (heap : Nat → UInt8) (hb : 1 ≤ baseSize) (fuel : Nat)
    (content : List UInt8) (hfuel : content.length < fuel) :
    ∃ t, reload fuel content (new baseSize heap) = .ok content t := by
  rcases readFromFile_written fuel content _ [] hfuel (written_new baseSize heap hb) with
    ⟨s₁, hrun₁, h₁⟩
  rcases h₁.rewind with ⟨s₂, hrun₂, h₂, -, -, -⟩
  refine ⟨s₂, ?_⟩
  rw [reload, bind_ok _ _ _ _ _ hrun₁, bind_ok _ _ _ _ _ hrun₂, toString_spec s₂ h₂.inv,
    h₂.bytes, List.nil_append]

/-! ## The dump -/

/-- With nothing left to write the dump is empty. -/
theorem dumped_empty (s : ByteArray) (hend : s.position = s.size) : Dumped s := by
  have hzero : s.getReadSize = 0 := by
    rw [getReadSize, hend, Nat.sub_self]
  refine ⟨[], ?_, ?_, ?_⟩
  · simp only [writeToFile, if_true, hzero, dump_zero]
  · rw [hend, Nat.sub_self]
    rfl
  · intro baseSize heap fuel hb hfuel
    rcases reload_eq baseSize heap hb fuel [] hfuel with ⟨t, ht⟩
    refine ⟨[], t, ?_, ht⟩
    rw [toString, if_pos hzero]

/-- Where the loop is the loop of the buffer lists, the dump is what is expected. -/
theorem dumped_of_segments (s : ByteArray) (h : Inv s) (hlt : s.position < s.size)
    (hint : s.position % s.baseSize < 2 ^ 31)
    (hleft : s.position % s.baseSize = 0 ∨ s.baseSize ≤ s.size - s.position) : Dumped s := by
  have hsc := h.size_le
  have hcur : s.position < s.capacity := by omega
  have hchain : s.chain = s.nodes.drop (s.position / s.baseSize) := by
    rw [chain, h.cur_some hcur]
  have hmod := Nat.mod_lt s.position h.base_pos
  have hdm := Nat.div_add_mod' s.position s.baseSize
  rcases h.segments (s.size - s.position) (by omega) (by omega) with ⟨iovs, hiovs⟩
  have hdump := dump_eq_segments s.baseSize h.base_pos (s.nodes.drop (s.position / s.baseSize))
    (h.node_size_drop _) (s.position / s.baseSize) _ _ hmod hint
    (by omega : 0 < s.size - s.position) hleft
  rw [hdm, hiovs] at hdump
  have hcells := cells_segments s.baseSize _ (h.node_size_drop _) _ _ hmod _ iovs hiovs
  rw [hdm] at hcells
  -- The file holds the bytes of the buffer list, which is the text.
  have hpre : (s.nodes.take (s.position / s.baseSize)).length = s.position / s.baseSize :=
    (h.split hcur).1
  have hgather := gather_segments s.baseSize (s.nodes.take (s.position / s.baseSize)) _
    (h.node_size_drop _) _ hmod _ iovs (by rw [hpre]; exact hiovs)
  rw [List.take_append_drop, h.drop_flat hcur] at hgather
  refine ⟨iovs, ?_, hcells, ?_⟩
  · simp only [writeToFile, if_true, hchain, h.cur_some hcur, Option.getD_some, getReadSize,
      hdump]
  · intro baseSize heap fuel hb hfuel
    rcases reload_eq baseSize heap hb fuel _ hfuel with ⟨t, ht⟩
    exact ⟨_, t, by rw [toString_spec s h, hgather], ht⟩

/-- A dump is what is expected of it exactly where nothing is left to write, or the
    offset in the node is zero, or it fits an `int` and a whole block is left. -/
theorem writeToFile_iff (baseSize : Nat) (heap : Nat → UInt8) (hb : 1 ≤ baseSize)
    (s : ByteArray) (hs : Reachable baseSize heap s) :
    Dumped s ↔ s.position = s.size ∨ s.position % baseSize = 0 ∨
      s.position % baseSize < 2 ^ 31 ∧ baseSize ≤ s.size - s.position := by
  rcases reachable_held baseSize heap hb s hs with ⟨h, hbase⟩
  have hps := h.position_le
  have hsc := h.size_le
  rw [← hbase]
  constructor
  · rintro ⟨iovs, hrun, hcells, -⟩
    by_contra hnot
    have hcur : s.position < s.capacity := by omega
    have hmod := Nat.mod_lt s.position h.base_pos
    have hdm := Nat.div_add_mod' s.position s.baseSize
    have hchain : s.chain = s.nodes.drop (s.position / s.baseSize) := by
      rw [chain, h.cur_some hcur]
    have hdump : dump s.baseSize (s.nodes.drop (s.position / s.baseSize))
        (s.position / s.baseSize)
        (s.position / s.baseSize * s.baseSize + s.position % s.baseSize)
        (s.size - s.position) = some iovs := by
      rw [hdm]
      simp only [writeToFile, if_true, hchain, h.cur_some hcur, Option.getD_some,
        getReadSize] at hrun
      rcases hdump : dump s.baseSize (s.nodes.drop (s.position / s.baseSize))
        (s.position / s.baseSize) s.position (s.size - s.position) with _ | found
      · simp only [hdump, reduceCtorEq] at hrun
      · simp only [hdump, Outcome.ok.injEq, Prod.mk.injEq, true_and, and_true] at hrun
        rw [hrun]
    rw [← hdm] at hcells
    -- The offset is too large for an `int`, or too little is left.
    by_cases hfar : 2 ^ 31 ≤ s.position % s.baseSize
    · refine dump_far s.baseSize _ _ _ _ iovs (by omega) hmod hfar hdump ?_
      rw [hcells, hdm]
    · refine dump_short s.baseSize _ _ _ _ iovs (by omega) (by omega) (by omega) hmod (by omega)
        hdump ?_
      rw [hcells, hdm]
  · intro hok
    by_cases hend : s.position = s.size
    · exact dumped_empty s hend
    · refine dumped_of_segments s h (by omega) ?_ ?_
      · rcases hok.resolve_left hend with hzero | hfit
        · rw [hzero]
          exact Nat.two_pow_pos 31
        · exact hfit.1
      · exact (hok.resolve_left hend).imp_right (fun hfit => hfit.2)

/-- Five bytes in blocks of two, the cursor on the second: a whole block is left. -/
theorem writeToFile_iff_block :
    ∃ s, Reachable 2 (fun _ => 0) s ∧ s.position = 1 ∧ Dumped s := by
  have hs : Reachable 2 (fun _ => 0)
      { baseSize := 2, position := 1, capacity := 6, size := 5, endian := .big,
        nodes := [⟨[1, 2]⟩, ⟨[3, 4]⟩, ⟨[5, 0]⟩], cur := some 0, heap := fun _ => 0 } :=
    Reachable.ok _ _ (.setPosition 1)
      (Reachable.ok _ _ (.write [1, 2, 3, 4, 5]) Reachable.new rfl) rfl
  exact ⟨_, hs, rfl, (writeToFile_iff 2 (fun _ => 0) (by decide) _ hs).mpr (by decide)⟩

/-- A dump is not always what is expected: two bytes in a block of four, the cursor
    on the second. The part of the node comes out empty, and the walk leaves the
    chain. -/
theorem writeToFile_inside_node :
    ¬∀ (baseSize : Nat) (heap : Nat → UInt8), 1 ≤ baseSize → ∀ s, Reachable baseSize heap s →
      Dumped s := by
  intro hall
  have hs : Reachable 4 (fun _ => 0)
      { baseSize := 4, position := 1, capacity := 4, size := 2, endian := .big,
        nodes := [⟨[7, 8, 0, 0]⟩], cur := some 0, heap := fun _ => 0 } :=
    Reachable.ok _ _ (.setPosition 1)
      (Reachable.ok _ _ (.write [7, 8]) Reachable.new rfl) rfl
  rcases hall 4 (fun _ => 0) (by decide) _ hs with ⟨iovs, hrun, -, -⟩
  simp only [writeToFile, if_true] at hrun
  cases hrun

end ByteArray

end YkServer
