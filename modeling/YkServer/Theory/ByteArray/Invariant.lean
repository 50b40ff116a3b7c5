import YkServer.Theory.ByteArray.Walk

/-!
# The Representation Invariant

The link between the cursor, the cached node and the capacity, and what each
operation does from a state that has it.

The cursor may sit at the very end of the capacity, where there is no node to
point at and `m_cur` is null. This happens whenever a write, a read or a seek
ends exactly at a node boundary that is the last one, and every operation that
needs a node has to grow the chain first or refuse. `cur_eq` says this in one
equation, so an operation re-establishes it by computing one quotient.

Each specification gives the result and the new state's fields, so that a
caller never unfolds an operation again. The memory is described as a list:
growing appends a tail to it, a write overwrites a range, and nothing else
changes it.

## Main definitions

* `Inv`: The representation invariant.
* `memory`: The flat memory of a state.

## Theorems

* `inv_new`: A new array satisfies the invariant.
* `addCapacity_spec`: Growing.
* `write_spec`: A write of at least one byte.
* `read_spec`, `read_throws`: A read of at least one byte.
* `setPosition_spec`: A seek.
* `clear_spec`: Clearing.
* `toString_spec`: The bytes from the cursor to the end of the data.
* `getReadBuffers_spec`, `getWriteBuffers_spec`: The buffer lists.
-/

namespace YkServer

open Lib

namespace ByteArray

/-- The representation invariant: nodes of one size, a capacity that counts
    them, a cursor inside the data and a current node that is the cursor's,
    null exactly at the end of the capacity. -/
structure Inv (s : ByteArray) : Prop where
  base_pos : 0 < s.baseSize
  nodes_pos : 0 < s.nodes.length
  node_size : ∀ n ∈ s.nodes, n.size = s.baseSize
  capacity_eq : s.capacity = s.nodes.length * s.baseSize
  position_le : s.position ≤ s.size
  size_le : s.size ≤ s.capacity
  cur_eq : s.cur = if s.position < s.capacity then some (s.position / s.baseSize) else none

/-- The flat memory: the nodes laid end to end. -/
def memory (s : ByteArray) : List UInt8 := flat s.nodes

theorem Inv.length_memory {s : ByteArray} (h : Inv s) : (memory s).length = s.capacity := by
  rw [memory, length_flat s.baseSize _ h.node_size, h.capacity_eq]

/-- The pointer to the node of a position, null at the end of the capacity. -/
theorem link_div (s : ByteArray) (v : Nat) (hb : 0 < s.baseSize)
    (hcap : s.capacity = s.nodes.length * s.baseSize) :
    s.link (v / s.baseSize) = if v < s.capacity then some (v / s.baseSize) else none := by
  rw [link, hcap]
  simp only [Nat.div_lt_iff_lt_mul hb]

theorem Inv.cur_some {s : ByteArray} (h : Inv s) (hlt : s.position < s.capacity) :
    s.cur = some (s.position / s.baseSize) := by
  rw [h.cur_eq, if_pos hlt]

/-- The node of a position below the capacity is in the chain. -/
theorem Inv.div_lt {s : ByteArray} (h : Inv s) (v : Nat) (hlt : v < s.capacity) :
    v / s.baseSize < s.nodes.length := by
  rw [Nat.div_lt_iff_lt_mul h.base_pos, ← h.capacity_eq]
  exact hlt

theorem Inv.node_size_take {s : ByteArray} (h : Inv s) (i : Nat) :
    ∀ n ∈ s.nodes.take i, n.size = s.baseSize :=
  fun n hn => h.node_size n (List.mem_of_mem_take hn)

theorem Inv.node_size_drop {s : ByteArray} (h : Inv s) (i : Nat) :
    ∀ n ∈ s.nodes.drop i, n.size = s.baseSize :=
  fun n hn => h.node_size n (List.mem_of_mem_drop hn)

/-- The part of the chain the cursor is in, as a prefix and the chain from
    `m_cur` on. -/
theorem Inv.split {s : ByteArray} (h : Inv s) (hlt : s.position < s.capacity) :
    (s.nodes.take (s.position / s.baseSize)).length = s.position / s.baseSize ∧
      (flat (s.nodes.take (s.position / s.baseSize))).length + s.position % s.baseSize
        = s.position := by
  have hidx := h.div_lt s.position hlt
  have hlen : (s.nodes.take (s.position / s.baseSize)).length = s.position / s.baseSize := by
    rw [List.length_take]
    omega
  refine ⟨hlen, ?_⟩
  rw [length_flat s.baseSize _ (h.node_size_take _), hlen,
    Nat.div_add_mod']

/-- A range at the cursor that lies inside the capacity lies inside the chain
    from the node of the cursor on. -/
theorem Inv.room {s : ByteArray} (h : Inv s) (n : Nat) (hn : 0 < n)
    (hfit : s.position + n ≤ s.capacity) :
    s.position % s.baseSize + n
      ≤ (s.nodes.drop (s.position / s.baseSize)).length * s.baseSize := by
  have hidx := h.div_lt s.position (by omega)
  have hdm := Nat.div_add_mod' s.position s.baseSize
  rw [List.length_drop, Nat.sub_mul, ← h.capacity_eq]
  omega

/-- The bytes of the chain from the node of the cursor on, from the offset of the
    cursor in that node. -/
theorem Inv.drop_flat {s : ByteArray} (h : Inv s) (hlt : s.position < s.capacity) :
    (flat (s.nodes.drop (s.position / s.baseSize))).drop (s.position % s.baseSize)
      = (memory s).drop s.position := by
  rw [flat_drop s.baseSize _ h.node_size _ (le_of_lt (h.div_lt _ hlt)), List.drop_drop,
    Nat.div_add_mod', memory]

/-- The links followed from the node of a position lead to the node `n` further. -/
theorem links_add (b p n : Nat) (hb : 0 < b) : p / b + (p % b + n) / b = (p + n) / b := by
  conv_rhs => rw [← Nat.div_add_mod p b, Nat.add_assoc, Nat.mul_add_div hb]

theorem inv_new (baseSize : Nat) (heap : Nat → UInt8) (hb : 0 < baseSize) :
    Inv (new baseSize heap) where
  base_pos := hb
  nodes_pos := Nat.one_pos
  node_size := by
    intro n hn
    rw [new, List.mem_singleton] at hn
    rw [hn, Node.size, Node.alloc, List.length_map, List.length_range, new]
  capacity_eq := by simp only [new, List.length_singleton, Nat.one_mul]
  position_le := le_refl _
  size_le := Nat.zero_le _
  cur_eq := by simp only [new, if_pos hb, Nat.zero_div]

/-! ## Growing -/

/-- The allocation loop appends `count` nodes of the right size and touches
    nothing but the chain, the capacity and the supply of memory. -/
theorem appendNodes_spec (count : Nat) (s : ByteArray) :
    ∃ ns heap, appendNodes count s
        = { s with nodes := s.nodes ++ ns, capacity := s.capacity + count * s.baseSize,
                   heap := heap } ∧
      ns.length = count ∧ ∀ n ∈ ns, n.size = s.baseSize := by
  induction count generalizing s with
  | zero =>
      refine ⟨[], s.heap, ?_, rfl, fun n hn => absurd hn List.not_mem_nil⟩
      simp only [appendNodes, List.append_nil, Nat.zero_mul, Nat.add_zero]
  | succ count ih =>
      rcases ih { s with nodes := s.nodes ++ [Node.alloc s.heap s.baseSize],
                         capacity := s.capacity + s.baseSize,
                         heap := fun i => s.heap (i + s.baseSize) } with
        ⟨ns, heap, hrun, hlen, hsize⟩
      refine ⟨Node.alloc s.heap s.baseSize :: ns, heap, ?_, ?_, ?_⟩
      · rw [appendNodes, hrun]
        simp only [List.append_assoc, List.singleton_append, Nat.add_mul, Nat.one_mul]
        congr 1
        omega
      · rw [List.length_cons, hlen]
      · intro n hn
        rcases List.mem_cons.mp hn with rfl | hn
        · rw [Node.size, Node.alloc, List.length_map, List.length_range]
        · exact hsize n hn

/-- The nodes needed for `d` bytes hold them, and one node fewer would not. -/
theorem ceil_spec (b d : Nat) (hb : 0 < b) (hd : 0 < d) :
    d ≤ (d + b - 1) / b * b ∧ (d + b - 1) / b * b < d + b ∧ 0 < (d + b - 1) / b := by
  have hdiv := Nat.div_add_mod' (d + b - 1) b
  have hmod := Nat.mod_lt (d + b - 1) hb
  have hpos : 0 < (d + b - 1) / b := Nat.div_pos (by omega) hb
  exact ⟨by omega, by omega, hpos⟩

/-- The capacity after making room for `size` bytes at the cursor. -/
def grownCapacity (s : ByteArray) (size : Nat) : Nat :=
  if size ≤ s.getCapacity then s.capacity
  else s.capacity + (size - s.getCapacity + s.baseSize - 1) / s.baseSize * s.baseSize

/-- Growing appends memory behind what is there, so that the range asked for
    lies inside the capacity and the cursor has a node. -/
theorem addCapacity_spec (s : ByteArray) (h : Inv s) (size : Nat) (hsize : 0 < size) :
    ∃ tail, Inv (s.addCapacity size) ∧ memory (s.addCapacity size) = memory s ++ tail ∧
      (s.addCapacity size).position = s.position ∧ (s.addCapacity size).size = s.size ∧
      (s.addCapacity size).baseSize = s.baseSize ∧ (s.addCapacity size).endian = s.endian ∧
      (s.addCapacity size).capacity = grownCapacity s size ∧
      s.position + size ≤ (s.addCapacity size).capacity := by
  have hpc : s.position ≤ s.capacity := le_trans h.position_le h.size_le
  by_cases hroom : size ≤ s.getCapacity
  · have hsame : s.addCapacity size = s := by
      simp only [addCapacity, if_neg (by omega : ¬ size = 0), if_pos hroom]
    have hcap : size ≤ s.capacity - s.position := hroom
    refine ⟨[], ?_⟩
    rw [hsame, List.append_nil, grownCapacity, if_pos hroom]
    exact ⟨h, rfl, rfl, rfl, rfl, rfl, rfl, by omega⟩
  · set count := (size - s.getCapacity + s.baseSize - 1) / s.baseSize with hcount
    rcases appendNodes_spec count s with ⟨ns, heap, hrun, hlen, hns⟩
    have hgetCap : s.getCapacity = s.capacity - s.position := rfl
    rcases ceil_spec s.baseSize (size - s.getCapacity) h.base_pos (by omega) with
      ⟨hge, _, hcpos⟩
    rw [← hcount] at hge hcpos
    have hfull : s.nodes.length < (s.nodes ++ ns).length := by
      rw [List.length_append]
      omega
    -- In the new chain the cursor has a node, whether it had one before or not.
    have hcur : s.addCapacity size
        = { s with nodes := s.nodes ++ ns, capacity := s.capacity + count * s.baseSize,
                   heap := heap, cur := some (s.position / s.baseSize) } := by
      simp only [addCapacity, if_neg (by omega : ¬ size = 0), if_neg hroom]
      rw [← hcount, hrun]
      by_cases hold : s.getCapacity = 0
      · -- The cursor was at the end: the node behind the old chain is the first new one.
        have hpos : s.position / s.baseSize = s.nodes.length := by
          have hpe : s.position = s.nodes.length * s.baseSize := by
            rw [← h.capacity_eq]
            omega
          rw [hpe, Nat.mul_div_cancel _ h.base_pos]
        simp only [if_pos hold, link, if_pos hfull, hpos]
      · have hlt : s.position < s.capacity := by omega
        simp only [if_neg hold, h.cur_some hlt]
    refine ⟨flat ns, ?_⟩
    rw [hcur]
    refine ⟨⟨h.base_pos, ?_, ?_, ?_, h.position_le, ?_, ?_⟩, flat_append _ _, rfl, rfl, rfl, rfl,
      ?_, ?_⟩
    · simp only [List.length_append]
      omega
    · intro n hn
      rcases List.mem_append.mp hn with hn | hn
      · exact h.node_size n hn
      · exact hns n hn
    · simp only [List.length_append, hlen, Nat.add_mul, h.capacity_eq]
    · exact le_trans h.size_le (Nat.le_add_right _ _)
    · simp only []
      rw [if_pos (by omega)]
    · rw [grownCapacity, if_neg hroom]
    · simp only []
      omega

/-! ## The operations -/

/-- A write of at least one byte stores it at the cursor, moves the cursor past
    it and raises the size where the cursor went beyond it. -/
theorem write_spec (s : ByteArray) (h : Inv s) (buf : List UInt8) (hbuf : buf ≠ []) :
    ∃ s' tail, write buf s = .ok () s' ∧ Inv s' ∧
      memory s' = overwrite (memory s ++ tail) s.position buf ∧
      s'.position = s.position + buf.length ∧
      s'.size = max s.size (s.position + buf.length) ∧
      s'.baseSize = s.baseSize ∧ s'.endian = s.endian ∧
      s'.capacity = grownCapacity s buf.length ∧
      (memory s ++ tail).length = s'.capacity := by
  have hlen : 0 < buf.length := List.length_pos_of_ne_nil hbuf
  rcases addCapacity_spec s h buf.length hlen with
    ⟨tail, hinv, hmem, hpos, hsz, hbase, hend, hcap, hfit⟩
  set t := s.addCapacity buf.length with ht
  have hlt : t.position < t.capacity := by omega
  have hcur := hinv.cur_some hlt
  rcases hinv.split hlt with ⟨-, hbefore⟩
  rcases copyIn_spec t.baseSize hinv.base_pos _ (hinv.node_size_drop _) _
    (Nat.mod_lt _ hinv.base_pos) buf hbuf (hinv.room buf.length hlen (by omega)) with
    ⟨ns', hcopy, hlen', hsize', hflat'⟩
  have hnodesLen : (t.nodes.take (t.position / t.baseSize) ++ ns').length = t.nodes.length := by
    rw [List.length_append, hlen', ← List.length_append, List.take_append_drop]
  refine ⟨{ t with
      nodes := t.nodes.take (t.position / t.baseSize) ++ ns',
      cur := t.link (t.position / t.baseSize
        + (t.position % t.baseSize + buf.length) / t.baseSize),
      position := t.position + buf.length,
      size := if t.size < t.position + buf.length then t.position + buf.length else t.size },
    tail, ?_, ?_, ?_, ?_, ?_, hbase, hend, hcap, by rw [← hmem, hinv.length_memory]⟩
  · simp only [write]
    rw [if_neg (by omega), ← ht, hcur]
    simp only []
    rw [hcopy]
  · refine ⟨hinv.base_pos, ?_, ?_, ?_, ?_, ?_, ?_⟩
    · simp only []
      rw [hnodesLen]
      exact hinv.nodes_pos
    · intro n hn
      rcases List.mem_append.mp hn with hn | hn
      · exact hinv.node_size_take _ n hn
      · exact hsize' n hn
    · simp only []
      rw [hnodesLen]
      exact hinv.capacity_eq
    · simp only []
      split <;> omega
    · have hle := hinv.size_le
      simp only []
      split <;> omega
    · -- The links followed from the cursor's node lead to the node of the new position.
      simp only []
      rw [links_add _ _ _ hinv.base_pos]
      exact link_div t _ hinv.base_pos hinv.capacity_eq
  · -- The nodes before the cursor's are as they were, so the store is one into the whole.
    simp only [memory]
    have hmem' : flat t.nodes = flat s.nodes ++ tail := hmem
    rw [flat_append, hflat', ← hpos, ← hmem', ← overwrite_append_right, hbefore, ← flat_append,
      List.take_append_drop]
  · simp only [hpos]
  · simp only [hpos, hsz, Nat.max_def]
    split <;> split <;> omega

/-- Writing nothing does nothing. -/
theorem write_nil (s : ByteArray) : write [] s = .ok () s := by
  simp only [write, List.length_nil, if_true]

/-- The load loop from the cursor, in a state with enough memory behind it. -/
theorem copyOut_chain (s : ByteArray) (h : Inv s) (n : Nat) (hn : 0 < n)
    (hfit : s.position + n ≤ s.capacity) :
    copyOut s.chain (s.position % s.baseSize) n
      = some (((memory s).drop s.position).take n,
        (s.position % s.baseSize + n) / s.baseSize) := by
  have hlt : s.position < s.capacity := by omega
  have hchain : s.chain = s.nodes.drop (s.position / s.baseSize) := by
    rw [chain, h.cur_some hlt]
  rw [hchain, copyOut_spec s.baseSize h.base_pos _ (h.node_size_drop _) _
    (Nat.mod_lt _ h.base_pos) n hn (h.room n hn hfit), h.drop_flat hlt]

/-- A read of at least one byte that the data holds returns the bytes at the
    cursor and moves the cursor past them. -/
theorem read_spec (s : ByteArray) (h : Inv s) (n : Nat) (hn : 0 < n)
    (hfit : s.position + n ≤ s.size) :
    ∃ s', read n s = .ok (((memory s).drop s.position).take n) s' ∧ Inv s' ∧
      memory s' = memory s ∧ s'.position = s.position + n ∧ s'.size = s.size ∧
      s'.baseSize = s.baseSize ∧ s'.endian = s.endian ∧ s'.capacity = s.capacity := by
  have hsc := h.size_le
  have hlt : s.position < s.capacity := by omega
  have hcur := h.cur_some hlt
  refine ⟨{ s with position := s.position + n,
                   cur := s.advance ((s.position % s.baseSize + n) / s.baseSize) },
    ?_, ⟨h.base_pos, h.nodes_pos, h.node_size, h.capacity_eq, hfit, hsc, ?_⟩, rfl, rfl, rfl, rfl,
    rfl, rfl⟩
  · have hread : ¬ s.getReadSize < n := by
      simp only [getReadSize]
      omega
    simp only [read]
    rw [if_neg hread, copyOut_chain s h n hn (by omega)]
  · simp only [advance, hcur]
    rw [links_add _ _ _ h.base_pos]
    exact link_div s _ h.base_pos h.capacity_eq

/-- A read beyond the data throws and changes nothing. -/
theorem read_throws (s : ByteArray) (n : Nat) (hn : s.getReadSize < n) :
    read n s = .throw (.outOfRange "not enough len") s := by
  simp only [read]
  rw [if_pos hn]

/-- Reading nothing needs a current node all the same. -/
theorem read_zero (s : ByteArray) (h : Inv s) :
    read 0 s = if s.position < s.capacity then .ok [] s else .fault := by
  simp only [read]
  rw [if_neg (Nat.not_lt_zero _)]
  by_cases hlt : s.position < s.capacity
  · have hcur := h.cur_some hlt
    have hidx := h.div_lt s.position hlt
    rw [if_pos hlt]
    rcases hdrop : s.nodes.drop (s.position / s.baseSize) with _ | ⟨n, rest⟩
    · -- The index of the cursor's node is inside the chain.
      have hzero := congrArg List.length hdrop
      rw [List.length_drop, List.length_nil] at hzero
      omega
    · have hsame : s.advance 0 = s.cur := by
        simp only [advance, hcur, Nat.add_zero, link, if_pos hidx]
      simp only [chain, hcur, hdrop, copyOut, if_true, hsame, Nat.add_zero]
      rw [← hcur]
  · -- At the end of the capacity the loop follows a null pointer before it looks at the size.
    rw [if_neg hlt]
    have hcur : s.cur = none := by rw [h.cur_eq, if_neg hlt]
    simp only [chain, hcur, copyOut]

/-- A seek up to the capacity moves the cursor, and the size with it where the
    cursor goes beyond. -/
theorem setPosition_spec (s : ByteArray) (h : Inv s) (v : Nat) (hv : v ≤ s.capacity) :
    ∃ s', setPosition v s = .ok () s' ∧ Inv s' ∧ memory s' = memory s ∧ s'.position = v ∧
      s'.size = max s.size v ∧ s'.baseSize = s.baseSize ∧ s'.endian = s.endian ∧
      s'.capacity = s.capacity := by
  have hne : s.nodes ≠ [] := List.ne_nil_of_length_pos h.nodes_pos
  have hseek := seek_spec s.baseSize h.base_pos s.nodes h.node_size hne v
    (by rw [← h.capacity_eq]; exact hv)
  have hsc := h.size_le
  refine ⟨{ s with position := v, size := if s.size < v then v else s.size,
                   cur := s.link (v / s.baseSize) }, ?_, ?_, rfl, rfl, ?_, rfl, rfl, rfl⟩
  · simp only [setPosition]
    rw [if_neg (by omega), hseek]
    rfl
  · refine ⟨h.base_pos, h.nodes_pos, h.node_size, h.capacity_eq, ?_, ?_, ?_⟩
    · simp only []
      split <;> omega
    · simp only []
      split <;> omega
    · simp only []
      exact link_div s v h.base_pos h.capacity_eq
  · simp only [Nat.max_def]
    split <;> split <;> omega

/-- A seek past the capacity throws and changes nothing. -/
theorem setPosition_throws (s : ByteArray) (v : Nat) (hv : s.capacity < v) :
    setPosition v s = .throw (.outOfRange "set_position out of range") s := by
  simp only [setPosition]
  rw [if_pos hv]

/-- Clearing keeps the root node and its bytes. -/
theorem clear_spec (s : ByteArray) (h : Inv s) :
    ∃ s', clear s = .ok () s' ∧ Inv s' ∧ memory s' = (memory s).take s.baseSize ∧
      s'.position = 0 ∧ s'.size = 0 ∧ s'.baseSize = s.baseSize ∧ s'.endian = s.endian ∧
      s'.capacity = s.baseSize := by
  refine ⟨{ s with position := 0, size := 0, capacity := s.baseSize, nodes := s.nodes.take 1,
                   cur := some 0 }, rfl,
    ⟨h.base_pos, ?_, ?_, ?_, le_refl _, Nat.zero_le _, ?_⟩, ?_, rfl, rfl, rfl, rfl, rfl⟩
  · have hpos := h.nodes_pos
    simp only [List.length_take]
    omega
  · intro n hn
    exact h.node_size n (List.mem_of_mem_take hn)
  · have hpos := h.nodes_pos
    simp only [List.length_take]
    rw [Nat.min_eq_left (by omega), Nat.one_mul]
  · simp only []
    rw [if_pos h.base_pos, Nat.zero_div]
  · simp only [memory]
    rcases hnodes : s.nodes with _ | ⟨n, rest⟩
    · have hpos := h.nodes_pos
      rw [hnodes, List.length_nil] at hpos
      omega
    · have hn : n.ptr.length = s.baseSize :=
        h.node_size n (by rw [hnodes]; exact List.mem_cons_self)
      rw [List.take_succ_cons, List.take_zero, flat_cons, flat_cons, flat_nil, List.append_nil,
        ← hn, List.take_left]

/-- `toString` returns the bytes from the cursor to the end of the data. -/
theorem toString_spec (s : ByteArray) (h : Inv s) :
    toString s = .ok (((memory s).drop s.position).take (s.size - s.position)) s := by
  have hps := h.position_le
  have hsc := h.size_le
  by_cases hzero : s.getReadSize = 0
  · have hzero' : s.size - s.position = 0 := hzero
    simp only [toString]
    rw [if_pos hzero, hzero', List.take_zero]
  · have hlen : s.getReadSize = s.size - s.position := rfl
    have hsub : subWord s.size s.position = s.size - s.position := by
      rw [subWord, if_pos hps]
    simp only [toString]
    -- The position is the cursor's, the one case in which starting at `m_cur` is right.
    rw [if_neg hzero, readAt, hsub, if_neg (by omega),
      copyOut_chain s h s.getReadSize (by omega) (by omega), hlen]

/-! ## The buffer lists -/

/-- There is a list for every range at the cursor that lies inside the
    capacity. -/
theorem Inv.segments {s : ByteArray} (h : Inv s) (len : Nat) (hlen : 0 < len)
    (hfit : s.position + len ≤ s.capacity) :
    ∃ iovs, ByteArray.segments (s.nodes.drop (s.position / s.baseSize))
      (s.position / s.baseSize) (s.position % s.baseSize) len = some iovs := by
  exact segments_isSome s.baseSize h.base_pos _ (h.node_size_drop _) _ _
    (Nat.mod_lt _ h.base_pos) len hlen (h.room len hlen hfit)

/-- The length of a gather list is cut to what is readable at the cursor. -/
theorem cut_eq (s : ByteArray) (len : Nat) :
    (if s.getReadSize < len then s.getReadSize else len) = min len (s.size - s.position) := by
  by_cases hcut : s.getReadSize < len
  · rw [if_pos hcut]
    simp only [getReadSize] at hcut ⊢
    omega
  · rw [if_neg hcut]
    simp only [getReadSize] at hcut
    omega

/-- The gather list of the readable bytes. -/
theorem getReadBuffers_spec (s : ByteArray) (h : Inv s) (len : Nat) (hlen : 0 < len)
    (hread : s.position < s.size) :
    ∃ iovs, getReadBuffers len s = .ok (min len (s.size - s.position), iovs) s ∧
      gather s.nodes iovs = ((memory s).drop s.position).take (min len (s.size - s.position)) := by
  have hsc := h.size_le
  have hlt : s.position < s.capacity := by omega
  rcases h.segments (min len (s.size - s.position)) (by omega) (by omega) with ⟨iovs, hiovs⟩
  rcases h.split hlt with ⟨hpre, hpos⟩
  refine ⟨iovs, ?_, ?_⟩
  · simp only [getReadBuffers]
    rw [cut_eq, if_neg (by omega), h.cur_some hlt]
    simp only []
    rw [hiovs]
  · have hgather := gather_segments s.baseSize (s.nodes.take (s.position / s.baseSize))
      (s.nodes.drop (s.position / s.baseSize))
      (h.node_size_drop _) _ (Nat.mod_lt _ h.base_pos) (min len (s.size - s.position))
      iovs (by rw [hpre]; exact hiovs)
    rw [List.take_append_drop] at hgather
    rw [hgather, h.drop_flat hlt]

/-- The scatter list of the memory at the cursor. Filling the front of it with
    `data` overwrites the memory at the cursor and keeps the invariant. -/
theorem getWriteBuffers_spec (s : ByteArray) (h : Inv s) (len : Nat) (hlen : 0 < len) :
    ∃ s' tail iovs, getWriteBuffers len s = .ok (len, iovs) s' ∧ Inv s' ∧
      memory s' = memory s ++ tail ∧ s'.position = s.position ∧ s'.size = s.size ∧
      s'.baseSize = s.baseSize ∧ s'.endian = s.endian ∧
      s'.capacity = grownCapacity s len ∧ s.position + len ≤ s'.capacity ∧
      ∀ data, data.length ≤ len → Inv { s' with nodes := scatter iovs data s'.nodes } ∧
        flat (scatter iovs data s'.nodes) = overwrite (memory s') s.position data := by
  rcases addCapacity_spec s h len hlen with ⟨tail, hinv, hmem, hpos, hsz, hbase, hend, hcap, hfit⟩
  set t := s.addCapacity len with ht
  have hlt : t.position < t.capacity := by omega
  rcases hinv.segments len hlen (by omega) with ⟨iovs, hiovs⟩
  rcases hinv.split hlt with ⟨hpre, hpre'⟩
  refine ⟨t, tail, iovs, ?_, hinv, hmem, hpos, hsz, hbase, hend, hcap, hfit, ?_⟩
  · simp only [getWriteBuffers]
    rw [if_neg (by omega), ← ht, hinv.cur_some hlt]
    simp only []
    rw [hiovs]
  · intro data hdata
    rcases scatter_segments t.baseSize (t.nodes.take (t.position / t.baseSize))
      (t.nodes.drop (t.position / t.baseSize))
      (hinv.node_size_drop _) _ (Nat.mod_lt _ hinv.base_pos) len iovs
      (by rw [hpre]; exact hiovs) data hdata with ⟨ns', hscat, hlen', hsize', hflat'⟩
    rw [List.take_append_drop] at hscat
    have hsame : (t.nodes.take (t.position / t.baseSize) ++ ns').length = t.nodes.length := by
      rw [List.length_append, hlen', ← List.length_append, List.take_append_drop]
    refine ⟨⟨hinv.base_pos, ?_, ?_, ?_, hinv.position_le, hinv.size_le, hinv.cur_eq⟩, ?_⟩
    · simp only [hscat]
      rw [hsame]
      exact hinv.nodes_pos
    · intro n hn
      simp only [hscat] at hn
      rcases List.mem_append.mp hn with hn | hn
      · exact hinv.node_size_take _ n hn
      · exact hsize' n hn
    · simp only [hscat]
      rw [hsame]
      exact hinv.capacity_eq
    · rw [hscat, flat_append, hflat', ← overwrite_append_right, hpre', ← flat_append,
        List.take_append_drop, hpos, memory]

/-- The scatter list is as long as the answer says. -/
theorem getWriteBuffers_total (s s' : ByteArray) (len n : Nat) (iovs : List Iovec)
    (h : getWriteBuffers len s = .ok (n, iovs) s') : (iovs.map Iovec.len).sum = n := by
  simp only [getWriteBuffers] at h
  by_cases hzero : len = 0
  · rw [if_pos hzero] at h
    cases h
    rfl
  · rw [if_neg hzero] at h
    rcases hcur : (s.addCapacity len).cur with _ | i
    · simp only [hcur, reduceCtorEq] at h
    · simp only [hcur] at h
      rcases hseg : ByteArray.segments ((s.addCapacity len).nodes.drop i) i
          ((s.addCapacity len).position % (s.addCapacity len).baseSize) len with _ | found
      · simp only [hseg, reduceCtorEq] at h
      · simp only [hseg, Outcome.ok.injEq, Prod.mk.injEq] at h
        rw [← h.1.1, ← h.1.2]
        exact segments_total _ _ _ _ _ hseg

end ByteArray

end YkServer
