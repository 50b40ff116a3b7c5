import YkServer.Theory.ByteArray.Reachable

/-!
# Reads at a Position

The `read` and the `getReadBuffers` that take a position are meant to answer about
that position, whatever the cursor is. Neither quite does.

`readAt` takes the offset in the node from the position and the node from the
cursor. Its bounds check is a subtraction of words, which a position past the data
turns into a huge number. So it is right where the cursor's node is the position's,
and otherwise by chance only: what it reads is the range at `start`, and `Lands`
says when those are the bytes asked for.

`getReadBuffersAt` does start at the node of the position, but cuts the length to
what is readable at the cursor. It is right where both cuts give the same length.

## Main definitions

* `start`: Where `readAt` reads.
* `PositionedRead`: What is expected of `readAt`.
* `Lands`: The bytes at `start` are the ones asked for.
* `PositionedBuffers`: What is expected of `getReadBuffersAt`.

## Theorems

* `copyOut_from`: The load loop from any node.
* `readAt_inside`, `readAt_beyond`: What `readAt` does.
* `readAt_iff`: When that is what is expected.
* `getReadBuffersAt_iff`: When `getReadBuffersAt` does what is expected.
-/

namespace YkServer

open Lib

namespace ByteArray

/-- Where `readAt` starts: the offset of the position in the node of the cursor. -/
def start (s : ByteArray) (position : Nat) : Nat :=
  s.position / s.baseSize * s.baseSize + position % s.baseSize

/-- What is expected of a read at a position: an exception when the range is not
    inside the data, and otherwise the bytes of the range and no other effect. -/
def PositionedRead (size position : Nat) (s : ByteArray) : Prop :=
  if position ≤ s.size ∧ size ≤ s.size - position then
    readAt size position s = .ok (((memory s).drop position).take size) s
  else readAt size position s = .throw (.outOfRange "not enough len") s

/-- The cursor has a node, the chain from it is long enough, and the bytes at
    `start` are the ones at the position. -/
structure Lands (size position : Nat) (s : ByteArray) : Prop where
  node : s.position < s.capacity
  room : s.start position + size ≤ s.capacity
  same : ((memory s).drop (s.start position)).take size =
    ((memory s).drop position).take size

/-- The condition under which a read at a position does what is expected. -/
def ReadSound (size position : Nat) (s : ByteArray) : Prop :=
  (position ≤ s.size → size ≤ s.size - position → Lands size position s) ∧
    (s.size < position → s.size + 2 ^ 64 < position + size)

/-- What is expected of the buffer list of a position: its length, its bytes, and
    that it stays inside the data. -/
def PositionedBuffers (len position : Nat) (s : ByteArray) : Prop :=
  ∃ iovs, getReadBuffersAt len position s = .ok (min len (s.size - position), iovs) s ∧
    gather s.nodes iovs = ((memory s).drop position).take (min len (s.size - position)) ∧
    ∀ v ∈ iovs, v.node * s.baseSize + v.off + v.len ≤ s.size

/-! ## The walk from a node -/

/-- The load loop from the node of an index reads the range of the memory, if there
    is enough of it. -/
theorem copyOut_from (s : ByteArray) (h : Inv s) (i npos size : Nat) (hi : i < s.nodes.length)
    (hnpos : npos < s.baseSize) (hsize : 0 < size) :
    (copyOut (s.nodes.drop i) npos size).map Prod.fst =
      if i * s.baseSize + npos + size ≤ s.capacity then
        some (((memory s).drop (i * s.baseSize + npos)).take size)
      else none := by
  have hlen : (s.nodes.drop i).length * s.baseSize = s.capacity - i * s.baseSize := by
    rw [List.length_drop, Nat.sub_mul, h.capacity_eq]
  have hle : i * s.baseSize ≤ s.capacity := by
    rw [h.capacity_eq]
    exact Nat.mul_le_mul_right _ (le_of_lt hi)
  by_cases hroom : i * s.baseSize + npos + size ≤ s.capacity
  · rw [if_pos hroom, copyOut_spec s.baseSize h.base_pos _ (h.node_size_drop i) npos hnpos size
      hsize (by omega), Option.map_some, flat_drop s.baseSize _ h.node_size i (le_of_lt hi),
      List.drop_drop, memory]
  · rw [if_neg hroom, copyOut_short s.baseSize _ (h.node_size_drop i) npos hnpos size hsize
      (by omega), Option.map_none]

/-! ## The read -/

/-- Inside the data the check passes, and the bytes at `start` are returned where
    there are any. -/
theorem readAt_inside (s : ByteArray) (h : Inv s) (size position : Nat) (hsize : 1 ≤ size)
    (hin : position + size ≤ s.size) :
    readAt size position s =
      if s.position < s.capacity ∧ s.start position + size ≤ s.capacity then
        .ok (((memory s).drop (s.start position)).take size) s
      else .fault := by
  have hcheck : ¬subWord s.size position < size := by
    rw [subWord, if_pos (by omega)]
    omega
  simp only [readAt]
  rw [if_neg hcheck]
  by_cases hcur : s.position < s.capacity
  · have hchain : s.chain = s.nodes.drop (s.position / s.baseSize) := by
      rw [chain, h.cur_some hcur]
    have hcopy := copyOut_from s h (s.position / s.baseSize) (position % s.baseSize) size
      (h.div_lt _ hcur) (Nat.mod_lt _ h.base_pos) hsize
    rw [← start] at hcopy
    rw [hchain]
    by_cases hroom : s.start position + size ≤ s.capacity
    · rw [if_pos hroom] at hcopy
      rw [if_pos ⟨hcur, hroom⟩]
      rcases Option.map_eq_some_iff.mp hcopy with ⟨⟨bs, k⟩, hrun, hbs⟩
      rw [hrun, ← hbs]
    · rw [if_neg hroom] at hcopy
      rw [if_neg (fun hc => hroom hc.2), Option.map_eq_none_iff.mp hcopy]
  -- The null pointer is followed in the first round.
  · have hchain : s.chain = [] := by
      rw [chain, h.cur_eq, if_neg hcur]
    rw [if_neg (fun hc => hcur hc.1), hchain]
    rfl

/-- Past the data the check borrows from `2 ^ 64`, and passes unless the range ends
    beyond that. -/
theorem readAt_beyond (s : ByteArray) (size position : Nat) (hword : position < 2 ^ 64)
    (hout : s.size < position) :
    readAt size position s = .throw (.outOfRange "not enough len") s ↔
      s.size + 2 ^ 64 < position + size := by
  have hsub : subWord s.size position = s.size + 2 ^ 64 - position := by
    rw [subWord, if_neg (by omega)]
  simp only [readAt]
  by_cases hcheck : subWord s.size position < size
  · rw [if_pos hcheck]
    refine ⟨fun _ => by omega, fun _ => rfl⟩
  · rw [if_neg hcheck]
    constructor
    · intro hrun
      -- The loop ends in a fault or returns, and never throws.
      rcases hcopy : copyOut s.chain (position % s.baseSize) size with _ | ⟨bs, k⟩
      · rw [hcopy] at hrun
        cases hrun
      · rw [hcopy] at hrun
        cases hrun
    · intro hwrap
      omega

/-- A read at a position does what is expected of it exactly where the range at
    `start` is the one asked for, and a position past the data is so far past it
    that the check wraps around to an exception. -/
theorem readAt_iff (baseSize : Nat) (heap : Nat → UInt8) (hb : 1 ≤ baseSize) (s : ByteArray)
    (hs : Reachable baseSize heap s) (size : Nat) (hsize : 1 ≤ size) (position : UInt64) :
    PositionedRead size position.toNat s ↔ ReadSound size position.toNat s := by
  have h := (reachable_held baseSize heap hb s hs).1
  have hword := position.toNat_lt
  set p := position.toNat with hp
  rw [PositionedRead, ReadSound]
  by_cases hle : p ≤ s.size
  · by_cases hin : size ≤ s.size - p
    · rw [if_pos ⟨hle, hin⟩, readAt_inside s h size p hsize (by omega)]
      constructor
      · intro hrun
        refine ⟨fun _ _ => ?_, fun hout => absurd hle (Nat.not_le.mpr hout)⟩
        by_cases hok : s.position < s.capacity ∧ s.start p + size ≤ s.capacity
        · rw [if_pos hok] at hrun
          simp only [Outcome.ok.injEq, and_true] at hrun
          exact ⟨hok.1, hok.2, hrun⟩
        · rw [if_neg hok] at hrun
          cases hrun
      · rintro ⟨hlands, -⟩
        have hl := hlands hle hin
        rw [if_pos ⟨hl.node, hl.room⟩, hl.same]
    -- Too many bytes are asked for, and the check is exact.
    · rw [if_neg (fun hc => hin hc.2)]
      have hcheck : subWord s.size p < size := by
        rw [subWord, if_pos hle]
        omega
      simp only [readAt, if_pos hcheck, true_iff]
      exact ⟨fun _ hc => absurd hc hin, fun hout => absurd hle (Nat.not_le.mpr hout)⟩
  · have hout := Nat.lt_of_not_le hle
    rw [if_neg (fun hc => hle hc.1), readAt_beyond s size p hword hout]
    exact ⟨fun hwrap => ⟨fun hc => absurd hc hle, fun _ => hwrap⟩, fun hc => hc.2 hout⟩

/-- The node of the cursor is the position's and the range is inside the data. -/
theorem readSound_of_same_node (s : ByteArray) (h : Inv s) (size position : Nat)
    (hsize : 1 ≤ size) (hin : position + size ≤ s.size)
    (hnode : s.position / s.baseSize = position / s.baseSize) : ReadSound size position s := by
  have hsc := h.size_le
  have hstart : s.start position = position := by
    rw [start, hnode, Nat.div_add_mod']
  have hcur : s.position < s.capacity := by
    have hlt := h.div_lt position (by omega)
    rw [← hnode, Nat.div_lt_iff_lt_mul h.base_pos, ← h.capacity_eq] at hlt
    exact hlt
  refine ⟨fun _ _ => ⟨hcur, by omega, by rw [hstart]⟩, fun hout => ?_⟩
  omega

/-- Four bytes in blocks of two, the cursor on the third. -/
def fourBytes : ByteArray :=
  { baseSize := 2, position := 2, capacity := 4, size := 4, endian := .big,
    nodes := [⟨[1, 2]⟩, ⟨[3, 4]⟩], cur := some 1, heap := fun _ => 0 }

theorem fourBytes_reachable : Reachable 2 (fun _ => 0) fourBytes :=
  Reachable.ok _ _ (.setPosition 2)
    (Reachable.ok _ _ (.write [1, 2, 3, 4]) Reachable.new rfl) rfl

/-- The fourth byte is in the cursor's node, and is read. -/
theorem readAt_iff_same_node : PositionedRead 1 3 fourBytes :=
  (readAt_iff 2 (fun _ => 0) (by decide) fourBytes fourBytes_reachable 1 (le_refl 1) 3).mpr
    (readSound_of_same_node fourBytes
      (reachable_held 2 (fun _ => 0) (by decide) _ fourBytes_reachable).1 1 3 (le_refl 1)
      (by decide) (by decide))

/-- A read at a position does not always do what is expected: with the cursor on the
    second node, the first byte is read as the third. -/
theorem readAt_from_cursor_node :
    ¬∀ (baseSize : Nat) (heap : Nat → UInt8), 1 ≤ baseSize → ∀ s, Reachable baseSize heap s →
      ∀ size, 1 ≤ size → ∀ position : UInt64, PositionedRead size position.toNat s := by
  intro hall
  have hread := hall 2 (fun _ => 0) (by decide) fourBytes fourBytes_reachable 1 (le_refl 1) 0
  have hgot : readAt 1 0 fourBytes = .ok [3] fourBytes := rfl
  have hwant : readAt 1 0 fourBytes = .ok [1] fourBytes := hread
  rw [hgot] at hwant
  simp only [Outcome.ok.injEq, List.cons.injEq, and_true] at hwant
  exact absurd hwant (by decide)

/-! ## The buffer list -/

/-- The two cuts of the length are the same. -/
theorem same_cut_iff (s : ByteArray) (h : Inv s) (len position : Nat) (hle : position ≤ s.size) :
    min len (s.size - s.position) = min len (s.size - position) ↔
      position = s.position ∨ len ≤ s.size - s.position ∧ len ≤ s.size - position := by
  have hps := h.position_le
  omega

/-- The length is cut to what is readable at the cursor, whatever the position. -/
theorem getReadBuffersAt_length (s s' : ByteArray) (len position n : Nat) (iovs : List Iovec)
    (hrun : getReadBuffersAt len position s = .ok (n, iovs) s') :
    n = min len (s.size - s.position) := by
  simp only [getReadBuffersAt] at hrun
  rw [cut_eq] at hrun
  by_cases hzero : min len (s.size - s.position) = 0
  · rw [if_pos hzero] at hrun
    simp only [Outcome.ok.injEq, Prod.mk.injEq] at hrun
    omega
  · rw [if_neg hzero] at hrun
    rcases hseg : segments (s.nodes.drop (position / s.baseSize)) (position / s.baseSize)
      (position % s.baseSize) (min len (s.size - s.position)) with _ | found
    · simp only [hseg, reduceCtorEq] at hrun
    · simp only [hseg, Outcome.ok.injEq, Prod.mk.injEq] at hrun
      exact hrun.1.1.symm

/-- A range inside the data has a list, which gathers the range and stays inside the
    data. -/
theorem getReadBuffersAt_inside (s : ByteArray) (h : Inv s) (len position : Nat)
    (hfit : position + min len (s.size - s.position) ≤ s.size) :
    ∃ iovs, getReadBuffersAt len position s = .ok (min len (s.size - s.position), iovs) s ∧
      gather s.nodes iovs =
        ((memory s).drop position).take (min len (s.size - s.position)) ∧
      ∀ v ∈ iovs, v.node * s.baseSize + v.off + v.len ≤ s.size := by
  have hsc := h.size_le
  simp only [getReadBuffersAt]
  rw [cut_eq]
  set n := min len (s.size - s.position) with hn
  by_cases hzero : n = 0
  · refine ⟨[], by rw [if_pos hzero, hzero], ?_, fun v hv => absurd hv List.not_mem_nil⟩
    rw [hzero, List.take_zero]
    rfl
  · have hidx := h.div_lt position (by omega)
    have hdm := Nat.div_add_mod' position s.baseSize
    have hmod := Nat.mod_lt position h.base_pos
    have hroom : position % s.baseSize + n
        ≤ (s.nodes.drop (position / s.baseSize)).length * s.baseSize := by
      rw [List.length_drop, Nat.sub_mul, ← h.capacity_eq]
      omega
    rcases segments_isSome s.baseSize h.base_pos _ (h.node_size_drop _) (position / s.baseSize) _
      hmod n (by omega) hroom with ⟨iovs, hiovs⟩
    refine ⟨iovs, by rw [if_neg hzero, hiovs], ?_, fun v hv => ?_⟩
    · have hpre : (s.nodes.take (position / s.baseSize)).length = position / s.baseSize := by
        rw [List.length_take]
        omega
      have hgather := gather_segments s.baseSize (s.nodes.take (position / s.baseSize)) _
        (h.node_size_drop _) _ hmod n iovs (by rw [hpre]; exact hiovs)
      rw [List.take_append_drop, flat_drop s.baseSize _ h.node_size _ (le_of_lt hidx),
        List.drop_drop, hdm] at hgather
      exact hgather
    · have hinside := segments_inside s.baseSize _ (h.node_size_drop _) _ _ hmod n iovs hiovs v hv
      omega

/-- The buffer list of a position is what is expected of it exactly where the
    position is the cursor's or the length asked for can be read at both. -/
theorem getReadBuffersAt_iff (baseSize : Nat) (heap : Nat → UInt8) (hb : 1 ≤ baseSize)
    (s : ByteArray) (hs : Reachable baseSize heap s) (len position : Nat)
    (hle : position ≤ s.size) :
    PositionedBuffers len position s ↔
      position = s.position ∨ len ≤ s.size - s.position ∧ len ≤ s.size - position := by
  have h := (reachable_held baseSize heap hb s hs).1
  rw [← same_cut_iff s h len position hle]
  constructor
  · rintro ⟨iovs, hrun, -, -⟩
    exact (getReadBuffersAt_length s s len position _ iovs hrun).symm
  · intro hsame
    rcases getReadBuffersAt_inside s h len position (by omega) with ⟨iovs, hrun, hbytes, hin⟩
    rw [hsame] at hrun hbytes
    exact ⟨iovs, hrun, hbytes, hin⟩

/-- Two bytes from the first one, with as many left at the cursor. -/
theorem getReadBuffersAt_iff_both : PositionedBuffers 2 0 fourBytes :=
  (getReadBuffersAt_iff 2 (fun _ => 0) (by decide) fourBytes fourBytes_reachable 2 0
    (by decide)).mpr (Or.inr (by decide))

/-- Three bytes in blocks of two, the cursor at the start. -/
def threeBytes : ByteArray :=
  { baseSize := 2, position := 0, capacity := 4, size := 3, endian := .big,
    nodes := [⟨[1, 2]⟩, ⟨[3, 0]⟩], cur := some 0, heap := fun _ => 0 }

theorem threeBytes_reachable : Reachable 2 (fun _ => 0) threeBytes :=
  Reachable.ok _ _ (.setPosition 0)
    (Reachable.ok _ _ (.write [1, 2, 3]) Reachable.new rfl) rfl

/-- The buffer list of a position is not always what is expected: three bytes are
    readable at the cursor, and from the third one on they run off the chain. -/
theorem getReadBuffersAt_off_chain :
    ¬∀ (baseSize : Nat) (heap : Nat → UInt8), 1 ≤ baseSize → ∀ s, Reachable baseSize heap s →
      ∀ len position, position ≤ s.size → PositionedBuffers len position s := by
  intro hall
  rcases hall 2 (fun _ => 0) (by decide) threeBytes threeBytes_reachable 3 2 (by decide) with
    ⟨iovs, hrun, -, -⟩
  have hfault : getReadBuffersAt 3 2 threeBytes = .fault := rfl
  rw [hfault] at hrun
  cases hrun

end ByteArray

end YkServer
