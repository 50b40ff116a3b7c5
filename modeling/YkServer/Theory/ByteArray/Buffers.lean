import Mathlib.Data.List.Nodup
import YkServer.Theory.ByteArray.Invariant

/-!
# Scatter and Gather Lists

The path without a copy against the path with one.

A gather list has the readable bytes, and making it changes nothing. A scatter list
has the memory behind the cursor, each cell of it once and in order, and making it
only grows the chain. A socket that fills the front of a scatter list, and a seek
behind what it filled, leave what a write of the same bytes leaves. The two states
differ in the memory behind: a scatter list was asked for all the bytes the socket
could bring, a write only for those that came, and the chain of the write is the front
of the other one.

## Main definitions

* `Iovec.cells`: The places in memory a segment has.
* `Gathers`: What a gather list should be.
* `Scatters`: What a scatter list should be.

## Theorems

* `segments_cells`: A list has every cell of its range, in order.
* `addCapacity_prefix`: Growing by less gives the front of growing by more.
* `write_grown`: A write as one into the grown chain.
* `buffers_spec`: Both lists from every state with the invariant.
-/

namespace YkServer

open Lib

/-- The places in memory a segment has, with `b` bytes a node. -/
def Iovec.cells (b : Nat) (v : Iovec) : List Nat := List.range' (v.node * b + v.off) v.len

namespace ByteArray

/-- A gather list has the stored bytes at the cursor, at most `len`, and making it
    changes nothing. -/
def Gathers (s : ByteArray) (len : Nat) : Prop :=
  ∃ iovs, getReadBuffers len s = .ok (min len (s.size - s.position), iovs) s
    ∧ gather s.nodes iovs = ((memory s).drop s.position).take (min len (s.size - s.position))

/-- The same state up to memory behind the chain of the second. -/
structure SameUpToSpare (t u : ByteArray) : Prop where
  position : t.position = u.position
  size : t.size = u.size
  baseSize : t.baseSize = u.baseSize
  endian : t.endian = u.endian
  memory : ∃ spare, ByteArray.memory t = ByteArray.memory u ++ spare
  inv : Inv t ∧ Inv u

/-- A scatter list has the memory of the next `len` bytes, each place once, and
    making it only adds memory. Filling the front of it and seeking behind is
    writing. -/
def Scatters (s : ByteArray) (len : Nat) : Prop :=
  ∃ s' tail iovs, getWriteBuffers len s = .ok (len, iovs) s'
    ∧ memory s' = memory s ++ tail ∧ s'.position = s.position ∧ s'.size = s.size
    ∧ (∀ v ∈ iovs, v.node < s'.nodes.length ∧ v.off + v.len ≤ s'.baseSize)
    ∧ iovs.Pairwise (fun v w => List.Disjoint (v.cells s'.baseSize) (w.cells s'.baseSize))
    ∧ iovs.flatMap (Iovec.cells s'.baseSize) = List.range' s.position len
    ∧ ∀ data, data.length ≤ len →
      ∃ t u, setPosition (s.position + data.length)
          { s' with nodes := scatter iovs data s'.nodes } = .ok () t
        ∧ write data s = .ok () u ∧ SameUpToSpare t u

/-! ## Cells -/

/-- A list has every cell of its range, in order. -/
theorem segments_cells (b : Nat) (ns : List Node) (hns : ∀ n ∈ ns, n.size = b) (i npos : Nat)
    (hnpos : npos < b) (len : Nat) (iovs : List Iovec)
    (hseg : segments ns i npos len = some iovs) :
    iovs.flatMap (Iovec.cells b) = List.range' (i * b + npos) len
      ∧ ∀ v ∈ iovs, v.node < i + ns.length ∧ v.off + v.len ≤ b := by
  induction ns generalizing i npos len iovs with
  | nil => simp only [segments, reduceCtorEq] at hseg
  | cons n rest ih =>
      have hn : n.size = b := hns n List.mem_cons_self
      have hrest : ∀ m ∈ rest, m.size = b := fun m hm => hns m (List.mem_cons_of_mem n hm)
      rcases segments_cases n rest i npos len iovs hseg with ⟨hin, rfl⟩ | ⟨hle, tl, htail, rfl⟩
      · refine ⟨?_, fun v hv => ?_⟩
        · rw [List.flatMap_singleton, Iovec.cells]
        · rw [List.mem_singleton] at hv
          rw [hv, List.length_cons]
          simp only []
          exact ⟨by omega, by omega⟩
      · rcases ih hrest (i + 1) 0 (by omega) _ tl htail with ⟨hcells, hbounds⟩
        refine ⟨?_, fun v hv => ?_⟩
        -- The rest starts where the first segment ends, at the next node.
        · have hstart : (i + 1) * b + 0 = i * b + npos + (n.size - npos) := by
            rw [Nat.add_mul, Nat.one_mul]
            omega
          have hlen : n.size - npos + (len - (n.size - npos)) = len := by omega
          rw [List.flatMap_cons, hcells, hstart, Iovec.cells, List.range'_append_1, hlen]
        · rw [List.length_cons]
          rcases List.mem_cons.mp hv with rfl | hv
          · simp only []
            exact ⟨by omega, by omega⟩
          · have hv' := hbounds v hv
            exact ⟨by omega, hv'.2⟩

/-- Cells that follow each other are not shared. -/
theorem pairwise_cells (b start len : Nat) (iovs : List Iovec)
    (h : iovs.flatMap (Iovec.cells b) = List.range' start len) :
    iovs.Pairwise (fun v w => List.Disjoint (v.cells b) (w.cells b)) := by
  have hnodup : (iovs.flatMap (Iovec.cells b)).Nodup := by
    rw [h]
    exact List.nodup_range'
  exact (List.nodup_flatMap.1 hnodup).2

/-! ## Growing -/

theorem appendNodes_add (m n : Nat) (s : ByteArray) :
    appendNodes (m + n) s = appendNodes n (appendNodes m s) := by
  induction m generalizing s with
  | zero => rw [Nat.zero_add, appendNodes]
  | succ m ih => rw [Nat.succ_add, appendNodes, ih, appendNodes]

/-- Growing changes the memory as the allocation loop does. -/
theorem memory_addCapacity (s : ByteArray) (size : Nat) (hsize : s.getCapacity < size) :
    memory (s.addCapacity size)
      = memory (appendNodes ((size - s.getCapacity + s.baseSize - 1) / s.baseSize) s) := by
  simp only [addCapacity, if_neg (by omega : ¬ size = 0), if_neg (by omega : ¬ size ≤ s.getCapacity)]
  split
  · rfl
  · rfl

/-- Growing by less gives the front of growing by more. -/
theorem addCapacity_prefix (s : ByteArray) (h : Inv s) (k len : Nat) (hk : 0 < k)
    (hle : k ≤ len) : ∃ spare, memory (s.addCapacity len) = memory (s.addCapacity k) ++ spare := by
  by_cases hroom : k ≤ s.getCapacity
  · have hsame : s.addCapacity k = s := by
      simp only [addCapacity, if_neg (by omega : ¬ k = 0), if_pos hroom]
    rcases addCapacity_spec s h len (by omega) with ⟨tail, -, hmem, -⟩
    exact ⟨tail, by rw [hsame, hmem]⟩
  · have hcount : (k - s.getCapacity + s.baseSize - 1) / s.baseSize
        ≤ (len - s.getCapacity + s.baseSize - 1) / s.baseSize :=
      Nat.div_le_div_right (by omega)
    rcases Nat.exists_eq_add_of_le hcount with ⟨more, hmore⟩
    rcases appendNodes_spec more
      (appendNodes ((k - s.getCapacity + s.baseSize - 1) / s.baseSize) s) with
      ⟨ns, heap, hrun, -, -⟩
    refine ⟨flat ns, ?_⟩
    rw [memory_addCapacity s len (by omega), memory_addCapacity s k (by omega), hmore,
      appendNodes_add, hrun, memory, flat_append, memory]

/-- A write as one into the grown chain. -/
theorem write_grown (s : ByteArray) (h : Inv s) (data : List UInt8) (hdata : data ≠ []) :
    ∃ u, write data s = .ok () u ∧ Inv u
      ∧ memory u = overwrite (memory (s.addCapacity data.length)) s.position data
      ∧ u.position = s.position + data.length
      ∧ u.size = max s.size (s.position + data.length)
      ∧ u.baseSize = s.baseSize ∧ u.endian = s.endian := by
  have hlen : 0 < data.length := List.length_pos_of_ne_nil hdata
  rcases addCapacity_spec s h data.length hlen with
    ⟨_, hinv, -, hpos, hsize, hbase, hend, -, hfit⟩
  have hroom : data.length ≤ (s.addCapacity data.length).getCapacity := by
    rw [getCapacity]
    omega
  -- The chain is long enough for a second write to grow nothing.
  have hagain : (s.addCapacity data.length).addCapacity data.length
      = s.addCapacity data.length := by
    rw [addCapacity, if_neg (by omega)]
    simp only []
    rw [if_pos hroom]
  have hsame : write data s = write data (s.addCapacity data.length) := by
    rw [write, write, if_neg (by omega), if_neg (by omega), hagain]
  rcases write_spec (s.addCapacity data.length) hinv data hdata with
    ⟨u, tail, hrun, hinvu, hmem, hposu, hsizeu, hbaseu, hendu, hcapu, htotal⟩
  have htail : tail = [] := by
    rw [hcapu, grownCapacity, if_pos hroom, ← hinv.length_memory, List.length_append] at htotal
    exact List.eq_nil_of_length_eq_zero (by omega)
  refine ⟨u, by rw [hsame, hrun], hinvu, ?_, by omega, by omega, by rw [hbaseu, hbase],
    by rw [hendu, hend]⟩
  rw [hmem, htail, List.append_nil, hpos]

/-! ## The lists -/

theorem gathers (s : ByteArray) (h : Inv s) (len : Nat) : Gathers s len := by
  have hps := h.position_le
  by_cases hempty : min len (s.size - s.position) = 0
  · -- There is nothing to read, or nothing was asked for.
    refine ⟨[], ?_, ?_⟩
    · rw [getReadBuffers, cut_eq, hempty]
      rfl
    · rw [hempty, List.take_zero, gather]
  · exact getReadBuffers_spec s h len (by omega) (by omega)

/-- The state and the list behind `getWriteBuffers`. -/
theorem getWriteBuffers_eq (s s' : ByteArray) (h : Inv s) (len : Nat) (hlen : 0 < len)
    (iovs : List Iovec) (hrun : getWriteBuffers len s = .ok (len, iovs) s') :
    s' = s.addCapacity len
      ∧ segments (s'.nodes.drop (s'.position / s'.baseSize)) (s'.position / s'.baseSize)
          (s'.position % s'.baseSize) len = some iovs := by
  rcases addCapacity_spec s h len hlen with ⟨_, hinv, -, hpos, -, -, -, -, hfit⟩
  have hcur := hinv.cur_some (by omega)
  rw [getWriteBuffers, if_neg (by omega)] at hrun
  simp only [hcur] at hrun
  rcases hseg : segments ((s.addCapacity len).nodes.drop
      ((s.addCapacity len).position / (s.addCapacity len).baseSize))
      ((s.addCapacity len).position / (s.addCapacity len).baseSize)
      ((s.addCapacity len).position % (s.addCapacity len).baseSize) len with _ | found
  · simp only [hseg, reduceCtorEq] at hrun
  · simp only [hseg, Outcome.ok.injEq, Prod.mk.injEq, true_and] at hrun
    rw [← hrun.1, ← hrun.2]
    exact ⟨rfl, hseg⟩

/-- Filling the front of the memory at the cursor and seeking behind it is writing. -/
theorem fill_eq_write (s s' t₀ : ByteArray) (h : Inv s) (len : Nat) (hlen : 0 < len)
    (hgrown : s' = s.addCapacity len) (data : List UInt8) (hdata : data.length ≤ len)
    (hinv₀ : Inv t₀) (hmem₀ : memory t₀ = overwrite (memory s') s.position data)
    (hsize₀ : t₀.size = s.size) (hbase₀ : t₀.baseSize = s.baseSize)
    (hend₀ : t₀.endian = s.endian) (hcap₀ : s.position + len ≤ t₀.capacity) :
    ∃ t u, setPosition (s.position + data.length) t₀ = .ok () t
      ∧ write data s = .ok () u ∧ SameUpToSpare t u := by
  have hps := h.position_le
  have hsc := h.size_le
  rcases setPosition_spec t₀ hinv₀ (s.position + data.length) (by omega) with
    ⟨t, hseek, hinv, hmem, hpos, hsize, hbase, hend, -⟩
  by_cases hnil : data = []
  · subst hnil
    rcases addCapacity_spec s h len hlen with ⟨tail, -, hmemg, -⟩
    refine ⟨t, s, hseek, write_nil s, hpos, ?_, hbase.trans hbase₀, hend.trans hend₀,
      ⟨tail, ?_⟩, hinv, h⟩
    · rw [hsize, hsize₀, List.length_nil]
      omega
    · rw [hmem, hmem₀, overwrite_nil, hgrown, hmemg]
  · rcases write_grown s h data hnil with ⟨u, hwrite, hinvu, hmemu, hposu, hsizeu, hbaseu, hendu⟩
    have hpos' : 0 < data.length := List.length_pos_of_ne_nil hnil
    rcases addCapacity_prefix s h data.length len hpos' hdata with ⟨spare, hspare⟩
    rcases addCapacity_spec s h data.length hpos' with ⟨_, hinvg, -, -, -, -, -, -, hfit⟩
    refine ⟨t, u, hseek, hwrite, hpos.trans hposu.symm, ?_, ?_, ?_, ⟨spare, ?_⟩, hinv, hinvu⟩
    · rw [hsize, hsize₀, hsizeu]
    · rw [hbase, hbase₀, hbaseu]
    · rw [hend, hend₀, hendu]
    · -- The bytes go into the part of the chain that both have.
      rw [hmem, hmem₀, hmemu, hgrown, hspare,
        overwrite_append_left _ _ _ _ (by rw [hinvg.length_memory]; exact hfit)]

theorem scatters (s : ByteArray) (h : Inv s) (len : Nat) (hlen : 1 ≤ len) : Scatters s len := by
  rcases getWriteBuffers_spec s h len hlen with
    ⟨s', tail, iovs, hrun, hinv, hmem, hpos, hsize, hbase, hend, -, hfit, hfill⟩
  rcases getWriteBuffers_eq s s' h len hlen iovs hrun with ⟨hgrown, hseg⟩
  have hidx := hinv.div_lt s'.position (by omega)
  rcases segments_cells s'.baseSize _ (hinv.node_size_drop _) _ _
    (Nat.mod_lt _ hinv.base_pos) len iovs hseg with ⟨hcells, hbounds⟩
  rw [Nat.div_add_mod', hpos] at hcells
  refine ⟨s', tail, iovs, hrun, hmem, hpos, hsize, fun v hv => ?_,
    pairwise_cells _ _ _ _ hcells, hcells, fun data hdata => ?_⟩
  · have hv' := hbounds v hv
    rw [List.length_drop] at hv'
    exact ⟨by omega, hv'.2⟩
  · rcases hfill data hdata with ⟨hinv₀, hflat⟩
    exact fill_eq_write s s' _ h len hlen hgrown data hdata hinv₀ hflat hsize hbase hend hfit

/-- Both lists, from every state with the invariant. -/
theorem buffers_spec (s : ByteArray) (h : Inv s) :
    (∀ len, Gathers s len) ∧ ∀ len, 1 ≤ len → Scatters s len :=
  ⟨gathers s h, scatters s h⟩

/-- Three bytes over two nodes, with the cursor behind the first. -/
def threeStored : ByteArray :=
  ⟨2, 1, 4, 3, .big, [⟨[1, 2]⟩, ⟨[3, 0]⟩], some 0, fun _ => 0⟩

theorem inv_threeStored : Inv threeStored :=
  ⟨by decide, by decide, by decide, by decide, by decide, by decide, rfl⟩

/-- What is read behind the cursor, and what is filled and what is written there. -/
theorem buffers_spec_three :
    (∃ iovs, getReadBuffers 5 threeStored = .ok (2, iovs) threeStored
        ∧ gather threeStored.nodes iovs = [2, 3])
      ∧ ∃ s' iovs t, getWriteBuffers 3 threeStored = .ok (3, iovs) s'
        ∧ iovs.flatMap (Iovec.cells s'.baseSize) = [1, 2, 3]
        ∧ setPosition 3 { s' with nodes := scatter iovs [8, 9] s'.nodes } = .ok () t
        ∧ t.position = 3 ∧ ∃ spare, memory t = [1, 8, 9, 0] ++ spare := by
  have hall := buffers_spec threeStored inv_threeStored
  rcases hall.1 5 with ⟨iovs, hread, hgather⟩
  rcases hall.2 3 (by decide) with ⟨s', tail, iovs', hroom, -, -, -, -, -, hcells, hfill⟩
  rcases hfill [8, 9] (by decide) with ⟨t, u, hset, hwrite, hsame⟩
  have hplain : write [8, 9] threeStored =
      .ok () ⟨2, 3, 4, 3, .big, [⟨[1, 8]⟩, ⟨[9, 0]⟩], some 1, fun _ => 0⟩ := rfl
  rw [hplain, Outcome.ok.injEq] at hwrite
  rw [← hwrite.2] at hsame
  exact ⟨⟨iovs, hread, hgather⟩, s', iovs', t, hroom, hcells, hset, hsame.position, hsame.memory⟩

end ByteArray

end YkServer
