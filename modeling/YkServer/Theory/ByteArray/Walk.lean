import YkServer.Core.ByteArray

/-!
# Walking the Node Chain

What each loop of the byte array computes, in terms of the flat memory that the
nodes laid end to end make up.

All four loops, the two copies, the seek and the buffer lists, walk along the
chain with an offset that is only non-zero in the first node. Their
specifications have one shape: as long as the range lies inside the chain, the
walk does not run off its end, what it touches is the range of the flat memory,
and the number of links it follows is the range's end divided by the node size.
That last fact is the whole of the cursor arithmetic. A walk that ends exactly
at a node boundary has followed one link more than the node it ended in, and
the quotient counts it.

## Main definitions

* `flat`: The memory of a chain.

## Theorems

* `copyIn_spec`: The store loop overwrites the range.
* `copyOut_spec`: The load loop returns the range.
* `seek_spec`: The seek follows `v / b` links.
* `segments_isSome`: The list loop stays inside the chain.
* `copyOut_short`: The load loop on a chain that is too short.
* `segments_inside`: The list stays inside the range.
* `segments_total`: How much a scatter or gather list covers.
* `gather_segments`, `scatter_segments`: What a scatter or gather list covers.
-/

namespace YkServer

open Lib

namespace ByteArray

/-- The nodes laid end to end. -/
def flat (ns : List Node) : List UInt8 := (ns.map Node.ptr).flatten

theorem flat_nil : flat [] = [] := rfl

theorem flat_cons (n : Node) (ns : List Node) : flat (n :: ns) = n.ptr ++ flat ns := by
  simp only [flat, List.map_cons, List.flatten_cons]

theorem flat_append (ns ms : List Node) : flat (ns ++ ms) = flat ns ++ flat ms := by
  simp only [flat, List.map_append, List.flatten_append]

theorem length_flat (b : Nat) (ns : List Node) (h : ∀ n ∈ ns, n.size = b) :
    (flat ns).length = ns.length * b := by
  rw [flat, length_flatten_blocks b, List.length_map]
  intro x hx
  rcases List.mem_map.mp hx with ⟨n, hn, hnx⟩
  rw [← hnx]
  exact h n hn

theorem flat_drop (b : Nat) (ns : List Node) (h : ∀ n ∈ ns, n.size = b) (i : Nat)
    (hi : i ≤ ns.length) : flat (ns.drop i) = (flat ns).drop (i * b) := by
  rw [flat, List.map_drop, drop_flatten_blocks b _ _ i (by rw [List.length_map]; exact hi), flat]
  intro x hx
  rcases List.mem_map.mp hx with ⟨n, hn, hnx⟩
  rw [← hnx]
  exact h n hn

/-- The number of links followed when the range ends in the first node. -/
theorem links_within (b e : Nat) (hb : 0 < b) (he : e ≤ b) :
    (if b = e then 1 else 0) = e / b := by
  by_cases heq : b = e
  · rw [if_pos heq, ← heq, Nat.div_self hb]
  · rw [if_neg heq, Nat.div_eq_of_lt (by omega)]

/-- The number of links followed when the range goes on into the next node. -/
theorem links_beyond (b npos len : Nat) (hb : 0 < b) (hnpos : npos < b) (hlen : b - npos < len) :
    (0 + (len - (b - npos))) / b + 1 = (npos + len) / b := by
  have hsplit : npos + len = 0 + (len - (b - npos)) + b := by omega
  rw [hsplit, Nat.add_div_right _ hb]

/-- The store loop overwrites the range, keeps the shape of the chain and
    follows as many links as the range's end is nodes away. -/
theorem copyIn_spec (b : Nat) (hb : 0 < b) (ns : List Node) (hns : ∀ n ∈ ns, n.size = b)
    (npos : Nat) (hnpos : npos < b) (buf : List UInt8) (hbuf : buf ≠ [])
    (hfit : npos + buf.length ≤ ns.length * b) :
    ∃ ns', copyIn ns npos buf = some (ns', (npos + buf.length) / b) ∧
      ns'.length = ns.length ∧ (∀ n ∈ ns', n.size = b) ∧
      flat ns' = overwrite (flat ns) npos buf := by
  induction ns generalizing npos buf with
  | nil =>
      -- An empty chain has no room for the first byte.
      have hlen : 0 < buf.length := List.length_pos_of_ne_nil hbuf
      simp only [List.length_nil, Nat.zero_mul] at hfit
      omega
  | cons n rest ih =>
      have hn : n.size = b := hns n List.mem_cons_self
      have hptr : n.ptr.length = b := hn
      have hrest : ∀ m ∈ rest, m.size = b := fun m hm => hns m (List.mem_cons_of_mem n hm)
      by_cases hin : buf.length ≤ n.size - npos
      -- The range ends in the first node; the chain behind it is not touched.
      · refine ⟨⟨overwrite n.ptr npos buf⟩ :: rest, ?_, rfl, ?_, ?_⟩
        · rw [copyIn, if_pos hin, hn, links_within b _ hb (by omega)]
        · intro m hm
          rcases List.mem_cons.mp hm with rfl | hm
          · rw [Node.size, length_overwrite _ _ _ (by omega), hptr]
          · exact hrest m hm
        · rw [flat_cons, flat_cons, overwrite_append_left _ _ _ _ (by omega)]
      · -- The node is filled up and the rest of the bytes go into the chain behind it.
        have hdrop : buf.drop (n.size - npos) ≠ [] := by
          intro hnil
          have hzero := congrArg List.length hnil
          simp only [List.length_drop, List.length_nil] at hzero
          omega
        have hfit' : 0 + (buf.drop (n.size - npos)).length ≤ rest.length * b := by
          simp only [List.length_cons, Nat.add_mul, Nat.one_mul] at hfit
          rw [List.length_drop]
          omega
        rcases ih hrest 0 hb (buf.drop (n.size - npos)) hdrop hfit' with
          ⟨rest', hcopy, hlen', hsize', hflat'⟩
        have htake : (buf.take (n.size - npos)).length = b - npos := by
          rw [List.length_take]
          omega
        refine ⟨⟨overwrite n.ptr npos (buf.take (n.size - npos))⟩ :: rest', ?_, ?_, ?_, ?_⟩
        · rw [copyIn, if_neg hin, hcopy, List.length_drop, hn]
          simp only []
          rw [links_beyond b npos buf.length hb hnpos (by omega)]
        · rw [List.length_cons, List.length_cons, hlen']
        · intro m hm
          rcases List.mem_cons.mp hm with rfl | hm
          · rw [Node.size, length_overwrite _ _ _ (by omega), hptr]
          · exact hsize' m hm
        -- The two stores meet at the end of the first node and are one store.
        · rw [flat_cons, flat_cons, hflat', ← overwrite_across _ _ _ _ _ (by omega),
            List.take_append_drop]

/-- The load loop returns the range. -/
theorem copyOut_spec (b : Nat) (hb : 0 < b) (ns : List Node) (hns : ∀ n ∈ ns, n.size = b)
    (npos : Nat) (hnpos : npos < b) (size : Nat) (hsize : 0 < size)
    (hfit : npos + size ≤ ns.length * b) :
    copyOut ns npos size = some (((flat ns).drop npos).take size, (npos + size) / b) := by
  induction ns generalizing npos size with
  | nil =>
      simp only [List.length_nil, Nat.zero_mul] at hfit
      omega
  | cons n rest ih =>
      have hn : n.size = b := hns n List.mem_cons_self
      have hptr : n.ptr.length = b := hn
      have hrest : ∀ m ∈ rest, m.size = b := fun m hm => hns m (List.mem_cons_of_mem n hm)
      have hdrop : (flat (n :: rest)).drop npos = n.ptr.drop npos ++ flat rest := by
        rw [flat_cons, List.drop_append_of_le_length (by omega)]
      have hlen : (n.ptr.drop npos).length = b - npos := by
        rw [List.length_drop, hptr]
      by_cases hin : size ≤ n.size - npos
      -- The range is inside the first node, so what follows it does not matter.
      · rw [copyOut, if_neg (by omega), if_pos hin, hn, links_within b _ hb (by omega), hdrop,
          List.take_append_of_le_length (by omega)]
      -- The tail of the first node is followed by the front of the rest.
      · have hfit' : 0 + (size - (n.size - npos)) ≤ rest.length * b := by
          simp only [List.length_cons, Nat.add_mul, Nat.one_mul] at hfit
          omega
        have hcopy := ih hrest 0 hb (size - (n.size - npos)) (by omega) hfit'
        rw [copyOut, if_neg (by omega), if_neg hin, hcopy]
        simp only []
        rw [hn, links_beyond b npos size hb hnpos (by omega), hdrop, List.drop_zero,
          List.take_append, List.take_of_length_le (by omega : (n.ptr.drop npos).length ≤ size),
          List.take_of_length_le (by omega : (n.ptr.drop npos).length ≤ b - npos), hlen]

/-- On a chain that is too short for the range the load loop runs off the end. -/
theorem copyOut_short (b : Nat) (ns : List Node) (hns : ∀ n ∈ ns, n.size = b) (npos : Nat)
    (hnpos : npos < b) (size : Nat) (hsize : 0 < size) (hshort : ns.length * b < npos + size) :
    copyOut ns npos size = none := by
  induction ns generalizing npos size with
  | nil => rfl
  | cons n rest ih =>
      have hn : n.size = b := hns n List.mem_cons_self
      have hrest : ∀ m ∈ rest, m.size = b := fun m hm => hns m (List.mem_cons_of_mem n hm)
      simp only [List.length_cons, Nat.add_mul, Nat.one_mul] at hshort
      have hin : ¬size ≤ n.size - npos := by omega
      -- What is left after the first node does not fit in the rest either.
      have hrec := ih hrest 0 (by omega) (size - (n.size - npos)) (by omega) (by omega)
      rw [copyOut, if_neg (by omega), if_neg hin, hrec]

/-- The seek follows `v / b` links, one more than the last node it looked at
    when `v` is a node boundary. -/
theorem seek_spec (b : Nat) (hb : 0 < b) (ns : List Node) (hns : ∀ n ∈ ns, n.size = b)
    (hne : ns ≠ []) (v : Nat) (hv : v ≤ ns.length * b) : seek ns v = some (v / b) := by
  induction ns generalizing v with
  | nil => exact absurd rfl hne
  | cons n rest ih =>
      have hn : n.size = b := hns n List.mem_cons_self
      have hrest : ∀ m ∈ rest, m.size = b := fun m hm => hns m (List.mem_cons_of_mem n hm)
      by_cases hlt : n.size < v
      -- The walk goes on with what is left of `v`, which the rest of the chain still holds.
      · have hv' : v - b ≤ rest.length * b := by
          simp only [List.length_cons, Nat.add_mul, Nat.one_mul] at hv
          omega
        have hne' : rest ≠ [] := by
          intro hnil
          rw [hnil, List.length_nil, Nat.zero_mul] at hv'
          omega
        rw [seek, if_pos hlt, hn, ih hrest hne' (v - b) hv']
        simp only [Option.some.injEq]
        rw [← Nat.add_div_right _ hb, Nat.sub_add_cancel (by omega)]
      · rw [seek, if_neg hlt, hn]
        simp only [Option.some.injEq]
        rw [← links_within b v hb (by omega)]
        simp only [eq_comm]

/-! ## Scatter and gather lists -/

/-- The list loop stays inside a chain that is long enough. -/
theorem segments_isSome (b : Nat) (hb : 0 < b) (ns : List Node) (hns : ∀ n ∈ ns, n.size = b)
    (i npos : Nat) (hnpos : npos < b) (len : Nat) (hlen : 0 < len)
    (hfit : npos + len ≤ ns.length * b) : ∃ iovs, segments ns i npos len = some iovs := by
  induction ns generalizing i npos len with
  | nil =>
      simp only [List.length_nil, Nat.zero_mul] at hfit
      omega
  | cons n rest ih =>
      have hn : n.size = b := hns n List.mem_cons_self
      have hrest : ∀ m ∈ rest, m.size = b := fun m hm => hns m (List.mem_cons_of_mem n hm)
      by_cases hin : len ≤ n.size - npos
      · exact ⟨_, by rw [segments, if_pos hin]⟩
      · simp only [List.length_cons, Nat.add_mul, Nat.one_mul] at hfit
        rcases ih hrest (i + 1) 0 hb (len - (n.size - npos)) (by omega) (by omega) with
          ⟨iovs, hiovs⟩
        exact ⟨⟨i, npos, n.size - npos⟩ :: iovs, by rw [segments, if_neg hin, hiovs]⟩

/-- The list is one segment, or one up to the end of the node and those of the rest. -/
theorem segments_cases (n : Node) (rest : List Node) (i npos len : Nat) (iovs : List Iovec)
    (hseg : segments (n :: rest) i npos len = some iovs) :
    (len ≤ n.size - npos ∧ iovs = [⟨i, npos, len⟩]) ∨
      (n.size - npos ≤ len ∧ ∃ tl, segments rest (i + 1) 0 (len - (n.size - npos)) = some tl ∧
        iovs = ⟨i, npos, n.size - npos⟩ :: tl) := by
  rw [segments] at hseg
  by_cases hin : len ≤ n.size - npos
  · rw [if_pos hin, Option.some.injEq] at hseg
    exact Or.inl ⟨hin, hseg.symm⟩
  · rw [if_neg hin] at hseg
    rcases htail : segments rest (i + 1) 0 (len - (n.size - npos)) with _ | tl
    · simp only [htail, reduceCtorEq] at hseg
    · simp only [htail, Option.some.injEq] at hseg
      exact Or.inr ⟨Nat.le_of_not_le hin, tl, rfl, hseg.symm⟩

/-- The segments of a list are as long as asked for, together. -/
theorem segments_total (ns : List Node) (i npos len : Nat) (iovs : List Iovec)
    (hseg : segments ns i npos len = some iovs) : (iovs.map Iovec.len).sum = len := by
  induction ns generalizing i npos len iovs with
  | nil => simp only [segments, reduceCtorEq] at hseg
  | cons n rest ih =>
      rcases segments_cases n rest i npos len iovs hseg with ⟨-, rfl⟩ | ⟨hle, tl, htail, rfl⟩
      · rfl
      -- The rest of the list accounts for what the first segment leaves.
      · rw [List.map_cons, List.sum_cons, ih _ _ _ tl htail]
        exact Nat.add_sub_cancel' hle

/-- Every segment of a list lies inside the range, counted from the start of the
    memory. -/
theorem segments_inside (b : Nat) (ns : List Node) (hns : ∀ n ∈ ns, n.size = b) (i npos : Nat)
    (hnpos : npos < b) (len : Nat) (iovs : List Iovec)
    (hseg : segments ns i npos len = some iovs) (v : Iovec) (hv : v ∈ iovs) :
    i * b + npos ≤ v.node * b + v.off ∧ v.node * b + v.off + v.len ≤ i * b + npos + len := by
  induction ns generalizing i npos len iovs with
  | nil => simp only [segments, reduceCtorEq] at hseg
  | cons n rest ih =>
      have hn : n.size = b := hns n List.mem_cons_self
      have hrest : ∀ m ∈ rest, m.size = b := fun m hm => hns m (List.mem_cons_of_mem n hm)
      rcases segments_cases n rest i npos len iovs hseg with ⟨-, rfl⟩ | ⟨hle, tl, htail, rfl⟩
      · rw [List.mem_singleton] at hv
        rw [hv]
        exact ⟨le_refl _, le_refl _⟩
      · rcases List.mem_cons.mp hv with rfl | hv
        · simp only []
          omega
        -- The rest starts at the next node, which is where the first segment ends.
        · have hrec := ih hrest (i + 1) 0 (by omega) _ tl htail hv
          rw [Nat.add_mul, Nat.one_mul] at hrec
          omega

/-- Gathering from the list gives the range of the memory. The chain the list
    was made from sits behind `pre`, which its indices count. -/
theorem gather_segments (b : Nat) (pre ns : List Node) (hns : ∀ n ∈ ns, n.size = b)
    (npos : Nat) (hnpos : npos < b) (len : Nat) (iovs : List Iovec)
    (hseg : segments ns pre.length npos len = some iovs) :
    gather (pre ++ ns) iovs = ((flat ns).drop npos).take len := by
  induction ns generalizing pre npos len iovs with
  | nil => simp only [segments, reduceCtorEq] at hseg
  | cons n rest ih =>
      have hn : n.size = b := hns n List.mem_cons_self
      have hptr : n.ptr.length = b := hn
      have hrest : ∀ m ∈ rest, m.size = b := fun m hm => hns m (List.mem_cons_of_mem n hm)
      have hget : (pre ++ n :: rest)[pre.length]? = some n := by
        rw [List.getElem?_append_right (le_refl _), Nat.sub_self, List.getElem?_cons_zero]
      have hdrop : (flat (n :: rest)).drop npos = n.ptr.drop npos ++ flat rest := by
        rw [flat_cons, List.drop_append_of_le_length (by omega)]
      have hlen : (n.ptr.drop npos).length = b - npos := by
        rw [List.length_drop, hptr]
      rcases segments_cases n rest pre.length npos len iovs hseg with
        ⟨hin, rfl⟩ | ⟨hle, tl, htail, rfl⟩
      · simp only [gather, hget, List.append_nil]
        rw [hdrop, List.take_append_of_le_length (by omega)]
      · -- For the rest of the chain the prefix is one node longer.
        have hlen1 : (pre ++ [n]).length = pre.length + 1 := by
          rw [List.length_append, List.length_singleton]
        have hrec := ih (pre ++ [n]) hrest 0 (by omega) (len - (n.size - npos)) tl
          (by rw [hlen1]; exact htail)
        rw [List.append_assoc, List.singleton_append] at hrec
        simp only [gather, hget]
        rw [hrec, List.drop_zero, hdrop, hn, List.take_append,
          List.take_of_length_le (by omega : (n.ptr.drop npos).length ≤ len),
          List.take_of_length_le (by omega : (n.ptr.drop npos).length ≤ b - npos), hlen]

/-- A store through a pointer into the node behind `pre`. -/
theorem modify_behind (pre rest : List Node) (n : Node) (f : Node → Node) :
    (pre ++ n :: rest).modify pre.length f = pre ++ f n :: rest := by
  induction pre with
  | nil => rfl
  | cons m pre ih =>
      rw [List.cons_append, List.length_cons, List.modify_succ_cons, ih, List.cons_append]

/-- Scattering at most `len` bytes over the list overwrites the front of the
    range, and only that. -/
theorem scatter_segments (b : Nat) (pre ns : List Node) (hns : ∀ n ∈ ns, n.size = b)
    (npos : Nat) (hnpos : npos < b) (len : Nat) (iovs : List Iovec)
    (hseg : segments ns pre.length npos len = some iovs) (data : List UInt8)
    (hdata : data.length ≤ len) :
    ∃ ns', scatter iovs data (pre ++ ns) = pre ++ ns' ∧ ns'.length = ns.length ∧
      (∀ n ∈ ns', n.size = b) ∧ flat ns' = overwrite (flat ns) npos data := by
  induction ns generalizing pre npos len iovs data with
  | nil => simp only [segments, reduceCtorEq] at hseg
  | cons n rest ih =>
      have hn : n.size = b := hns n List.mem_cons_self
      have hptr : n.ptr.length = b := hn
      have hrest : ∀ m ∈ rest, m.size = b := fun m hm => hns m (List.mem_cons_of_mem n hm)
      rcases segments_cases n rest pre.length npos len iovs hseg with
        ⟨hin, rfl⟩ | ⟨hle, tl, htail, rfl⟩
      · refine ⟨⟨overwrite n.ptr npos data⟩ :: rest, ?_, rfl, ?_, ?_⟩
        · simp only [scatter]
          rw [modify_behind, List.take_of_length_le hdata]
        · intro m hm
          rcases List.mem_cons.mp hm with rfl | hm
          · rw [Node.size, length_overwrite _ _ _ (by omega), hptr]
          · exact hrest m hm
        · rw [flat_cons, flat_cons, overwrite_append_left _ _ _ _ (by omega)]
      -- The first node takes what it has room for, the rest goes on behind it.
      · set n' : Node := ⟨overwrite n.ptr npos (data.take (n.size - npos))⟩ with hn'
        have htakeLen : (data.take (n.size - npos)).length ≤ n.size - npos := by
          rw [List.length_take]
          omega
        have hn'size : n'.size = b := by
          rw [Node.size, hn', length_overwrite _ _ _ (by omega), hptr]
        have hlen1 : (pre ++ [n']).length = pre.length + 1 := by
          rw [List.length_append, List.length_singleton]
        have hdrop : (data.drop (n.size - npos)).length ≤ len - (n.size - npos) := by
          rw [List.length_drop]
          omega
        rcases ih (pre ++ [n']) hrest 0 (by omega) (len - (n.size - npos)) tl
          (by rw [hlen1]; exact htail) (data.drop (n.size - npos)) hdrop with
          ⟨rest', hscat, hlen', hsize', hflat'⟩
        refine ⟨n' :: rest', ?_, ?_, ?_, ?_⟩
        · simp only [scatter]
          rw [modify_behind, ← hn', ← List.singleton_append, ← List.append_assoc, hscat,
            List.append_assoc, List.singleton_append]
        · rw [List.length_cons, List.length_cons, hlen']
        · intro m hm
          rcases List.mem_cons.mp hm with rfl | hm
          · exact hn'size
          · exact hsize' m hm
        · rw [flat_cons, flat_cons, hflat']
          -- Fewer bytes than asked for may have come, so the data can end in this node.
          by_cases hfill : n.size - npos ≤ data.length
          · have hfull : npos + (data.take (n.size - npos)).length = n.ptr.length := by
              rw [List.length_take]
              omega
            rw [hn', ← overwrite_across _ _ _ _ _ hfull, List.take_append_drop]
          · rw [List.drop_of_length_le (by omega), overwrite_nil, hn',
              List.take_of_length_le (by omega), overwrite_append_left _ _ _ _ (by omega)]

end ByteArray

end YkServer
