import YkServer.Theory.ByteArray.Invariant

/-!
# The Invariant over Whole Runs

Every public operation of the byte array keeps the representation invariant,
whether it returns or throws, so every state a client can bring about has it.

Most operations are compositions of `write` and `read`, and the rules for
sequencing settle them. `write`, the seek, the buffer lists and the readers of
a non-zero size besides always end in a state: none of them follows a null
pointer from a state with the invariant. The string readers do so only when the
length they have just read is zero and the cursor sits at the end of the
capacity.

## Main definitions

* `Held`: The invariant together with the block size the array was built with.
* `NonZero`: The operation transfers at least one byte.
* `Good`: What is shown of every operation.
* `Reachable`: The states a client can bring about.

## Theorems

* `always_write`, `always_read`, `always_setPosition`, ...: Operations that
  always end in a state.
* `keeps_readAt`, `keeps_getReadBuffersAt`: The positioned reads change nothing.
* `perform_good`: Every operation keeps the invariant, and ends in a state
  where it transfers at least one byte.
* `reachable_inv`: Every reachable state has the invariant.
-/

namespace YkServer

open Lib

namespace ByteArray

/-- The invariant, for an array built with blocks of `b` bytes. -/
def Held (b : Nat) (s : ByteArray) : Prop := Inv s ∧ s.baseSize = b

variable (b : Nat)

/-! ## Operations that always end in a state -/

theorem always_write (buf : List UInt8) : Always (Held b) (write buf) := by
  intro s hs
  by_cases hbuf : buf = []
  · rw [hbuf, write_nil]
    exact hs
  · rcases write_spec s hs.1 buf hbuf with ⟨s', _, hrun, hinv, _, _, _, hbase, _⟩
    rw [hrun]
    exact ⟨hinv, hbase.trans hs.2⟩

theorem always_read (n : Nat) (hn : 0 < n) : Always (Held b) (read n) := by
  intro s hs
  by_cases hfit : s.getReadSize < n
  · rw [read_throws s n hfit]
    exact hs
  · have hps := hs.1.position_le
    simp only [getReadSize] at hfit
    rcases read_spec s hs.1 n hn (by omega) with ⟨s', hrun, hinv, _, _, _, hbase, _⟩
    rw [hrun]
    exact ⟨hinv, hbase.trans hs.2⟩

theorem keeps_read (n : Nat) : Keeps (Held b) (read n) := by
  intro s hs
  rcases Nat.eq_zero_or_pos n with rfl | hn
  -- Only at the end of the capacity is a read of nothing undefined, and then no state is
  -- left.
  · rw [read_zero s hs.1]
    by_cases hlt : s.position < s.capacity
    · rw [if_pos hlt]
      exact hs
    · rw [if_neg hlt]
      trivial
  · exact (always_read b n hn).keeps _ _ s hs

theorem always_setPosition (v : Nat) : Always (Held b) (setPosition v) := by
  intro s hs
  by_cases hv : s.capacity < v
  · rw [setPosition_throws s v hv]
    exact hs
  · rcases setPosition_spec s hs.1 v (by omega) with ⟨s', hrun, hinv, _, _, _, hbase, _⟩
    rw [hrun]
    exact ⟨hinv, hbase.trans hs.2⟩

theorem always_clear : Always (Held b) clear := by
  intro s hs
  rcases clear_spec s hs.1 with ⟨s', hrun, hinv, _, _, _, hbase, _⟩
  rw [hrun]
  exact ⟨hinv, hbase.trans hs.2⟩

theorem always_setIsLittleEndian (val : Bool) : Always (Held b) (setIsLittleEndian val) := by
  intro s hs
  -- The byte order is in no field of the invariant.
  refine ⟨?_, hs.2⟩
  exact ⟨hs.1.base_pos, hs.1.nodes_pos, hs.1.node_size, hs.1.capacity_eq, hs.1.position_le,
    hs.1.size_le, hs.1.cur_eq⟩

theorem always_toString : Always (Held b) toString := by
  intro s hs
  rw [toString_spec s hs.1]
  exact hs

theorem always_getReadBuffers (len : Nat) : Always (Held b) (getReadBuffers len) := by
  intro s hs
  by_cases hzero : (if s.getReadSize < len then s.getReadSize else len) = 0
  · simp only [getReadBuffers]
    rw [if_pos hzero]
    exact hs
  -- A list that is not empty needs a byte that can be read.
  · have hread : s.position < s.size ∧ 0 < len := by
      by_cases hcut : s.getReadSize < len
      · rw [if_pos hcut] at hzero
        simp only [getReadSize] at hzero hcut
        omega
      · rw [if_neg hcut] at hzero
        simp only [getReadSize] at hcut
        omega
    rcases getReadBuffers_spec s hs.1 len hread.2 hread.1 with ⟨iovs, hrun, _⟩
    rw [hrun]
    exact hs

theorem always_getWriteBuffers (len : Nat) : Always (Held b) (getWriteBuffers len) := by
  intro s hs
  rcases Nat.eq_zero_or_pos len with rfl | hlen
  · simp only [getWriteBuffers, if_true]
    exact hs
  · rcases getWriteBuffers_spec s hs.1 len hlen with ⟨s', _, iovs, hrun, hinv, _, _, _, hbase, _⟩
    rw [hrun]
    exact ⟨hinv, hbase.trans hs.2⟩

/-- The positioned reads may run off the chain, but they change nothing. -/
theorem keeps_readAt (n position : Nat) : Keeps (Held b) (readAt n position) := by
  intro s hs
  simp only [readAt]
  by_cases hcut : subWord s.size position < n
  · rw [if_pos hcut]
    exact hs
  · rw [if_neg hcut]
    -- Whatever the loop does, it works on a copy of the pointer.
    rcases copyOut s.chain (position % s.baseSize) n with _ | ⟨bs, k⟩
    · trivial
    · exact hs

theorem keeps_getReadBuffersAt (len position : Nat) :
    Keeps (Held b) (getReadBuffersAt len position) := by
  intro s hs
  simp only [getReadBuffersAt]
  by_cases hzero : (if s.getReadSize < len then s.getReadSize else len) = 0
  · rw [if_pos hzero]
    exact hs
  · rw [if_neg hzero]
    rcases segments (s.nodes.drop (position / s.baseSize)) (position / s.baseSize)
      (position % s.baseSize) (if s.getReadSize < len then s.getReadSize else len) with _ | iovs
    · trivial
    · exact hs

/-! ## Compositions -/

theorem always_effect {α : Type} (m : Prog Exn ByteArray α) (h : Always (Held b) m) :
    Always (Held b) (effect m) :=
  always_bind _ m _ h (fun _ => always_pure _ _)

theorem keeps_effect {α : Type} (m : Prog Exn ByteArray α) (h : Keeps (Held b) m) :
    Keeps (Held b) (effect m) :=
  keeps_bind _ m _ h (fun _ => (always_pure _ _).keeps)

theorem always_writeFixed (k value : Nat) : Always (Held b) (writeFixed k value) :=
  fun s hs => always_write b _ s hs

/-- The scratch array is large enough for the value. -/
theorem always_writeVarint (room value : Nat) (h : value < 128 ^ (room + 1)) :
    Always (Held b) (writeVarint (room + 1) value) := by
  rcases Option.isSome_iff_exists.mp (encode128_isSome room value h) with ⟨bs, hbs⟩
  rw [writeVarint, hbs]
  exact always_write b bs

theorem always_writeUint32 (v : UInt32) : Always (Held b) (writeUint32 v) :=
  always_writeVarint b 4 _ (lt_trans v.toNat_lt (by decide))

theorem always_writeUint64 (v : UInt64) : Always (Held b) (writeUint64 v) :=
  always_writeVarint b 9 _ (lt_trans v.toNat_lt (by decide))

theorem always_readFixed (k : Nat) (hk : 0 < k) : Always (Held b) (readFixed k) :=
  always_bind _ _ _ (always_read b k hk)
    (fun _ => always_bind _ _ _ (always_get _) (fun _ => always_pure _ _))

theorem always_readFuint8 : Always (Held b) readFuint8 :=
  always_bind _ _ _ (always_read b 1 Nat.one_pos) (fun _ => always_pure _ _)

theorem always_readFuint16 : Always (Held b) readFuint16 :=
  always_bind _ _ _ (always_readFixed b 2 (by decide)) (fun _ => always_pure _ _)

theorem always_readFuint32 : Always (Held b) readFuint32 :=
  always_bind _ _ _ (always_readFixed b 4 (by decide)) (fun _ => always_pure _ _)

theorem always_readFuint64 : Always (Held b) readFuint64 :=
  always_bind _ _ _ (always_readFixed b 8 (by decide)) (fun _ => always_pure _ _)

/-- The varint loop reads one byte a round, so it always ends in a state; it
    may throw half way, with the cursor behind the bytes it did read. -/
theorem always_readVarint (w n i result : Nat) : Always (Held b) (readVarint w n i result) := by
  induction n generalizing i result with
  | zero => exact always_pure _ _
  | succ n ih =>
      refine always_bind _ _ _ (always_readFuint8 b) (fun v => ?_)
      by_cases hv : v < 0x80
      · simp only [if_pos hv]
        exact always_pure _ _
      · simp only [if_neg hv]
        exact ih _ _

theorem always_readUint32 : Always (Held b) readUint32 :=
  always_bind _ _ _ (always_readVarint b 32 5 0 0) (fun _ => always_pure _ _)

theorem always_readUint64 : Always (Held b) readUint64 :=
  always_bind _ _ _ (always_readVarint b 64 10 0 0) (fun _ => always_pure _ _)

theorem keeps_readString (len : Nat) : Keeps (Held b) (readString len) := by
  by_cases hlen : maxStringSize < len
  · rw [readString, if_pos hlen]
    exact (always_raise _ _).keeps
  · rw [readString, if_neg hlen]
    exact keeps_read b len

theorem always_readString (len : Nat) (h : 0 < len) : Always (Held b) (readString len) := by
  by_cases hlen : maxStringSize < len
  · rw [readString, if_pos hlen]
    exact always_raise _ _
  · rw [readString, if_neg hlen]
    exact always_read b len h

theorem keeps_readFromFile (fuel : Nat) (content : List UInt8) :
    Keeps (Held b) (readFromFile fuel content) := by
  induction fuel generalizing content with
  | zero => exact fun _ _ => trivial
  | succ fuel ih =>
      refine keeps_bind _ _ _ (always_get _).keeps (fun s => ?_)
      refine keeps_bind _ _ _ (always_write b _).keeps (fun _ => ?_)
      by_cases hshort : content.length < s.baseSize
      · simp only [if_pos hshort]
        exact (always_pure _ _).keeps
      · simp only [if_neg hshort]
        exact ih _

/-- Every block but the last is full, so a bound above the length of the file
    is enough. -/
theorem always_readFromFile (hb : 0 < b) (fuel : Nat) (content : List UInt8)
    (hfuel : content.length < fuel) : Always (Held b) (readFromFile fuel content) := by
  induction fuel generalizing content with
  | zero => omega
  | succ fuel ih =>
      intro s hs
      -- `get` answers the state it was run in, so the block size of the loop is `b`.
      refine safe_bind _ _ _ s hs (fun t s' hget hs' => ?_)
      simp only [Prog.get, Outcome.ok.injEq] at hget
      refine safe_bind _ _ _ s' (always_write b _ s' hs') (fun _ s'' _ hs'' => ?_)
      have hbase : t.baseSize = b := by
        rw [← hget.1]
        exact hs.2
      by_cases hshort : content.length < t.baseSize
      · simp only [if_pos hshort]
        exact hs''
      · simp only [if_neg hshort]
        -- A full block is gone from the content, and with it at least one byte.
        refine ih _ ?_ s'' hs''
        rw [List.length_drop]
        omega

/-! ## The public operations -/

/-- The operation transfers at least one byte. A string reader does so when the
    length in front of the string is not zero. The positioned reads are left
    out: they start at the node of the cursor, not of the position. -/
def NonZero (op : Op) (s : ByteArray) : Prop :=
  match op with
  | .read n => 0 < n
  | .readStringF16 => ∀ len s', readFuint16 s = .ok len s' → 0 < len.toNat
  | .readStringF32 => ∀ len s', readFuint32 s = .ok len s' → 0 < len.toNat
  | .readStringF64 => ∀ len s', readFuint64 s = .ok len s' → 0 < len.toNat
  | .readStringVint => ∀ len s', readUint64 s = .ok len s' → 0 < len.toNat
  | .readFromFile fuel content => content.length < fuel
  | .readAt _ _ => False
  | .getReadBuffersAt _ _ => False
  | _ => True

/-- What is shown of every operation: it keeps the invariant, and where it
    transfers something it ends in a state. -/
def Good (P : Prop) (o : Outcome Exn ByteArray Unit) : Prop :=
  o.Ends (Held b) ∧ (P → o.Safe (Held b))

theorem good_of_always (P : Prop) (m : Prog Exn ByteArray Unit) (h : Always (Held b) m)
    (s : ByteArray) (hs : Held b s) : Good b P (m s) :=
  ⟨h.keeps _ _ s hs, fun _ => h s hs⟩

theorem good_of_keeps (P : Prop) (hP : ¬ P) (m : Prog Exn ByteArray Unit) (h : Keeps (Held b) m)
    (s : ByteArray) (hs : Held b s) : Good b P (m s) :=
  ⟨h s hs, fun hp => absurd hp hP⟩

/-- A string reader: a length, then as many bytes. -/
theorem good_readString {α : Type} (m : Prog Exn ByteArray α) (len : α → Nat)
    (h : Always (Held b) m) (s : ByteArray) (hs : Held b s) :
    Good b (∀ a s', m s = .ok a s' → 0 < len a)
      (effect (m >>= fun a => readString (len a)) s) := by
  refine ⟨?_, fun hlen => ?_⟩
  · exact keeps_effect b _ (keeps_bind _ _ _ (h.keeps) (fun a => keeps_readString b (len a))) s hs
  · refine safe_bind _ _ _ s ?_ (fun _ _ _ hs' => hs')
    refine safe_bind _ _ _ s (h s hs) (fun a s' hrun hs' => ?_)
    exact always_readString b (len a) (hlen a s' hrun) s' hs'

/-- Every public operation keeps the invariant, and ends in a state where it
    transfers at least one byte. -/
theorem perform_good (op : Op) (s : ByteArray) (hs : Held b s) :
    Good b (NonZero op s) (perform op s) := by
  have hb : 0 < b := by
    rw [← hs.2]
    exact hs.1.base_pos
  cases op with
  | write buf => exact good_of_always b _ _ (always_write b buf) s hs
  | writeFint8 v => exact good_of_always b _ _ (always_write b [v.toUInt8]) s hs
  | writeFuint8 v => exact good_of_always b _ _ (always_write b [v]) s hs
  | writeFint16 v => exact good_of_always b _ _ (always_writeFixed b 2 v.toUInt16.toNat) s hs
  | writeFuint16 v => exact good_of_always b _ _ (always_writeFixed b 2 v.toNat) s hs
  | writeFint32 v => exact good_of_always b _ _ (always_writeFixed b 4 v.toUInt32.toNat) s hs
  | writeFuint32 v => exact good_of_always b _ _ (always_writeFixed b 4 v.toNat) s hs
  | writeFint64 v => exact good_of_always b _ _ (always_writeFixed b 8 v.toUInt64.toNat) s hs
  | writeFuint64 v => exact good_of_always b _ _ (always_writeFixed b 8 v.toNat) s hs
  | writeInt32 v => exact good_of_always b _ _ (always_writeUint32 b (encodeZigzag32 v)) s hs
  | writeUint32 v => exact good_of_always b _ _ (always_writeUint32 b v) s hs
  | writeInt64 v => exact good_of_always b _ _ (always_writeUint64 b (encodeZigzag64 v)) s hs
  | writeUint64 v => exact good_of_always b _ _ (always_writeUint64 b v) s hs
  | writeFloat v => exact good_of_always b _ _ (always_writeFixed b 4 v.toNat) s hs
  | writeDouble v => exact good_of_always b _ _ (always_writeFixed b 8 v.toNat) s hs
  | writeStringF16 v =>
      exact good_of_always b _ _
        (always_bind _ _ _ (always_writeFixed b 2 _) (fun _ => always_write b v)) s hs
  | writeStringF32 v =>
      exact good_of_always b _ _
        (always_bind _ _ _ (always_writeFixed b 4 _) (fun _ => always_write b v)) s hs
  | writeStringF64 v =>
      exact good_of_always b _ _
        (always_bind _ _ _ (always_writeFixed b 8 _) (fun _ => always_write b v)) s hs
  | writeStringVint v =>
      exact good_of_always b _ _
        (always_bind _ _ _ (always_writeUint64 b _) (fun _ => always_write b v)) s hs
  | writeStringWithoutLength v => exact good_of_always b _ _ (always_write b v) s hs
  | read n =>
      exact ⟨keeps_effect b _ (keeps_read b n) s hs,
        fun hn => always_effect b _ (always_read b n hn) s hs⟩
  | readAt n position =>
      exact good_of_keeps b _ id _ (keeps_effect b _ (keeps_readAt b n position)) s hs
  | readFint8 =>
      exact good_of_always b _ _ (always_effect b _
        (always_bind _ _ _ (always_read b 1 Nat.one_pos) (fun _ => always_pure _ _))) s hs
  | readFuint8 => exact good_of_always b _ _ (always_effect b _ (always_readFuint8 b)) s hs
  | readFint16 =>
      exact good_of_always b _ _ (always_effect b _
        (always_bind _ _ _ (always_readFixed b 2 (by decide)) (fun _ => always_pure _ _))) s hs
  | readFuint16 => exact good_of_always b _ _ (always_effect b _ (always_readFuint16 b)) s hs
  | readFint32 =>
      exact good_of_always b _ _ (always_effect b _
        (always_bind _ _ _ (always_readFixed b 4 (by decide)) (fun _ => always_pure _ _))) s hs
  | readFuint32 => exact good_of_always b _ _ (always_effect b _ (always_readFuint32 b)) s hs
  | readFint64 =>
      exact good_of_always b _ _ (always_effect b _
        (always_bind _ _ _ (always_readFixed b 8 (by decide)) (fun _ => always_pure _ _))) s hs
  | readFuint64 => exact good_of_always b _ _ (always_effect b _ (always_readFuint64 b)) s hs
  | readInt32 =>
      exact good_of_always b _ _ (always_effect b _
        (always_bind _ _ _ (always_readUint32 b) (fun _ => always_pure _ _))) s hs
  | readUint32 => exact good_of_always b _ _ (always_effect b _ (always_readUint32 b)) s hs
  | readInt64 =>
      exact good_of_always b _ _ (always_effect b _
        (always_bind _ _ _ (always_readUint64 b) (fun _ => always_pure _ _))) s hs
  | readUint64 => exact good_of_always b _ _ (always_effect b _ (always_readUint64 b)) s hs
  | readFloat => exact good_of_always b _ _ (always_effect b _ (always_readFuint32 b)) s hs
  | readDouble => exact good_of_always b _ _ (always_effect b _ (always_readFuint64 b)) s hs
  | readStringF16 => exact good_readString b _ UInt16.toNat (always_readFuint16 b) s hs
  | readStringF32 => exact good_readString b _ UInt32.toNat (always_readFuint32 b) s hs
  | readStringF64 => exact good_readString b _ UInt64.toNat (always_readFuint64 b) s hs
  | readStringVint => exact good_readString b _ UInt64.toNat (always_readUint64 b) s hs
  | readFromFile fuel content =>
      exact ⟨keeps_readFromFile b fuel content s hs,
        fun hfuel => always_readFromFile b hb fuel content hfuel s hs⟩
  | setPosition v => exact good_of_always b _ _ (always_setPosition b v) s hs
  | setIsLittleEndian val => exact good_of_always b _ _ (always_setIsLittleEndian b val) s hs
  | clear => exact good_of_always b _ _ (always_clear b) s hs
  | toString => exact good_of_always b _ _ (always_effect b _ (always_toString b)) s hs
  | getReadBuffers len =>
      exact good_of_always b _ _ (always_effect b _ (always_getReadBuffers b len)) s hs
  | getReadBuffersAt len position =>
      exact good_of_keeps b _ id _ (keeps_effect b _ (keeps_getReadBuffersAt b len position)) s hs
  | getWriteBuffers len =>
      exact good_of_always b _ _ (always_effect b _ (always_getWriteBuffers b len)) s hs

/-- The states a client can bring about: the new array, and wherever an
    operation ends, by returning or by throwing. -/
inductive Reachable (baseSize : Nat) (heap : Nat → UInt8) : ByteArray → Prop where
  | new : Reachable baseSize heap (new baseSize heap)
  | ok (s s' : ByteArray) (op : Op) : Reachable baseSize heap s → perform op s = .ok () s' →
      Reachable baseSize heap s'
  | throw (s s' : ByteArray) (op : Op) (e : Exn) : Reachable baseSize heap s →
      perform op s = .throw e s' → Reachable baseSize heap s'

/-- Every reachable state has the invariant, by induction along the run. -/
theorem reachable_held (baseSize : Nat) (heap : Nat → UInt8) (hb : 0 < baseSize) (s : ByteArray)
    (h : Reachable baseSize heap s) : Held baseSize s := by
  induction h with
  | new => exact ⟨inv_new baseSize heap hb, rfl⟩
  -- A step that returns and one that throws both end in a state.
  | ok s s' op _ hrun ih =>
      have hgood := (perform_good baseSize op s ih).1
      rw [hrun] at hgood
      exact hgood
  | throw s s' op e _ hrun ih =>
      have hgood := (perform_good baseSize op s ih).1
      rw [hrun] at hgood
      exact hgood

/-- The representation invariant holds in every state a client can bring
    about, and from there every operation that transfers something ends in a
    state again. -/
theorem reachable_inv (baseSize : Nat) (heap : Nat → UInt8) (hb : 1 ≤ baseSize) (s : ByteArray)
    (h : Reachable baseSize heap s) :
    (1 ≤ s.nodes.length ∧ (∀ n ∈ s.nodes, n.size = s.baseSize) ∧
      s.capacity = s.nodes.length * s.baseSize ∧ s.position ≤ s.size ∧ s.size ≤ s.capacity ∧
      (s.position < s.capacity → s.cur = some (s.position / s.baseSize)) ∧
      (s.cur = none ↔ s.position = s.capacity)) ∧
    s.baseSize = baseSize ∧
    ∀ op, NonZero op s → perform op s ≠ .fault ∧ perform op s ≠ .hang := by
  have hheld := reachable_held baseSize heap hb s h
  have hinv := hheld.1
  have hle := le_trans hinv.position_le hinv.size_le
  refine ⟨⟨hinv.nodes_pos, hinv.node_size, hinv.capacity_eq, hinv.position_le, hinv.size_le,
    hinv.cur_some, ?_⟩, hheld.2, ?_⟩
  · constructor
    · intro hnone
      by_contra hne
      rw [hinv.cur_some (by omega)] at hnone
      exact absurd hnone (by simp only [reduceCtorEq, not_false_eq_true])
    · intro heq
      rw [hinv.cur_eq, if_neg (by omega)]
  · intro op hop
    have hsafe := (perform_good baseSize op s hheld).2 hop
    constructor
    · intro hfault
      rw [hfault] at hsafe
      exact hsafe
    · intro hhang
      rw [hhang] at hsafe
      exact hsafe

/-- Two bytes into an array of one-byte blocks: the cursor is at the end of the
    capacity and the current node is null. -/
theorem reachable_inv_full :
    ∃ s, Reachable 1 (fun _ => 0) s ∧ s.nodes.length = 2 ∧ s.cur = none := by
  have hs : Reachable 1 (fun _ => 0)
      { baseSize := 1, position := 2, capacity := 2, size := 2, endian := .big,
        nodes := [⟨[7]⟩, ⟨[8]⟩], cur := none, heap := fun _ => 0 } :=
    Reachable.ok _ _ (.write [7, 8]) Reachable.new rfl
  have hinv := reachable_inv 1 (fun _ => 0) (le_refl 1) _ hs
  exact ⟨_, hs, rfl, hinv.1.2.2.2.2.2.2.mpr rfl⟩

end ByteArray

end YkServer
