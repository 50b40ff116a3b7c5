import YkServer.Theory.ByteArray.Codec
import YkServer.Theory.ByteArray.Reachable

/-!
# Strings Behind their Lengths

A string is written behind its length, anywhere in the array, and read back from the
same place. The four pairs of functions differ only in how the length is written.

`Stored` is the view of a writer in the middle of the data: the bytes written since
the seek are between where it started and the cursor, and what is behind the cursor
does not matter. Every write extends it.

All of it reads back but for one coincidence. `write` does nothing when it is given
nothing, but `read` looks at the current node even then. So an empty string needs a
node behind its length, and there is none when the length ends at the end of the
capacity. The capacity is not a value the caller passes in, but it is known: it grows
by whole blocks, and only as far as the length needs.

## Main definitions

* `Prefix`: The four forms of a length.
* `Prefix.width`: The bytes a length takes.
* `writeString`, `readStringOf`: The matching functions.
* `rewriteString`: Write a string at a position and read it from there.
* `Stored`: The bytes between a position and the cursor.

## Theorems

* `write_stored`: A write extends what is stored.
* `grownCapacity_end_iff`: When a write ends at the end of the capacity.
* `rewriteString_fault`: The coincidence.
* `string_reads_back_iff`: Every other string reads back.
-/

namespace YkServer

open Lib

namespace ByteArray

/-- The forms of the length in front of a string. -/
inductive Prefix where
  | f16
  | f32
  | f64
  | vint
  deriving DecidableEq, Repr

/-- The length fits the form. -/
def Prefix.Fits (x : Prefix) (n : Nat) : Prop :=
  match x with
  | .f16 => n < 2 ^ 16
  | .f32 => n < 2 ^ 32
  | .f64 => n < 2 ^ 64
  | .vint => n < 2 ^ 64

/-- The bytes a length takes. -/
def Prefix.width (x : Prefix) (n : Nat) : Nat :=
  match x with
  | .f16 => 2
  | .f32 => 4
  | .f64 => 8
  | .vint => (varint 10 n).length

/-- Write a string with one of the four functions. -/
def writeString (x : Prefix) (value : List UInt8) : Prog Exn ByteArray Unit :=
  match x with
  | .f16 => writeStringF16 value
  | .f32 => writeStringF32 value
  | .f64 => writeStringF64 value
  | .vint => writeStringVint value

/-- Read a string with one of the four functions. -/
def readStringOf (x : Prefix) : Prog Exn ByteArray (List UInt8) :=
  match x with
  | .f16 => readStringF16
  | .f32 => readStringF32
  | .f64 => readStringF64
  | .vint => readStringVint

/-- Write a string at a position and read it from there: what was read, and the
    position the writing had reached. -/
def rewriteString (x : Prefix) (value : List UInt8) (p : Nat) :
    Prog Exn ByteArray (List UInt8 × Nat) := do
  setPosition p
  writeString x value
  let written ← Prog.get
  setPosition p
  let bs ← readStringOf x
  pure (bs, written.position)

/-- The string comes back, and the reading ends where the writing did. -/
def ReadsBack (x : Prefix) (value : List UInt8) (p : Nat) (s : ByteArray) : Prop :=
  ∃ s', rewriteString x value p s = .ok (value, s'.position) s'

/-- The bytes `bs` are between the position `p` and the cursor. -/
structure Stored (p : Nat) (s : ByteArray) (bs : List UInt8) : Prop where
  inv : Inv s
  position_eq : s.position = p + bs.length
  bytes : ((memory s).drop p).take bs.length = bs

/-! ## Writing in the middle -/

/-- A write extends what is stored. -/
theorem write_stored (p : Nat) (s : ByteArray) (bs buf : List UInt8) (h : Stored p s bs) :
    ∃ s', write buf s = .ok () s' ∧ Stored p s' (bs ++ buf) ∧ s'.endian = s.endian ∧
      s'.baseSize = s.baseSize ∧ s'.capacity = grownCapacity s buf.length := by
  by_cases hbuf : buf = []
  · have hzero : buf.length ≤ s.getCapacity := by
      rw [hbuf]
      exact Nat.zero_le _
    refine ⟨s, ?_, ?_, rfl, rfl, ?_⟩
    · rw [hbuf, write_nil]
    · rw [hbuf, List.append_nil]
      exact h
    · rw [grownCapacity, if_pos hzero]
  · rcases write_spec s h.inv buf hbuf with
      ⟨s', tail, hrun, hinv, hmem, hpos, -, hbase, hend, hcap, htotal⟩
    have hat := h.position_eq
    have hps := hinv.position_le
    have hsc := hinv.size_le
    have hroom : p + bs.length ≤ (memory s ++ tail).length := by omega
    have hfront : ((memory s ++ tail).drop p).take bs.length = bs := by
      have hin := h.inv.length_memory
      have hps₀ := h.inv.position_le
      have hsc₀ := h.inv.size_le
      rw [List.take_drop, List.take_append_of_le_length (by omega), ← List.take_drop]
      exact h.bytes
    refine ⟨s', hrun, ⟨hinv, ?_, ?_⟩, hend, hbase, hcap⟩
    · rw [hpos, hat, List.length_append, Nat.add_assoc]
    · rw [hmem, hat]
      exact take_drop_overwrite_behind _ p bs buf hroom hfront

/-- What was stored can be read from where it starts. -/
theorem Stored.rewind {p : Nat} {s : ByteArray} {bs : List UInt8} (h : Stored p s bs) :
    ∃ s' rest, setPosition p s = .ok () s' ∧ Unread s' (bs ++ rest) ∧ s'.position = p ∧
      s'.endian = s.endian ∧ s'.capacity = s.capacity := by
  have hat := h.position_eq
  have hps := h.inv.position_le
  have hsc := h.inv.size_le
  rcases setPosition_spec s h.inv p (by omega) with
    ⟨s', hrun, hinv, hmem, hpos, hsize, -, hend, hcap⟩
  refine ⟨s', ((memory s).drop (p + bs.length)).take (s.size - (p + bs.length)), hrun,
    ⟨hinv, ?_⟩, hpos, hend, hcap⟩
  -- The data from `p` on is what was stored and what is behind it.
  have hsplit : s'.size - p = bs.length + (s.size - (p + bs.length)) := by omega
  rw [hmem, hpos, hsplit, List.take_add, h.bytes, List.drop_drop]

/-- The end of a write is the end of the capacity when it is a block boundary
    that is not below the old capacity. -/
theorem grownCapacity_end_iff (s : ByteArray) (h : Inv s) (n : Nat) :
    s.position + n = grownCapacity s n ↔
      s.baseSize ∣ s.position + n ∧ s.capacity ≤ s.position + n := by
  have hps := h.position_le
  have hsc := h.size_le
  have hcap : s.baseSize ∣ s.capacity := ⟨s.nodes.length, by rw [h.capacity_eq, Nat.mul_comm]⟩
  have hroomEq : s.getCapacity = s.capacity - s.position := rfl
  by_cases hroom : n ≤ s.getCapacity
  · rw [grownCapacity, if_pos hroom]
    constructor
    · intro heq
      rw [heq]
      exact ⟨hcap, le_refl _⟩
    · rintro ⟨-, hle⟩
      omega
  · rw [grownCapacity, if_neg hroom]
    rcases ceil_spec s.baseSize (n - s.getCapacity) h.base_pos (by omega) with ⟨hge, hlt, -⟩
    -- The part of the write that does not fit starts at the old capacity.
    have hend : s.position + n = s.capacity + (n - s.getCapacity) := by omega
    rw [hend]
    constructor
    · intro heq
      rw [heq]
      exact ⟨Nat.dvd_add hcap (Nat.dvd_mul_left _ _), Nat.le_add_right _ _⟩
    · rintro ⟨hdvd, -⟩
      rcases (Nat.dvd_add_right hcap).mp hdvd with ⟨m, hm⟩
      rw [hm, Nat.mul_comm s.baseSize m] at hge hlt ⊢
      -- Two multiples of the block size less than a block apart are one.
      have hle : m ≤ (m * s.baseSize + s.baseSize - 1) / s.baseSize :=
        Nat.le_of_mul_le_mul_right hge h.base_pos
      have hgt : (m * s.baseSize + s.baseSize - 1) / s.baseSize < m + 1 := by
        refine Nat.lt_of_mul_lt_mul_right (a := s.baseSize) ?_
        rw [Nat.add_mul, Nat.one_mul]
        exact hlt
      rw [Nat.le_antisymm (Nat.le_of_lt_succ hgt) hle]

/-! ## The length in front -/

/-- The bytes of a length. -/
def Prefix.bytes (e : Endian) (x : Prefix) (n : Nat) : List UInt8 :=
  match x with
  | .f16 => ordered e 2 n
  | .f32 => ordered e 4 n
  | .f64 => ordered e 8 n
  | .vint => varint 10 n

theorem Prefix.length_bytes (e : Endian) (x : Prefix) (n : Nat) :
    (x.bytes e n).length = x.width n := by
  cases x with
  | f16 => exact length_ordered e 2 n
  | f32 => exact length_ordered e 4 n
  | f64 => exact length_ordered e 8 n
  | vint => rfl

/-- The writers store the bytes of the length and then the string. -/
theorem writeString_eq (x : Prefix) (value : List UInt8) (hfits : x.Fits value.length)
    (s : ByteArray) :
    writeString x value s = (do
      write (x.bytes s.endian value.length)
      write value) s := by
  cases x with
  | f16 =>
      have hn : (UInt16.ofNat value.length).toNat = value.length :=
        Nat.mod_eq_of_lt hfits
      simp only [writeString, writeStringF16, writeFuint16, hn]
      rfl
  | f32 =>
      have hn : (UInt32.ofNat value.length).toNat = value.length :=
        Nat.mod_eq_of_lt hfits
      simp only [writeString, writeStringF32, writeFuint32, hn]
      rfl
  | f64 =>
      have hn : (UInt64.ofNat value.length).toNat = value.length :=
        Nat.mod_eq_of_lt hfits
      simp only [writeString, writeStringF64, writeFuint64, hn]
      rfl
  | vint =>
      have hn : (UInt64.ofNat value.length).toNat = value.length :=
        Nat.mod_eq_of_lt hfits
      have hlt : value.length < 128 ^ 10 := lt_trans hfits (by decide)
      rcases Option.isSome_iff_exists.mp (encode128_isSome 9 _ hlt) with ⟨tmp, htmp⟩
      simp only [writeString, writeStringVint, writeUint64, hn, writeVarint, Prefix.bytes, varint,
        htmp, Option.getD_some]

/-- A fixed size length is read and the string is left. -/
theorem readFixed_string {α : Type} (k n : Nat) (f : Nat → α) (g : α → Nat) (hg : g (f n) = n)
    (hk : 0 < k) (hn : n < 256 ^ k) (hmax : n ≤ maxStringSize) (s : ByteArray)
    (rest : List UInt8) (h : Unread s (ordered s.endian k n ++ rest)) :
    ∃ s', ((readFixed k >>= fun v => pure (f v)) >>= fun len => readString (g len)) s
        = read n s' ∧
      Unread s' rest ∧ s'.position = s.position + k ∧ s'.capacity = s.capacity := by
  rcases readFixed_unread k n hk hn s rest h with ⟨s', hrun, h', hp, hcap⟩
  refine ⟨s', ?_, h', hp, hcap⟩
  have hread : (readFixed k >>= fun v => pure (f v)) s = .ok (f n) s' := by
    rw [bind_ok _ _ _ _ _ hrun]
    rfl
  rw [bind_ok _ _ _ _ _ hread, hg, readString, if_neg (Nat.not_lt.mpr hmax)]

/-- The readers read the length and then as many bytes. -/
theorem readStringOf_unread (x : Prefix) (n : Nat) (hfits : x.Fits n) (hmax : n ≤ maxStringSize)
    (s : ByteArray) (rest : List UInt8) (h : Unread s (x.bytes s.endian n ++ rest)) :
    ∃ s', readStringOf x s = read n s' ∧ Unread s' rest ∧
      s'.position = s.position + x.width n ∧ s'.capacity = s.capacity := by
  cases x with
  | f16 =>
      exact readFixed_string 2 n UInt16.ofNat UInt16.toNat (Nat.mod_eq_of_lt hfits) (by decide)
        hfits hmax s rest h
  | f32 =>
      exact readFixed_string 4 n UInt32.ofNat UInt32.toNat (Nat.mod_eq_of_lt hfits) (by decide)
        hfits hmax s rest h
  | f64 =>
      exact readFixed_string 8 n UInt64.ofNat UInt64.toNat (Nat.mod_eq_of_lt hfits) (by decide)
        hfits hmax s rest h
  | vint =>
      have hlt : n < 128 ^ 10 := lt_trans hfits (by decide)
      have hn : (UInt64.ofNat n).toNat = n := Nat.mod_eq_of_lt hfits
      rcases readVarint_varint 64 9 n s rest hlt hfits h with ⟨s', hrun, h', hp, -, hcap⟩
      have hread : readUint64 s = .ok (UInt64.ofNat n) s' := by
        rw [readUint64, bind_ok _ _ _ _ _ hrun]
        rfl
      refine ⟨s', ?_, h', hp, hcap⟩
      rw [readStringOf, readStringVint, bind_ok _ _ _ _ _ hread, hn, readString,
        if_neg (Nat.not_lt.mpr hmax)]

/-! ## Writing and reading back -/

/-- Up to the read of the string itself nothing can go wrong, and the cursor is
    behind the length. -/
theorem rewriteString_eq (x : Prefix) (value : List UInt8) (hfits : x.Fits value.length)
    (hmax : value.length ≤ maxStringSize) (p : Nat) (s : ByteArray) (h : Inv s)
    (hp : p ≤ s.capacity) :
    ∃ u rest, Unread u (value ++ rest) ∧ u.position = p + x.width value.length ∧
      (value = [] → (u.position = u.capacity ↔
        s.baseSize ∣ p + x.width value.length ∧ s.capacity ≤ p + x.width value.length)) ∧
      rewriteString x value p s = (do
        let bs ← read value.length
        pure (bs, p + x.width value.length + value.length)) u := by
  rcases setPosition_spec s h p hp with ⟨s₀, hrun₀, hinv₀, -, hpos₀, -, hbase₀, -, hcap₀⟩
  have hst₀ : Stored p s₀ [] := ⟨hinv₀, hpos₀, rfl⟩
  -- The length is written, and then the string.
  rcases write_stored p s₀ [] (x.bytes s₀.endian value.length) hst₀ with
    ⟨s₁, hrun₁, hst₁, hend₁, hbase₁, hcap₁⟩
  rcases write_stored p s₁ _ value hst₁ with ⟨s₂, hrun₂, hst₂, hend₂, -, hcap₂⟩
  rw [List.nil_append] at hst₂
  have hwrite : writeString x value s₀ = .ok () s₂ := by
    rw [writeString_eq x value hfits, bind_ok _ _ _ _ _ hrun₁, hrun₂]
  have hpos₂ : s₂.position = p + x.width value.length + value.length := by
    rw [hst₂.position_eq, List.length_append, Prefix.length_bytes, Nat.add_assoc]
  -- The seek back, and the length again.
  rcases hst₂.rewind with ⟨s₃, rest, hrun₃, hun₃, hpos₃, hend₃, hcap₃⟩
  rw [List.append_assoc, ← hend₁, ← hend₂, ← hend₃] at hun₃
  rcases readStringOf_unread x value.length hfits hmax s₃ _ hun₃ with
    ⟨u, hread, hun, hposu, hcapu⟩
  have hat : u.position = p + x.width value.length := by rw [hposu, hpos₃]
  refine ⟨u, rest, hun, hat, ?_, ?_⟩
  · intro hnil
    have hsame : u.capacity = grownCapacity s₀ (x.width value.length) := by
      have hkeep : s₂.capacity = s₁.capacity := by
        rw [hcap₂, hnil, grownCapacity, List.length_nil, if_pos (Nat.zero_le _)]
      rw [hcapu, hcap₃, hkeep, hcap₁, Prefix.length_bytes]
    rw [hat, hsame, ← hpos₀, grownCapacity_end_iff s₀ hinv₀, hbase₀, hcap₀]
  · rw [rewriteString, bind_ok _ _ _ _ _ hrun₀, bind_ok _ _ _ _ _ hwrite,
      bind_ok _ _ _ _ _ (get_apply s₂), bind_ok _ _ _ _ _ hrun₃, hpos₂]
    -- What is left is the read of the string, from behind the length.
    simp only [bind, hread]

/-- The coincidence: an empty string whose length ends at the end of the
    capacity. The null pointer is followed. -/
theorem rewriteString_fault (x : Prefix) (p : Nat) (s : ByteArray) (h : Inv s)
    (hp : p ≤ s.capacity) (hdvd : s.baseSize ∣ p + x.width 0)
    (hend : s.capacity ≤ p + x.width 0) : rewriteString x [] p s = .fault := by
  have hfits : x.Fits 0 := by
    cases x with
    | f16 => exact Nat.two_pow_pos 16
    | f32 => exact Nat.two_pow_pos 32
    | f64 => exact Nat.two_pow_pos 64
    | vint => exact Nat.two_pow_pos 64
  rcases rewriteString_eq x [] hfits (Nat.zero_le _) p s h hp with ⟨u, rest, hun, -, hiff, heq⟩
  have hfull : ¬u.position < u.capacity := by
    rw [(hiff rfl).mpr ⟨hdvd, hend⟩]
    exact lt_irrefl _
  have hread : read 0 u = .fault := by rw [read_zero u hun.inv, if_neg hfull]
  rw [heq, List.length_nil, bind_fault _ _ _ hread]

/-- A string written behind its length reads back, and the reading ends where the
    writing did, unless it is empty and the length ends at the end of the
    capacity. -/
theorem string_reads_back_iff (baseSize : Nat) (heap : Nat → UInt8) (hb : 1 ≤ baseSize)
    (s : ByteArray) (hs : Reachable baseSize heap s) (x : Prefix) (value : List UInt8)
    (hfits : x.Fits value.length) (hmax : value.length ≤ maxStringSize) (p : Nat)
    (hp : p ≤ s.capacity) :
    ReadsBack x value p s ↔
      ¬(value = [] ∧ baseSize ∣ p + x.width 0 ∧ s.capacity ≤ p + x.width 0) := by
  have hheld := reachable_held baseSize heap hb s hs
  constructor
  · rintro ⟨s', hrun⟩ ⟨hnil, hdvd, hend⟩
    rw [← hheld.2] at hdvd
    rw [hnil, rewriteString_fault x p s hheld.1 hp hdvd hend] at hrun
    cases hrun
  · intro hnot
    rcases rewriteString_eq x value hfits hmax p s hheld.1 hp with ⟨u, rest, hun, hat, hiff, heq⟩
    have hcur : value ≠ [] ∨ u.position < u.capacity := by
      by_cases hnil : value = []
      · refine Or.inr (lt_of_le_of_ne (le_trans hun.inv.position_le hun.inv.size_le) ?_)
        intro hfull
        rcases (hiff hnil).mp hfull with ⟨hdvd, hend⟩
        rw [hnil, List.length_nil, hheld.2] at hdvd
        rw [hnil, List.length_nil] at hend
        exact hnot ⟨hnil, hdvd, hend⟩
      · exact Or.inl hnil
    rcases read_unread u value rest hun hcur with ⟨s', hread, -, hpos', -, -⟩
    refine ⟨s', ?_⟩
    rw [heq, bind_ok _ _ _ _ _ hread, hpos', hat]
    rfl

/-- A string of two bytes behind a length of two, in blocks of four, so that the
    string ends at the end of the capacity. -/
theorem string_reads_back_iff_full :
    ReadsBack .f16 [104, 105] 0 (new 4 (fun _ => 0)) :=
  (string_reads_back_iff 4 (fun _ => 0) (by decide) _ Reachable.new .f16 [104, 105]
    (by simp only [Prefix.Fits, List.length_cons, List.length_nil]; omega)
    (by unfold maxStringSize; simp only [List.length_cons, List.length_nil]; omega) 0
    (Nat.zero_le _)).mpr (fun h => absurd h.1 (List.cons_ne_nil _ _))

/-- Not every string reads back: the empty one behind a length of four bytes in a
    new array with a block of four. -/
theorem empty_string_lost :
    ¬∀ (baseSize : Nat) (heap : Nat → UInt8), 1 ≤ baseSize → ∀ s, Reachable baseSize heap s →
      ∀ (x : Prefix) (value : List UInt8), x.Fits value.length →
        value.length ≤ maxStringSize → ∀ p, p ≤ s.capacity → ReadsBack x value p s := by
  intro hall
  rcases hall 4 (fun _ => 0) (by decide) _ Reachable.new .f32 [] (Nat.two_pow_pos 32)
    (Nat.zero_le _) 0 (Nat.zero_le _) with ⟨s', hrun⟩
  have hfault : rewriteString .f32 [] 0 (new 4 (fun _ => 0)) = .fault := rfl
  rw [hfault] at hrun
  cases hrun

end ByteArray

end YkServer
