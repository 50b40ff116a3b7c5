import YkServer.Theory.ByteArray.Invariant

/-!
# The Flat View

What the byte array is for: one byte memory with a cursor and a size. The
chunks, the current node and the modular offsets are the implementation's
affair, and a client that writes, reads, seeks, clears and prints cannot tell
them from a flat memory.

`Flat.Step` is that flat memory, stated by what a client can observe. A write
says what it stored and that every other byte is as it was; how much spare
memory it obtained is left open. The memory of a state is its nodes laid end to
end, and the simulation is a function of the state, so one step of the chunked
array is one step of the flat one from the very memory the nodes hold.

## Main definitions

* `Flat`: A byte memory, a cursor and a size.
* `Call`, `Reply`: What a client asks and is told.
* `Flat.Step`, `Flat.Run`: The flat memory's answer to a call, and to many.
* `flatten`: The flat view of a byte array.
* `serve`, `serveAll`: The byte array's answer to a call, and to many.

## Theorems

* `serve_step`: One call.
* `serveAll_run`: Any number of calls from a state with the invariant.
* `flat_simulates`: Any number of calls from a new array.
-/

namespace YkServer

open Lib

namespace ByteArray

/-- A byte memory with a cursor and a size. -/
structure Flat where
  mem : List UInt8
  pos : Nat
  size : Nat
  deriving DecidableEq, Repr

/-- What a client may ask for. -/
inductive Call where
  | write (buf : List UInt8)
  | read (n : Nat)
  | setPosition (v : Nat)
  | clear
  | toString
  deriving DecidableEq, Repr

/-- The call transfers at least one byte, where it transfers any. -/
def Call.NonZero : Call → Prop
  | .write buf => 1 ≤ buf.length
  | .read n => 1 ≤ n
  | _ => True

instance (c : Call) : Decidable c.NonZero :=
  match c with
  | .write buf => inferInstanceAs (Decidable (1 ≤ buf.length))
  | .read n => inferInstanceAs (Decidable (1 ≤ n))
  | .setPosition _ => inferInstanceAs (Decidable True)
  | .clear => inferInstanceAs (Decidable True)
  | .toString => inferInstanceAs (Decidable True)

/-- What a client is told. -/
inductive Reply where
  | done
  | bytes (bs : List UInt8)
  | outOfRange
  deriving DecidableEq, Repr

/-- A store of `buf` at the cursor: the range holds `buf`, every other byte is
    as it was, the cursor is behind the range and the size covers it. Memory
    is only added where the range does not fit. -/
structure Flat.Stored (f : Flat) (buf : List UInt8) (f' : Flat) : Prop where
  stored : (f'.mem.drop f.pos).take buf.length = buf
  others : ∀ i, i < f.mem.length → i < f.pos ∨ f.pos + buf.length ≤ i → f'.mem[i]? = f.mem[i]?
  room : f.pos + buf.length ≤ f'.mem.length
  grown : f.mem.length ≤ f'.mem.length
  kept : f.pos + buf.length ≤ f.mem.length → f'.mem.length = f.mem.length
  pos_eq : f'.pos = f.pos + buf.length
  size_eq : f'.size = max f.size (f.pos + buf.length)

/-- One call on a flat memory whose first `b` bytes survive clearing. -/
def Flat.Step (b : Nat) (f : Flat) (reply : Reply) (f' : Flat) : Call → Prop
  | .write buf => reply = .done ∧ f.Stored buf f'
  | .read n =>
    if f.size - f.pos < n then reply = .outOfRange ∧ f' = f
    else reply = .bytes ((f.mem.drop f.pos).take n) ∧ f' = { f with pos := f.pos + n }
  | .setPosition v =>
    if f.mem.length < v then reply = .outOfRange ∧ f' = f
    else reply = .done ∧ f' = { f with pos := v, size := max f.size v }
  | .clear => reply = .done ∧ f' = { mem := f.mem.take b, pos := 0, size := 0 }
  | .toString => reply = .bytes ((f.mem.drop f.pos).take (f.size - f.pos)) ∧ f' = f

/-- A sequence of calls on a flat memory. -/
inductive Flat.Run (b : Nat) : Flat → List Call → List Reply → Flat → Prop where
  | nil (f : Flat) : Flat.Run b f [] [] f
  | cons (f f' f'' : Flat) (call : Call) (calls : List Call) (reply : Reply)
      (replies : List Reply) : Flat.Step b f reply f' call → Flat.Run b f' calls replies f'' →
      Flat.Run b f (call :: calls) (reply :: replies) f''

/-- The flat view of a byte array. -/
def flatten (s : ByteArray) : Flat :=
  { mem := memory s, pos := s.position, size := s.size }

/-- The byte array's answer to a call; an exception is an answer, undefined
    behaviour is none. -/
def serve (call : Call) (s : ByteArray) : Option (Reply × ByteArray) :=
  let prog : Prog Exn ByteArray Reply := match call with
    | .write buf => do
      write buf
      pure .done
    | .read n => do
      let bs ← read n
      pure (.bytes bs)
    | .setPosition v => do
      setPosition v
      pure .done
    | .clear => do
      clear
      pure .done
    | .toString => do
      let bs ← toString
      pure (.bytes bs)
  match prog s with
  | .ok reply s' => some (reply, s')
  | .throw _ s' => some (.outOfRange, s')
  | .fault => none
  | .hang => none

/-- The byte array's answers to a sequence of calls. -/
def serveAll : List Call → ByteArray → Option (List Reply × ByteArray)
  | [], s => some ([], s)
  | call :: calls, s =>
    match serve call s with
    | none => none
    | some (reply, s') =>
      match serveAll calls s' with
      | none => none
      | some (replies, s'') => some (reply :: replies, s'')

/-- A write overwrites the range of a memory that was grown behind its end, so
    it is a store. -/
theorem stored_of_overwrite (f f' : Flat) (buf tail : List UInt8)
    (hmem : f'.mem = overwrite (f.mem ++ tail) f.pos buf)
    (hroom : f.pos + buf.length ≤ (f.mem ++ tail).length)
    (hkept : f.pos + buf.length ≤ f.mem.length → tail = [])
    (hpos' : f'.pos = f.pos + buf.length) (hsize' : f'.size = max f.size (f.pos + buf.length)) :
    f.Stored buf f' := by
  have hle : f.pos ≤ (f.mem ++ tail).length := by omega
  have hlen : f'.mem.length = (f.mem ++ tail).length := by
    rw [hmem, length_overwrite _ _ _ hroom]
  have hgrow : f.mem.length ≤ (f.mem ++ tail).length := by
    rw [List.length_append]
    omega
  refine ⟨?_, ?_, by omega, by omega, ?_, hpos', hsize'⟩
  · rw [hmem, take_drop_overwrite _ _ _ hle]
  · intro i hi hout
    rw [hmem]
    rcases hout with hlt | hge
    · rw [getElem?_overwrite_of_lt _ _ _ _ hle hlt, List.getElem?_append_left hi]
    · rw [getElem?_overwrite_of_ge _ _ _ _ hle hge, List.getElem?_append_left hi]
  · intro hfit
    rw [hlen, hkept hfit, List.append_nil]

/-- One call of the chunked array is one call of the flat one. -/
theorem serve_step (s : ByteArray) (h : Inv s) (call : Call) (hcall : call.NonZero) :
    ∃ reply s', serve call s = some (reply, s') ∧ Inv s' ∧ s'.baseSize = s.baseSize ∧
      Flat.Step s.baseSize (flatten s) reply (flatten s') call := by
  have hlen := h.length_memory
  have hps := h.position_le
  have hsc := h.size_le
  cases call with
  | write buf =>
      have hbuf : buf ≠ [] := List.ne_nil_of_length_pos hcall
      rcases write_spec s h buf hbuf with
        ⟨s', tail, hrun, hinv, hmem, hpos, hsize, hbase, _, hcap, htotal⟩
      have hps' := hinv.position_le
      have hsc' := hinv.size_le
      -- A range that fits asks for no new nodes, so there is no tail.
      have hkept : s.position + buf.length ≤ (memory s).length → tail = [] := by
        intro hfit
        have hsame : s'.capacity = s.capacity := by
          rw [hcap, grownCapacity, if_pos (by simp only [getCapacity]; omega)]
        rw [List.length_append] at htotal
        exact List.eq_nil_of_length_eq_zero (by omega)
      refine ⟨.done, s', ?_, hinv, hbase, rfl, ?_⟩
      · simp only [serve]
        rw [bind_ok _ _ _ _ _ hrun]
        rfl
      · exact stored_of_overwrite (flatten s) (flatten s') buf tail
          hmem (by simp only [flatten]; omega) hkept hpos hsize
  | read n =>
      by_cases hfit : s.getReadSize < n
      -- The two refusals compare the same numbers.
      · refine ⟨.outOfRange, s, ?_, h, rfl, ?_⟩
        · simp only [serve]
          rw [bind_throw _ _ _ _ _ (read_throws s n hfit)]
        · have hshort : (flatten s).size - (flatten s).pos < n := hfit
          rw [Flat.Step, if_pos hshort]
          exact ⟨rfl, rfl⟩
      · have hfit' : s.position + n ≤ s.size := by
          simp only [getReadSize] at hfit
          omega
        rcases read_spec s h n hcall hfit' with ⟨s', hrun, hinv, hmem, hpos, hsize, hbase, _⟩
        refine ⟨.bytes (((memory s).drop s.position).take n), s', ?_, hinv, hbase, ?_⟩
        · simp only [serve]
          rw [bind_ok _ _ _ _ _ hrun]
          rfl
        · have henough : ¬(flatten s).size - (flatten s).pos < n := hfit
          rw [Flat.Step, if_neg henough]
          refine ⟨rfl, ?_⟩
          simp only [flatten, hmem, hpos, hsize]
  | setPosition v =>
      by_cases hv : s.capacity < v
      · refine ⟨.outOfRange, s, ?_, h, rfl, ?_⟩
        · simp only [serve]
          rw [bind_throw _ _ _ _ _ (setPosition_throws s v hv)]
        -- The capacity is the length of the flat memory.
        · rw [Flat.Step, if_pos (by simp only [flatten]; omega)]
          exact ⟨rfl, rfl⟩
      · rcases setPosition_spec s h v (by omega) with
          ⟨s', hrun, hinv, hmem, hpos, hsize, hbase, _⟩
        refine ⟨.done, s', ?_, hinv, hbase, ?_⟩
        · simp only [serve]
          rw [bind_ok _ _ _ _ _ hrun]
          rfl
        · rw [Flat.Step, if_neg (by simp only [flatten]; omega)]
          refine ⟨rfl, ?_⟩
          simp only [flatten, hmem, hpos, hsize]
  | clear =>
      rcases clear_spec s h with ⟨s', hrun, hinv, hmem, hpos, hsize, hbase, _⟩
      refine ⟨.done, s', ?_, hinv, hbase, rfl, ?_⟩
      · simp only [serve]
        rw [bind_ok _ _ _ _ _ hrun]
        rfl
      · simp only [flatten, hmem, hpos, hsize]
  | toString =>
      refine ⟨.bytes (((memory s).drop s.position).take (s.size - s.position)), s, ?_, h, rfl,
        rfl, rfl⟩
      simp only [serve]
      rw [bind_ok _ _ _ _ _ (toString_spec s h)]
      rfl

/-- Any number of calls, by induction over the sequence; the invariant carries
    from one call to the next. -/
theorem serveAll_run (calls : List Call) (hcalls : ∀ c ∈ calls, c.NonZero) (s : ByteArray)
    (h : Inv s) :
    ∃ replies s', serveAll calls s = some (replies, s') ∧ Inv s' ∧
      Flat.Run s.baseSize (flatten s) calls replies (flatten s') := by
  induction calls generalizing s with
  | nil => exact ⟨[], s, rfl, h, Flat.Run.nil _⟩
  | cons call calls ih =>
      rcases serve_step s h call (hcalls call List.mem_cons_self) with
        ⟨reply, s', hserve, hinv, hbase, hstep⟩
      rcases ih (fun c hc => hcalls c (List.mem_cons_of_mem call hc)) s' hinv with
        ⟨replies, s'', hall, hinv', hrun⟩
      -- The block size is the new array's all along, as clearing needs it.
      rw [hbase] at hrun
      refine ⟨reply :: replies, s'', ?_, hinv', Flat.Run.cons _ _ _ _ _ _ _ hstep hrun⟩
      rw [serveAll, hserve]
      simp only []
      rw [hall]

/-- The chunked array simulates a flat memory: every sequence of calls from a
    new array is answered, and answered as the flat memory of its nodes
    answers. -/
theorem flat_simulates (baseSize : Nat) (heap : Nat → UInt8) (hb : 1 ≤ baseSize)
    (calls : List Call) (hcalls : ∀ c ∈ calls, c.NonZero) :
    ∃ replies s, serveAll calls (new baseSize heap) = some (replies, s) ∧
      (flatten s).mem.length = s.capacity ∧
      Flat.Run baseSize (flatten (new baseSize heap)) calls replies (flatten s) := by
  rcases serveAll_run calls hcalls (new baseSize heap) (inv_new baseSize heap hb) with
    ⟨replies, s, hall, hinv, hrun⟩
  exact ⟨replies, s, hall, hinv.length_memory, hrun⟩

/-- Five bytes across three nodes of two, a seek back, an overwrite across a
    node boundary, a refused read and the whole text. -/
theorem flat_simulates_overwrite :
    ∃ replies s, serveAll [.write [1, 2, 3, 4, 5], .setPosition 1, .write [8, 9], .read 3,
        .setPosition 0, .toString] (new 2 (fun _ => 0)) = some (replies, s) ∧
      replies = [.done, .done, .done, .outOfRange, .done, .bytes [1, 8, 9, 4, 5]] ∧
      Flat.Run 2 (flatten (new 2 (fun _ => 0))) [.write [1, 2, 3, 4, 5], .setPosition 1,
        .write [8, 9], .read 3, .setPosition 0, .toString] replies (flatten s) := by
  rcases flat_simulates 2 (fun _ => 0) (by decide) [.write [1, 2, 3, 4, 5], .setPosition 1,
    .write [8, 9], .read 3, .setPosition 0, .toString] (by decide) with
    ⟨replies, s, hall, _, hrun⟩
  refine ⟨replies, s, hall, ?_, hrun⟩
  -- The answers are computed, and the run is the one the general statement gives.
  have hrep := congrArg (Option.map Prod.fst) hall
  simp only [Option.map_some] at hrep
  exact Option.some.inj (hrep.symm.trans rfl)

end ByteArray

end YkServer
