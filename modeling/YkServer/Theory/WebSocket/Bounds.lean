import YkServer.Core.WebSocket
import YkServer.Theory.Stream.Transfer

/-!
# Where WebSocket Payloads Go

The bounds of `WSRecvMessage` against anything a peer can send. The length of a
frame is the peer's choice, up to `2 ^ 64 - 1`, and the sum with what has been
received already is computed in 64 bits. As long as the true sum is below
`2 ^ 64`, the comparison with the limit is made on it, a frame that passes has
its payload read into the data just resized for it, and `cur_len` is the size of
the data. A frame that follows another and declares enough to wrap the sum passes
the comparison with a sum that is too small, and its payload is read to a place
behind the data.

The same would happen after a message of `2 ^ 31` bytes, which `cur_len` cannot
count; the default limit is far below that.

The states are those between two frames. `Reached` collects the states of the run
that starts with a given stream, whatever it holds.

## Main definitions

* `pending`: The next frame, if it is a data frame with a length.
* `InRange`: The condition on the next frame.
* `ReadInPlace`: Every read of a payload targets its place in the data.
* `Sound`: What is claimed of the next frame.
* `Reached`: The states between the frames of a run.
* `Between`: The invariant of these states.

## Theorems

* `recvPayload_within`: The reads of a payload.
* `recvFrame_pending`: A data frame is its payload.
* `reached_between`: The invariant holds along a run of frames in range.
* `recvLoop_returns`: Such a run returns.
* `payload_inside`: Every frame of every run.
* `wrapped_length_faults`: A frame of `2 ^ 64 - 1` bytes after a frame of one.
-/

namespace YkServer

open Lib

namespace WebSocket

/-- The next frame, if it is a data frame whose length can be read: its head, the
    declared length, and the stream behind them. -/
def pending (client : Bool) (s : Socket) : Option (WSFrameHead × Nat × Socket) :=
  match recvHead s with
  | .ok (some head) s₁ =>
    if (head.opcode = CONTINUE ∨ head.opcode = TEXT_FRAME ∨ head.opcode = BIN_FRAME) ∧
        (client ∨ head.mask) then
      match recvLength head s₁ with
      | .ok (some length) s₂ => some (head, length, s₂)
      | _ => none
    else none
  | _ => none

/-- The true sum is a 64-bit number, and an `int` if the frame is accepted. -/
def InRange (maxSize : UInt32) (client : Bool) (s : Socket) (l : Locals) : Prop :=
  ∀ head length s₂, pending client s = some (head, length, s₂) →
    l.curLen + length < 2 ^ 64 ∧
      (l.curLen + length < maxSize.toNat → l.curLen + length < 2 ^ 31)

/-- `read` into the data, where every target has to be in the range from `lo` to `hi`, which
    has to be a part of the data. -/
def readWithin (lo hi offset n : Nat) : Prog Exn (Socket × List UInt8) Int := fun st =>
  if lo ≤ offset ∧ offset + n ≤ hi ∧ hi ≤ st.2.length then SocketStream.read offset n st
  else .fault

/-- The payload goes where it belongs: that range is inside the data as just resized, and
    the round is one in which every read of the payload targets the range. -/
def ReadInPlace (maxSize : UInt32) (client : Bool) (s : Socket) (l : Locals)
    (head : WSFrameHead) (length : Nat) (s₂ : Socket) : Prop :=
  0 ≤ l.curLen ∧ l.curLen + length ≤ (resize l.data (frameSum l.curLen length)).length ∧
    ∃ flow s', recvFrame maxSize client l s = .ok flow s' ∧
      recvPayloadBy (readWithin l.curLen.toNat (l.curLen.toNat + length)) maxSize head length l
        s₂ = .ok flow s'

/-- What is claimed of the next frame: the comparison is made on the true sum, so that
    a frame above the limit ends the loop before its payload; if the frame passes, its
    payload is read to its place; and what the loop goes on with, or returns, has the
    true size, which is below the limit. -/
def Sound (maxSize : UInt32) (client : Bool) (s : Socket) (l : Locals) : Prop :=
  ∀ head length s₂, pending client s = some (head, length, s₂) →
    (frameSum l.curLen length : Int) = l.curLen + length ∧
    ((maxSize.toNat : Int) ≤ l.curLen + length → recvFrame maxSize client l s = .ok .stop s₂) ∧
    (l.curLen + length < maxSize.toNat →
      ReadInPlace maxSize client s l head length s₂) ∧
    (∀ l' s', recvFrame maxSize client l s = .ok (.again l') s' →
      l'.curLen = l.curLen + length ∧ l'.curLen = l'.data.length ∧
        l'.curLen < maxSize.toNat) ∧
    ∀ m s', recvFrame maxSize client l s = .ok (.done m) s' →
      (m.data.length : Int) = l.curLen + length ∧ (m.data.length : Int) < maxSize.toNat

/-- The states between the frames of the run that starts with the stream `s₀`. -/
inductive Reached (maxSize : UInt32) (client : Bool) (s₀ : Socket) : Socket → Locals → Prop where
  | start : Reached maxSize client s₀ s₀ ⟨0, [], 0⟩
  | frame (s s' : Socket) (l l' : Locals) : Reached maxSize client s₀ s l →
      recvFrame maxSize client l s = .ok (.again l') s' → Reached maxSize client s₀ s' l'

/-- Between frames, the socket is connected and `cur_len` is the size of the
    data, which is empty or below the limit. -/
structure Between (maxSize : UInt32) (s : Socket) (l : Locals) : Prop where
  connected : s.connected = true
  size : l.curLen = l.data.length
  bounded : l.curLen = 0 ∨ l.curLen < maxSize.toNat

theorem length_resize (data : List UInt8) (n : Nat) : (resize data n).length = n := by
  rw [resize, List.length_append, List.length_take, List.length_replicate]
  omega

theorem length_unmask (mask : List UInt8) (start n i : Nat) (data : List UInt8) :
    (unmask mask start n i data).length = data.length := by
  induction n generalizing i data with
  | zero => rfl
  | succ n ih => rw [unmask, ih, List.length_modify]

/-- The sum of a size that is not negative and a length, when it does not wrap. -/
theorem frameSum_exact (curLen : Int) (length : Nat) (hpos : 0 ≤ curLen)
    (hsum : curLen + length < 2 ^ 64) : (frameSum curLen length : Int) = curLen + length := by
  rw [frameSum, wordOfInt_nonneg _ hpos]
  omega

/-! ## The parts of a frame -/

/-- Still connected, with at least `n` bytes less to come. -/
structure Consumed (n : Nat) (s s' : Socket) : Prop where
  connected : s'.connected = true
  inbox : s'.inbox.length + n ≤ s.inbox.length

theorem consumed_refl (s : Socket) (h : s.connected = true) : Consumed 0 s s :=
  ⟨h, Nat.le_refl _⟩

theorem Consumed.trans {n : Nat} {s s' s'' : Socket} (h : Consumed n s s')
    (h' : Consumed 0 s' s'') : Consumed n s s'' := by
  have h₁ := h.inbox
  have h₂ := h'.inbox
  exact ⟨h'.connected, by omega⟩

/-- A local variable is read or not, and the connection stays. -/
theorem readLocal_total (n : Nat) (hn : n < 2 ^ 64) (s : Socket) (h : s.connected = true) :
    ∃ r s', readLocal n s = .ok r s' ∧ Consumed 0 s s' ∧ (r ≠ none → Consumed n s s') := by
  rcases SocketStream.readFixSize_inside s (List.replicate n 0) 0 n hn h
    (by rw [List.length_replicate]; omega) with ⟨r, s', buf, hrun, hconn, -, hin, hall⟩
  simp only [Nat.zero_add] at hrun
  by_cases hr : r ≤ 0
  · refine ⟨none, s', ?_, ⟨hconn, by omega⟩, fun h => absurd rfl h⟩
    rw [readLocal, bind_ok _ _ _ _ _ (within_ok _ s s' _ _ _ hrun)]
    simp only [hr, if_true]
    rfl
  · refine ⟨some buf, s', ?_, ⟨hconn, by omega⟩, fun _ => ⟨hconn, hall (by omega)⟩⟩
    rw [readLocal, bind_ok _ _ _ _ _ (within_ok _ s s' _ _ _ hrun)]
    simp only [hr, if_false]
    rfl

theorem recvHead_total (s : Socket) (h : s.connected = true) :
    ∃ r s', recvHead s = .ok r s' ∧ Consumed 0 s s' ∧ (r ≠ none → Consumed 2 s s') := by
  rcases readLocal_total 2 (by decide) s h with ⟨r, s', hrun, hcons, hall⟩
  rw [recvHead, bind_ok _ _ _ _ _ hrun]
  split
  · exact ⟨_, s', rfl, hcons, fun _ => hall (by simp)⟩
  · exact ⟨_, s', rfl, hcons, fun h => absurd rfl h⟩

theorem recvLength_total (head : WSFrameHead) (s : Socket) (h : s.connected = true) :
    ∃ r s', recvLength head s = .ok r s' ∧ Consumed 0 s s' := by
  unfold recvLength
  split
  · rcases readLocal_total 2 (by decide) s h with ⟨r, s', hrun, hcons, -⟩
    rw [bind_ok _ _ _ _ _ hrun]
    split <;> exact ⟨_, s', rfl, hcons⟩
  · split
    · rcases readLocal_total 8 (by decide) s h with ⟨r, s', hrun, hcons, -⟩
      rw [bind_ok _ _ _ _ _ hrun]
      split <;> exact ⟨_, s', rfl, hcons⟩
    · exact ⟨_, s, rfl, consumed_refl s h⟩

theorem recvMask_total (head : WSFrameHead) (s : Socket) (h : s.connected = true) :
    ∃ r s', recvMask head s = .ok r s' ∧ Consumed 0 s s' := by
  unfold recvMask
  split
  · rcases readLocal_total 4 (by decide) s h with ⟨r, s', hrun, hcons, -⟩
    exact ⟨r, s', hrun, hcons⟩
  · exact ⟨_, s, rfl, consumed_refl s h⟩

/-- An answer to a ping is sent. -/
theorem WSPong_total (s : Socket) (h : s.connected = true) :
    ∃ v s', WSPong s = .ok v s' ∧ Consumed 0 s s' := by
  rcases SocketStream.writeFixSize_sent s (bytesOfHead ⟨PONG, false, false, false, true, 0, false⟩)
    s.outbox (by decide) ⟨h, rfl⟩ with ⟨s', hrun, hsent, hinbox⟩
  refine ⟨2, s', ?_, hsent.connected, by rw [hinbox]; exact Nat.le_refl _⟩
  rw [WSPong, sendBare, bind_ok _ _ _ _ _ hrun]
  rfl

/-- The stream behind a data frame's length. -/
theorem consumed_pending (client : Bool) (s s₂ : Socket) (head : WSFrameHead) (length : Nat)
    (hconn : s.connected = true) (h : pending client s = some (head, length, s₂)) :
    Consumed 2 s s₂ := by
  rcases recvHead_total s hconn with ⟨r, s₁, hhead, -, hcons₁⟩
  rw [pending, hhead] at h
  rcases r with _ | head'
  · cases h
  · -- The two bytes of the head are gone; the length may take more.
    have hcons := hcons₁ (by simp)
    simp only [] at h
    split at h
    · rcases recvLength_total head' s₁ hcons.connected with ⟨n, s₃, hlen, hcons₃⟩
      rw [hlen] at h
      rcases n with _ | n
      · cases h
      · cases h
        exact hcons.trans hcons₃
    · cases h

/-- What a data frame in range leads to. -/
def FlowSound (maxSize : UInt32) (sum : Int) : Flow → Prop
  | .again l => l.curLen = sum ∧ l.curLen = l.data.length ∧ l.curLen < maxSize.toNat
  | .done m => (m.data.length : Int) = sum ∧ (m.data.length : Int) < maxSize.toNat
  | .stop => True

/-- A payload in range is read into the data, or ends the loop. -/
theorem recvPayload_sound (maxSize : UInt32) (head : WSFrameHead) (length : Nat) (l : Locals)
    (s : Socket) (hconn : s.connected = true) (hcur : l.curLen = l.data.length)
    (hsum : l.curLen + length < 2 ^ 64)
    (hint : l.curLen + length < maxSize.toNat → l.curLen + length < 2 ^ 31) :
    ∃ flow s', recvPayload maxSize head length l s = .ok flow s' ∧ Consumed 0 s s' ∧
      FlowSound maxSize (l.curLen + length) flow := by
  have hmax := maxSize.toNat_lt
  have hexact := frameSum_exact l.curLen length (by omega) hsum
  by_cases hbig : maxSize.toNat ≤ frameSum l.curLen length
  · refine ⟨.stop, s, ?_, consumed_refl s hconn, trivial⟩
    rw [recvPayload, recvPayloadBy, if_pos hbig]
    rfl
  · -- The frame is accepted, so its sum is an `int` and `cur_len` does not wrap either.
    have hsmall := hint (by omega)
    have hwrapped : intOfWord (frameSum l.curLen length) = l.curLen + length := by
      rw [intOfWord_small _ (by omega), hexact]
    rcases recvMask_total head s hconn with ⟨mask, s₁, hmask, hcons₁⟩
    rw [recvPayload, recvPayloadBy, if_neg hbig, bind_ok _ _ _ _ _ hmask]
    cases mask with
    | none => exact ⟨.stop, s₁, rfl, hcons₁, trivial⟩
    | some mask =>
        -- The payload starts where the data ended, inside the resized string.
        have hbase : wordOfInt l.curLen = l.data.length := by
          rw [hcur, wordOfInt_natCast]
        rcases SocketStream.readFixSize_inside s₁ (resize l.data (frameSum l.curLen length))
          (wordOfInt l.curLen) length (by omega) hcons₁.connected
          (by rw [length_resize]; omega) with
          ⟨r, s₂, data, hread, hconn₂, hlen, hin, -⟩
        rw [length_resize] at hlen
        have hcons₂ : Consumed 0 s s₂ := hcons₁.trans ⟨hconn₂, by omega⟩
        simp only []
        rw [bind_ok _ _ _ _ _ (within_ok _ s₁ s₂ _ data _ hread)]
        simp only []
        by_cases hr : r ≤ 0
        · rw [if_pos hr]
          exact ⟨.stop, s₂, rfl, hcons₂, trivial⟩
        · -- The indices of the unmasking loop are below the sum.
          have hindex : ¬(head.mask = true ∧ 2 ^ 31 < l.curLen + intOfWord length) := by
            rw [intOfWord_small length (by omega)]
            omega
          rw [if_neg hr, if_neg hindex]
          -- Unmasking changes bytes and not their number.
          have hdata : (if head.mask = true then
              unmask mask l.curLen.toNat (intOfWord length).toNat 0 data else data).length =
              frameSum l.curLen length := by
            split
            · rw [length_unmask, hlen]
            · exact hlen
          revert hdata
          generalize (if head.mask = true then
            unmask mask l.curLen.toNat (intOfWord length).toNat 0 data else data) = received
          intro hdata
          split
          · refine ⟨_, s₂, rfl, hcons₂, ?_, ?_⟩
            · show (received.length : Int) = l.curLen + length
              rw [hdata, hexact]
            · show (received.length : Int) < maxSize.toNat
              omega
          · refine ⟨_, s₂, rfl, hcons₂, hwrapped, ?_, ?_⟩
            · show intOfWord (frameSum l.curLen length) = received.length
              rw [hwrapped, hdata, hexact]
            · show intOfWord (frameSum l.curLen length) < maxSize.toNat
              omega

/-- Every read of a payload in range targets the bytes behind the data: with a `read` that
    cannot do anything else the round is the same. -/
theorem recvPayload_within (maxSize : UInt32) (head : WSFrameHead) (length : Nat) (l : Locals)
    (s : Socket) (hconn : s.connected = true) (hcur : l.curLen = l.data.length)
    (hsum : l.curLen + length < 2 ^ 64) :
    recvPayloadBy (readWithin l.curLen.toNat (l.curLen.toNat + length)) maxSize head length l s =
      recvPayload maxSize head length l s := by
  have hexact := frameSum_exact l.curLen length (by omega) hsum
  have hbase : wordOfInt l.curLen = l.curLen.toNat := by
    rw [hcur, wordOfInt_natCast, Int.toNat_natCast]
  by_cases hbig : maxSize.toNat ≤ frameSum l.curLen length
  · rw [recvPayload, recvPayloadBy, recvPayloadBy, if_pos hbig, if_pos hbig]
  · rcases recvMask_total head s hconn with ⟨mask, s₁, hmask, hcons₁⟩
    rw [recvPayload, recvPayloadBy, recvPayloadBy, if_neg hbig, if_neg hbig,
      bind_ok _ _ _ _ _ hmask, bind_ok _ _ _ _ _ hmask]
    cases mask with
    | none => rfl
    | some mask =>
        -- The data has been resized to end where the range does, so no test of it fails.
        have hread := SocketStream.readFixSize_congr
          (readWithin l.curLen.toNat (l.curLen.toNat + length)) s₁
          (resize l.data (frameSum l.curLen length)) l.curLen.toNat length (by omega)
          hcons₁.connected (by rw [length_resize]; omega)
          (by
            intro offset m st hlow hhigh hlen
            rw [length_resize] at hlen
            rw [readWithin, if_pos ⟨hlow, hhigh, by omega⟩])
          (length + 1)
        have hwithin : Prog.within (resize l.data (frameSum l.curLen length))
            (Stream.readFixSize (fun offset n =>
              readWithin l.curLen.toNat (l.curLen.toNat + length)
                (wordOfInt l.curLen + offset) n) (length + 1) length) s₁ =
            Prog.within (resize l.data (frameSum l.curLen length))
              (Stream.readFixSize (fun offset n =>
                SocketStream.read (wordOfInt l.curLen + offset) n) (length + 1) length) s₁ := by
          rw [hbase, Prog.within, hread, Prog.within]
        simp only [bind, hwithin]

/-- A data frame is its payload. -/
theorem recvFrame_pending (maxSize : UInt32) (client : Bool) (l : Locals) (s s₂ : Socket)
    (head : WSFrameHead) (length : Nat) (h : pending client s = some (head, length, s₂)) :
    recvFrame maxSize client l s = recvPayload maxSize head length l s₂ := by
  unfold pending at h
  rcases hhead : recvHead s with ⟨r, s₁⟩ | ⟨e, s₁⟩ | _ | _
  · rcases r with _ | head'
    · simp only [hhead, reduceCtorEq] at h
    · simp only [hhead] at h
      by_cases hdata : (head'.opcode = CONTINUE ∨ head'.opcode = TEXT_FRAME ∨
          head'.opcode = BIN_FRAME) ∧ (client = true ∨ head'.mask = true)
      · rw [if_pos hdata] at h
        rcases hlen : recvLength head' s₁ with ⟨n, s₃⟩ | ⟨e, s₃⟩ | _ | _
        · rcases n with _ | n
          · simp only [hlen, reduceCtorEq] at h
          · simp only [hlen, Option.some.injEq, Prod.mk.injEq] at h
            rcases h with ⟨rfl, rfl, rfl⟩
            -- The opcode of a data frame is none of those that are looked at before.
            have hping : head'.opcode ≠ PING := by
              rcases hdata.1 with ho | ho | ho <;> rw [ho] <;> decide
            have hpong : head'.opcode ≠ PONG := by
              rcases hdata.1 with ho | ho | ho <;> rw [ho] <;> decide
            have hmask : ¬(¬client = true ∧ ¬head'.mask = true) := by
              rintro ⟨hc, hm⟩
              rcases hdata.2 with h' | h'
              · exact hc h'
              · exact hm h'
            rw [recvFrame, bind_ok _ _ _ _ _ hhead]
            simp only [hping, hpong, if_false, hdata.1, if_true, hmask]
            rw [bind_ok _ _ _ _ _ hlen]
        · simp only [hlen, reduceCtorEq] at h
        · simp only [hlen, reduceCtorEq] at h
        · simp only [hlen, reduceCtorEq] at h
      · rw [if_neg hdata] at h
        cases h
  · simp only [hhead, reduceCtorEq] at h
  · simp only [hhead, reduceCtorEq] at h
  · simp only [hhead, reduceCtorEq] at h

/-- Any other frame, or the end of the stream, leaves the local variables. -/
theorem recvFrame_other (maxSize : UInt32) (client : Bool) (l : Locals) (s : Socket)
    (hconn : s.connected = true) (h : pending client s = none) :
    ∃ flow s', recvFrame maxSize client l s = .ok flow s' ∧
      (flow = .stop ∨ flow = .again l ∧ Consumed 2 s s') := by
  rcases recvHead_total s hconn with ⟨r, s₁, hhead, -, hcons₁⟩
  rw [recvFrame, bind_ok _ _ _ _ _ hhead]
  rcases r with _ | head
  · exact ⟨.stop, s₁, rfl, Or.inl rfl⟩
  · have hcons := hcons₁ (by simp)
    simp only []
    split
    · rcases WSPong_total s₁ hcons.connected with ⟨v, s₂, hpong, hcons₂⟩
      rw [bind_ok _ _ _ _ _ hpong]
      split
      · exact ⟨.stop, s₂, rfl, Or.inl rfl⟩
      · exact ⟨.again l, s₂, rfl, Or.inr ⟨rfl, hcons.trans hcons₂⟩⟩
    · split
      · exact ⟨.again l, s₁, rfl, Or.inr ⟨rfl, hcons⟩⟩
      · split
        · rename_i hop
          split
          · exact ⟨.stop, s₁, rfl, Or.inl rfl⟩
          · rename_i hmask
            rcases recvLength_total head s₁ hcons.connected with ⟨n, s₂, hlen, -⟩
            rw [bind_ok _ _ _ _ _ hlen]
            rcases n with _ | n
            · exact ⟨.stop, s₂, rfl, Or.inl rfl⟩
            · -- This would have been a data frame.
              have hmask' : client = true ∨ head.mask = true := by
                by_contra hno
                rw [not_or] at hno
                exact hmask hno
              have hsome : pending client s = some (head, n, s₂) := by
                rw [pending, hhead]
                simp only []
                rw [if_pos ⟨hop, hmask'⟩, hlen]
              rw [h] at hsome
              cases hsome
        · exact ⟨.again l, s₁, rfl, Or.inr ⟨rfl, hcons⟩⟩

/-! ## Runs -/

/-- A round from a state between frames, the next frame being in range. -/
theorem recvFrame_between (maxSize : UInt32) (client : Bool) (s : Socket) (l : Locals)
    (hb : Between maxSize s l) (hr : InRange maxSize client s l) :
    ∃ flow s', recvFrame maxSize client l s = .ok flow s' ∧
      ∀ l', flow = .again l' → Between maxSize s' l' ∧ Consumed 2 s s' := by
  rcases hp : pending client s with _ | ⟨head, length, s₂⟩
  · rcases recvFrame_other maxSize client l s hb.connected hp with ⟨flow, s', hrun, hflow⟩
    refine ⟨flow, s', hrun, ?_⟩
    intro l' hl'
    rcases hflow with rfl | ⟨rfl, hcons⟩
    · cases hl'
    · cases hl'
      exact ⟨⟨hcons.connected, hb.size, hb.bounded⟩, hcons⟩
  · -- A data frame: the payload says what the round does.
    rcases hr head length s₂ hp with ⟨hsum, hint⟩
    have hcons₂ := consumed_pending client s s₂ head length hb.connected hp
    rcases recvPayload_sound maxSize head length l s₂ hcons₂.connected hb.size hsum hint with
      ⟨flow, s', hrun, hcons, hflow⟩
    refine ⟨flow, s', ?_, ?_⟩
    · rw [recvFrame_pending maxSize client l s s₂ head length hp, hrun]
    · rintro l' rfl
      exact ⟨⟨hcons.connected, hflow.2.1, Or.inr hflow.2.2⟩, hcons₂.trans hcons⟩

/-- The state between frames, in a run of frames in range. -/
theorem reached_between (maxSize : UInt32) (client : Bool) (s₀ : Socket)
    (hconn : s₀.connected = true)
    (hr : ∀ s l, Reached maxSize client s₀ s l → InRange maxSize client s l)
    (s : Socket) (l : Locals) (h : Reached maxSize client s₀ s l) : Between maxSize s l := by
  induction h with
  | start => exact ⟨hconn, rfl, Or.inl rfl⟩
  | frame s s' l l' hreached hrun ih =>
      rcases recvFrame_between maxSize client s l ih (hr s l hreached) with
        ⟨flow, s'', hrun', hnext⟩
      rw [hrun] at hrun'
      cases hrun'
      exact (hnext l' rfl).1

/-- A frame in range is treated as it should be. -/
theorem sound_between (maxSize : UInt32) (client : Bool) (s : Socket) (l : Locals)
    (hb : Between maxSize s l) (hr : InRange maxSize client s l) :
    Sound maxSize client s l := by
  intro head length s₂ hp
  rcases hr head length s₂ hp with ⟨hsum, hint⟩
  have hsize := hb.size
  have hexact := frameSum_exact l.curLen length (by omega) hsum
  have hcons₂ := consumed_pending client s s₂ head length hb.connected hp
  rcases recvPayload_sound maxSize head length l s₂ hcons₂.connected hb.size hsum hint with
    ⟨flow, s', hrun, -, hflow⟩
  have hframe := (recvFrame_pending maxSize client l s s₂ head length hp).trans hrun
  refine ⟨hexact, ?_, ?_, ?_, ?_⟩
  · -- Above the limit nothing of the payload is read.
    intro hover
    rw [recvFrame_pending maxSize client l s s₂ head length hp, recvPayload, recvPayloadBy,
      if_pos (by omega)]
    rfl
  · intro _
    refine ⟨by omega, by rw [length_resize]; omega, flow, s', hframe, ?_⟩
    rw [recvPayload_within maxSize head length l s₂ hcons₂.connected hsize hsum, hrun]
  · intro l' s'' heq
    rw [hframe] at heq
    cases heq
    exact hflow
  · intro m s'' heq
    rw [hframe] at heq
    cases heq
    exact hflow

/-- The loop ends when every frame to come is in range: a round that does not end
    it has taken two bytes. -/
theorem recvLoop_returns (maxSize : UInt32) (client : Bool) (s₀ : Socket)
    (hconn : s₀.connected = true)
    (hr : ∀ s l, Reached maxSize client s₀ s l → InRange maxSize client s l)
    (fuel : Nat) (s : Socket) (l : Locals) (h : Reached maxSize client s₀ s l)
    (hfuel : s.inbox.length < fuel) :
    ∃ r s', recvLoop maxSize client fuel l s = .ok r s' := by
  induction fuel generalizing s l with
  | zero => omega
  | succ fuel ih =>
      have hb := reached_between maxSize client s₀ hconn hr s l h
      rcases recvFrame_between maxSize client s l hb (hr s l h) with ⟨flow, s', hrun, hnext⟩
      rw [recvLoop, bind_ok _ _ _ _ _ hrun]
      cases flow with
      | again l' =>
          -- Fewer bytes are to come, so the bound is enough for the other rounds.
          have hcons := (hnext l' rfl).2.inbox
          exact ih s' l' (.frame s s' l l' h hrun) (by omega)
      | stop => exact ⟨_, _, rfl⟩
      | done m => exact ⟨_, _, rfl⟩

/-- Whatever a peer sends: if every data frame of the run has a true sum in range,
    the run returns, `cur_len` is the size of the data in every state between
    frames, and each frame is compared, read and counted by its true sum. With
    a limit that an `int` can hold, that is so exactly if no frame's true sum
    needs more than 64 bits. -/
theorem payload_inside (maxSize : UInt32) (client : Bool) (s₀ : Socket)
    (hconn : s₀.connected = true) :
    ((∀ s l, Reached maxSize client s₀ s l → InRange maxSize client s l) →
      (∃ r s', WSRecvMessage maxSize client s₀ = .ok r s') ∧
      ∀ s l, Reached maxSize client s₀ s l →
        Between maxSize s l ∧ Sound maxSize client s l) ∧
    (maxSize.toNat ≤ 2 ^ 31 →
      ((∀ s l, Reached maxSize client s₀ s l → Sound maxSize client s l) ↔
        ∀ s l, Reached maxSize client s₀ s l → ∀ head length s₂,
          pending client s = some (head, length, s₂) → l.curLen + length < 2 ^ 64)) := by
  have henough : (∀ s l, Reached maxSize client s₀ s l → InRange maxSize client s l) →
      ∀ s l, Reached maxSize client s₀ s l →
        Between maxSize s l ∧ Sound maxSize client s l := by
    intro hr s l h
    have hb := reached_between maxSize client s₀ hconn hr s l h
    exact ⟨hb, sound_between maxSize client s l hb (hr s l h)⟩
  refine ⟨?_, ?_⟩
  · intro hr
    exact ⟨recvLoop_returns maxSize client s₀ hconn hr _ s₀ _ .start (by omega), henough hr⟩
  · intro hmax
    constructor
    · -- A sum that is a remainder modulo `2 ^ 64` is below it.
      intro hsound s l h head length s₂ hp
      have hexact := (hsound s l h head length s₂ hp).1
      have hlt : frameSum l.curLen length < 2 ^ 64 := Nat.mod_lt _ (by decide)
      omega
    · intro hsum s l h
      -- Below a limit of at most `2 ^ 31` a sum is an `int` anyway.
      refine (henough ?_ s l h).2
      intro s l h head length s₂ hp
      exact ⟨hsum s l h head length s₂ hp, fun hlt => by omega⟩

/-- A stream with some bytes to come, up to 64 of them in one call. -/
def peer (bytes : List UInt8) : Socket := ⟨true, bytes, [], fun _ => 64, 0⟩

/-- A final text frame of one byte. -/
def single : List UInt8 := [0x81, 0x81, 1, 2, 3, 4, 0x60]

/-- It is the only frame of its run, and in range. -/
theorem payload_inside_single :
    (peer single).connected = true ∧
      (∃ r s', WSRecvMessage 33554432 false (peer single) = .ok r s') ∧
      ∀ s l, Reached 33554432 false (peer single) s l → Sound 33554432 false s l := by
  have honly : ∀ s l, Reached 33554432 false (peer single) s l →
      s = peer single ∧ l = ⟨0, [], 0⟩ := by
    intro s l h
    induction h with
    | start => exact ⟨rfl, rfl⟩
    | frame s s' l l' h hrun ih =>
        rcases ih with ⟨rfl, rfl⟩
        cases hrun
  have hr : ∀ s l, Reached 33554432 false (peer single) s l → InRange 33554432 false s l := by
    intro s l h head length s₂ hp
    rcases honly s l h with ⟨rfl, rfl⟩
    cases hp
    decide
  rcases (payload_inside 33554432 false (peer single) rfl).1 hr with ⟨hret, hall⟩
  exact ⟨rfl, hret, fun s l h => (hall s l h).2⟩

/-- A text frame of one byte that is not final, and a continuation that declares
    `2 ^ 64 - 1` bytes, of which one follows. -/
def wrapping : List UInt8 :=
  [0x01, 0x81, 0, 0, 0, 0, 0x61] ++
    [0x80, 0xff, 0xff, 0xff, 0xff, 0xff, 0xff, 0xff, 0xff, 0xff, 0, 0, 0, 0, 0x62]

theorem recvFrame_wrapping : recvFrame 33554432 false ⟨0, [], 0⟩ (peer wrapping) =
    .ok (.again ⟨1, [0x61], 1⟩) { peer (wrapping.drop 7) with calls := 3 } := rfl

theorem pending_wrapping : ∃ head s₂, pending false { peer (wrapping.drop 7) with calls := 3 } =
    some (head, 2 ^ 64 - 1, s₂) := ⟨_, _, rfl⟩

/-- The sum is zero, which is below the default limit, and the byte is stored
    behind the data. -/
theorem wrapped_length_faults :
    WSRecvMessage 33554432 false (peer wrapping) = .fault ∧
      ∃ s l, Reached 33554432 false (peer wrapping) s l ∧ ¬Sound 33554432 false s l := by
  refine ⟨rfl, _, _, .frame _ _ _ _ .start recvFrame_wrapping, ?_⟩
  intro hsound
  rcases pending_wrapping with ⟨head, s₂, hp⟩
  have hexact := (hsound head _ s₂ hp).1
  exact absurd hexact (by decide)

end WebSocket

end YkServer
