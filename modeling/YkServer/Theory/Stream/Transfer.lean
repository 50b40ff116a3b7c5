import YkServer.Core.Socket
import YkServer.Theory.ByteArray.Cursor

/-!
# Fixed Size Transfers over a Socket

The fixed size loops on a connected socket with enough to transfer. However the
transport cuts the bytes, the loop ends with all of them transferred, and nothing
but them. What a loop has done after some rounds is a function of what is left,
so each of the four transfers is an invariant of the number of bytes left, and
one rule carries it through a loop.

Where the destination is a byte array, the memory it obtains is also followed:
the first round asks for room for everything, and no later round needs more.

## Main definitions

* `Socket.Ready`: Connected, with the given bytes waiting.
* `Socket.Sent`: Connected, with the given bytes sent.

## Theorems

* `fixLoop_ends`: How a loop ends when no call fails.
* `fixLoop_congr`: The same loop with another call.
* `fixLoop_rule`, `writeLoop_rule`: The rule for calls that transfer something.
* `fixRound_some`, `writeRound_some`: A round of a loop.
* `read_some`, `write_taken`: One call, anywhere in a buffer.
* `readBytes_some`, `writeBytes_taken`: One call, anywhere in a byte array.
* `readFixSize_ready`, `readFixSizeBytes_ready`: Receiving.
* `readFixSize_behind`: Receiving behind what a buffer holds already.
* `readFixSize_inside`, `readFixSize_congr`: Receiving as much as there is.
* `writeFixSize_sent`, `writeFixSizeBytes_sent`: Sending.
* `fixLoop_result`: What a loop can return.
-/

namespace YkServer

open Lib

namespace Stream

variable {ε σ : Type}

/-- How `fixLoop` ends when no call fails: with everything transferred, or with a
    call that transferred nothing. `P` is an invariant of the state and of what
    is left. -/
theorem fixLoop_ends (call : Nat → Nat → Prog ε σ Int) (length : Nat) (hlen : length < 2 ^ 64)
    (P : Nat → σ → Prop)
    (hround : ∀ left s, 0 < left → left ≤ length → P left s →
      ∃ k s', call (length - left) left s = .ok (k : Nat) s' ∧ k ≤ left ∧ P (left - k) s')
    (fuel left : Nat) (hfuel : left < fuel) (hleft : left ≤ length) (s : σ) (hs : P left s) :
    (∃ s', fixLoop call length fuel (length - left) left s = .ok (intOfWord length) s' ∧ P 0 s') ∨
    ∃ left' s₁ s', 0 < left' ∧ left' ≤ left ∧ P left' s₁ ∧ P left' s' ∧
      call (length - left') left' s₁ = .ok (0 : Nat) s' ∧
      fixLoop call length fuel (length - left) left s = .ok 0 s' := by
  induction fuel generalizing left s with
  | zero => omega
  | succ fuel ih =>
      by_cases hzero : left = 0
      · rw [fixLoop, if_pos hzero]
        rw [hzero] at hs
        exact Or.inl ⟨s, rfl, hs⟩
      · rcases hround left s (by omega) hleft hs with ⟨k, s₁, hcall, hle, hs₁⟩
        rw [fixLoop, if_neg hzero, bind_ok _ _ _ _ _ hcall]
        -- Nothing transferred: the loop ends, and the state is the one before the call.
        by_cases hk : k = 0
        · rw [hk] at hcall hs₁
          rw [Nat.sub_zero] at hs₁
          simp only [hk]
          exact Or.inr ⟨left, s, s₁, by omega, Nat.le_refl _, hs, hs₁, hcall, rfl⟩
        · have hadd := addWord_left length left k hlen hleft hle
          have hsub : subWord left k = left - k := by rw [subWord, if_pos hle]
          simp only [wordOfInt_natCast, hk, if_false, hadd, hsub]
          rcases ih (left - k) (by omega) (by omega) s₁ hs₁ with
            hdone | ⟨left', s₂, s', hpos', hle', hrest⟩
          · exact Or.inl hdone
          · exact Or.inr ⟨left', s₂, s', hpos', by omega, hrest⟩

/-- The rule for `fixLoop`, when every call transfers something. -/
theorem fixLoop_rule (call : Nat → Nat → Prog ε σ Int) (length : Nat) (hlen : length < 2 ^ 64)
    (P : Nat → σ → Prop)
    (hround : ∀ left s, 0 < left → left ≤ length → P left s →
      ∃ k s', call (length - left) left s = .ok (k : Nat) s' ∧ 0 < k ∧ k ≤ left ∧
        P (left - k) s')
    (fuel left : Nat) (hfuel : left < fuel) (hleft : left ≤ length) (s : σ) (hs : P left s) :
    ∃ s', fixLoop call length fuel (length - left) left s = .ok (intOfWord length) s' ∧ P 0 s' := by
  have hweak : ∀ left s, 0 < left → left ≤ length → P left s →
      ∃ k s', call (length - left) left s = .ok (k : Nat) s' ∧ k ≤ left ∧ P (left - k) s' := by
    intro left s hpos hle hp
    rcases hround left s hpos hle hp with ⟨k, s', hcall, -, hk, hp'⟩
    exact ⟨k, s', hcall, hk, hp'⟩
  rcases fixLoop_ends call length hlen P hweak fuel left hfuel hleft s hs with
    hdone | ⟨left', s₁, s', hpos', hle', hp₁, -, hcall, -⟩
  · exact hdone
  · -- The other ending needs a call that transfers nothing.
    rcases hround left' s₁ hpos' (by omega) hp₁ with ⟨k, s₂, hcall', hk, -, -⟩
    rw [hcall, Outcome.ok.injEq] at hcall'
    omega

/-- Two calls that agree wherever the invariant of the one holds make the same loop. -/
theorem fixLoop_congr (call call' : Nat → Nat → Prog ε σ Int) (length : Nat)
    (hlen : length < 2 ^ 64) (P : Nat → σ → Prop)
    (hround : ∀ left s, 0 < left → left ≤ length → P left s →
      ∃ k s', call (length - left) left s = .ok (k : Nat) s' ∧ k ≤ left ∧ P (left - k) s')
    (hsame : ∀ left s, 0 < left → left ≤ length → P left s →
      call' (length - left) left s = call (length - left) left s)
    (fuel left : Nat) (hleft : left ≤ length) (s : σ) (hs : P left s) :
    fixLoop call' length fuel (length - left) left s =
      fixLoop call length fuel (length - left) left s := by
  induction fuel generalizing left s with
  | zero => rfl
  | succ fuel ih =>
      by_cases hzero : left = 0
      · rw [fixLoop, fixLoop, if_pos hzero, if_pos hzero]
      · rcases hround left s (by omega) hleft hs with ⟨k, s₁, hcall, hle, hs₁⟩
        have hcall' := (hsame left s (by omega) hleft hs).trans hcall
        rw [fixLoop, fixLoop, if_neg hzero, if_neg hzero, bind_ok _ _ _ _ _ hcall,
          bind_ok _ _ _ _ _ hcall']
        by_cases hk : k = 0
        · simp only [hk]
          rfl
        · have hadd := addWord_left length left k hlen hleft hle
          have hsub : subWord left k = left - k := by rw [subWord, if_pos hle]
          simp only [wordOfInt_natCast, hk, if_false, hadd, hsub]
          exact ih (left - k) (by omega) s₁ hs₁

/-- The rule for `writeLoop`, the same. -/
theorem writeLoop_rule (call : Nat → Nat → Prog ε σ Int) (length : Nat) (hlen : length < 2 ^ 64)
    (P : Nat → σ → Prop)
    (hround : ∀ left s, 0 < left → left ≤ length → P left s →
      ∃ k s', call (length - left) left s = .ok (k : Nat) s' ∧ 0 < k ∧ k ≤ left ∧
        P (left - k) s')
    (fuel left : Nat) (hfuel : left < fuel) (hleft : left ≤ length) (s : σ) (hs : P left s) :
    ∃ s', writeLoop call length fuel (length - left) left s = .ok (intOfWord length) s' ∧
      P 0 s' := by
  induction fuel generalizing left s with
  | zero => omega
  | succ fuel ih =>
      by_cases hzero : left = 0
      · rw [writeLoop, if_pos hzero]
        rw [hzero] at hs
        exact ⟨s, rfl, hs⟩
      · rcases hround left s (by omega) hleft hs with ⟨k, s₁, hcall, hk, hle, hs₁⟩
        have hadd := addWord_left length left k hlen hleft hle
        have hnz : k ≠ 0 := by omega
        rw [writeLoop, if_neg hzero, bind_ok _ _ _ _ _ hcall]
        simp only [wordOfInt_natCast, hnz, if_false, hadd]
        -- The extra comparison and the subtraction agree, as no call transfers too much.
        by_cases hall : left ≤ k
        · have hnone : left - k = 0 := by omega
          have hrest := ih (left - k) (by omega) (by omega) s₁ hs₁
          rw [hnone] at hrest ⊢
          rw [if_pos hall]
          exact hrest
        · have hsub : subWord left k = left - k := by rw [subWord, if_pos hle]
          rw [if_neg hall, hsub]
          exact ih (left - k) (by omega) (by omega) s₁ hs₁

/-- A round in which some of what is left is transferred. -/
theorem fixRound_some (call : Nat → Nat → Prog ε σ Int) (length offset left k : Nat) (s s' : σ)
    (hk : 0 < k) (hle : k ≤ left) (hsum : offset + k < 2 ^ 64)
    (hcall : call offset left s = .ok (k : Nat) s') :
    fixRound call length offset left s =
      .ok (if k = left then .inl (intOfWord length) else .inr (offset + k, left - k)) s' := by
  have hsub : subWord left k = left - k := by rw [subWord, if_pos hle]
  have hadd : addWord offset k = offset + k := by rw [addWord, if_pos hsum]
  have hnz : k ≠ 0 := by omega
  rw [fixRound, bind_ok _ _ _ _ _ hcall]
  simp only [wordOfInt_natCast, hnz, if_false, hsub, hadd]
  by_cases hall : k = left
  · rw [if_pos hall, if_pos (by omega)]
    rfl
  · rw [if_neg hall, if_neg (by omega)]
    rfl

/-- The same of the other loop. -/
theorem writeRound_some (write : Nat → Nat → Prog ε σ Int) (length offset left k : Nat)
    (s s' : σ) (hk : 0 < k) (hle : k ≤ left) (hsum : offset + k < 2 ^ 64)
    (hcall : write offset left s = .ok (k : Nat) s') :
    writeRound write length offset left s =
      .ok (if k = left then .inl (intOfWord length) else .inr (offset + k, left - k)) s' := by
  have hsub : subWord left k = left - k := by rw [subWord, if_pos hle]
  have hadd : addWord offset k = offset + k := by rw [addWord, if_pos hsum]
  have hnz : k ≠ 0 := by omega
  rw [writeRound, bind_ok _ _ _ _ _ hcall]
  simp only [wordOfInt_natCast, hnz, if_false, hsub, hadd]
  by_cases hall : k = left
  · rw [if_pos hall, if_pos (by omega)]
    rfl
  · rw [if_neg hall, if_neg (by omega)]
    rfl

/-- A loop returns the truncated length or zero, whatever the calls do. -/
theorem fixLoop_result (call : Nat → Nat → Prog ε σ Int) (length fuel offset left : Nat)
    (s s' : σ) (r : Int) (h : fixLoop call length fuel offset left s = .ok r s') :
    r = intOfWord length ∨ r = 0 := by
  induction fuel generalizing offset left s with
  | zero =>
      rw [fixLoop] at h
      cases h
  | succ fuel ih =>
      rw [fixLoop] at h
      by_cases hzero : left = 0
      · rw [if_pos hzero] at h
        cases h
        exact Or.inl rfl
      · rw [if_neg hzero] at h
        rcases hcall : call offset left s with ⟨k, s₁⟩ | ⟨e, s₁⟩ | _ | _
        · rw [bind_ok _ _ _ _ _ hcall] at h
          by_cases hlen : wordOfInt k = 0
          · simp only [hlen, if_true, intOfWord_zero] at h
            cases h
            exact Or.inr rfl
          · simp only [hlen, if_false] at h
            exact ih _ _ s₁ h
        -- If the call does not return, neither does the loop.
        · rw [bind_throw _ _ _ _ _ hcall] at h
          cases h
        · rw [bind_fault _ _ _ hcall] at h
          cases h
        · simp only [bind, hcall] at h
          cases h

end Stream

namespace Socket

/-- Connected, with exactly `bs` to be received. -/
structure Ready (s : Socket) (bs : List UInt8) : Prop where
  connected : s.connected = true
  inbox : s.inbox = bs

/-- Connected, with exactly `bs` sent so far. -/
structure Sent (s : Socket) (bs : List UInt8) : Prop where
  connected : s.connected = true
  outbox : s.outbox = bs

theorem share_spec (s : Socket) (n : Nat) (hn : 0 < n) : 0 < s.share n ∧ s.share n ≤ n := by
  unfold share
  omega

/-- A receive takes some of the bytes that are there off the front. -/
theorem recv_some (s : Socket) (n : Nat) (hn : 0 < n) (hconn : s.connected = true)
    (hin : s.inbox ≠ []) :
    ∃ k s', recv n s = .ok ((k : Nat), s.inbox.take k) s' ∧ 0 < k ∧ k ≤ n ∧
      k ≤ s.inbox.length ∧ s'.Ready (s.inbox.drop k) ∧ s'.outbox = s.outbox := by
  have hlen := List.length_pos_of_ne_nil hin
  rcases share_spec s (min n s.inbox.length) (by omega) with ⟨hpos, hle⟩
  refine ⟨s.share (min n s.inbox.length),
    { s with inbox := s.inbox.drop (s.share (min n s.inbox.length)), calls := s.calls + 1 }, ?_,
    hpos, by omega, by omega, ⟨hconn, rfl⟩, rfl⟩
  rw [recv, if_pos hconn]

/-- A receive of bytes that are all there. -/
theorem recv_ready (s : Socket) (bs rest : List UInt8) (hbs : bs ≠ [])
    (h : s.Ready (bs ++ rest)) :
    ∃ k s', recv bs.length s = .ok ((k : Nat), bs.take k) s' ∧ 0 < k ∧ k ≤ bs.length ∧
      s'.Ready (bs.drop k ++ rest) ∧ s'.outbox = s.outbox := by
  rcases recv_some s bs.length (List.length_pos_of_ne_nil hbs) h.connected
    (by rw [h.inbox]; exact List.append_ne_nil_of_left_ne_nil hbs rest) with
    ⟨k, s', hrun, hpos, hle, -, hready, hout⟩
  rw [h.inbox, List.take_append_of_le_length hle] at hrun
  rw [h.inbox, List.drop_append_of_le_length hle] at hready
  exact ⟨k, s', hrun, hpos, hle, hready, hout⟩

/-- At the end of the stream nothing is received. -/
theorem recv_empty (s : Socket) (n : Nat) (hconn : s.connected = true) (hin : s.inbox = []) :
    ∃ s', recv n s = .ok (0, []) s' ∧ s'.inbox = [] := by
  refine ⟨_, by rw [recv, if_pos hconn]; simp [hin, share]; rfl, ?_⟩
  rfl

/-- A send passes some bytes from the front. -/
theorem send_sent (s : Socket) (bs out : List UInt8) (hbs : bs ≠ []) (h : s.Sent out) :
    ∃ k s', send bs s = .ok (k : Nat) s' ∧ 0 < k ∧ k ≤ bs.length ∧
      s'.Sent (out ++ bs.take k) ∧ s'.inbox = s.inbox := by
  rcases share_spec s bs.length (List.length_pos_of_ne_nil hbs) with ⟨hpos, hle⟩
  refine ⟨s.share bs.length,
    { s with outbox := s.outbox ++ bs.take (s.share bs.length), calls := s.calls + 1 }, ?_, hpos,
    hle, ⟨h.connected, ?_⟩, rfl⟩
  · rw [send, if_pos h.connected]
  · simp only [h.outbox]

end Socket

namespace SocketStream

/-- The last `left` bytes. -/
theorem length_drop_left (bs : List UInt8) (left : Nat) (h : left ≤ bs.length) :
    (bs.drop (bs.length - left)).length = left := by
  rw [List.length_drop]
  omega

/-! ## Into and out of a buffer -/

/-- One read into a buffer: some of the bytes that are there are stored at the offset. -/
theorem read_some (s : Socket) (buffer : List UInt8) (offset n : Nat) (hn : 0 < n)
    (hconn : s.connected = true) (hin : s.inbox ≠ []) (hfit : offset + n ≤ buffer.length) :
    ∃ k s', read offset n (s, buffer) =
        .ok (k : Nat) (s', overwrite buffer offset (s.inbox.take k)) ∧
      0 < k ∧ k ≤ n ∧ k ≤ s.inbox.length ∧ s'.Ready (s.inbox.drop k) ∧ s'.outbox = s.outbox := by
  rcases Socket.recv_some s n hn hconn hin with ⟨k, s', hrecv, hpos, hle, hall, hready, hout⟩
  have htake : (s.inbox.take k).length = k := by
    rw [List.length_take]
    omega
  refine ⟨k, s', ?_, hpos, hle, hall, hready, hout⟩
  rw [read, bind_ok _ _ _ _ _ (first_ok _ s s' buffer _ hrecv)]
  simp only []
  rw [bind_ok _ _ _ _ _ (get_apply _)]
  simp only [htake]
  rw [if_neg (by omega), if_neg (by omega)]
  rfl

/-- One read of bytes that are all there. -/
theorem read_stored (s : Socket) (buffer : List UInt8) (offset : Nat) (todo rest : List UInt8)
    (htodo : todo ≠ []) (h : s.Ready (todo ++ rest))
    (hfit : offset + todo.length ≤ buffer.length) :
    ∃ k s', read offset todo.length (s, buffer) =
        .ok (k : Nat) (s', overwrite buffer offset (todo.take k)) ∧
      0 < k ∧ k ≤ todo.length ∧ s'.Ready (todo.drop k ++ rest) ∧ s'.outbox = s.outbox := by
  rcases read_some s buffer offset todo.length (List.length_pos_of_ne_nil htodo) h.connected
    (by rw [h.inbox]; exact List.append_ne_nil_of_left_ne_nil htodo rest) hfit with
    ⟨k, s', hrun, hpos, hle, -, hready, hout⟩
  rw [h.inbox, List.take_append_of_le_length hle] at hrun
  rw [h.inbox, List.drop_append_of_le_length hle] at hready
  exact ⟨k, s', hrun, hpos, hle, hready, hout⟩

/-- New bytes go right behind those that are there. -/
theorem overwrite_behind (buffer got bs : List UInt8) (hbuf : buffer.take got.length = got)
    (hlen : got.length + bs.length ≤ buffer.length) :
    (overwrite buffer got.length bs).take (got.length + bs.length) = got ++ bs ∧
      (overwrite buffer got.length bs).length = buffer.length := by
  have hover := take_overwrite buffer got.length bs (by omega)
  rw [hbuf] at hover
  exact ⟨hover, length_overwrite _ _ _ hlen⟩

/-- One read into a buffer that has been filled up to the offset. -/
theorem read_ready (s : Socket) (buffer got todo rest : List UInt8) (htodo : todo ≠ [])
    (h : s.Ready (todo ++ rest)) (hbuf : buffer.take got.length = got)
    (hlen : buffer.length = got.length + todo.length) :
    ∃ k s' buffer', read got.length todo.length (s, buffer) = .ok (k : Nat) (s', buffer') ∧
      0 < k ∧ k ≤ todo.length ∧ s'.Ready (todo.drop k ++ rest) ∧
      buffer'.take (got.length + k) = got ++ todo.take k ∧ buffer'.length = buffer.length := by
  rcases read_stored s buffer got.length todo rest htodo h (by omega) with
    ⟨k, s', hrun, hpos, hle, hready, -⟩
  have htake : (todo.take k).length = k := by
    rw [List.length_take]
    omega
  have hover := overwrite_behind buffer got (todo.take k) hbuf (by omega)
  rw [htake] at hover
  exact ⟨k, s', overwrite buffer got.length (todo.take k), hrun, hpos, hle, hready, hover.1,
    hover.2⟩

/-- At the end of the stream nothing is stored. -/
theorem read_empty (s : Socket) (buffer : List UInt8) (offset n : Nat)
    (hconn : s.connected = true) (hin : s.inbox = []) :
    ∃ s', read offset n (s, buffer) = .ok 0 (s', buffer) ∧ s'.inbox = [] := by
  rcases Socket.recv_empty s n hconn hin with ⟨s', hrecv, hin'⟩
  refine ⟨s', ?_, hin'⟩
  rw [read, bind_ok _ _ _ _ _ (first_ok _ s s' buffer _ hrecv)]
  rfl

/-- The part of a buffer behind what is there is filled with the next bytes, however
    they come in. -/
theorem readFixSize_behind (s : Socket) (front buffer bs rest : List UInt8)
    (hbs : bs.length < 2 ^ 31) (h : s.Ready (bs ++ rest))
    (hfront : buffer.take front.length = front)
    (hlen : buffer.length = front.length + bs.length) :
    ∃ s', Stream.readFixSize (fun i n => read (front.length + i) n) (bs.length + 1) bs.length
        (s, buffer) = .ok (bs.length : Nat) (s', front ++ bs) ∧ s'.Ready rest := by
  -- What is left to receive determines what has been received.
  rcases Stream.fixLoop_rule (fun i n => read (front.length + i) n) bs.length (by omega)
    (fun left st => st.1.Ready (bs.drop (bs.length - left) ++ rest) ∧
      st.2.take (front.length + (bs.length - left)) = front ++ bs.take (bs.length - left) ∧
      st.2.length = front.length + bs.length)
    (by
      rintro left ⟨s, buffer⟩ hpos hle ⟨hready, hbuf, hlen⟩
      have hgot : (front ++ bs.take (bs.length - left)).length =
          front.length + (bs.length - left) := by
        rw [List.length_append, List.length_take]
        omega
      have htodo := length_drop_left bs left hle
      rcases read_ready s buffer (front ++ bs.take (bs.length - left))
        (bs.drop (bs.length - left)) rest (List.ne_nil_of_length_pos (by omega)) hready
        (by rw [hgot]; exact hbuf) (by rw [hgot, htodo]; simp only [] at hlen; omega) with
        ⟨k, s', buffer', hrun, hk, hkle, hready', hbuf', hlen'⟩
      rw [hgot, htodo] at hrun
      rw [hgot, List.append_assoc, ← List.take_add] at hbuf'
      rw [List.drop_drop] at hready'
      have heq : bs.length - left + k = bs.length - (left - k) := by omega
      rw [Nat.add_assoc, heq] at hbuf'
      rw [heq] at hready'
      exact ⟨k, (s', buffer'), hrun, hk, by omega, hready', hbuf', hlen'.trans hlen⟩)
    (bs.length + 1) bs.length (by omega) (Nat.le_refl _) (s, buffer)
    ⟨by rw [Nat.sub_self, List.drop_zero]; exact h,
      by rw [Nat.sub_self, List.take_zero, List.append_nil]; exact hfront, hlen⟩ with
    ⟨⟨s', buffer'⟩, hrun, hready, hbuf, hlen'⟩
  rw [Nat.sub_zero, List.drop_length] at hready
  simp only [Nat.sub_zero, List.take_length] at hbuf hlen'
  rw [← hlen', List.take_length] at hbuf
  rw [Nat.sub_self, intOfWord_small _ hbs, hbuf] at hrun
  exact ⟨s', hrun, hready⟩

/-- A buffer is filled with the next bytes. -/
theorem readFixSize_ready (s : Socket) (buffer bs rest : List UInt8) (hbs : bs.length < 2 ^ 31)
    (h : s.Ready (bs ++ rest)) (hlen : buffer.length = bs.length) :
    ∃ s', Stream.readFixSize read (bs.length + 1) bs.length (s, buffer) =
      .ok (bs.length : Nat) (s', bs) ∧ s'.Ready rest := by
  rcases readFixSize_behind s [] buffer bs rest hbs h rfl
    (by rw [hlen]; exact (Nat.zero_add _).symm)
    with ⟨s', hrun, hready⟩
  simp only [List.length_nil, Nat.zero_add, List.nil_append] at hrun
  exact ⟨s', hrun, hready⟩

/-- One read into a part of a buffer, of which the transport may have too little or
    nothing at all. -/
theorem read_inside (s : Socket) (buffer : List UInt8) (offset n : Nat)
    (hconn : s.connected = true) (hfit : offset + n ≤ buffer.length) :
    ∃ k s' buffer', read offset n (s, buffer) = .ok (k : Nat) (s', buffer') ∧ k ≤ n ∧
      s'.connected = true ∧ buffer'.length = buffer.length ∧
      s'.inbox.length + k = s.inbox.length := by
  have hk : s.share (min n s.inbox.length) ≤ min n s.inbox.length := Nat.min_le_right _ _
  have htake : (s.inbox.take (s.share (min n s.inbox.length))).length =
      s.share (min n s.inbox.length) := by
    rw [List.length_take]
    omega
  have hrecv : Socket.recv n s = .ok ((s.share (min n s.inbox.length) : Nat),
      s.inbox.take (s.share (min n s.inbox.length)))
      { s with inbox := s.inbox.drop (s.share (min n s.inbox.length)),
               calls := s.calls + 1 } := by
    rw [Socket.recv, if_pos hconn]
  rw [read, bind_ok _ _ _ _ _ (first_ok _ s _ buffer _ hrecv)]
  simp only []
  rw [bind_ok _ _ _ _ _ (get_apply _)]
  simp only [htake]
  -- At the end of the stream the share is zero, and nothing is stored.
  by_cases hzero : s.share (min n s.inbox.length) = 0
  · rw [if_pos hzero]
    refine ⟨_, _, _, rfl, by omega, hconn, rfl, ?_⟩
    simp only [List.length_drop]
    omega
  · rw [if_neg hzero, if_neg (by omega)]
    refine ⟨_, _, _, rfl, by omega, hconn, ?_, ?_⟩
    · simp only []
      rw [length_overwrite _ _ _ (by omega)]
    · simp only [List.length_drop]
      omega

/-- The same as a round of a loop, whose invariant is the number of bytes to come. -/
theorem read_round (s₀ : Socket) (buffer₀ : List UInt8) (base n : Nat)
    (hfit : base + n ≤ buffer₀.length) (left : Nat) (st : Socket × List UInt8)
    (hle : left ≤ n) (hst : st.1.connected = true ∧ st.2.length = buffer₀.length ∧
      st.1.inbox.length + (n - left) ≤ s₀.inbox.length) :
    ∃ k st', read (base + (n - left)) left st = .ok (k : Nat) st' ∧ k ≤ left ∧
      st'.1.connected = true ∧ st'.2.length = buffer₀.length ∧
      st'.1.inbox.length + (n - (left - k)) ≤ s₀.inbox.length := by
  rcases hst with ⟨hconn, hlen, hin⟩
  rcases read_inside st.1 st.2 (base + (n - left)) left hconn (by omega) with
    ⟨k, s', buffer', hread, hk, hconn', hlen', hin'⟩
  exact ⟨k, (s', buffer'), hread, hk, hconn', hlen'.trans hlen, by simp only []; omega⟩

/-- A read into a part of a buffer, of which the transport may have too little:
    nothing is stored outside the buffer, and a result above zero means that all
    bytes were there. -/
theorem readFixSize_inside (s : Socket) (buffer : List UInt8) (base n : Nat) (hn : n < 2 ^ 64)
    (hconn : s.connected = true) (hfit : base + n ≤ buffer.length) :
    ∃ r s' buffer', Stream.readFixSize (fun offset m => read (base + offset) m) (n + 1) n
        (s, buffer) = .ok r (s', buffer') ∧
      s'.connected = true ∧ buffer'.length = buffer.length ∧
      s'.inbox.length ≤ s.inbox.length ∧ (0 < r → s'.inbox.length + n ≤ s.inbox.length) := by
  have hends := Stream.fixLoop_ends (fun offset m => read (base + offset) m) n hn
    (fun left st => st.1.connected = true ∧ st.2.length = buffer.length ∧
      st.1.inbox.length + (n - left) ≤ s.inbox.length)
    (fun left st _ hle hst => read_round s buffer base n hfit left st hle hst)
    (n + 1) n (by omega) (Nat.le_refl _) (s, buffer)
    ⟨hconn, rfl, by rw [Nat.sub_self]; exact Nat.le_refl _⟩
  rw [Nat.sub_self] at hends
  rcases hends with ⟨⟨s', buf⟩, hrun, hconn', hlen', hin⟩ |
    ⟨left', s₁, ⟨s', buf⟩, -, -, -, ⟨hconn', hlen', hin⟩, -, hrun⟩
  · simp only [] at hin
    exact ⟨_, s', buf, hrun, hconn', hlen', by omega, fun _ => by omega⟩
  · simp only [] at hin
    exact ⟨_, s', buf, hrun, hconn', hlen', by omega, fun h => absurd h (Int.lt_irrefl 0)⟩

/-- Such a read needs no more than that part of the buffer: another `read` that agrees
    there gives the same. -/
theorem readFixSize_congr (read' : Nat → Nat → Prog Exn (Socket × List UInt8) Int) (s : Socket)
    (buffer : List UInt8) (base n : Nat) (hn : n < 2 ^ 64) (hconn : s.connected = true)
    (hfit : base + n ≤ buffer.length)
    (hsame : ∀ offset m st, base ≤ offset → offset + m ≤ base + n →
      st.2.length = buffer.length → read' offset m st = read offset m st) (fuel : Nat) :
    Stream.readFixSize (fun offset m => read' (base + offset) m) fuel n (s, buffer) =
      Stream.readFixSize (fun offset m => read (base + offset) m) fuel n (s, buffer) := by
  have hloop := Stream.fixLoop_congr (fun offset m => read (base + offset) m)
    (fun offset m => read' (base + offset) m) n hn
    (fun left st => st.1.connected = true ∧ st.2.length = buffer.length ∧
      st.1.inbox.length + (n - left) ≤ s.inbox.length)
    (fun left st _ hle hst => read_round s buffer base n hfit left st hle hst)
    (fun left st _ hle hst => hsame _ _ st (by omega) (by omega) hst.2.1)
    fuel n (Nat.le_refl _) (s, buffer) ⟨hconn, rfl, by rw [Nat.sub_self]; exact Nat.le_refl _⟩
  rw [Nat.sub_self] at hloop
  exact hloop

/-- One write from a buffer: some of the `n` bytes at the offset. -/
theorem write_taken (s : Socket) (buffer out : List UInt8) (offset n : Nat) (hn : 0 < n)
    (hfit : offset + n ≤ buffer.length) (h : s.Sent out) :
    ∃ k s', write buffer offset n s = .ok (k : Nat) s' ∧ 0 < k ∧ k ≤ n ∧
      s'.Sent (out ++ (buffer.drop offset).take k) ∧ s'.inbox = s.inbox := by
  have hlen : ((buffer.drop offset).take n).length = n := by
    rw [List.length_take, List.length_drop]
    omega
  rcases Socket.send_sent s _ out (List.ne_nil_of_length_pos (by rw [hlen]; exact hn)) h with
    ⟨k, s', hsend, hk, hkle, hsent, hinbox⟩
  rw [hlen] at hkle
  rw [List.take_take, Nat.min_eq_left hkle] at hsent
  refine ⟨k, s', ?_, hk, hkle, hsent, hinbox⟩
  rw [write, if_pos h.connected, if_neg (by omega)]
  exact hsend

/-- One write of what is left of a buffer. -/
theorem write_sent (s : Socket) (bs out : List UInt8) (left : Nat) (hpos : 0 < left)
    (hle : left ≤ bs.length) (h : s.Sent (out ++ bs.take (bs.length - left))) :
    ∃ k s', write bs (bs.length - left) left s = .ok (k : Nat) s' ∧ 0 < k ∧ k ≤ left ∧
      s'.Sent (out ++ bs.take (bs.length - (left - k))) ∧ s'.inbox = s.inbox := by
  rcases write_taken s bs _ (bs.length - left) left hpos (by omega) h with
    ⟨k, s', hrun, hk, hkle, hsent, hinbox⟩
  refine ⟨k, s', hrun, hk, hkle, ?_, hinbox⟩
  rw [List.append_assoc, ← List.take_add] at hsent
  have heq : bs.length - left + k = bs.length - (left - k) := by omega
  rw [heq] at hsent
  exact hsent

/-- A buffer is sent whole. -/
theorem writeFixSize_sent (s : Socket) (bs out : List UInt8) (hbs : bs.length < 2 ^ 31)
    (h : s.Sent out) :
    ∃ s', Stream.writeFixSize (write bs) (bs.length + 1) bs.length s =
      .ok (bs.length : Nat) s' ∧ s'.Sent (out ++ bs) ∧ s'.inbox = s.inbox := by
  rcases Stream.writeLoop_rule (write bs) bs.length (by omega)
    (fun left t => t.Sent (out ++ bs.take (bs.length - left)) ∧ t.inbox = s.inbox)
    (by
      rintro left t hpos hle ⟨hsent, hinbox⟩
      rcases write_sent t bs out left hpos hle hsent with
        ⟨k, t', hrun, hk, hkle, hsent', hinbox'⟩
      exact ⟨k, t', hrun, hk, hkle, hsent', hinbox'.trans hinbox⟩)
    (bs.length + 1) bs.length (by omega) (Nat.le_refl _) s
    ⟨by rw [Nat.sub_self, List.take_zero, List.append_nil]; exact h, rfl⟩ with
    ⟨s', hrun, hsent, hinbox⟩
  rw [Nat.sub_zero, List.take_length] at hsent
  rw [Nat.sub_self, intOfWord_small _ hbs] at hrun
  exact ⟨s', hrun, hsent, hinbox⟩

/-! ## Into and out of a byte array -/

/-- One read into a byte array: some of the bytes that are there are stored at the cursor,
    behind which there is room for all that was asked for. -/
theorem readBytes_some (s : Socket) (ba : ByteArray) (hba : ba.Inv) (n : Nat) (hn : 0 < n)
    (hconn : s.connected = true) (hin : s.inbox ≠ []) :
    ∃ k s' ba' tail, readBytes n (s, ba) = .ok (k : Nat) (s', ba') ∧ 0 < k ∧ k ≤ n ∧
      k ≤ s.inbox.length ∧ s'.Ready (s.inbox.drop k) ∧ ba'.Inv ∧
      ba'.memory = overwrite (ba.memory ++ tail) ba.position (s.inbox.take k) ∧
      ba'.position = ba.position + k ∧ ba'.size = max ba.size (ba.position + k) ∧
      ba'.capacity = ByteArray.grownCapacity ba n ∧
      (ba.memory ++ tail).length = ba'.capacity ∧ ba.position + n ≤ ba'.capacity := by
  rcases ByteArray.getWriteBuffers_spec ba hba n hn with
    ⟨ba₁, tail, iovs, hbufs, hinv₁, hmem₁, hpos₁, hsize₁, -, -, hcap₁, hfit, hscatter⟩
  -- The scatter list offers as much as was asked for, so the cut is the transport's alone.
  have htotal := ByteArray.getWriteBuffers_total ba ba₁ _ _ iovs hbufs
  rcases Socket.recv_some s n hn hconn hin with ⟨k, s', hrecv, hk, hkle, hall, hready, -⟩
  have htake : (s.inbox.take k).length = k := by
    rw [List.length_take]
    omega
  rcases hscatter (s.inbox.take k) (by omega) with ⟨hinv₂, hflat⟩
  rcases ByteArray.setPosition_spec _ hinv₂ (ba.position + k) (by simp only []; omega) with
    ⟨ba₃, hset, hinv₃, hmem₃, hpos₃, hsize₃, -, -, hcap₃⟩
  simp only [] at hsize₃ hcap₃
  have hmem₂ : ByteArray.memory
      { ba₁ with nodes := ByteArray.scatter iovs (s.inbox.take k) ba₁.nodes } =
      overwrite (ByteArray.memory ba₁) ba.position (s.inbox.take k) := hflat
  refine ⟨k, s', ba₃, tail, ?_, hk, hkle, hall, hready, hinv₃, ?_, hpos₃, ?_, ?_, ?_, ?_⟩
  · rw [readBytes, bind_ok _ _ _ _ _ (get_apply _)]
    simp only [hconn, not_true, if_false]
    rw [bind_ok _ _ _ _ _ (second_ok _ s ba ba₁ _ hbufs)]
    simp only [htotal]
    rw [bind_ok _ _ _ _ _ (first_ok _ s s' ba₁ _ hrecv)]
    have hat' : ba₁.position + (k : Int).toNat = ba.position + k := by
      rw [Int.toNat_natCast, hpos₁]
    have hkpos : (0 : Int) < (k : Nat) := by omega
    simp only []
    rw [bind_ok _ _ _ _ _ (modify_apply _ _), if_pos hkpos, bind_ok _ _ _ _ _ (get_apply _)]
    simp only [hat']
    rw [bind_ok _ _ _ _ _ (second_ok _ s' _ ba₃ _ hset)]
    rfl
  · rw [hmem₃, hmem₂, hmem₁]
  · rw [hsize₃, hsize₁]
  · rw [hcap₃, hcap₁]
  · rw [← hmem₁, hinv₁.length_memory, hcap₃]
  · rw [hcap₃]
    exact hfit

/-- One read of bytes that are all there. -/
theorem readBytes_stored (s : Socket) (ba : ByteArray) (hba : ba.Inv) (todo rest : List UInt8)
    (htodo : todo ≠ []) (h : s.Ready (todo ++ rest)) :
    ∃ k s' ba' tail, readBytes todo.length (s, ba) = .ok (k : Nat) (s', ba') ∧ 0 < k ∧
      k ≤ todo.length ∧ s'.Ready (todo.drop k ++ rest) ∧ ba'.Inv ∧
      ba'.memory = overwrite (ba.memory ++ tail) ba.position (todo.take k) ∧
      ba'.position = ba.position + k ∧ ba'.size = max ba.size (ba.position + k) ∧
      ba'.capacity = ByteArray.grownCapacity ba todo.length ∧
      (ba.memory ++ tail).length = ba'.capacity ∧ ba.position + todo.length ≤ ba'.capacity := by
  rcases readBytes_some s ba hba todo.length (List.length_pos_of_ne_nil htodo) h.connected
    (by rw [h.inbox]; exact List.append_ne_nil_of_left_ne_nil htodo rest) with
    ⟨k, s', ba', tail, hrun, hk, hkle, -, hready, hinv, hmem, hrest⟩
  rw [h.inbox, List.take_append_of_le_length hkle] at hmem
  rw [h.inbox, List.drop_append_of_le_length hkle] at hready
  exact ⟨k, s', ba', tail, hrun, hk, hkle, hready, hinv, hmem, hrest⟩

/-- At the end of the data the bytes are appended. -/
theorem readBytes_appended (s : Socket) (ba : ByteArray) (got : List UInt8) (n : Nat) (hn : 0 < n)
    (hconn : s.connected = true) (hin : s.inbox ≠ []) (hba : ba.Written got) :
    ∃ k s' ba', readBytes n (s, ba) = .ok (k : Nat) (s', ba') ∧ 0 < k ∧ k ≤ n ∧
      k ≤ s.inbox.length ∧ s'.Ready (s.inbox.drop k) ∧ ba'.Written (got ++ s.inbox.take k) ∧
      ba'.capacity = ByteArray.grownCapacity ba n ∧ got.length + n ≤ ba'.capacity := by
  have hglen := hba.length
  have hat := hba.atEnd
  have hml := hba.inv.length_memory
  have hsc := hba.inv.size_le
  rcases readBytes_some s ba hba.inv n hn hconn hin with
    ⟨k, s', ba', tail, hrun, hk, hkle, hall, hready, hinv, hmem, hpos, hsize, hcap, -, hfit⟩
  have htake : (s.inbox.take k).length = k := by
    rw [List.length_take]
    omega
  refine ⟨k, s', ba', hrun, hk, hkle, hall, hready, ⟨hinv, by omega, ?_⟩, hcap, by omega⟩
  -- The stored bytes are behind those that were there, and the size ends with them.
  have hbefore : (ba.memory ++ tail).take ba.position = got := by
    rw [List.take_append_of_le_length (by omega), hat]
    exact hba.bytes
  have hover := take_overwrite (ba.memory ++ tail) ba.position (s.inbox.take k)
    (by rw [List.length_append]; omega)
  rw [htake, hbefore] at hover
  have hend : ba'.size = ba.position + k := by omega
  rw [hmem, hend, hover]

/-- The same of bytes that are all there. -/
theorem readBytes_ready (s : Socket) (ba : ByteArray) (got todo rest : List UInt8)
    (htodo : todo ≠ []) (h : s.Ready (todo ++ rest)) (hba : ba.Written got) :
    ∃ k s' ba', readBytes todo.length (s, ba) = .ok (k : Nat) (s', ba') ∧ 0 < k ∧
      k ≤ todo.length ∧ s'.Ready (todo.drop k ++ rest) ∧ ba'.Written (got ++ todo.take k) ∧
      ba'.capacity = ByteArray.grownCapacity ba todo.length ∧
      got.length + todo.length ≤ ba'.capacity := by
  rcases readBytes_appended s ba got todo.length (List.length_pos_of_ne_nil htodo) h.connected
    (by rw [h.inbox]; exact List.append_ne_nil_of_left_ne_nil htodo rest) hba with
    ⟨k, s', ba', hrun, hk, hkle, -, hready, hwritten, hcap, hfit⟩
  rw [h.inbox, List.take_append_of_le_length hkle] at hwritten
  rw [h.inbox, List.drop_append_of_le_length hkle] at hready
  exact ⟨k, s', ba', hrun, hk, hkle, hready, hwritten, hcap, hfit⟩

/-- At the end of the stream nothing is appended. -/
theorem readBytes_empty (s : Socket) (ba : ByteArray) (hba : ba.Inv) (n : Nat) (hn : 0 < n)
    (hconn : s.connected = true) (hin : s.inbox = []) :
    ∃ s' ba', readBytes n (s, ba) = .ok 0 (s', ba') ∧ s'.inbox = [] := by
  rcases ByteArray.getWriteBuffers_spec ba hba n hn with ⟨ba₁, -, iovs, hbufs, -⟩
  rcases Socket.recv_empty s (iovs.map Iovec.len).sum hconn hin with ⟨s', hrecv, hin'⟩
  refine ⟨s', { ba₁ with nodes := ByteArray.scatter iovs [] ba₁.nodes }, ?_, hin'⟩
  rw [readBytes, bind_ok _ _ _ _ _ (get_apply _)]
  simp only [hconn, not_true, if_false]
  rw [bind_ok _ _ _ _ _ (second_ok _ s ba ba₁ _ hbufs)]
  simp only []
  rw [bind_ok _ _ _ _ _ (first_ok _ s s' ba₁ _ hrecv), bind_ok _ _ _ _ _ (modify_apply _ _),
    if_neg (by decide)]
  rfl

/-- The room made for `n` bytes at the cursor covers them, and stays enough for
    what is left of them. -/
theorem grownCapacity_later (ba ba' : ByteArray) (n k : Nat)
    (hcap : ba'.capacity = ByteArray.grownCapacity ba n) (hpos : ba'.position = ba.position + k)
    (hfit : ba.position + n ≤ ba'.capacity) (hk : k ≤ n) :
    ByteArray.grownCapacity ba' (n - k) = ByteArray.grownCapacity ba n := by
  have hroom : n - k ≤ ba'.getCapacity := by
    unfold ByteArray.getCapacity
    omega
  rw [← hcap, ByteArray.grownCapacity, if_pos hroom]

/-- A new byte array is filled with the next bytes, and its capacity is what it
    takes to hold them. -/
theorem readFixSizeBytes_ready (s : Socket) (ba : ByteArray) (bs rest : List UInt8)
    (hbs : 0 < bs.length) (hlt : bs.length < 2 ^ 31) (h : s.Ready (bs ++ rest))
    (hba : ba.Written []) :
    ∃ s' ba', Stream.readFixSizeBytes readBytes (bs.length + 1) bs.length (s, ba) =
        .ok (bs.length : Nat) (s', ba') ∧
      s'.Ready rest ∧ ba'.Written bs ∧
      ba'.capacity = ByteArray.grownCapacity ba bs.length := by
  -- The room for everything is made at the first read, so the capacity stays what it is then.
  rcases Stream.fixLoop_rule (fun _ left => readBytes left) bs.length (by omega)
    (fun left st => st.1.Ready (bs.drop (bs.length - left) ++ rest) ∧
      st.2.Written (bs.take (bs.length - left)) ∧
      (ByteArray.grownCapacity st.2 left = ByteArray.grownCapacity ba bs.length) ∧
      (left < bs.length → st.2.capacity = ByteArray.grownCapacity ba bs.length))
    (by
      rintro left ⟨s, ba₁⟩ hpos hle ⟨hready, hwritten, hgrown, -⟩
      have htodo := length_drop_left bs left hle
      rcases readBytes_ready s ba₁ (bs.take (bs.length - left)) (bs.drop (bs.length - left)) rest
        (List.ne_nil_of_length_pos (by omega)) hready hwritten with
        ⟨k, s', ba₂, hrun, hk, hkle, hready', hwritten', hcap, hfit⟩
      have hpos₁ := hwritten.atEnd
      have hlen₁ := hwritten.length
      have hpos₂ := hwritten'.atEnd
      have hlen₂ := hwritten'.length
      have hgot : (bs.take (bs.length - left)).length = bs.length - left := by
        rw [List.length_take]
        omega
      rw [List.length_append, hgot, List.length_take, htodo] at hlen₂
      rw [hgot] at hlen₁ hfit
      rw [htodo] at hrun hcap hfit hkle
      rw [← List.take_add] at hwritten'
      rw [List.drop_drop] at hready'
      have heq : bs.length - left + k = bs.length - (left - k) := by omega
      rw [heq] at hwritten' hready'
      simp only [] at hgrown hpos₁ hlen₁
      refine ⟨k, (s', ba₂), hrun, hk, hkle, hready', hwritten', ?_, fun _ => hcap.trans hgrown⟩
      rw [← hgrown]
      exact grownCapacity_later ba₁ ba₂ left k hcap (by omega) (by omega) hkle)
    (bs.length + 1) bs.length (by omega) (Nat.le_refl _) (s, ba)
    ⟨by rw [Nat.sub_self, List.drop_zero]; exact h, by rw [Nat.sub_self]; exact hba, rfl,
      fun hne => absurd hne (Nat.lt_irrefl _)⟩ with
    ⟨⟨s', ba'⟩, hrun, hready, hwritten, -, hcap⟩
  rw [Nat.sub_zero, List.drop_length] at hready
  rw [Nat.sub_zero, List.take_length] at hwritten
  rw [Nat.sub_self, intOfWord_small _ hlt] at hrun
  exact ⟨s', ba', hrun, hready, hwritten, hcap hbs⟩

/-- One write from a byte array: some of the `n` bytes at the cursor. -/
theorem writeBytes_taken (s : Socket) (ba : ByteArray) (hba : ba.Inv) (out : List UInt8) (n : Nat)
    (hn : 0 < n) (hfit : ba.position + n ≤ ba.size) (h : s.Sent out) :
    ∃ k s' ba', writeBytes n (s, ba) = .ok (k : Nat) (s', ba') ∧ 0 < k ∧ k ≤ n ∧
      s'.Sent (out ++ (ba.memory.drop ba.position).take k) ∧ ba'.Inv ∧ ba'.memory = ba.memory ∧
      ba'.position = ba.position + k ∧ ba'.size = ba.size := by
  rcases ByteArray.getReadBuffers_spec ba hba n hn (by omega) with ⟨iovs, hbufs, hgather⟩
  rw [show min n (ba.size - ba.position) = n by omega] at hgather
  have hsc := hba.size_le
  have hml := hba.length_memory
  have hlen : ((ba.memory.drop ba.position).take n).length = n := by
    rw [List.length_take, List.length_drop]
    omega
  rcases Socket.send_sent s _ out (List.ne_nil_of_length_pos (by rw [hlen]; exact hn)) h with
    ⟨k, s', hsend, hk, hkle, hsent, -⟩
  rw [hlen] at hkle
  rw [List.take_take, Nat.min_eq_left hkle] at hsent
  rcases ByteArray.setPosition_spec ba hba (ba.position + k) (by omega) with
    ⟨ba', hset, hinv, hmem, hpos', hsize, -, -, -⟩
  refine ⟨k, s', ba', ?_, hk, hkle, hsent, hinv, hmem, hpos', by omega⟩
  have hkpos : (0 : Int) < (k : Nat) := by omega
  rw [writeBytes, bind_ok _ _ _ _ _ (get_apply _)]
  simp only [h.connected, not_true, if_false]
  rw [bind_ok _ _ _ _ _ (second_ok _ s ba ba _ hbufs)]
  simp only []
  rw [bind_ok _ _ _ _ _ (get_apply _)]
  simp only [hgather]
  rw [bind_ok _ _ _ _ _ (first_ok _ s s' ba _ hsend), if_pos hkpos]
  simp only [Int.toNat_natCast]
  rw [bind_ok _ _ _ _ _ (second_ok _ s' ba ba' _ hset)]
  rfl

/-- One write of what is unread. -/
theorem writeBytes_sent (s : Socket) (ba : ByteArray) (out todo : List UInt8)
    (htodo : todo ≠ []) (h : s.Sent out) (hba : ba.Unread todo) :
    ∃ k s' ba', writeBytes todo.length (s, ba) = .ok (k : Nat) (s', ba') ∧ 0 < k ∧
      k ≤ todo.length ∧ s'.Sent (out ++ todo.take k) ∧ ba'.Unread (todo.drop k) ∧
      ba'.size = ba.size := by
  have hpos : 0 < todo.length := List.length_pos_of_ne_nil htodo
  have hlen := hba.length
  have hbytes := hba.bytes
  rw [← hlen] at hbytes
  rcases writeBytes_taken s ba hba.inv out todo.length hpos (by omega) h with
    ⟨k, s', ba', hrun, hk, hkle, hsent, hinv, hmem, hpos', hsize⟩
  have htake : todo.take k = (ba.memory.drop ba.position).take k := by
    rw [← hbytes, List.take_take, Nat.min_eq_left hkle]
  refine ⟨k, s', ba', hrun, hk, hkle, by rw [htake]; exact hsent, ⟨hinv, ?_⟩, hsize⟩
  -- The cursor is behind what was sent, and the rest is still unread.
  have hdrop := congrArg (List.drop k) hbytes
  rw [List.drop_take, List.drop_drop] at hdrop
  rw [hmem, hpos', ← hdrop]
  congr 1
  omega

/-- The unread bytes of a byte array are sent whole. -/
theorem writeFixSizeBytes_sent (s : Socket) (ba : ByteArray) (out bs : List UInt8)
    (hlt : bs.length < 2 ^ 64) (h : s.Sent out) (hba : ba.Unread bs) :
    ∃ s' ba', Stream.writeFixSizeBytes writeBytes (bs.length + 1) bs.length (s, ba) =
        .ok (intOfWord bs.length) (s', ba') ∧ s'.Sent (out ++ bs) := by
  rcases Stream.fixLoop_rule (fun _ left => writeBytes left) bs.length hlt
    (fun left st => st.1.Sent (out ++ bs.take (bs.length - left)) ∧
      st.2.Unread (bs.drop (bs.length - left)))
    (by
      rintro left ⟨s, ba⟩ hpos hle ⟨hsent, hunread⟩
      have htodo := length_drop_left bs left hle
      rcases writeBytes_sent s ba _ (bs.drop (bs.length - left))
        (List.ne_nil_of_length_pos (by omega)) hsent hunread with
        ⟨k, s', ba', hrun, hk, hkle, hsent', hunread', -⟩
      rw [htodo] at hrun hkle
      rw [List.append_assoc, ← List.take_add] at hsent'
      rw [List.drop_drop] at hunread'
      have heq : bs.length - left + k = bs.length - (left - k) := by omega
      rw [heq] at hsent' hunread'
      exact ⟨k, (s', ba'), hrun, hk, hkle, hsent', hunread'⟩)
    (bs.length + 1) bs.length (by omega) (Nat.le_refl _) (s, ba)
    ⟨by rw [Nat.sub_self, List.take_zero, List.append_nil]; exact h,
      by rw [Nat.sub_self, List.drop_zero]; exact hba⟩ with ⟨⟨s', ba'⟩, hrun, hsent, -⟩
  rw [Nat.sub_zero, List.take_length] at hsent
  rw [Nat.sub_self] at hrun
  exact ⟨s', ba', hrun, hsent⟩

end SocketStream

end YkServer
