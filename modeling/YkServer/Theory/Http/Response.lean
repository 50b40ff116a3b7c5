import Mathlib.Logic.Relation
import YkServer.Core.HttpResponse
import YkServer.Theory.Http.Session

/-!
# The Buffer of a Response

`recvResponse` puts a NUL behind what is in the buffer, and reads into all of the buffer. So
it needs a byte more than there is as soon as a read fills the buffer, and nothing that
the parser does afterwards makes up for it. `recvResponse_inside_iff` says that no other
access is outside, of the buffer or of the body.

In a buffer of more than 2³¹ bytes the same happens where the bytes are more than an `int`
counts.

## Main definitions

* `Round`: Where a round of the loop starts.
* `Round.Room`: What is read leaves a byte.
* `Next`: One round leads to another.

## Theorems

* `recvRound_read`, `recvRound_full`: One round.
* `recvHeader_inside`, `recvHeader_outside`: The loop.
* `recvBody_inside`: The body.
* `recvResponse_inside_iff`: The function.
* `buffer_filled`: A buffer that a read fills.
-/

namespace YkServer

open Lib

namespace HttpConnection

open HttpSession (nextRead afterRead read_at)

variable {π : Type} (P : ResponseParser π) (buffSize : Nat)

/-- Where a round of the loop starts. -/
structure Round (π : Type) where
  sock : Socket
  offset : Nat
  data : List UInt8
  parser : π

namespace Round

/-- How many bytes the read of the round stores. -/
def got (r : Round π) : Nat :=
  if r.sock.connected then nextRead (subWord buffSize r.offset) r.sock else 0

/-- What is in the buffer after the read leaves a byte of it, and an `int` can count it. -/
def Room (r : Round π) : Prop :=
  r.got buffSize = 0 ∨ r.got buffSize + r.offset < buffSize ∧ r.got buffSize + r.offset < 2 ^ 31

/-- What is in the buffer fits in. -/
structure InOrder (r : Round π) : Prop where
  length : r.data.length = buffSize
  offset : r.offset ≤ buffSize

/-- The part of the buffer that is read into. -/
theorem subWord_offset (r : Round π) (h : r.InOrder buffSize) :
    r.offset + subWord buffSize r.offset = r.data.length := by
  have hle := h.offset
  rw [h.length, subWord, if_pos hle]
  omega

end Round

/-- One round leads to another. -/
def Next (r r' : Round π) : Prop :=
  recvRound P buffSize r.offset r.data r.parser r.sock =
    .ok (.again r'.offset r'.data r'.parser) r'.sock

/-- What a round leaves for the next, or for the end of the function. -/
def left : RoundEnd π → Option (Nat × List UInt8 × π)
  | .closed => none
  | .again offset data parser => some (offset, data, parser)
  | .finished offset data parser => some (offset, data, parser)

/-! ## Accesses -/

theorem access_ok {σ : Type} (array : List UInt8) (start count : Nat) (s : σ)
    (h : start + count ≤ array.length) : access array start count s = .ok () s := by
  rw [access, if_neg (Nat.not_lt.2 h)]
  rfl

theorem access_fault {σ : Type} (array : List UInt8) (start count : Nat) (s : σ)
    (h : array.length < start + count) : access array start count s = .fault := by
  rw [access, if_pos h]
  rfl

/-! ## A round -/

variable (r : Round π)

/-- The read of a round. -/
theorem read_round (h : r.InOrder buffSize) :
    ∃ rt s' data', Prog.within r.data (SocketStream.read r.offset (subWord buffSize r.offset))
        r.sock = .ok (rt, data') s' ∧ data'.length = buffSize ∧ rt.toNat = r.got buffSize ∧
      (0 < rt → s'.connected = true ∧ s'.inbox.length < r.sock.inbox.length) := by
  have hrange := r.subWord_offset buffSize h
  unfold Round.got
  by_cases hconn : r.sock.connected = true
  · rw [if_pos hconn]
    set k := nextRead (subWord buffSize r.offset) r.sock with hk
    have hle : k ≤ min (subWord buffSize r.offset) r.sock.inbox.length := Nat.min_le_right _ _
    have hread := read_at (subWord buffSize r.offset) r.offset r.sock r.data hconn (by omega)
    refine ⟨_, _, _, hread, ?_, Int.toNat_natCast k, fun hpos => ⟨hconn, ?_⟩⟩
    · rw [length_overwrite _ _ _ (by rw [List.length_take]; omega), h.length]
    · rw [afterRead, List.length_drop]
      omega
  · rw [if_neg hconn]
    refine ⟨-1, r.sock, r.data, ?_, h.length, rfl, fun hpos => by omega⟩
    have hrecv : Socket.recv (subWord buffSize r.offset) r.sock = .ok (-1, []) r.sock := by
      rw [Socket.recv, if_neg hconn]
    refine within_ok _ r.sock r.sock r.data r.data _ ?_
    rw [SocketStream.read, bind_ok _ _ _ _ _ (first_ok _ _ _ _ _ hrecv)]
    rfl

/-- A round that reads nothing is the last. -/
theorem recvRound_silent (h : r.InOrder buffSize) (hgot : r.got buffSize = 0) :
    ∃ s', recvRound P buffSize r.offset r.data r.parser r.sock = .ok .closed s' := by
  rcases read_round buffSize r h with ⟨rt, s', data', hread, -, hrt, -⟩
  refine ⟨{ s' with connected := false }, ?_⟩
  rw [recvRound, bind_ok _ _ _ _ _ (access_ok _ _ _ _ (r.subWord_offset buffSize h).le),
    bind_ok _ _ _ _ _ hread]
  simp only []
  rw [if_pos (by omega)]
  rfl

/-- A round that reads more than there is room for. -/
theorem recvRound_full (h : r.InOrder buffSize) (hroom : ¬r.Room buffSize) :
    recvRound P buffSize r.offset r.data r.parser r.sock = .fault := by
  rcases read_round buffSize r h with ⟨rt, s', data', hread, hlength, hrt, -⟩
  rw [Round.Room, not_or, not_and_or, Nat.not_lt, Nat.not_lt, ← hrt] at hroom
  rw [recvRound, bind_ok _ _ _ _ _ (access_ok _ _ _ _ (r.subWord_offset buffSize h).le),
    bind_ok _ _ _ _ _ hread]
  simp only []
  rw [if_neg (by omega)]
  by_cases hint : 2 ^ 31 ≤ rt.toNat + r.offset
  · rw [if_pos hint]
    rfl
  · rw [if_neg hint]
    -- There is no byte for the NUL.
    have hfull := hroom.2.resolve_right hint
    exact bind_fault _ _ _ (access_fault _ _ _ _ (by omega))

/-- A round that reads no more than there is room for. -/
theorem recvRound_read (h : r.InOrder buffSize) (hgot : r.got buffSize ≠ 0)
    (hroom : r.Room buffSize) :
    ∃ e s', recvRound P buffSize r.offset r.data r.parser r.sock = .ok e s' ∧
      ∀ offset data parser, left e = some (offset, data, parser) →
        (Round.mk s' offset data parser).InOrder buffSize ∧ s'.connected = true ∧
          s'.inbox.length < r.sock.inbox.length := by
  rcases read_round buffSize r h with ⟨rt, s', data', hread, hlength, hrt, hsock⟩
  rcases hroom.resolve_left hgot with ⟨hsize, hint⟩
  rw [← hrt] at hgot hsize hint
  rcases hsock (by omega) with ⟨hconn, hless⟩
  set len := rt.toNat + r.offset with hlen
  set data₁ := overwrite data' len [0] with hdata₁
  have hlength₁ : data₁.length = buffSize := by
    rw [hdata₁, length_overwrite _ _ _ (by rw [hlength]; exact hsize), hlength]
  -- What the parser leaves is moved to the front.
  set nparse := (P.run data₁ len r.parser).1 with hnparse
  set data₂ := overwrite data₁ 0 ((data₁.take len).drop nparse) with hdata₂
  have hlength₂ : data₂.length = buffSize := by
    rw [hdata₂, length_overwrite, hlength₁]
    rw [List.length_drop, List.length_take]
    omega
  have hexecute : Prog.within r.parser (Prog.second (P.execute data₁ len)) s' =
      .ok ((nparse, data₂), (P.run data₁ len r.parser).2) s' :=
    within_ok _ _ _ _ _ _ (second_ok _ _ _ _ _ rfl)
  rw [recvRound, bind_ok _ _ _ _ _ (access_ok _ _ _ _ (r.subWord_offset buffSize h).le),
    bind_ok _ _ _ _ _ hread]
  simp only []
  rw [if_neg (by omega), if_neg (by omega),
    bind_ok _ _ _ _ _ (access_ok data' len 1 s' (by omega)),
    bind_ok _ _ _ _ _ (access_ok data₁ 0 len s' (by omega)), bind_ok _ _ _ _ _ hexecute]
  simp only []
  -- Whether the parser fails, the buffer counts as full, or the response is complete.
  have hinOrder : ∀ offset data parser, some (len - nparse, data₂, (P.run data₁ len r.parser).2) =
      some (offset, data, parser) → (Round.mk s' offset data parser).InOrder buffSize ∧
        s'.connected = true ∧ s'.inbox.length < r.sock.inbox.length := by
    intro offset data parser heq
    cases heq
    exact ⟨⟨hlength₂, (Nat.sub_le _ _).trans hsize.le⟩, hconn, hless⟩
  split
  · exact ⟨_, _, rfl, fun _ _ _ hno => by cases hno⟩
  · split
    · exact ⟨_, _, rfl, fun _ _ _ hno => by cases hno⟩
    · split
      · exact ⟨_, _, rfl, hinOrder⟩
      · exact ⟨_, _, rfl, hinOrder⟩

/-- What a round leads to. -/
theorem Next.spec (r' : Round π) (h : r.InOrder buffSize) (hnext : Next P buffSize r r') :
    r'.InOrder buffSize ∧ r'.sock.inbox.length < r.sock.inbox.length := by
  unfold Next at hnext
  have hroom : r.Room buffSize := by
    by_contra hfull
    rw [recvRound_full P buffSize r h hfull] at hnext
    cases hnext
  by_cases hgot : r.got buffSize = 0
  · rcases recvRound_silent P buffSize r h hgot with ⟨s', hrun⟩
    rw [hrun] at hnext
    cases hnext
  · rcases recvRound_read P buffSize r h hgot hroom with ⟨e, s', hrun, hleft⟩
    rw [hrun, Outcome.ok.injEq] at hnext
    rcases hleft r'.offset r'.data r'.parser (by rw [hnext.1]; rfl) with ⟨horder, -, hless⟩
    rw [hnext.2] at horder hless
    exact ⟨horder, hless⟩

/-! ## The loop -/

/-- The loop, if there is room in every round. -/
theorem recvHeader_inside (fuel : Nat) (h : r.InOrder buffSize)
    (hfuel : r.sock.inbox.length < fuel)
    (hroom : ∀ r', Relation.ReflTransGen (Next P buffSize) r r' → r'.Room buffSize) :
    ∃ res s', recvHeader P buffSize fuel r.offset r.data r.parser r.sock = .ok res s' ∧
      ∀ offset data parser, res = some (offset, data, parser) →
        offset ≤ data.length ∧ s'.connected = true := by
  induction fuel generalizing r with
  | zero => exact absurd hfuel (Nat.not_lt_zero _)
  | succ fuel ih =>
      by_cases hgot : r.got buffSize = 0
      · rcases recvRound_silent P buffSize r h hgot with ⟨s', hrun⟩
        rw [recvHeader, bind_ok _ _ _ _ _ hrun]
        exact ⟨none, s', rfl, fun _ _ _ hno => by cases hno⟩
      · rcases recvRound_read P buffSize r h hgot (hroom r .refl) with ⟨e, s', hrun, hleft⟩
        rw [recvHeader, bind_ok _ _ _ _ _ hrun]
        cases e with
        | closed => exact ⟨none, s', rfl, fun _ _ _ hno => by cases hno⟩
        | again offset data parser =>
            rcases hleft offset data parser rfl with ⟨horder, -, hless⟩
            refine ih ⟨s', offset, data, parser⟩ horder (by simp only []; omega) ?_
            intro r' hpath
            have hnext : Next P buffSize r ⟨s', offset, data, parser⟩ := hrun
            exact hroom r' (.head hnext hpath)
        | finished offset data parser =>
            refine ⟨_, s', rfl, fun offset' data' parser' heq => ?_⟩
            rcases hleft offset' data' parser' heq with ⟨horder, hconn, -⟩
            exact ⟨horder.offset.trans horder.length.ge, hconn⟩

/-- The loop, if there is a round without room. -/
theorem recvHeader_outside (fuel : Nat) (h : r.InOrder buffSize)
    (hfuel : r.sock.inbox.length < fuel) (r' : Round π)
    (hpath : Relation.ReflTransGen (Next P buffSize) r r') (hfull : ¬r'.Room buffSize) :
    recvHeader P buffSize fuel r.offset r.data r.parser r.sock = .fault := by
  induction hpath using Relation.ReflTransGen.head_induction_on generalizing fuel with
  | refl =>
      cases fuel with
      | zero => exact absurd hfuel (Nat.not_lt_zero _)
      | succ fuel =>
          rw [recvHeader]
          exact bind_fault _ _ _ (recvRound_full P buffSize r' h hfull)
  | head hnext _ ih =>
      cases fuel with
      | zero => exact absurd hfuel (Nat.not_lt_zero _)
      | succ fuel =>
          rcases Next.spec P buffSize _ _ h hnext with ⟨horder, hless⟩
          rw [recvHeader, bind_ok _ _ _ _ _ hnext]
          exact ih fuel horder (by omega)

/-! ## The body -/

/-- No copy into the body is outside of it. -/
theorem recvBody_inside (offset : Nat) (data : List UInt8) (length : Nat) (s : Socket)
    (hoffset : offset ≤ data.length) (hconn : s.connected = true) :
    (∃ res s', recvBody offset data length s = .ok res s') ∨
      recvBody offset data length s = .throw .lengthError s := by
  rw [recvBody]
  by_cases hlong : ByteArray.maxStringSize < length
  · rw [if_pos hlong]
    exact Or.inr rfl
  · left
    rw [if_neg hlong]
    have hmax : ByteArray.maxStringSize < 2 ^ 64 := by decide
    set body : List UInt8 := List.replicate length 0 with hbody
    have hlength : body.length = length := List.length_replicate
    set len := if offset ≤ length then offset else length with hlen
    have hle : len ≤ offset ∧ len ≤ length := by
      rw [hlen]
      split <;> omega
    have htake : (data.take len).length = len := by
      rw [List.length_take]
      omega
    rw [bind_ok _ _ _ _ _ (access_ok data 0 len s (by omega)),
      bind_ok _ _ _ _ _ (access_ok body 0 len s (by omega))]
    simp only []
    by_cases hmore : offset < length
    · -- The rest of the body is read behind what was copied.
      rw [if_pos hmore]
      have hfull : (overwrite body 0 (data.take len)).length = length := by
        rw [length_overwrite _ _ _ (by omega), hlength]
      have hlen' : len = offset := by rw [hlen, if_pos hmore.le]
      rcases SocketStream.readFixSize_inside s (overwrite body 0 (data.take len)) len
        (length - offset) (by omega) hconn (by omega) with ⟨rt, s', body', hrun, -⟩
      rw [bind_ok _ _ _ _ _ (within_ok _ _ _ _ _ _ hrun)]
      simp only []
      split
      · exact ⟨none, _, rfl⟩
      · exact ⟨some body', s', rfl⟩
    · rw [if_neg hmore]
      exact ⟨some _, s, rfl⟩

/-! ## The function -/

/-- Whatever the size of the buffer, however the response comes in and whatever the parser
    makes of it, `recvResponse` stays inside of the buffer and of the body exactly if every
    read that it makes leaves a byte of the buffer. -/
theorem recvResponse_inside_iff (buffSize : UInt64) (buffer : Nat → UInt8) (parser : π)
    (s : Socket) :
    recvResponse P buffSize.toNat buffer parser s ≠ .fault ↔
      ∀ r, Relation.ReflTransGen (Next P buffSize.toNat)
          ⟨s, 0, (List.range buffSize.toNat).map buffer, parser⟩ r → r.Room buffSize.toNat := by
  set r₀ : Round π := ⟨s, 0, (List.range buffSize.toNat).map buffer, parser⟩ with hr₀
  have h₀ : r₀.InOrder buffSize.toNat :=
    ⟨by rw [hr₀, List.length_map, List.length_range], Nat.zero_le _⟩
  rw [recvResponse, bind_ok _ _ _ _ _ (get_apply s)]
  constructor
  · intro hinside r hpath
    by_contra hfull
    have hfault := recvHeader_outside P buffSize.toNat r₀ (s.inbox.length + 1) h₀
      (Nat.lt_succ_self _) r hpath hfull
    exact hinside (bind_fault _ _ _ hfault)
  · intro hroom
    rcases recvHeader_inside P buffSize.toNat r₀ (s.inbox.length + 1) h₀ (Nat.lt_succ_self _)
      hroom with ⟨res, s', hrun, hres⟩
    rw [bind_ok _ _ _ _ _ hrun]
    rcases res with _ | ⟨offset, data, parser'⟩
    · intro hno
      cases hno
    · rcases hres offset data parser' rfl with ⟨hoffset, hconn⟩
      simp only []
      split
      · intro hno
        rcases recvBody_inside offset data
          (HttpSession.int64OfWord (P.getContentLength parser')).toNat s' hoffset hconn with
          ⟨res, s'', hbody⟩ | hbody
        · rw [bind_ok _ _ _ _ _ hbody] at hno
          cases res <;> cases hno
        · rw [bind_throw _ _ _ _ _ hbody] at hno
          cases hno
      · intro hno
        cases hno

/-- A parser that waits for more. -/
def waiting : ResponseParser Unit where
  run _ _ parser := (0, parser)
  run_le _ len _ := Nat.zero_le len
  hasError _ := false
  isFinished _ := false
  getContentLength _ := 0
  setBody _ parser := parser

/-- Four bytes for a buffer of four. -/
theorem buffer_filled :
    ¬∀ (π : Type) (P : ResponseParser π) (buffSize : UInt64) (buffer : Nat → UInt8) (parser : π)
      (s : Socket), recvResponse P buffSize.toNat buffer parser s ≠ .fault := by
  intro hall
  exact hall Unit waiting 4 (fun _ => 0) () ⟨true, [72, 84, 84, 80], [], fun _ => 4, 0⟩ rfl

end HttpConnection

end YkServer
