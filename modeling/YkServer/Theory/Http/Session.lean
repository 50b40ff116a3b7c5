import YkServer.Core.HttpSession
import YkServer.Theory.Http.Fields
import YkServer.Theory.Stream.Transfer

/-!
# Receiving One Request

What `recvRequest` does with a stream that starts with a well-formed request, for
every way the transport cuts the stream.

A cut inside the header block is settled if the actions behind it use only
positions that are noted behind it. With settled cuts, the request is the one the
parser makes of the whole block. The last read of the header block may have taken
more of the stream than the request: what it took goes with the buffer, and the
next call does not see it.

## Main definitions

* `WellFormed`: A header block that is complete and has no error.
* `BodyOf`: A body of the length that the header block says.
* `requestOf`: The request that the two make.
* `settled`: A position where the header block can be cut.
* `readEnds`: Where the reads of the header block end.
* `SafeCuts`: Every one of them inside the block is settled.

## Theorems

* `recvHeader_settled`: The header block.
* `recvBody_left`: The body.
* `recvRequest_settled`: The request, and what is left on the stream.
-/

namespace YkServer

open Lib HttpParser

namespace HttpSession

/-- A header block of an HTTP request, and the parser after it: parsed in one
    piece by a new parser, it is complete, has a method and a version, and no
    error. -/
structure WellFormed (relaxed : Bool) (queryStart : Nat) (head : List UInt8)
    (q : HttpRequestParser) : Prop where
  parsed : HttpRequestParser.httpParserExecute head head.length (.new relaxed queryStart) =
    .ok head.length q
  finished : q.isFinished = true
  noError : q.error = 0
  method : Action.requestMethod ∈ (trace relaxed .start head).flatten
  version : Action.httpVersion ∈ (trace relaxed .start head).flatten

/-- The body has the length that the header block says. -/
def BodyOf (lexicalCast : List UInt8 → Option UInt64) (q : HttpRequestParser)
    (body : List UInt8) : Prop :=
  body.length = (int64OfWord (q.getContentLength lexicalCast)).toNat

/-- The request with its body. -/
def requestOf (q : HttpRequestParser) (body : List UInt8) : HttpRequest :=
  setClose (if body = [] then q.data else { q.data with body := body })

/-- The header block can be cut here. -/
def settled (relaxed : Bool) (head : List UInt8) (t : Nat) : Bool :=
  clean .none ((trace relaxed .start head).drop t).flatten

/-- How many bytes the next read of the header block gets. -/
def nextRead (buffSize : Nat) (s : Socket) : Nat := s.share (min buffSize s.inbox.length)

/-- The socket after it. -/
def afterRead (buffSize : Nat) (s : Socket) : Socket :=
  { s with inbox := s.inbox.drop (nextRead buffSize s), calls := s.calls + 1 }

/-- Where the reads end, until `n` bytes have been read. -/
def readEnds (buffSize n : Nat) : Nat → Socket → Nat → List Nat
  | 0, _, _ => []
  | fuel + 1, s, pos =>
    (pos + nextRead buffSize s) ::
      if n ≤ pos + nextRead buffSize s then []
      else readEnds buffSize n fuel (afterRead buffSize s) (pos + nextRead buffSize s)

/-! ## One read -/

theorem nextRead_spec (buffSize : Nat) (s : Socket) (hbuf : 0 < buffSize) (hin : s.inbox ≠ []) :
    0 < nextRead buffSize s ∧ nextRead buffSize s ≤ buffSize ∧
      nextRead buffSize s ≤ s.inbox.length := by
  have hpos := List.length_pos_of_ne_nil hin
  rcases Socket.share_spec s (min buffSize s.inbox.length) (by omega) with ⟨h₁, h₂⟩
  unfold nextRead
  omega

/-- A first read that has the whole block is the only one. -/
theorem readEnds_single (buffSize n : Nat) (s : Socket) (hn : 0 < n)
    (hall : n ≤ nextRead buffSize s) : readEnds buffSize n n s 0 = [nextRead buffSize s] := by
  cases n with
  | zero => exact absurd hn (Nat.lt_irrefl _)
  | succ n => rw [readEnds, Nat.zero_add, if_pos hall]

/-- A read of a socket that is connected gets what the transport gives. -/
theorem read_at (n offset : Nat) (s : Socket) (data : List UInt8) (hconn : s.connected = true)
    (hfit : offset + nextRead n s ≤ data.length) :
    Prog.within data (SocketStream.read offset n) s =
      .ok ((nextRead n s : Nat), overwrite data offset (s.inbox.take (nextRead n s)))
        (afterRead n s) := by
  have hshare : nextRead n s ≤ min n s.inbox.length := Nat.min_le_right _ _
  have htake : (s.inbox.take (nextRead n s)).length = nextRead n s := by
    rw [List.length_take]
    omega
  have hrecv : Socket.recv n s = .ok ((nextRead n s : Nat), s.inbox.take (nextRead n s))
      (afterRead n s) := by
    rw [Socket.recv, if_pos hconn]
    rfl
  refine within_ok _ s (afterRead n s) data _ _ ?_
  rw [SocketStream.read, bind_ok _ _ _ _ _ (first_ok _ s _ data _ hrecv)]
  simp only []
  rw [bind_ok _ _ _ _ _ (get_apply _)]
  simp only [htake]
  by_cases hzero : nextRead n s = 0
  · -- The end of the stream: nothing is stored.
    rw [if_pos hzero, hzero, List.take_zero, overwrite_nil, pure_apply]
  · rw [if_neg hzero, if_neg (by omega), bind_ok _ _ _ _ _ (modify_apply _ _), pure_apply]

/-- A read into the whole buffer. -/
theorem read_front (buffSize : Nat) (s : Socket) (data : List UInt8) (hbuf : 0 < buffSize)
    (hconn : s.connected = true) (hin : s.inbox ≠ []) (hdata : data.length = buffSize) :
    Prog.within data (SocketStream.read 0 (subWord buffSize 0)) s =
      .ok ((nextRead buffSize s : Nat),
          s.inbox.take (nextRead buffSize s) ++ data.drop (nextRead buffSize s))
        (afterRead buffSize s) := by
  rcases nextRead_spec buffSize s hbuf hin with ⟨hpos, hle, hle'⟩
  have hsub : subWord buffSize 0 = buffSize := by
    rw [subWord, if_pos (Nat.zero_le _), Nat.sub_zero]
  have htake : (s.inbox.take (nextRead buffSize s)).length = nextRead buffSize s := by
    rw [List.length_take]
    omega
  have hover : overwrite data 0 (s.inbox.take (nextRead buffSize s)) =
      s.inbox.take (nextRead buffSize s) ++ data.drop (nextRead buffSize s) := by
    rw [overwrite, List.take_zero, List.nil_append, Nat.zero_add, htake]
  rw [hsub, read_at buffSize 0 s data hconn (by omega), hover]

/-- A round of the loop that reads something and parses a part of it. -/
theorem recvHeader_round (buffSize fuel n : Nat) (s : Socket) (data : List UInt8)
    (parser q : HttpRequestParser) (hbuf : 0 < buffSize) (hint : buffSize < 2 ^ 31)
    (hconn : s.connected = true) (hin : s.inbox ≠ []) (hdata : data.length = buffSize)
    (hn : 0 < n) (herr : q.hasError = false)
    (hexec : HttpRequestParser.exec
      (s.inbox.take (nextRead buffSize s) ++ data.drop (nextRead buffSize s))
      (s.inbox.take (nextRead buffSize s)) 0 parser.reset = .ok n q) :
    recvHeader buffSize (fuel + 1) 0 data parser s =
      (if q.isFinished = true then
        pure (some (nextRead buffSize s - n,
          overwrite (s.inbox.take (nextRead buffSize s) ++ data.drop (nextRead buffSize s)) 0
            ((s.inbox.take (nextRead buffSize s)).drop n), q))
      else recvHeader buffSize fuel (nextRead buffSize s - n)
        (overwrite (s.inbox.take (nextRead buffSize s) ++ data.drop (nextRead buffSize s)) 0
          ((s.inbox.take (nextRead buffSize s)).drop n)) q) (afterRead buffSize s) := by
  rcases nextRead_spec buffSize s hbuf hin with ⟨hpos, hle, hle'⟩
  have htake : (s.inbox.take (nextRead buffSize s) ++ data.drop (nextRead buffSize s)).take
      (nextRead buffSize s) = s.inbox.take (nextRead buffSize s) := by
    refine List.take_left' ?_
    rw [List.length_take]
    omega
  have hexecute : HttpRequestParser.execute
      (s.inbox.take (nextRead buffSize s) ++ data.drop (nextRead buffSize s))
      (nextRead buffSize s) parser = .ok (n,
        overwrite (s.inbox.take (nextRead buffSize s) ++ data.drop (nextRead buffSize s)) 0
          ((s.inbox.take (nextRead buffSize s)).drop n)) q := by
    have hrun : HttpRequestParser.httpParserExecute
        (s.inbox.take (nextRead buffSize s) ++ data.drop (nextRead buffSize s))
        (nextRead buffSize s) parser = .ok n q := by
      rw [HttpRequestParser.httpParserExecute, if_neg (by omega),
        bind_ok _ _ _ _ _ (modify_apply _ _), htake]
      exact hexec
    rw [HttpRequestParser.execute, bind_ok _ _ _ _ _ hrun, htake]
    rfl
  have hread := read_front buffSize s data hbuf hconn hin hdata
  rw [recvHeader, bind_ok _ _ _ _ _ hread]
  have hpos' : ¬((nextRead buffSize s : Nat) : Int) ≤ 0 := by omega
  simp only [hpos', if_false, Int.toNat_natCast, Nat.add_zero]
  rw [bind_ok _ _ _ _ _ (within_ok _ _ (afterRead buffSize s) _ q _
    (second_ok _ (afterRead buffSize s) parser q _ hexecute))]
  -- Something was parsed, so the buffer cannot be full.
  have hroom : ¬((nextRead buffSize s - n : Nat) : Int) = intOfWord buffSize := by
    rw [intOfWord_small _ hint]
    omega
  simp only [herr, hroom, if_false]
  rfl

/-- A parser that is ready to go on with `hs`, as parsing the whole block is. -/
structure Resumes (head pre hs : List UInt8) (k : Known) (r q parser : HttpRequestParser) :
    Prop where
  whole : head = pre ++ hs
  agree : HttpRequestParser.Agree pre.length 0 k r parser.reset
  clean : clean k (trace r.relaxed r.cs hs).flatten = true
  exec : HttpRequestParser.exec head hs pre.length r = .ok head.length q
  trace : trace r.relaxed r.cs hs = (trace r.relaxed .start head).drop pre.length

/-- A new parser. -/
theorem resumes_new (relaxed : Bool) (queryStart : Nat) (head : List UInt8)
    (q : HttpRequestParser) (h : WellFormed relaxed queryStart head q) :
    head ≠ [] ∧ Resumes head [] head .all (.new relaxed queryStart) q
      (.new relaxed queryStart) := by
  have hne : head ≠ [] := by
    rintro rfl
    have hmethod := h.method
    exact absurd hmethod (by simp [HttpParser.trace])
  have hparsed := h.parsed
  rw [HttpRequestParser.httpParserExecute,
    if_neg (Nat.ne_of_gt (List.length_pos_of_ne_nil hne)),
    bind_ok _ _ _ _ _ (modify_apply _ _), List.take_length] at hparsed
  refine ⟨hne, rfl, ?_, clean_trace relaxed head, hparsed, rfl⟩
  exact ⟨rfl, rfl, rfl, rfl, fun _ => ⟨rfl, Nat.le_refl _⟩, fun _ => ⟨rfl, Nat.le_refl _⟩,
    fun _ => ⟨rfl, Nat.le_refl _⟩, fun _ => (Nat.zero_add _).symm⟩

/-- A read that does not complete the block, at whose end it can be cut. -/
theorem resumes_read (head pre xs hs ws : List UInt8) (k : Known)
    (r q parser : HttpRequestParser) (hlen : head.length < 2 ^ 64) (hxs : xs ≠ []) (hhs : hs ≠ [])
    (h : Resumes head pre (xs ++ hs) k r q parser) (herr : q.error = 0)
    (hcut : settled r.relaxed head (pre.length + xs.length) = true) :
    ∃ r' parser', HttpRequestParser.exec (xs ++ ws) xs 0 parser.reset = .ok xs.length parser' ∧
      parser'.hasError = false ∧ parser'.isFinished = false ∧ r'.relaxed = r.relaxed ∧
      Resumes head (pre ++ xs) hs .none r' q parser' := by
  have hwhole : pre ++ ([] ++ (xs ++ hs)) = head := h.whole.symm
  rcases HttpRequestParser.exec_agree_more pre xs [] hs ws k r q parser.reset
    (by rw [hwhole]; exact hlen) hhs hxs h.agree h.clean (by rw [hwhole]; exact h.exec) with
    ⟨r', c', k', hexec, hexec', hagree, hrel, -, htrace, hcs, hfin⟩
  rw [hwhole] at hexec'
  simp only [List.length_nil, Nat.zero_add] at hexec hexec' hagree
  have hpre : (pre ++ xs).length = pre.length + xs.length := List.length_append
  -- An error stays, so the whole block would have it as well.
  have herr' : r'.error = 0 := by
    by_contra hno
    exact HttpRequestParser.exec_error head hs _ _ r' q hexec' hno herr
  have htrace' : trace r'.relaxed r'.cs hs =
      (trace r'.relaxed .start head).drop (pre.length + xs.length) := by
    rw [hrel, htrace, h.trace, List.drop_drop]
  refine ⟨r', c', ?_, ?_, ?_, hrel, ⟨?_, ?_, ?_, ?_, ?_⟩⟩
  · have hend := hexec []
    rw [List.append_nil] at hend
    exact hend
  · rw [HttpRequestParser.hasError, hagree.error, herr', hagree.cs, hcs]
    rfl
  · rw [HttpRequestParser.isFinished, hagree.cs, hagree.relaxed, hrel]
    exact hfin
  · rw [h.whole, List.append_assoc]
  · -- No position noted before the cut is known behind it: the next call resets them.
    exact ⟨hagree.relaxed, hagree.cs, hagree.error, hagree.data, (fun hno => by cases hno),
      (fun hno => by cases hno), (fun hno => by cases hno), fun hno => by cases hno⟩
  · rw [htrace', hrel]
    exact hcut
  · rw [hpre]
    exact hexec'
  · rw [hpre]
    exact htrace'

/-- The read that completes the block. -/
theorem completes_read (head pre hs ws ys : List UInt8) (k : Known)
    (r q parser : HttpRequestParser) (hlen : head.length < 2 ^ 64) (hhs : hs ≠ [])
    (h : Resumes head pre hs k r q parser) (hfin : q.isFinished = true) (herr : q.error = 0) :
    ∃ parser', HttpRequestParser.exec (hs ++ ws) (hs ++ ys) 0 parser.reset =
        .ok hs.length parser' ∧
      parser'.hasError = false ∧ parser'.isFinished = true ∧ parser'.data = q.data := by
  have hwhole : pre ++ ([] ++ hs) = head := h.whole.symm
  rcases HttpRequestParser.exec_agree_last pre hs [] ws k r q parser.reset
    (by rw [hwhole]; exact hlen) hhs h.agree h.clean (by rw [hwhole]; exact h.exec) hfin with
    ⟨c', k', hexec, hagree⟩
  simp only [List.length_nil, Nat.zero_add] at hexec hagree
  have hfin' : c'.isFinished = true := by
    rw [HttpRequestParser.isFinished, hagree.cs, hagree.relaxed]
    exact hfin
  refine ⟨c', hexec ys, ?_, hfin', hagree.data⟩
  -- The error state is not a final one.
  have hcs : c'.cs.error = false := by
    rw [Bool.eq_false_iff]
    intro herror
    rw [Cs.error, Bool.and_eq_true, beq_iff_eq] at herror
    rw [HttpRequestParser.isFinished, Cs.finished, herror.2, Ragel.final_idle] at hfin'
    cases hfin'
  rw [HttpRequestParser.hasError, hagree.error, herr, hcs]
  rfl

/-- A round that does not complete the block. -/
theorem recvHeader_more (buffSize fuel : Nat) (head tail pre hs : List UInt8) (k : Known)
    (r q parser : HttpRequestParser) (s : Socket) (data : List UInt8) (hbuf : 0 < buffSize)
    (hint : buffSize < 2 ^ 31) (hlen : head.length < 2 ^ 64) (herr : q.error = 0)
    (h : Resumes head pre hs k r q parser) (hready : s.Ready (hs ++ tail))
    (hdata : data.length = buffSize) (hmore : nextRead buffSize s < hs.length)
    (hcut : settled r.relaxed head (pre.length + nextRead buffSize s) = true) :
    ∃ r' parser' data', recvHeader buffSize (fuel + 1) 0 data parser s =
        recvHeader buffSize fuel 0 data' parser' (afterRead buffSize s) ∧
      data'.length = buffSize ∧ r'.relaxed = r.relaxed ∧
      (afterRead buffSize s).Ready (hs.drop (nextRead buffSize s) ++ tail) ∧
      Resumes head (pre ++ hs.take (nextRead buffSize s)) (hs.drop (nextRead buffSize s)) .none r' q
        parser' := by
  have hin : s.inbox ≠ [] := by
    rw [hready.inbox]
    exact List.ne_nil_of_length_pos (by rw [List.length_append]; omega)
  rcases nextRead_spec buffSize s hbuf hin with ⟨hpos, hle, -⟩
  have htake : s.inbox.take (nextRead buffSize s) = hs.take (nextRead buffSize s) := by
    rw [hready.inbox, List.take_append_of_le_length (Nat.le_of_lt hmore)]
  have hxslen : (hs.take (nextRead buffSize s)).length = nextRead buffSize s := by
    rw [List.length_take]
    omega
  rcases resumes_read head pre (hs.take (nextRead buffSize s)) (hs.drop (nextRead buffSize s))
    (data.drop (nextRead buffSize s)) k r q parser hlen (List.ne_nil_of_length_pos (by omega))
    (List.ne_nil_of_length_pos (by rw [List.length_drop]; omega))
    (by rw [List.take_append_drop]; exact h) herr (by rw [hxslen]; exact hcut) with
    ⟨r', parser', hexec, hnoerr, hnotfin, hrel, hresumes⟩
  rw [hxslen, ← htake] at hexec
  have hround := recvHeader_round buffSize fuel _ s data parser parser' hbuf hint
    hready.connected hin hdata hpos hnoerr hexec
  -- The parser has taken the whole read, and the next one starts with an empty buffer.
  have hnil : (s.inbox.take (nextRead buffSize s)).drop (nextRead buffSize s) = [] := by
    rw [htake]
    exact List.drop_eq_nil_of_le (Nat.le_of_eq hxslen)
  rw [hnil, Nat.sub_self, if_neg (by rw [hnotfin]; decide)] at hround
  refine ⟨r', parser', _, hround, ?_, hrel, ⟨hready.connected, ?_⟩, hresumes⟩
  · rw [length_overwrite _ _ _ (Nat.zero_le _), List.length_append, htake, hxslen,
      List.length_drop]
    omega
  · rw [afterRead, hready.inbox, List.drop_append_of_le_length (Nat.le_of_lt hmore)]

/-- A round that completes the block: what it has read behind the block is in the
    buffer. -/
theorem recvHeader_last (buffSize fuel : Nat) (head tail pre hs : List UInt8) (k : Known)
    (r q parser : HttpRequestParser) (s : Socket) (data : List UInt8) (hbuf : 0 < buffSize)
    (hint : buffSize < 2 ^ 31) (hlen : head.length < 2 ^ 64) (hfin : q.isFinished = true)
    (herr : q.error = 0) (h : Resumes head pre hs k r q parser) (hhs : hs ≠ [])
    (hready : s.Ready (hs ++ tail)) (hdata : data.length = buffSize)
    (hlast : hs.length ≤ nextRead buffSize s) :
    ∃ data' q', recvHeader buffSize (fuel + 1) 0 data parser s =
        .ok (some (nextRead buffSize s - hs.length, data', q')) (afterRead buffSize s) ∧
      (afterRead buffSize s).Ready (tail.drop (nextRead buffSize s - hs.length)) ∧
      data'.take (nextRead buffSize s - hs.length) =
        tail.take (nextRead buffSize s - hs.length) ∧ q'.data = q.data := by
  have hin : s.inbox ≠ [] := by
    rw [hready.inbox]
    exact List.append_ne_nil_of_left_ne_nil hhs tail
  have hinlen : s.inbox.length = hs.length + tail.length := by
    rw [hready.inbox, List.length_append]
  rcases nextRead_spec buffSize s hbuf hin with ⟨hpos, hle, hle'⟩
  have htake : s.inbox.take (nextRead buffSize s) =
      hs ++ tail.take (nextRead buffSize s - hs.length) := by
    rw [hready.inbox, List.take_append, List.take_of_length_le hlast]
  rcases completes_read head pre hs
    (tail.take (nextRead buffSize s - hs.length) ++ data.drop (nextRead buffSize s))
    (tail.take (nextRead buffSize s - hs.length)) k r q parser hlen hhs h hfin herr with
    ⟨parser', hexec, hnoerr, hfin', hdata'⟩
  rw [← List.append_assoc, ← htake] at hexec
  have hround := recvHeader_round buffSize fuel _ s data parser parser' hbuf hint
    hready.connected hin hdata (List.length_pos_of_ne_nil hhs) hnoerr hexec
  have hdrop : (s.inbox.take (nextRead buffSize s)).drop hs.length =
      tail.take (nextRead buffSize s - hs.length) := by
    rw [htake, List.drop_left]
  rw [hdrop, if_pos hfin'] at hround
  refine ⟨_, parser', hround, ⟨hready.connected, ?_⟩, ?_, hdata'⟩
  · rw [afterRead, hready.inbox, List.drop_append, List.drop_eq_nil_of_le hlast, List.nil_append]
  · rw [overwrite, List.take_zero, List.nil_append]
    refine List.take_left' ?_
    rw [List.length_take]
    omega

/-- The loop, with what is left of the block and of the stream: every round either
    completes the block or goes on with less of it. -/
theorem recvHeader_settled (buffSize : Nat) (head tail : List UInt8) (q : HttpRequestParser)
    (hbuf : 0 < buffSize) (hint : buffSize < 2 ^ 31) (hlen : head.length < 2 ^ 64)
    (hfin : q.isFinished = true) (herr : q.error = 0) (fuel m : Nat) (pre hs : List UInt8)
    (k : Known) (r parser : HttpRequestParser) (s : Socket) (data : List UInt8)
    (h : Resumes head pre hs k r q parser) (hhs : hs ≠ []) (hready : s.Ready (hs ++ tail))
    (hdata : data.length = buffSize) (hfuel : hs.length ≤ fuel) (hm : hs.length ≤ m)
    (hcuts : ∀ t ∈ readEnds buffSize head.length m s pre.length, t < head.length →
      settled r.relaxed head t = true) :
    ∃ T data' q' s', T ∈ readEnds buffSize head.length m s pre.length ∧ head.length ≤ T ∧
      recvHeader buffSize fuel 0 data parser s = .ok (some (T - head.length, data', q')) s' ∧
      s'.Ready (tail.drop (T - head.length)) ∧
      data'.take (T - head.length) = tail.take (T - head.length) ∧ q'.data = q.data := by
  -- On the rounds, with `m` going down along: every round takes a byte of the block.
  induction fuel generalizing m pre hs k r parser s data with
  | zero => exact absurd (List.length_pos_of_ne_nil hhs) (by omega)
  | succ fuel ih =>
      have hin : s.inbox ≠ [] := by
        rw [hready.inbox]
        exact List.append_ne_nil_of_left_ne_nil hhs tail
      rcases nextRead_spec buffSize s hbuf hin with ⟨hpos, -, -⟩
      have hheadlen : head.length = pre.length + hs.length := by
        rw [h.whole, List.length_append]
      cases m with
      | zero => exact absurd (List.length_pos_of_ne_nil hhs) (by omega)
      | succ m =>
          rw [readEnds] at hcuts ⊢
          by_cases hmore : nextRead buffSize s < hs.length
          · rw [if_neg (by omega)] at hcuts ⊢
            rcases recvHeader_more buffSize fuel head tail pre hs k r q parser s data hbuf hint
              hlen herr h hready hdata hmore (hcuts _ List.mem_cons_self (by omega)) with
              ⟨r', parser', data', hround, hdata', hrel, hready', hresumes⟩
            have hprelen : (pre ++ hs.take (nextRead buffSize s)).length =
                pre.length + nextRead buffSize s := by
              rw [List.length_append, List.length_take]
              omega
            have hdrop : (hs.drop (nextRead buffSize s)).length =
                hs.length - nextRead buffSize s := List.length_drop
            rcases ih m _ _ .none r' parser' (afterRead buffSize s) data' hresumes
              (List.ne_nil_of_length_pos (by omega)) hready' hdata' (by omega) (by omega)
              (by
                rw [hprelen, hrel]
                exact fun t ht => hcuts t (List.mem_cons_of_mem _ ht)) with
              ⟨T, data'', q', s', hT, hrest⟩
            rw [hprelen] at hT
            refine ⟨T, data'', q', s', List.mem_cons_of_mem _ hT, ?_⟩
            rw [hround]
            exact hrest
          · rcases recvHeader_last buffSize fuel head tail pre hs k r q parser s data hbuf hint
              hlen hfin herr h hhs hready hdata (by omega) with ⟨data', q', hround, hrest⟩
            have hT : pre.length + nextRead buffSize s - head.length =
                nextRead buffSize s - hs.length := by omega
            refine ⟨pre.length + nextRead buffSize s, data', q', afterRead buffSize s,
              List.mem_cons_self, by omega, ?_⟩
            rw [hT]
            exact ⟨hround, hrest⟩

/-! ## The body -/

/-- A body of which `j` bytes or more are in the buffer. What the buffer has behind
    the body is not on the stream any more. -/
theorem recvBody_left (j : Nat) (data body rest : List UInt8) (s : Socket)
    (hbody : body.length < 2 ^ 31)
    (hdata : data.take j = (body ++ rest).take j) (hready : s.Ready ((body ++ rest).drop j)) :
    ∃ s', recvBody j data body.length s = .ok (some body) s' ∧
      s'.Ready (rest.drop (j - body.length)) := by
  have hmax : ¬ByteArray.maxStringSize < body.length := by
    unfold ByteArray.maxStringSize
    omega
  -- `body.resize(length)`, and then `memcpy` of what the buffer has.
  have hfill : ∀ xs : List UInt8, overwrite (List.replicate body.length 0) 0 xs =
      xs ++ List.replicate (body.length - xs.length) 0 := by
    intro xs
    rw [overwrite, List.take_zero, List.nil_append, Nat.zero_add, List.drop_replicate]
  rw [recvBody, if_neg hmax]
  by_cases hshort : j < body.length
  · -- The rest of the body is still to come.
    have hfront : data.take j = body.take j := by
      rw [hdata, List.take_append_of_le_length (Nat.le_of_lt hshort)]
    have hfrontlen : (body.take j).length = j := by
      rw [List.length_take]
      omega
    have htodo : (body.drop j).length = body.length - j := List.length_drop
    rw [List.drop_append_of_le_length (Nat.le_of_lt hshort)] at hready
    rcases SocketStream.readFixSize_behind s (body.take j)
      (overwrite (List.replicate body.length 0) 0 (data.take j)) (body.drop j) rest (by omega)
      hready
      (by
        rw [hfill, hfront]
        exact List.take_left' rfl)
      (by
        rw [length_overwrite _ _ _ (by rw [hfront, hfrontlen, List.length_replicate]; omega),
          List.length_replicate]
        omega) with ⟨s', hrun, hready'⟩
    rw [htodo, hfrontlen, List.take_append_drop] at hrun
    refine ⟨s', ?_, ?_⟩
    · simp only [Nat.le_of_lt hshort, if_true, hshort]
      rw [bind_ok _ _ _ _ _ (within_ok _ s s' _ _ _ hrun)]
      have hsome : ¬((body.length - j : Nat) : Int) ≤ 0 := by omega
      simp only [hsome, if_false]
      rfl
    · rw [Nat.sub_eq_zero_of_le (Nat.le_of_lt hshort), List.drop_zero]
      exact hready'
  · -- The body is in the buffer, and nothing is read. What stands behind it in the
    -- buffer is lost with the buffer.
    have hall : data.take body.length = body := by
      have htake := congrArg (List.take body.length) hdata
      rw [List.take_take, List.take_take, Nat.min_eq_left (by omega),
        List.take_left' rfl] at htake
      exact htake
    have hlen : (if j ≤ body.length then j else body.length) = body.length := by
      split <;> omega
    simp only [hlen, hshort, if_false, hall]
    refine ⟨s, ?_, ?_⟩
    · rw [hfill, Nat.sub_self, List.replicate_zero, List.append_nil]
      rfl
    · rw [List.drop_append, List.drop_eq_nil_of_le (by omega), List.nil_append] at hready
      exact hready

/-! ## The request -/

/-- Every cut inside the header block is settled. -/
def SafeCuts (relaxed : Bool) (buffSize : Nat) (head : List UInt8) (s : Socket) : Prop :=
  ∀ t ∈ readEnds buffSize head.length head.length s 0, t < head.length →
    settled relaxed head t = true

/-- A request in front of `rest`: if every cut inside the header block is settled,
    the call returns it, and leaves of `rest` what the last read of the header
    block has not taken. -/
theorem recvRequest_settled (lexicalCast : List UInt8 → Option UInt64) (buffSize : Nat)
    (m : Memory) (head body rest : List UInt8) (q : HttpRequestParser) (s : Socket)
    (hwf : WellFormed m.uriRelaxed m.queryStart head q) (hbody : BodyOf lexicalCast q body)
    (hbuf : 0 < buffSize) (hint : buffSize < 2 ^ 31) (hlen : head.length < 2 ^ 64)
    (hshort : body.length < 2 ^ 31) (hready : s.Ready (head ++ (body ++ rest)))
    (hcuts : SafeCuts m.uriRelaxed buffSize head s) :
    ∃ T s', T ∈ readEnds buffSize head.length head.length s 0 ∧ head.length ≤ T ∧
      recvRequest lexicalCast buffSize m s = .ok (some (requestOf q body)) s' ∧
      s'.Ready (rest.drop (T - head.length - body.length)) := by
  rcases resumes_new m.uriRelaxed m.queryStart head q hwf with ⟨hne, hresumes⟩
  rcases recvHeader_settled buffSize head (body ++ rest) q hbuf hint hlen hwf.finished hwf.noError
    (s.inbox.length + 1) head.length [] head .all _ _ s ((List.range buffSize).map m.buffer)
    hresumes hne hready (by rw [List.length_map, List.length_range])
    (by
      rw [hready.inbox, List.length_append]
      omega)
    (Nat.le_refl _) hcuts with
    ⟨T, data', q', s₁, hT, hle, hheader, hready₁, hdata', hqdata⟩
  -- The length is a header, and the headers are those of the whole block.
  have hlength : q'.getContentLength lexicalCast = q.getContentLength lexicalCast := by
    rw [HttpRequestParser.getContentLength, hqdata, HttpRequestParser.getContentLength]
  rw [recvRequest, bind_ok _ _ _ _ _ (get_apply _)]
  simp only []
  rw [bind_ok _ _ _ _ _ hheader]
  simp only [hlength, hqdata]
  have hbody' : body.length = (int64OfWord (q.getContentLength lexicalCast)).toNat := hbody
  by_cases hpos : 0 < int64OfWord (q.getContentLength lexicalCast)
  · rcases recvBody_left (T - head.length) data' body rest s₁ hshort hdata' hready₁ with
      ⟨s', hrun, hready'⟩
    have hnil : body ≠ [] := List.ne_nil_of_length_pos (by omega)
    refine ⟨T, s', hT, hle, ?_, hready'⟩
    rw [if_pos hpos, ← hbody', bind_ok _ _ _ _ _ hrun, requestOf, if_neg hnil]
    rfl
  · have hnil : body = [] := List.eq_nil_of_length_eq_zero (by omega)
    subst hnil
    refine ⟨T, s₁, hT, hle, ?_, ?_⟩
    · rw [if_neg hpos, requestOf, if_pos rfl]
      rfl
    · exact hready₁

end HttpSession

end YkServer
