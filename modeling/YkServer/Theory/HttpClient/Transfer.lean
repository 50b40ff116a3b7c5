import YkServer.Theory.Http.Response
import YkServer.Theory.HttpClient.Parsed

/-!
# Responses From One End to the Other

`HttpSession::sendResponse` against `HttpConnection::recvResponse`. A response that the grammar
has a place for is received, if its header block comes in with the first read.

It is not received as it was sent. The reason is the one that was printed, also where the
response has none. Cookies become a header, of which the last one is left. The flags are not
parsed at all: every response that is received has the close flag, and the header `connection`
is the only trace of it.

`recvResponse` needs a byte behind what it reads, so the first read must not fill the buffer.

## Main definitions

* `HttpResponse.head`: The header block of a response.
* `HttpResponse.Transferable`: Responses that the grammar has a place for.
* `HttpResponse.received`: What arrives.

## Theorems

* `dump_head`: A printed response is its header block and its body.
* `recvRound_head`: The round that reads the header block.
* `recvBody_same`: The two ways to receive a body.
* `response_transferred`: Every response.
-/

namespace YkServer

open Lib Lib.Ragel HttpClientParser

open HttpParser (digit inRange space)

/-! ## What is sent -/

namespace HttpResponse

theorem setHeaders_all (es : List (List UInt8 × List UInt8)) (r : HttpResponse) :
    es.foldl (fun r e => r.setHeader e.1 e.2) r =
      { r with headers := HeaderMap.setAll es r.headers } := by
  induction es generalizing r with
  | nil => rfl
  | cons e es ih =>
      rw [List.foldl_cons, ih]
      rfl

/-- The header that tells about the connection. -/
def keeping (r : HttpResponse) : List UInt8 := ascii (if r.close then "close" else "keep-alive")

/-- The headers of the map that are printed. -/
def ownHeaders (r : HttpResponse) : HeaderMap :=
  r.headers.filter (fun e => r.websocket || folded e.1 ≠ folded (ascii "connection"))

/-- The headers that are printed behind them. -/
def addedHeaders (r : HttpResponse) : List (List UInt8 × List UInt8) :=
  r.cookies.map (fun c => (ascii "Set-Cookie", c)) ++
    ((if r.websocket then [] else [(ascii "connection", keeping r)]) ++
      if r.body = [] then [] else [(ascii "content-length", printed r.body.length)])

/-- The printed header block. -/
def head (r : HttpResponse) : List UInt8 :=
  headText r.version r.status.toNat r.shownReason (ownHeaders r ++ addedHeaders r)

theorem dump_head (r : HttpResponse) (hv : r.version = 0x10 ∨ r.version = 0x11)
    (hs : 0 ≤ r.status ∧ r.status < 2 ^ 31) : r.dump = r.head ++ r.body := by
  have hspace : ascii " " = [32] := by decide
  have hend : ascii "\r\n" = [13, 10] := by decide
  have hversion : ascii "HTTP/" ++ printed (r.version >>> 4).toNat ++ ascii "." ++
      printed (r.version &&& 0x0F).toNat = versionText r.version := by
    rcases hv with hv | hv
    · rw [hv]
      decide
    · rw [hv]
      decide
  have hstatus : (r.status % 2 ^ 32).toNat = r.status.toNat := by
    rw [Int.emod_eq_of_lt hs.1 (by omega)]
  have hheaders : (fun e : List UInt8 × List UInt8 => HttpRequest.printHeader e.1 e.2) =
      fieldText := by
    funext e
    have hcolon : ascii ": " = [58, 32] := by decide
    rw [HttpRequest.printHeader, fieldText, hcolon, hend]
    simp
  have hfield : ∀ k v, HttpRequest.printHeader k v = fieldText (k, v) :=
    fun k v => congrFun hheaders (k, v)
  have hcookies : (r.cookies.map (fun c => (ascii "Set-Cookie", c))).flatMap fieldText =
      r.cookies.flatMap (fun i => fieldText (ascii "Set-Cookie", i)) := by
    rw [List.flatMap_map]
  rw [dump, hversion, hstatus, hheaders, head, headText, lineText, ownHeaders, addedHeaders,
    hspace, hend]
  simp only [hfield, List.flatMap_append, hcookies, keeping]
  by_cases hw : r.websocket = true <;> by_cases hb : r.body = [] <;> simp [hw, hb]

/-- A response that the grammar has a place for. -/
structure Transferable (r : HttpResponse) : Prop where
  version : r.version = 0x10 ∨ r.version = 0x11
  status : 0 ≤ r.status ∧ r.status < 2 ^ 31
  reason : ∀ c ∈ r.reason, lineByte c = false
  fields : ∀ e ∈ r.headers, FieldOk e
  cookies : ∀ c ∈ r.cookies, FieldOk (ascii "Set-Cookie", c)
  sorted : HeaderMap.Sorted r.headers
  /-- Where there is no body, no header says that there is. -/
  length : r.body = [] → ∀ e ∈ r.headers, folded e.1 ≠ folded (ascii "content-length")
  body : r.body.length < 2 ^ 31

/-- What arrives. -/
def received (r : HttpResponse) : HttpResponse where
  status := r.status
  version := r.version
  close := true
  websocket := false
  body := r.body
  reason := r.shownReason
  headers := HeaderMap.setAll (addedHeaders r) (ownHeaders r)
  cookies := []

theorem noLineByte (w : List UInt8) (h : (w.all fun c => !lineByte c) = true) :
    ∀ c ∈ w, lineByte c = false := by
  intro c hc
  simpa using List.all_eq_true.1 h c hc

theorem ascii_ofList (l : List Char) :
    ascii (String.ofList l) = l.map (fun c => UInt8.ofNat c.toNat) := by
  rw [ascii, String.toList_ofList]

/-- A text, by its characters. -/
theorem shown_ofList (l : List Char)
    (h : (!l.isEmpty && l.all fun c => !lineByte (UInt8.ofNat c.toNat)) = true) :
    ascii (String.ofList l) ≠ [] ∧ ∀ c ∈ ascii (String.ofList l), lineByte c = false := by
  rw [Bool.and_eq_true, Bool.not_eq_true', List.isEmpty_eq_false_iff] at h
  rw [ascii_ofList]
  refine ⟨fun hno => h.1 (List.map_eq_nil_iff.1 hno), fun c hc => ?_⟩
  rcases List.mem_map.1 hc with ⟨d, hd, rfl⟩
  simpa using List.all_eq_true.1 h.2 d hd

theorem shown_cons (n : Int) (l : List Char) (t : List (Int × List UInt8))
    (h : (!l.isEmpty && l.all fun c => !lineByte (UInt8.ofNat c.toNat)) = true)
    (ht : ∀ e ∈ t, e.2 ≠ [] ∧ ∀ c ∈ e.2, lineByte c = false) :
    ∀ e ∈ (n, ascii (String.ofList l)) :: t, e.2 ≠ [] ∧ ∀ c ∈ e.2, lineByte c = false :=
  List.forall_mem_cons.2 ⟨shown_ofList l h, ht⟩

/-- Every text of the table can stand behind the status. -/
theorem httpStatusMap_shown :
    ∀ e ∈ httpStatusMap, e.2 ≠ [] ∧ ∀ c ∈ e.2, lineByte c = false := by
  rw [httpStatusMap]
  -- One entry after the other, by the characters: the strings are not to be computed.
  repeat' refine shown_cons _ _ _ rfl ?_
  intro e he
  cases he

theorem httpStatusToString_shown (s : Int) :
    httpStatusToString s ≠ [] ∧ ∀ c ∈ httpStatusToString s, lineByte c = false := by
  rw [httpStatusToString]
  split
  · next e he => exact httpStatusMap_shown e (List.mem_of_find?_eq_some he)
  · exact shown_ofList _ rfl

theorem shownReason_ne (r : HttpResponse) : r.shownReason ≠ [] := by
  rw [shownReason]
  split
  · exact (httpStatusToString_shown _).1
  · assumption

theorem shownReason_line (r : HttpResponse) (h : ∀ c ∈ r.reason, lineByte c = false) :
    ∀ c ∈ r.shownReason, lineByte c = false := by
  rw [shownReason]
  split
  · exact (httpStatusToString_shown _).2
  · exact h

theorem fieldOk_digits (n : Nat) : FieldOk (ascii "content-length", printed n) := by
  have hname : ascii "content-length" ≠ [] := by decide
  have htoken : (ascii "content-length").all token = true := rfl
  have hdigit : ∀ c, digit c = true → lineByte c = false ∧ space c = false := by
    intro c hc
    simp only [digit, inRange, Bool.and_eq_true, decide_eq_true_eq] at hc
    have hlow : 48 ≤ c.toNat := hc.1
    refine ⟨?_, ?_⟩
    · rw [lineByte, Bool.or_eq_false_iff, beq_eq_false_iff_ne, beq_eq_false_iff_ne]
      refine ⟨?_, ?_⟩ <;> rintro rfl <;> exact absurd hlow (by decide)
    · have hblank : c ≠ 32 := by
        rintro rfl
        exact absurd hlow (by decide)
      rw [space, Bool.or_eq_false_iff, Bool.and_eq_false_iff, beq_eq_false_iff_ne]
      exact ⟨Or.inr (decide_eq_false (by omega)), hblank⟩
  refine ⟨hname, List.all_eq_true.1 htoken, ?_, ?_, ?_⟩
  · exact fun c hc => (hdigit c ((printed_digits n).2 c hc)).1
  · exact fun c hc => (hdigit c ((printed_digits n).2 c (List.mem_of_head? hc))).2
  · exact fun hno => absurd hno (printed_digits n).1

theorem keeping_cases (r : HttpResponse) :
    keeping r = ascii "close" ∨ keeping r = ascii "keep-alive" := by
  rw [keeping]
  cases r.close with
  | true => exact Or.inl rfl
  | false => exact Or.inr rfl

theorem fieldOk_keeping (r : HttpResponse) : FieldOk (ascii "connection", keeping r) := by
  have hname : ascii "connection" ≠ [] := by decide
  have htoken : (ascii "connection").all token = true := rfl
  rcases keeping_cases r with h | h
  · rw [h]
    exact ⟨hname, List.all_eq_true.1 htoken, noLineByte _ rfl, by rintro c ⟨rfl⟩; rfl,
      fun hno => absurd hno (by decide)⟩
  · rw [h]
    exact ⟨hname, List.all_eq_true.1 htoken, noLineByte _ rfl, by rintro c ⟨rfl⟩; rfl,
      fun hno => absurd hno (by decide)⟩

theorem fieldOk_sent (r : HttpResponse) (h : Transferable r) :
    ∀ e ∈ ownHeaders r ++ addedHeaders r, FieldOk e := by
  intro e he
  rw [List.mem_append, addedHeaders, List.mem_append, List.mem_append] at he
  rcases he with he | he | he | he
  · exact h.fields e (List.mem_of_mem_filter he)
  · rcases List.mem_map.1 he with ⟨c, hc, rfl⟩
    exact h.cookies c hc
  · split at he
    · cases he
    · rw [List.mem_singleton] at he
      rw [he]
      exact fieldOk_keeping r
  · split at he
    · cases he
    · rw [List.mem_singleton] at he
      rw [he]
      exact fieldOk_digits r.body.length

/-- What the parser makes of the header block. -/
theorem ofHead_sent (r : HttpResponse) (h : Transferable r) :
    HttpResponseParser.ofHead r.version r.status.toNat r.shownReason
      (ownHeaders r ++ addedHeaders r) (.new 0x11 true) = { received r with body := [] } := by
  have hown : HeaderMap.setAll (ownHeaders r) [] = ownHeaders r :=
    HeaderMap.setAll_sorted _ [] (h.sorted.sublist List.filter_sublist)
  have hall : HeaderMap.setAll (ownHeaders r ++ addedHeaders r) [] =
      HeaderMap.setAll (addedHeaders r) (HeaderMap.setAll (ownHeaders r) []) :=
    List.foldl_append
  have hstatus : (r.status.toNat : Int) = r.status := Int.toNat_of_nonneg h.status.1
  rw [HttpResponseParser.ofHead, setHeaders_all, hstatus]
  have hnone : (HttpResponse.new 0x11 true).headers = [] := rfl
  simp only [hnone, hall, hown]
  rfl

/-- The length of the body is that of the last header with that name. -/
theorem find_content (r : HttpResponse) (h : Transferable r) :
    (received r).headers.find (ascii "content-length") =
      if r.body = [] then none else some (printed r.body.length) := by
  have hcookie : folded (ascii "Set-Cookie") ≠ folded (ascii "content-length") := by decide
  have hconn : folded (ascii "connection") ≠ folded (ascii "content-length") := by decide
  have hskip : ∀ (es : List (List UInt8 × List UInt8)) (m : HeaderMap),
      (∀ e ∈ es, folded e.1 ≠ folded (ascii "content-length")) →
      (HeaderMap.setAll es m).find (ascii "content-length") = m.find (ascii "content-length") := by
    intro es
    induction es with
    | nil => exact fun m _ => rfl
    | cons e es ih =>
        intro m hes
        have hrest := ih (HeaderMap.set e.1 e.2 m)
          (fun e' he' => hes e' (List.mem_cons_of_mem _ he'))
        exact hrest.trans (HeaderMap.find_set_of_ne _ _ _ _ (hes e List.mem_cons_self))
  have hothers : ∀ e ∈ r.cookies.map (fun c => (ascii "Set-Cookie", c)) ++
      (if r.websocket then [] else [(ascii "connection", keeping r)]),
      folded e.1 ≠ folded (ascii "content-length") := by
    intro e he
    rcases List.mem_append.1 he with he | he
    · rcases List.mem_map.1 he with ⟨c, -, rfl⟩
      exact hcookie
    · split at he
      · cases he
      · rw [List.mem_singleton] at he
        rw [he]
        exact hconn
  rw [received]
  simp only [addedHeaders]
  by_cases hb : r.body = []
  · rw [if_pos hb, if_pos hb, List.append_nil, hskip _ _ hothers]
    exact HeaderMap.find_absent _ _ (fun e he => h.length hb e (List.mem_of_mem_filter he))
  · rw [if_neg hb, if_neg hb, ← List.append_assoc, HeaderMap.setAll, List.foldl_append]
    exact HeaderMap.find_set _ _ _

end HttpResponse

/-! ## Receiving -/

namespace HttpConnection

open HttpSession (nextRead afterRead read_at int64OfWord int64OfWord_small)
open HttpResponseParser (responseParser ofHead)

/-- `recvResponse` receives a body as `recvRequest` does. -/
theorem recvBody_same (offset : Nat) (data : List UInt8) (length : Nat) (s : Socket)
    (h : min offset length ≤ data.length) :
    recvBody offset data length s = HttpSession.recvBody offset data length s := by
  have hlen : (if offset ≤ length then offset else length) = min offset length := by
    split <;> omega
  unfold recvBody HttpSession.recvBody
  simp only [hlen]
  split
  · rfl
  · rw [bind_ok _ _ _ _ _ (access_ok data 0 _ s (by omega)),
      bind_ok _ _ _ _ _ (access_ok (List.replicate length 0) 0 _ s
        (by rw [List.length_replicate]; omega))]
    rfl

/-- The round that reads the whole header block. -/
theorem recvRound_head (lexicalCast : List UInt8 → Option UInt64) (buffSize : Nat)
    (hint : buffSize < 2 ^ 31) (v : UInt8) (n : Nat) (reason tail : List UInt8)
    (es : List (List UInt8 × List UInt8)) (hv : v = 0x10 ∨ v = 0x11) (hn : n < 2 ^ 31)
    (hr : reason ≠ []) (hline : ∀ c ∈ reason, lineByte c = false) (h : ∀ e ∈ es, FieldOk e)
    (data : List UInt8) (hdata : data.length = buffSize) (s : Socket)
    (hready : s.Ready (headText v n reason es ++ tail))
    (hread : (headText v n reason es).length ≤ nextRead buffSize s)
    (hroom : nextRead buffSize s < buffSize) :
    ∃ data' q', recvRound (responseParser lexicalCast) buffSize 0 data .new s =
        .ok (.finished (nextRead buffSize s - (headText v n reason es).length) data' q')
          (afterRead buffSize s) ∧
      (afterRead buffSize s).Ready
        (tail.drop (nextRead buffSize s - (headText v n reason es).length)) ∧
      data'.length = buffSize ∧
      data'.take (nextRead buffSize s - (headText v n reason es).length) =
        tail.take (nextRead buffSize s - (headText v n reason es).length) ∧
      q'.data = ofHead v n reason es (.new 0x11 true) := by
  set head := headText v n reason es with hhead
  set k := nextRead buffSize s with hk
  set ys := tail.take (k - head.length) with hys
  have hle : k ≤ min buffSize s.inbox.length := Nat.min_le_right _ _
  have hpos : 0 < head.length := by
    simp only [hhead, headText, List.length_append, List.length_cons]
    omega
  have htake : s.inbox.take k = head ++ ys := by
    rw [hready.inbox, List.take_append, List.take_of_length_le hread]
  have hlen : (head ++ ys).length = k := by
    rw [← htake, List.length_take]
    omega
  have hsub : subWord buffSize 0 = buffSize := by
    rw [subWord, if_pos (Nat.zero_le _), Nat.sub_zero]
  -- The bytes, the NUL, and what was in the buffer before.
  have hstored : overwrite (overwrite data 0 (s.inbox.take k)) k [0] =
      head ++ ys ++ 0 :: data.drop (k + 1) := by
    have hone := overwrite_twice data 0 (head ++ ys) [0] (Nat.zero_le _)
    rw [Nat.zero_add, hlen] at hone
    rw [htake, hone, overwrite, List.take_zero, List.nil_append, Nat.zero_add, List.length_append,
      hlen, List.append_assoc]
    rfl
  rcases HttpResponseParser.execute_head v n reason ys (data.drop (k + 1)) es .new hv hn hr hline h
    (by
      rw [← hhead, List.length_append, hlen, List.length_cons, List.length_drop, hdata]
      omega) rfl rfl with ⟨q', hexec, hq', hnoerr, hfin⟩
  rw [← hhead, hlen] at hexec
  have hstoredlen : (head ++ ys ++ 0 :: data.drop (k + 1)).length = buffSize := by
    rw [List.length_append, hlen, List.length_cons, List.length_drop, hdata]
    omega
  have hrun : (responseParser lexicalCast).run (head ++ ys ++ 0 :: data.drop (k + 1)) k .new =
      (head.length, q') := by
    unfold responseParser
    simp only [hexec, Nat.min_eq_left hread]
  have hrest : ((head ++ ys ++ 0 :: data.drop (k + 1)).take k).drop head.length = ys := by
    rw [List.take_left' hlen, List.drop_left]
  have hyslen : ys.length = k - head.length := by
    rw [List.length_append] at hlen
    omega
  refine ⟨overwrite (head ++ ys ++ 0 :: data.drop (k + 1)) 0 ys, q', ?_, ⟨hready.connected, ?_⟩,
    ?_, ?_, hq'⟩
  · have hread' := read_at buffSize 0 s data hready.connected (by omega)
    have hexecute : Prog.within .new (Prog.second ((responseParser lexicalCast).execute
        (head ++ ys ++ 0 :: data.drop (k + 1)) k)) (afterRead buffSize s) =
        .ok ((head.length, overwrite (head ++ ys ++ 0 :: data.drop (k + 1)) 0 ys), q')
          (afterRead buffSize s) := by
      refine within_ok _ _ _ _ _ _ (second_ok _ _ _ _ _ ?_)
      rw [ResponseParser.execute, hrun]
      simp only [hrest]
    have hfull : ¬((k - head.length : Nat) : Int) = intOfWord buffSize := by
      rw [intOfWord_small _ hint]
      omega
    rw [recvRound, hsub, bind_ok _ _ _ _ _ (access_ok _ _ _ _ (by omega)),
      bind_ok _ _ _ _ _ hread']
    simp only [← hk, Int.toNat_natCast, Nat.add_zero]
    rw [if_neg (by omega), if_neg (by omega),
      bind_ok _ _ _ _ _ (access_ok _ _ _ _ (by
        rw [length_overwrite _ _ _ (by rw [htake, hlen]; omega)]
        omega)), hstored, bind_ok _ _ _ _ _ (access_ok _ _ _ _ (by omega)),
      bind_ok _ _ _ _ _ hexecute]
    have herr : (responseParser lexicalCast).hasError q' = false := hnoerr
    have hdone : (responseParser lexicalCast).isFinished q' = true := hfin
    simp only [herr, hdone, hfull, Bool.false_eq_true, if_false, if_true]
    rfl
  · rw [afterRead, hready.inbox, List.drop_append, List.drop_eq_nil_of_le hread, List.nil_append]
  · rw [length_overwrite _ _ _ (by omega), hstoredlen]
  · rw [overwrite, List.take_zero, List.nil_append, ← hyslen]
    exact List.take_left

/-- A response that comes in with its header block in the first read. Of what follows it on
    the stream, the part that the first read took is lost. -/
theorem recvResponse_dump (lexicalCast : List UInt8 → Option UInt64)
    (hcast : ∀ n < 2 ^ 64, lexicalCast (printed n) = some (UInt64.ofNat n)) (buffSize : Nat)
    (hint : buffSize < 2 ^ 31) (buffer : Nat → UInt8) (r : HttpResponse) (h : r.Transferable)
    (rest : List UInt8) (s : Socket) (hready : s.Ready (r.dump ++ rest))
    (hread : r.head.length ≤ nextRead buffSize s) (hroom : nextRead buffSize s < buffSize) :
    ∃ q s', recvResponse (responseParser lexicalCast) buffSize buffer .new s = .ok (some q) s' ∧
      q.data = r.received ∧ s'.Ready (rest.drop (nextRead buffSize s - r.dump.length)) := by
  rw [HttpResponse.dump_head r h.version h.status, List.append_assoc] at hready
  set data : List UInt8 := (List.range buffSize).map buffer with hdata
  have hdatalen : data.length = buffSize := by
    rw [hdata, List.length_map, List.length_range]
  rcases recvRound_head lexicalCast buffSize hint r.version r.status.toNat r.shownReason
    (r.body ++ rest) (r.ownHeaders ++ r.addedHeaders) h.version
    (by
      have hstatus := h.status
      omega) r.shownReason_ne (r.shownReason_line h.reason) (r.fieldOk_sent h) data hdatalen s
    hready hread hroom with ⟨data', q, hround, hready', hlen', htake, hq⟩
  rw [r.ofHead_sent h] at hq
  have hheader : recvHeader (responseParser lexicalCast) buffSize (s.inbox.length + 1) 0 data .new
      s = .ok (some (nextRead buffSize s - r.head.length, data', q)) (afterRead buffSize s) := by
    rw [recvHeader, bind_ok _ _ _ _ _ hround]
    rfl
  have hlength : (responseParser lexicalCast).getContentLength q =
      if r.body = [] then 0 else UInt64.ofNat r.body.length := by
    have hfind : q.data.headers.find (ascii "content-length") =
        if r.body = [] then none else some (printed r.body.length) := by
      rw [hq]
      exact r.find_content h
    have hshort := h.body
    unfold responseParser HttpResponseParser.getContentLength
    simp only [hfind]
    by_cases hb : r.body = []
    · rw [if_pos hb, if_pos hb]
    · rw [if_neg hb, if_neg hb]
      simp only [hcast r.body.length (by omega), Option.getD_some]
  have hover : nextRead buffSize s - r.dump.length =
      nextRead buffSize s - r.head.length - r.body.length := by
    rw [HttpResponse.dump_head r h.version h.status, List.length_append, Nat.sub_add_eq]
  rw [recvResponse, bind_ok _ _ _ _ _ (get_apply s), bind_ok _ _ _ _ _ hheader, hover]
  simp only [hlength]
  by_cases hb : r.body = []
  · rw [if_pos hb, if_neg (by decide)]
    rw [hb, List.nil_append] at hready'
    refine ⟨q, _, rfl, ?_, ?_⟩
    · rw [hq, ← hb]
      rfl
    · rw [hb, List.length_nil, Nat.sub_zero]
      exact hready'
  · have hshort := h.body
    have hpos := List.length_pos_of_ne_nil hb
    rw [if_neg hb, int64OfWord_small _ (by omega), Int.toNat_natCast,
      if_pos (Int.natCast_pos.2 hpos)]
    have hle : nextRead buffSize s ≤ min buffSize s.inbox.length := Nat.min_le_right _ _
    rcases HttpSession.recvBody_left (nextRead buffSize s - r.head.length) data' r.body rest
      (afterRead buffSize s) hshort htake hready' with ⟨s', hbody, hleft⟩
    rw [← recvBody_same _ _ _ _ (by omega)] at hbody
    rw [bind_ok _ _ _ _ _ hbody]
    refine ⟨{ q with data := { q.data with body := r.body } }, s', rfl, ?_, hleft⟩
    rw [hq]
    rfl

/-- The sender writes the printed response. -/
theorem sendResponse_sent (r : HttpResponse) (c : Socket) (hconn : c.connected = true)
    (hlen : r.dump.length < 2 ^ 64) :
    ∃ n c', HttpSession.sendResponse r c = .ok n c' ∧ c'.outbox = c.outbox ++ r.dump := by
  rcases SocketStream.writeFixSize_taken c r.dump c.outbox 0 r.dump.length hlen (by omega)
    ⟨hconn, rfl⟩ (r.dump.length + 1) (Nat.lt_succ_self _) with ⟨c', hrun, hsent, -⟩
  rw [List.drop_zero, List.take_length] at hsent
  simp only [Nat.zero_add] at hrun
  exact ⟨_, c', hrun, hsent.outbox⟩

/-- Every response that the grammar has a place for: it is written as a whole, and received with
    its status, version, reason, headers and body if its header block comes in with the first
    read, and that read does not fill the buffer. -/
theorem response_transferred (lexicalCast : List UInt8 → Option UInt64)
    (hcast : ∀ n < 2 ^ 64, lexicalCast (printed n) = some (UInt64.ofNat n)) (buffSize : Nat)
    (hint : buffSize < 2 ^ 31) (buffer : Nat → UInt8) (r : HttpResponse) (h : r.Transferable)
    (hfit : r.head.length < buffSize) (c : Socket) (hconn : c.connected = true) :
    (∃ n c', HttpSession.sendResponse r c = .ok n c' ∧ c'.outbox = c.outbox ++ r.dump) ∧
    ∀ (rest : List UInt8) (s : Socket), s.Ready (r.dump ++ rest) →
      r.head.length ≤ nextRead buffSize s → nextRead buffSize s < buffSize →
      ∃ q s', recvResponse (responseParser lexicalCast) buffSize buffer .new s = .ok (some q) s' ∧
        q.data = r.received ∧ s'.Ready (rest.drop (nextRead buffSize s - r.dump.length)) := by
  have hlen : r.dump.length < 2 ^ 64 := by
    have hshort := h.body
    rw [HttpResponse.dump_head r h.version h.status, List.length_append]
    omega
  exact ⟨sendResponse_sent r c hconn hlen, fun rest s hready hread hroom =>
    recvResponse_dump lexicalCast hcast buffSize hint buffer r h rest s hready hread hroom⟩

/-! ## A response -/

/-- A response with cookies and a body, but without a reason. -/
def loginResponse : HttpResponse :=
  ⟨200, 0x11, false, false, ascii "hello", [], [(ascii "Server", ascii "yk/1.0.0")],
    [ascii "a=1", ascii "b=2"]⟩

theorem transferable_login : loginResponse.Transferable where
  version := Or.inr rfl
  status := by decide
  reason := HttpResponse.noLineByte _ rfl
  fields := by
    intro e he
    rw [loginResponse, List.mem_singleton] at he
    rw [he]
    exact ⟨by decide, List.all_eq_true.1 rfl, HttpResponse.noLineByte _ rfl,
      by rintro c ⟨rfl⟩; rfl, fun hno => absurd hno (by decide)⟩
  cookies := by
    intro c hc
    rw [loginResponse, List.mem_cons, List.mem_singleton] at hc
    rcases hc with rfl | rfl
    · exact ⟨by decide, List.all_eq_true.1 rfl, HttpResponse.noLineByte _ rfl,
      by rintro c ⟨rfl⟩; rfl, fun hno => absurd hno (by decide)⟩
    · exact ⟨by decide, List.all_eq_true.1 rfl, HttpResponse.noLineByte _ rfl,
      by rintro c ⟨rfl⟩; rfl, fun hno => absurd hno (by decide)⟩
  sorted := List.pairwise_singleton _ _
  length := by decide
  body := by decide

theorem response_transferred_login : loginResponse.Transferable ∧
    (∃ n c', HttpSession.sendResponse loginResponse (HttpSession.client (fun _ => 7) []) =
      .ok n c' ∧ c'.outbox = loginResponse.dump) ∧
    ∃ q s', recvResponse (responseParser HttpSession.decimal) 4096 (fun _ => 0) .new
        (HttpSession.client (fun _ => 4096) (loginResponse.dump ++ ascii "HTTP")) =
        .ok (some q) s' ∧ q.data = loginResponse.received ∧ s'.Ready [] := by
  have hdump : loginResponse.dump.length = 119 := rfl
  have hhead : loginResponse.head.length = 114 := rfl
  have hall := response_transferred HttpSession.decimal HttpSession.decimal_printed 4096 (by decide)
    (fun _ => 0) loginResponse transferable_login (by rw [hhead]; decide)
    (HttpSession.client (fun _ => 7) []) rfl
  have hnext : nextRead 4096 (HttpSession.client (fun _ => 4096)
      (loginResponse.dump ++ ascii "HTTP")) = 123 := by
    have hin : (HttpSession.client (fun _ => 4096)
        (loginResponse.dump ++ ascii "HTTP")).inbox.length = 123 := by
      rw [HttpSession.client, List.length_append, hdump]
      rfl
    rw [nextRead, hin]
    rfl
  refine ⟨transferable_login, hall.1, ?_⟩
  -- The bytes behind the response come in with it.
  rcases hall.2 (ascii "HTTP") (HttpSession.client (fun _ => 4096)
    (loginResponse.dump ++ ascii "HTTP")) ⟨rfl, rfl⟩ (by rw [hnext, hhead]; decide)
    (by rw [hnext]; decide) with ⟨q, s', hrun, hq, hready⟩
  rw [hnext, hdump] at hready
  exact ⟨q, s', hrun, hq, hready⟩

end HttpConnection

end YkServer
