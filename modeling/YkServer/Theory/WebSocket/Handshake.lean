import YkServer.Core.WSServer
import YkServer.Theory.Http.Conversation
import YkServer.Theory.Util.Base64

/-!
# The WebSocket Handshake

`WSConnection::Create` against `WSSession::handleShake`. The request is an HTTP request without
the header that `dump` adds otherwise, so it arrives as it was sent, and the response is one that
arrives as `Transfer` says.

A caller can bring headers. The ones that the handshake sets itself come last and replace those.
`connection` is an exception: if the caller brings it, it stays. So there is one way to spoil a
handshake, which is to ask for a connection that is not an upgrade. The server closes then, and
the client takes that for a timeout.

## Main definitions

* `WSConnection.wanted`: The connection that is asked for.
* `Link.handshake`: Both sides of it.

## Theorems

* `HeaderMap.sorted_set`, `HeaderMap.fieldOk_set`: Setting one header.
* `recvRequest_websocket`: The request arrives.
* `getHeader_connection`: What the server looks at.
* `handshake_agreed`: Both sides of it.
-/

namespace YkServer

open Lib

/-! ## Headers -/

namespace HeaderMap

theorem mem_set (key val : List UInt8) (m : HeaderMap) :
    ∀ e ∈ set key val m, folded e.1 = folded key ∨ e ∈ m := by
  induction m with
  | nil =>
      intro e he
      rw [set_nil, List.mem_singleton] at he
      rw [he]
      exact Or.inl rfl
  | cons e₀ m ih =>
      rcases e₀ with ⟨k, v⟩
      intro e he
      rcases Std.lt_trichotomy (folded k) (folded key) with h | h | h
      · rw [set_behind k v key val m h, List.mem_cons] at he
        rcases he with rfl | he
        · exact Or.inr List.mem_cons_self
        · rcases ih e he with hkey | hmem
          · exact Or.inl hkey
          · exact Or.inr (List.mem_cons_of_mem _ hmem)
      · rw [set_here k v key val m h, List.mem_cons] at he
        rcases he with rfl | he
        · exact Or.inl h
        · exact Or.inr (List.mem_cons_of_mem _ he)
      · rw [set_front k v key val m h, List.mem_cons] at he
        rcases he with rfl | he
        · exact Or.inl rfl
        · exact Or.inr he

/-- The order is kept. -/
theorem sorted_set (key val : List UInt8) (m : HeaderMap) (h : Sorted m) :
    Sorted (set key val m) := by
  induction m with
  | nil => exact List.pairwise_singleton _ _
  | cons e₀ m ih =>
      rcases e₀ with ⟨k, v⟩
      rcases List.pairwise_cons.1 h with ⟨hfirst, hrest⟩
      rcases Std.lt_trichotomy (folded k) (folded key) with hk | hk | hk
      · rw [set_behind k v key val m hk]
        refine List.pairwise_cons.2 ⟨?_, ih hrest⟩
        intro e he
        rcases mem_set key val m e he with hkey | hmem
        · rw [caseInsensitiveLess_iff, hkey]
          exact hk
        · exact hfirst e hmem
      · rw [set_here k v key val m hk]
        exact List.pairwise_cons.2 ⟨hfirst, hrest⟩
      · rw [set_front k v key val m hk]
        refine List.pairwise_cons.2 ⟨?_, h⟩
        intro e he
        rw [caseInsensitiveLess_iff]
        rcases List.mem_cons.1 he with rfl | he
        · exact hk
        · exact Std.lt_trans hk ((caseInsensitiveLess_iff _ _).1 (hfirst e he))

theorem sorted_setAll (es : List (List UInt8 × List UInt8)) (m : HeaderMap) (h : Sorted m) :
    Sorted (setAll es m) := by
  induction es generalizing m with
  | nil => exact h
  | cons e es ih => exact ih _ (sorted_set e.1 e.2 m h)

/-- Names in another case. -/
theorem find_folded (key other : List UInt8) (m : HeaderMap) (h : folded key = folded other) :
    find key m = find other m := by
  simp only [find, caseInsensitiveLess, h]

/-- The value of the last header with a name, or what there was before. -/
def lastOf (key : List UInt8) (es : List (List UInt8 × List UInt8)) (v : Option (List UInt8)) :
    Option (List UInt8) :=
  es.foldl (fun v e => if folded e.1 = folded key then some e.2 else v) v

theorem find_setAll (key : List UInt8) (es : List (List UInt8 × List UInt8)) (m : HeaderMap) :
    (setAll es m).find key = lastOf key es (m.find key) := by
  induction es generalizing m with
  | nil => rfl
  | cons e es ih =>
      have hset : (set e.1 e.2 m).find key =
          if folded e.1 = folded key then some e.2 else m.find key := by
        by_cases h : folded e.1 = folded key
        · rw [if_pos h, find_folded key e.1 _ h.symm, find_set]
        · rw [if_neg h, find_set_of_ne _ _ _ _ h]
      have hrest := ih (set e.1 e.2 m)
      rw [hset] at hrest
      exact hrest

theorem isSome_lastOf (key : List UInt8) (es : List (List UInt8 × List UInt8))
    (v : Option (List UInt8)) :
    (lastOf key es v).isSome = (v.isSome || es.any (fun e => folded e.1 = folded key)) := by
  induction es generalizing v with
  | nil => rw [List.any_nil, Bool.or_false]; rfl
  | cons e es ih =>
      have hstep : lastOf key (e :: es) v =
          lastOf key es (if folded e.1 = folded key then some e.2 else v) := rfl
      rw [hstep, ih, List.any_cons]
      by_cases h : folded e.1 = folded key
      · rw [if_pos h, decide_eq_true h, Bool.true_or, Bool.or_true]
        rfl
      · rw [if_neg h, decide_eq_false h, Bool.false_or]

open HttpParser (FieldOk)

/-- A header that was set has the name of the new one, or of one that was there. -/
theorem fieldOk_set (key val : List UInt8) (m : HeaderMap) (hnew : FieldOk (key, val))
    (h : ∀ e ∈ m, FieldOk e) : ∀ e ∈ set key val m, FieldOk e := by
  induction m with
  | nil =>
      intro e he
      rw [set_nil, List.mem_singleton] at he
      rw [he]
      exact hnew
  | cons e₀ m ih =>
      rcases e₀ with ⟨k, v⟩
      intro e he
      rcases Std.lt_trichotomy (folded k) (folded key) with hk | hk | hk
      · rw [set_behind k v key val m hk, List.mem_cons] at he
        rcases he with rfl | he
        · exact h _ List.mem_cons_self
        · exact ih (fun e' he' => h e' (List.mem_cons_of_mem _ he')) e he
      · rw [set_here k v key val m hk, List.mem_cons] at he
        rcases he with rfl | he
        · have hold := h (k, v) List.mem_cons_self
          exact ⟨hold.name, hold.token, hold.start, hnew.value, hnew.blank⟩
        · exact h e (List.mem_cons_of_mem _ he)
      · rw [set_front k v key val m hk, List.mem_cons] at he
        rcases he with rfl | he
        · exact hnew
        · exact h e he

theorem fieldOk_setAll (es : List (List UInt8 × List UInt8)) (m : HeaderMap)
    (hes : ∀ e ∈ es, FieldOk e) (h : ∀ e ∈ m, FieldOk e) : ∀ e ∈ setAll es m, FieldOk e := by
  induction es generalizing m with
  | nil => exact h
  | cons e es ih =>
      exact ih _ (fun e' he' => hes e' (List.mem_cons_of_mem _ he'))
        (fieldOk_set e.1 e.2 m (hes e List.mem_cons_self) h)

end HeaderMap

/-! ## Base 64 in a header -/

/-- What a text in base 64 can have. -/
def plainByte (c : UInt8) : Bool :=
  HttpParser.printable c && !(c == 32) && !HttpClientParser.lineByte c && !HttpParser.space c

theorem plain_base64 (data : List UInt8) : ∀ c ∈ base64encode data, plainByte c = true := by
  have halphabet : base64Alphabet.all plainByte = true := rfl
  rw [base64encode_eq_encode64]
  rcases encode64_body base64Alphabet 61 length_base64Alphabet data with ⟨body, hbody, hmem⟩
  intro c hc
  rw [hbody, List.mem_append] at hc
  rcases hc with hc | hc
  · exact List.all_eq_true.1 halphabet c (hmem c hc)
  · rw [List.eq_of_mem_replicate hc]
    rfl

theorem base64encode_ne (data : List UInt8) (h : data ≠ []) : base64encode data ≠ [] := by
  have hpos := List.length_pos_of_ne_nil h
  rw [base64encode_eq_encode64]
  refine List.ne_nil_of_length_pos ?_
  rw [length_encode64]
  omega

/-! ## The request -/

namespace WSConnection

open HeaderMap (set setAll find lastOf)

variable (uri : Uri) (headers : List (List UInt8 × List UInt8)) (key : List UInt8)

/-- The connection that is asked for. -/
def wanted : List UInt8 := (lastOf (ascii "connection") headers none).getD (ascii "Upgrade")

theorem foldl_giveHeader (g : Given) :
    (headers.foldl giveHeader g).req = { g.req with headers := setAll headers g.req.headers } ∧
      (headers.foldl giveHeader g).hasConn =
        (g.hasConn || headers.any (fun e => folded e.1 = folded (ascii "connection"))) := by
  induction headers generalizing g with
  | nil => exact ⟨rfl, by rw [List.any_nil, Bool.or_false]; rfl⟩
  | cons e es ih =>
      rcases ih (giveHeader g e) with ⟨hreq, hconn⟩
      refine ⟨hreq, ?_⟩
      rw [List.foldl_cons, hconn, List.any_cons, giveHeader, Bool.or_assoc]

/-- The headers with the connection. -/
def connected : HeaderMap :=
  if headers.any (fun e => folded e.1 = folded (ascii "connection")) then setAll headers []
  else set (ascii "connection") (ascii "Upgrade") (setAll headers [])

/-- The headers that the handshake sets. -/
def upgraded : HeaderMap :=
  set (ascii "Sec-webSocket-Key") (base64encode key) (set (ascii "Sec-webSocket-Version")
    (ascii "13") (set (ascii "Upgrade") (ascii "websocket") (connected headers)))

/-- The request, apart from the host. -/
theorem request_headers :
    (request uri headers key).headers = upgraded headers key ∨
      (request uri headers key).headers = set (ascii "Host") uri.m_host (upgraded headers key) := by
  rcases foldl_giveHeader headers ⟨false, false,
    { HttpRequest.new with
      path := uri.getPath, query := uri.m_query, fragment := uri.m_fragment, method := .GET }⟩ with
    ⟨hreq, hconn⟩
  rw [Bool.false_or] at hconn
  have hmap : ∀ b : Bool, (if b = true then
        ({ HttpRequest.new with
            path := uri.getPath, query := uri.m_query, fragment := uri.m_fragment, method := .GET,
            headers := setAll headers [] } : HttpRequest)
      else HttpRequest.setHeader (ascii "connection") (ascii "Upgrade")
        { HttpRequest.new with
            path := uri.getPath, query := uri.m_query, fragment := uri.m_fragment, method := .GET,
            headers := setAll headers [] }).headers =
      if b = true then setAll headers []
      else set (ascii "connection") (ascii "Upgrade") (setAll headers []) := by
    intro b
    cases b <;> rfl
  have hconnected := hmap (headers.any (fun e => folded e.1 = folded (ascii "connection")))
  unfold request
  simp only [hreq, hconn]
  split
  · left
    rw [upgraded, connected, ← hconnected]
    rfl
  · right
    rw [upgraded, connected, ← hconnected]
    rfl

/-- The rest of it is what the constructor and the URI give. -/
theorem request_rest :
    (request uri headers key) = { HttpRequest.new with
      path := uri.getPath, query := uri.m_query, fragment := uri.m_fragment, method := .GET,
      headers := (request uri headers key).headers } := by
  rcases foldl_giveHeader headers ⟨false, false,
    { HttpRequest.new with
      path := uri.getPath, query := uri.m_query, fragment := uri.m_fragment, method := .GET }⟩ with
    ⟨hreq, -⟩
  unfold request
  simp only [hreq]
  split <;> split <;> rfl

/-- A name that is not that of the host, of an upgrade, of a version or of a key. -/
theorem find_request (name : List UInt8) (hhost : folded (ascii "Host") ≠ folded name) :
    (request uri headers key).headers.find name = (upgraded headers key).find name := by
  rcases request_headers uri headers key with h | h
  · rw [h]
  · rw [h, HeaderMap.find_set_of_ne _ _ _ _ hhost]

/-- What the server looks at. -/
theorem getHeader_connection :
    (request uri headers key).getHeader (ascii "Connection") = wanted headers := by
  have hhost : folded (ascii "Host") ≠ folded (ascii "Connection") := by decide
  have hkey : folded (ascii "Sec-webSocket-Key") ≠ folded (ascii "Connection") := by decide
  have hversion : folded (ascii "Sec-webSocket-Version") ≠ folded (ascii "Connection") := by decide
  have hupgrade : folded (ascii "Upgrade") ≠ folded (ascii "Connection") := by decide
  have hname : folded (ascii "Connection") = folded (ascii "connection") := by decide
  have hsome := HeaderMap.isSome_lastOf (ascii "connection") headers none
  rw [HttpRequest.getHeader, find_request uri headers key _ hhost, upgraded,
    HeaderMap.find_set_of_ne _ _ _ _ hkey, HeaderMap.find_set_of_ne _ _ _ _ hversion,
    HeaderMap.find_set_of_ne _ _ _ _ hupgrade, HeaderMap.find_folded _ _ _ hname, connected, wanted]
  rw [Option.isSome_none, Bool.false_or] at hsome
  by_cases hany : headers.any (fun e => folded e.1 = folded (ascii "connection")) = true
  · rw [if_pos hany, HeaderMap.find_setAll]
    rw [hany, Option.isSome_iff_exists] at hsome
    rcases hsome with ⟨v, hv⟩
    have hnone : find (ascii "connection") [] = none := rfl
    rw [hnone, hv]
    rfl
  · rw [if_neg hany, HeaderMap.find_set]
    rw [Bool.eq_false_iff.2 hany, Option.isSome_eq_false_iff, Option.isNone_iff_eq_none] at hsome
    rw [hsome]
    rfl

theorem getHeader_upgrade :
    (request uri headers key).getHeader (ascii "Upgrade") = ascii "websocket" := by
  have hhost : folded (ascii "Host") ≠ folded (ascii "Upgrade") := by decide
  have hkey : folded (ascii "Sec-webSocket-Key") ≠ folded (ascii "Upgrade") := by decide
  have hversion : folded (ascii "Sec-webSocket-Version") ≠ folded (ascii "Upgrade") := by decide
  rw [HttpRequest.getHeader, find_request uri headers key _ hhost, upgraded,
    HeaderMap.find_set_of_ne _ _ _ _ hkey, HeaderMap.find_set_of_ne _ _ _ _ hversion,
    HeaderMap.find_set]
  rfl

theorem find_version :
    (request uri headers key).headers.find (ascii "Sec-webSocket-Version") = some (ascii "13") := by
  have hhost : folded (ascii "Host") ≠ folded (ascii "Sec-webSocket-Version") := by decide
  have hkey : folded (ascii "Sec-webSocket-Key") ≠ folded (ascii "Sec-webSocket-Version") := by
    decide
  rw [find_request uri headers key _ hhost, upgraded, HeaderMap.find_set_of_ne _ _ _ _ hkey,
    HeaderMap.find_set]

theorem getHeader_key :
    (request uri headers key).getHeader (ascii "Sec-WebSocket-Key") = base64encode key := by
  have hhost : folded (ascii "Host") ≠ folded (ascii "Sec-WebSocket-Key") := by decide
  have hname : folded (ascii "Sec-WebSocket-Key") = folded (ascii "Sec-webSocket-Key") := by decide
  rw [HttpRequest.getHeader, find_request uri headers key _ hhost, upgraded,
    HeaderMap.find_folded _ _ _ hname, HeaderMap.find_set]
  rfl

/-- No header says that there is a body. -/
theorem find_noBody (h : ∀ e ∈ headers, folded e.1 ≠ folded (ascii "content-length")) :
    (request uri headers key).headers.find (ascii "content-length") = none := by
  have hhost : folded (ascii "Host") ≠ folded (ascii "content-length") := by decide
  have hkey : folded (ascii "Sec-webSocket-Key") ≠ folded (ascii "content-length") := by decide
  have hversion : folded (ascii "Sec-webSocket-Version") ≠ folded (ascii "content-length") := by
    decide
  have hupgrade : folded (ascii "Upgrade") ≠ folded (ascii "content-length") := by decide
  have hconn : folded (ascii "connection") ≠ folded (ascii "content-length") := by decide
  have hall : (setAll headers []).find (ascii "content-length") = none := by
    have hsome := HeaderMap.isSome_lastOf (ascii "content-length") headers none
    have hany : headers.any (fun e => folded e.1 = folded (ascii "content-length")) = false := by
      rw [List.any_eq_false]
      intro e he
      rw [decide_eq_true_eq]
      exact h e he
    have hnone : find (ascii "content-length") [] = none := rfl
    rw [hany, Option.isSome_none, Bool.false_or, Option.isSome_eq_false_iff,
      Option.isNone_iff_eq_none] at hsome
    rw [HeaderMap.find_setAll, hnone, hsome]
  rw [find_request uri headers key _ hhost, upgraded, HeaderMap.find_set_of_ne _ _ _ _ hkey,
    HeaderMap.find_set_of_ne _ _ _ _ hversion, HeaderMap.find_set_of_ne _ _ _ _ hupgrade, connected]
  split
  · exact hall
  · rw [HeaderMap.find_set_of_ne _ _ _ _ hconn, hall]

open HttpParser (FieldOk LineOk)

theorem request_sorted : HeaderMap.Sorted (request uri headers key).headers := by
  have hconnected : HeaderMap.Sorted (connected headers) := by
    have hall := HeaderMap.sorted_setAll headers [] List.Pairwise.nil
    rw [connected]
    split
    · exact hall
    · exact HeaderMap.sorted_set _ _ _ hall
  have hupgraded : HeaderMap.Sorted (upgraded headers key) :=
    HeaderMap.sorted_set _ _ _ (HeaderMap.sorted_set _ _ _ (HeaderMap.sorted_set _ _ _ hconnected))
  rcases request_headers uri headers key with h | h
  · rw [h]
    exact hupgraded
  · rw [h]
    exact HeaderMap.sorted_set _ _ _ hupgraded

theorem request_fields (h : ∀ e ∈ headers, FieldOk e) (hhost : FieldOk (ascii "Host", uri.m_host)) :
    ∀ e ∈ (request uri headers key).headers, FieldOk e := by
  have hplain : ∀ name : List UInt8, name ∈ [ascii "connection", ascii "Upgrade",
      ascii "Sec-webSocket-Version", ascii "Sec-webSocket-Key"] → ∀ v : List UInt8,
      (∀ c ∈ v, plainByte c = true) → FieldOk (name, v) := by
    have hnames : ∀ name ∈ [ascii "connection", ascii "Upgrade", ascii "Sec-webSocket-Version",
        ascii "Sec-webSocket-Key"], name ≠ [] ∧ (name.all HttpParser.token = true) ∧
        name.head? ≠ some 13 ∧ name.head? ≠ some 10 := by decide
    intro name hname v hv
    rcases hnames name hname with ⟨hne, htoken, hcr, hlf⟩
    refine ⟨hne, List.all_eq_true.1 htoken, ⟨hcr, hlf⟩, ?_, ?_⟩
    · intro c hc
      have hplain := hv c hc
      simp only [plainByte, Bool.and_eq_true] at hplain
      exact hplain.1.1.1
    · intro hspace
      exact absurd (hv 32 (List.mem_of_head? hspace)) (by decide)
  have hconnected : ∀ e ∈ connected headers, FieldOk e := by
    have hall := HeaderMap.fieldOk_setAll headers [] h (fun e he => by cases he)
    rw [connected]
    split
    · exact hall
    · exact HeaderMap.fieldOk_set _ _ _ (hplain _ (by decide) _ (List.all_eq_true.1 rfl)) hall
  have hupgraded : ∀ e ∈ upgraded headers key, FieldOk e := by
    refine HeaderMap.fieldOk_set _ _ _ (hplain _ (by decide) _ (plain_base64 key))
      (HeaderMap.fieldOk_set _ _ _ (hplain _ (by decide) _ (List.all_eq_true.1 rfl))
        (HeaderMap.fieldOk_set _ _ _ (hplain _ (by decide) _ (List.all_eq_true.1 rfl)) hconnected))
  rcases request_headers uri headers key with hr | hr
  · rw [hr]
    exact hupgraded
  · rw [hr]
    exact HeaderMap.fieldOk_set _ _ _ hhost hupgraded

/-- A URI that the grammar of requests has a place for. -/
structure Requestable (relaxed : Bool) : Prop where
  slash : uri.getPath.head? = some 47
  path : Ragel.accepts (HttpParser.relativePart relaxed) uri.getPath = true
  query : uri.m_query = [] ∨
    Ragel.accepts (HttpParser.query relaxed) uri.m_query = true
  fragment : uri.m_fragment = [] ∨
    Ragel.accepts (HttpParser.fragment relaxed) uri.m_fragment = true

theorem request_line (relaxed : Bool) (h : Requestable uri relaxed) :
    LineOk relaxed (request uri headers key) := by
  rw [request_rest]
  exact ⟨List.all_eq_true.1 rfl, Or.inr rfl, h.slash, h.path, h.query, h.fragment⟩

end WSConnection

/-! ## The request arrives -/

namespace WSSession

open HttpParser (FieldOk LineOk headText lineText fieldText)

/-- A printed request without the header about the connection. -/
theorem dump_websocket (r : HttpRequest) (hbody : r.body = []) :
    r.dump true = headText r r.headers := by
  have hspace : ascii " " = [32] := by decide
  have hquery : ascii "?" = [63] := by decide
  have hfragment : ascii "#" = [35] := by decide
  have hend : ascii "\r\n" = [13, 10] := by decide
  have hhttp : ascii " HTTP/" = 32 :: ascii "HTTP/" := by decide
  have hall : r.headers.filter (fun e => true || folded e.1 ≠ folded (ascii "connection")) =
      r.headers := List.filter_eq_self.2 (fun e _ => rfl)
  have hheaders : (fun e : List UInt8 × List UInt8 => HttpRequest.printHeader e.1 e.2) =
      fieldText := funext HttpRequest.printHeader_eq
  have hopt : (if r.query = [] then [] else ascii "?") ++ r.query =
      HttpParser.queryText r.query := by
    rw [HttpParser.queryText, hquery]
    by_cases hq : r.query = []
    · rw [if_pos hq, if_pos hq, hq]
      rfl
    · rw [if_neg hq, if_neg hq]
      rfl
  have hopt' : (if r.fragment = [] then [] else ascii "#") ++ r.fragment =
      HttpParser.fragmentText r.fragment := by
    rw [HttpParser.fragmentText, hfragment]
    by_cases hf : r.fragment = []
    · rw [if_pos hf, if_pos hf, hf]
      rfl
    · rw [if_neg hf, if_neg hf]
      rfl
  rw [HttpRequest.dump, hall, hheaders, headText, lineText, HttpParser.versionText, hspace, hend,
    hhttp]
  simp [hbody, ← hopt, ← hopt']

/-- The request of a handshake, with its header block in the first read. -/
theorem recvRequest_websocket (lexicalCast : List UInt8 → Option UInt64) (buffSize : Nat)
    (hint : buffSize < 2 ^ 31) (m : HttpSession.Memory) (r : HttpRequest)
    (hline : LineOk m.uriRelaxed r) (hfields : ∀ e ∈ r.headers, FieldOk e)
    (hsorted : HeaderMap.Sorted r.headers) (hbody : r.body = []) (hclose : r.close = true)
    (hnone : r.headers.find (ascii "content-length") = none) (rest : List UInt8) (s : Socket)
    (hready : s.Ready (r.dump true ++ rest))
    (hread : (r.dump true).length ≤ HttpSession.nextRead buffSize s) :
    ∃ s', HttpSession.recvRequest lexicalCast buffSize m s =
        .ok (some (HttpSession.setClose r)) s' ∧
      s'.Ready (rest.drop (HttpSession.nextRead buffSize s - (r.dump true).length)) := by
  rw [dump_websocket r hbody] at hready hread ⊢
  have hpos : 0 < (headText r r.headers).length := by
    simp only [headText, List.length_append, List.length_cons]
    omega
  have hbuf : HttpSession.nextRead buffSize s ≤ buffSize := by
    unfold HttpSession.nextRead Socket.share
    omega
  rcases HttpRequestParser.exec_head m.uriRelaxed m.queryStart r r.headers hline hfields
    (by omega) with ⟨q, hexec, hfin, herr, hdata⟩
  have hofHead : HttpRequestParser.ofHead r r.headers = r := by
    have hall := HeaderMap.setAll_sorted r.headers [] hsorted
    have hempty : (HttpRequestParser.ofLine r).headers = [] := rfl
    rw [HttpRequestParser.ofHead, HttpRequest.setHeader_all, hempty, hall, List.nil_append]
    rcases r with ⟨method, version, close, path, query, fragment, body, headers⟩
    simp only at hbody hclose
    rw [hbody, hclose]
    rfl
  rw [hofHead] at hdata
  rcases HttpParser.trace_headText m.uriRelaxed r r.headers hline hfields with ⟨htrace, -⟩
  have hwf : HttpSession.WellFormed m.uriRelaxed m.queryStart (headText r r.headers) q := by
    refine ⟨?_, hfin, herr, ?_, ?_⟩
    · rw [HttpRequestParser.httpParserExecute, if_neg (Nat.ne_of_gt hpos),
        bind_ok _ _ _ _ _ (modify_apply _ _), List.take_length]
      exact hexec
    · rw [htrace, HttpParser.headTrace, HttpParser.lineTrace]
      simp [Ragel.piece, Ragel.tag]
    · rw [htrace, HttpParser.headTrace, HttpParser.lineTrace]
      simp [Ragel.piece, Ragel.tag]
  have hlength : HttpSession.BodyOf lexicalCast q [] := by
    rw [HttpSession.BodyOf, HttpRequestParser.getContentLength, hdata, hnone]
    rfl
  have hcuts : HttpSession.SafeCuts m.uriRelaxed buffSize (headText r r.headers) s := by
    intro t ht hlt
    rw [HttpSession.readEnds_single _ _ _ hpos hread, List.mem_singleton] at ht
    omega
  rcases HttpSession.recvRequest_settled lexicalCast buffSize m (headText r r.headers) [] rest q s
    hwf hlength (by omega) hint (by omega) (by decide) hready hcuts with
    ⟨T, s', hT, -, hrun, hleft⟩
  rw [HttpSession.readEnds_single _ _ _ hpos hread, List.mem_singleton] at hT
  rw [List.length_nil, Nat.sub_zero, hT] at hleft
  rw [HttpSession.requestOf, if_pos rfl, hdata] at hrun
  exact ⟨s', hrun, hleft⟩

/-! ## The response -/

variable (sha1sum : List UInt8 → List UInt8)

theorem response_headers (req : HttpRequest) : (response sha1sum req).headers =
    [(ascii "Connection", ascii "Upgrade"),
      (ascii "Sec-WebSocket-Accept", accept sha1sum (req.getHeader (ascii "Sec-WebSocket-Key"))),
      (ascii "Upgrade", ascii "websocket")] := rfl

theorem transferable_response (req : HttpRequest) (hv : req.version = 0x10 ∨ req.version = 0x11) :
    (response sha1sum req).Transferable where
  version := hv
  status := (by decide : (0 : Int) ≤ 101 ∧ (101 : Int) < 2 ^ 31)
  reason := HttpResponse.noLineByte (ascii "Web Socket Protocol Handshake") rfl
  fields := by
    intro e he
    rw [response_headers, List.mem_cons, List.mem_cons, List.mem_singleton] at he
    rcases he with rfl | rfl | rfl
    · exact ⟨by decide, List.all_eq_true.1 rfl, HttpResponse.noLineByte _ rfl,
        by rintro c ⟨rfl⟩; rfl, fun hno => absurd hno (by decide)⟩
    · have hplain := plain_base64
        (sha1sum (req.getHeader (ascii "Sec-WebSocket-Key") ++
          ascii "258EAFA5-E914-47DA-95CA-C5AB0DC85B11"))
      have hname : ascii "Sec-WebSocket-Accept" ≠ [] := by decide
      have hknown : ∀ n ∈ HttpClientParser.knownNames,
          folded (ascii "Sec-WebSocket-Accept") ≠ folded n := by decide
      simp only [plainByte, Bool.and_eq_true, Bool.not_eq_true'] at hplain
      exact ⟨hname, List.all_eq_true.1 rfl, fun c hc => (hplain c hc).1.2,
        fun c hc => (hplain c (List.mem_of_head? hc)).2, fun _ => hknown⟩
    · exact ⟨by decide, List.all_eq_true.1 rfl, HttpResponse.noLineByte _ rfl,
        by rintro c ⟨rfl⟩; rfl, fun hno => absurd hno (by decide)⟩
  cookies := fun c hc => by cases hc
  sorted := by
    rw [response_headers]
    have hfirst : caseInsensitiveLess (ascii "Connection") (ascii "Sec-WebSocket-Accept") = true ∧
        caseInsensitiveLess (ascii "Connection") (ascii "Upgrade") = true := by decide
    have hsecond : caseInsensitiveLess (ascii "Sec-WebSocket-Accept") (ascii "Upgrade") = true := by
      decide
    refine List.pairwise_cons.2 ⟨?_, List.pairwise_cons.2 ⟨?_, List.pairwise_singleton _ _⟩⟩
    · intro e he
      rw [List.mem_cons, List.mem_singleton] at he
      rcases he with rfl | rfl
      · exact hfirst.1
      · exact hfirst.2
    · intro e he
      rw [List.mem_singleton] at he
      rw [he]
      exact hsecond
  length := by
    intro _ e he
    rw [response_headers, List.mem_cons, List.mem_cons, List.mem_singleton] at he
    rcases he with rfl | rfl | rfl
    · exact (by decide : folded (ascii "Connection") ≠ folded (ascii "content-length"))
    · exact (by decide : folded (ascii "Sec-WebSocket-Accept") ≠ folded (ascii "content-length"))
    · exact (by decide : folded (ascii "Upgrade") ≠ folded (ascii "content-length"))
  body := (by decide : 0 < 2 ^ 31)

/-- What the client gets of it. -/
theorem received_response (req : HttpRequest) :
    (response sha1sum req).received.status = 101 ∧
      (response sha1sum req).received.getHeader (ascii "Sec-WebSocket-Accept") =
        accept sha1sum (req.getHeader (ascii "Sec-WebSocket-Key")) := by
  have hsame : (response sha1sum req).received.headers = (response sha1sum req).headers := rfl
  have hconn : folded (ascii "Connection") ≠ folded (ascii "Sec-WebSocket-Accept") := by decide
  refine ⟨rfl, ?_⟩
  rw [HttpResponse.getHeader, hsame, response_headers, HeaderMap.find_cons, if_neg hconn,
    HeaderMap.find_cons, if_pos rfl]
  rfl

end WSSession

/-! ## Both sides -/

namespace Link

variable {τ : Type} (sha1sum : List UInt8 → List UInt8) (intCast : List UInt8 → Option Int)
  (lexicalCast : List UInt8 → Option UInt64) (serverSize clientSize : Nat)

/-- The server's side up to the servlet: without a handshake, the server closes. -/
def acceptShake (m : HttpSession.Memory) : Prog Exn Socket (Option HttpRequest) := do
  match ← WSSession.handleShake sha1sum intCast lexicalCast serverSize m with
  | none => do
    HttpSession.close
    pure none
  | some header => pure (some header)

/-- `Create` with a server at the other end: the result of the client, and the request that the
    server goes on with. -/
def handshake (addr errno : List UInt8) (timeoutMs : Nat) (uri : Uri)
    (headers : List (List UInt8 × List UInt8)) (key : List UInt8) (m : HttpSession.Memory)
    (buffer : Nat → UInt8) : Prog Exn (Link τ) ((HttpResult × Bool) × Option HttpRequest) := do
  match ← onClient (WSConnection.sendShake addr errno (WSConnection.request uri headers key)) with
  | some r => pure ((r, false), none)
  | none => do
    transmit
    let header ← onServer (Prog.first (acceptShake sha1sum intCast lexicalCast serverSize m))
    transmit
    let r ← onClient (WSConnection.recvShake addr lexicalCast clientSize buffer timeoutMs)
    pure (r, header)

variable (m : HttpSession.Memory)

/-- The client sends the request. -/
theorem sendShake_sent (addr errno : List UInt8) (req : HttpRequest) (c : Socket)
    (hc : c.Ready []) (hout : c.outbox = []) (hpos : 0 < (req.dump true).length)
    (hlong : (req.dump true).length < 2 ^ 31) :
    ∃ c', WSConnection.sendShake addr errno req c = .ok none c' ∧ c'.Ready [] ∧
      c'.cut = c.cut ∧ c'.outbox = req.dump true := by
  rcases HttpSession.sendRequest_sent true req c hc.connected (by omega) with ⟨c', hsend, hc'⟩
  have hkept := sendRequest_waiting true req c c' _ hsend
  rw [hc.connected, hc.inbox] at hkept
  rw [hout, List.nil_append] at hc'
  refine ⟨c', ?_, ⟨hkept.1, hkept.2.1⟩, hkept.2.2, hc'⟩
  rw [WSConnection.sendShake, bind_ok _ _ _ _ _ hsend, intOfWord_small _ hlong,
    if_neg (by omega), if_neg (by omega)]
  rfl

/-- The server with a request that is all there is on the stream. -/
theorem acceptShake_answered (hint : serverSize < 2 ^ 31)
    (hthirteen : intCast (ascii "13") = some 13) (uri : Uri) (headers : List (List UInt8 × List UInt8)) (key : List UInt8)
    (huri : WSConnection.Requestable uri m.uriRelaxed)
    (hhost : HttpParser.FieldOk (ascii "Host", uri.m_host))
    (hheaders : ∀ e ∈ headers, HttpParser.FieldOk e)
    (hnone : ∀ e ∈ headers, folded e.1 ≠ folded (ascii "content-length")) (hkey : key ≠ [])
    (s : Socket) (hready : s.Ready ((WSConnection.request uri headers key).dump true))
    (hread : ((WSConnection.request uri headers key).dump true).length ≤
      HttpSession.nextRead serverSize s) :
    ∃ s₁, s₁.Ready [] ∧ s₁.outbox = s.outbox ∧ s₁.cut = s.cut ∧
      (folded (WSConnection.wanted headers) = folded (ascii "Upgrade") → ∀ n s₂,
        HttpSession.sendResponse (WSSession.response sha1sum
          (WSConnection.request uri headers key)) s₁ = .ok n s₂ →
        acceptShake sha1sum intCast lexicalCast serverSize m s =
          .ok (some (WSConnection.request uri headers key)) s₂) ∧
      (folded (WSConnection.wanted headers) ≠ folded (ascii "Upgrade") →
        acceptShake sha1sum intCast lexicalCast serverSize m s =
          .ok none { s₁ with connected := false }) := by
  have hrest := WSConnection.request_rest uri headers key
  have hbody : (WSConnection.request uri headers key).body = [] := by
    rw [hrest]
    rfl
  have hclose : (WSConnection.request uri headers key).close = true := by
    rw [hrest]
    rfl
  rcases WSSession.recvRequest_websocket lexicalCast serverSize hint m _
    (WSConnection.request_line uri headers key m.uriRelaxed huri)
    (WSConnection.request_fields uri headers key hheaders hhost)
    (WSConnection.request_sorted uri headers key) hbody hclose
    (WSConnection.find_noBody uri headers key hnone) [] s (by rw [List.append_nil]; exact hready)
    hread with ⟨s₁, hrecv, hs₁⟩
  have hkept := keeps_ok _ _ (keeps_recvRequest _ (receiving_sent s.outbox s.cut) serverSize
    lexicalCast m) _ _ _ ⟨rfl, rfl⟩ hrecv
  rw [List.drop_nil] at hs₁
  refine ⟨s₁, hs₁, hkept.1, hkept.2, ?_⟩
  -- `setClose` leaves the headers alone.
  have hsame : (HttpSession.setClose (WSConnection.request uri headers key)).headers =
      (WSConnection.request uri headers key).headers := by
    rw [HttpSession.setClose]
    split <;> rfl
  have hget : ∀ name, (HttpSession.setClose (WSConnection.request uri headers key)).getHeader name =
      (WSConnection.request uri headers key).getHeader name := by
    intro name
    rw [HttpRequest.getHeader, hsame]
    rfl
  have hupgrade := WSConnection.getHeader_upgrade uri headers key
  have hconn := WSConnection.getHeader_connection uri headers key
  have hkeyed := WSConnection.getHeader_key uri headers key
  have hversion : WSSession.getHeaderAsInt intCast (ascii "Sec-webSocket-Version")
      (HttpSession.setClose (WSConnection.request uri headers key)) = 13 := by
    rw [WSSession.getHeaderAsInt, hsame, WSConnection.find_version]
    simp only [hthirteen, Option.getD_some]
  refine ⟨?_, ?_⟩
  · intro hw n s₂ hsend
    have hkeep : folded (ascii "Upgrade") ≠ folded (ascii "keep-alive") := by decide
    have hname : folded (ascii "connection") = folded (ascii "Connection") := by decide
    have hplain : HttpSession.setClose (WSConnection.request uri headers key) =
        WSConnection.request uri headers key := by
      have hlower : (WSConnection.request uri headers key).getHeader (ascii "connection") =
          WSConnection.wanted headers := by
        rw [← hconn, HttpRequest.getHeader, HeaderMap.find_folded _ _ _ hname]
        rfl
      rw [HttpSession.setClose, hlower, hw, if_neg hkeep]
    have hshake : WSSession.handleShake sha1sum intCast lexicalCast serverSize m s =
        .ok (some (WSConnection.request uri headers key)) s₂ := by
      rw [hplain] at hversion
      rw [WSSession.handleShake, bind_ok _ _ _ _ _ hrecv]
      simp only [hupgrade, hconn, hkeyed, hw, ne_eq, not_true_eq_false, if_false,
        base64encode_ne key hkey, hplain, hversion]
      rw [bind_ok _ _ _ _ _ hsend]
      rfl
    rw [acceptShake, bind_ok _ _ _ _ _ hshake]
    rfl
  · intro hw
    have hshake : WSSession.handleShake sha1sum intCast lexicalCast serverSize m s =
        .ok none s₁ := by
      rw [WSSession.handleShake, bind_ok _ _ _ _ _ hrecv]
      simp only [hget, hupgrade, hconn, ne_eq, not_true_eq_false, if_false]
      rw [if_pos hw]
      rfl
    rw [acceptShake, bind_ok _ _ _ _ _ hshake]
    rfl

/-- The three parts of a handshake, one after the other. -/
theorem handshake_apply (addr errno : List UInt8) (timeoutMs : Nat) (uri : Uri)
    (headers : List (List UInt8 × List UInt8)) (key : List UInt8) (buffer : Nat → UInt8)
    (l : Link τ) (c₁ s₃ c : Socket) (header : Option HttpRequest) (r : HttpResult × Bool)
    (hsend : WSConnection.sendShake addr errno (WSConnection.request uri headers key) l.client =
      .ok none c₁)
    (haccept : acceptShake sha1sum intCast lexicalCast serverSize m
      (transmitted { l with client := c₁ }).server = .ok header s₃)
    (hrecv : WSConnection.recvShake addr lexicalCast clientSize buffer timeoutMs
      (transmitted { transmitted { l with client := c₁ } with server := s₃ }).client = .ok r c) :
    handshake sha1sum intCast lexicalCast serverSize clientSize addr errno timeoutMs uri headers
        key m buffer l =
      .ok (r, header)
        { transmitted { transmitted { l with client := c₁ } with server := s₃ } with
          client := c } := by
  set l₂ : Link τ := transmitted { l with client := c₁ } with hl₂
  have hserver : onServer (Prog.first (acceptShake sha1sum intCast lexicalCast serverSize m)) l₂ =
      .ok header { l₂ with server := s₃ } :=
    onServer_ok _ l₂ header s₃ l₂.state (first_ok _ _ _ _ _ haccept)
  rw [handshake, bind_ok _ _ _ _ _ (onClient_ok _ l none c₁ hsend)]
  simp only []
  rw [bind_ok _ _ _ _ _ (transmit_apply { l with client := c₁ }), ← hl₂,
    bind_ok _ _ _ _ _ hserver, bind_ok _ _ _ _ _ (transmit_apply _),
    bind_ok _ _ _ _ _ (onClient_ok _ _ r c hrecv)]
  rfl

variable (hcast : ∀ n < 2 ^ 64, lexicalCast (printed n) = some (UInt64.ofNat n))

include hcast in
/-- The client with the whole response on the stream. -/
theorem recvShake_answered (hclient : clientSize < 2 ^ 31) (addr : List UInt8) (timeoutMs : Nat)
    (buffer : Nat → UInt8) (req : HttpRequest) (hv : req.version = 17) (clientCut : Nat → Nat)
    (hrsp : ∀ k, (WSSession.response sha1sum req).head.length ≤ clientCut k)
    (hroom : ∀ k, clientCut k < clientSize) (c : Socket) (hcut : c.cut = clientCut)
    (hready : c.Ready (WSSession.response sha1sum req).dump) :
    ∃ c₅, WSConnection.recvShake addr lexicalCast clientSize buffer timeoutMs c =
        .ok (⟨0, some (WSSession.response sha1sum req).received, ascii "ok"⟩, true) c₅ ∧
      c₅.Ready [] ∧ c₅.outbox = c.outbox ∧ c₅.cut = clientCut := by
  set rsp := WSSession.response sha1sum req with hrspdef
  have htrans : rsp.Transferable := WSSession.transferable_response sha1sum req (Or.inr hv)
  have hdump := HttpResponse.dump_head rsp htrans.version htrans.status
  have hone := hrsp 0
  have hless := hroom 0
  have hsmall : 1 < rsp.head.length := by
    simp only [HttpResponse.head, HttpClientParser.headText, List.length_append, List.length_cons]
    omega
  have hready' : c.Ready (rsp.dump ++ []) := by
    rw [List.append_nil]
    exact hready
  rcases HttpConnection.recvResponse_dump lexicalCast hcast clientSize hclient buffer rsp htrans []
    c hready'
    (nextRead_cut _ _ _ _ hready' (by rw [List.append_nil, hdump, List.length_append]; omega)
      (by omega) (by omega) (by rw [hcut]; exact hrsp))
    (nextRead_room _ _ (by omega) (by rw [hcut]; exact hroom)) with ⟨q, c₅, hrecv, hq, hc₅⟩
  have hkept := keeps_ok _ _ (keeps_recvResponse _ (receiving_sent c.outbox clientCut) clientSize
    (HttpResponseParser.responseParser lexicalCast) buffer .new) _ _ _ ⟨rfl, hcut⟩ hrecv
  rw [List.drop_nil] at hc₅
  have hstatus : ¬q.data.status ≠ 101 := by
    rw [hq, not_not]
    exact (WSSession.received_response sha1sum req).1
  refine ⟨c₅, ?_, hc₅, hkept.1, hkept.2⟩
  rw [WSConnection.recvShake, bind_ok _ _ _ _ _ hrecv]
  simp only []
  rw [if_neg hstatus, hq]
  rfl

include hcast in
/-- A client and a server that shake hands: if the connection that is asked for is an upgrade, the
    client gets the response with the right answer to its key, the server goes on with the request
    that was sent, and nothing is left on the way between them. If it is any other, the server
    closes, and the client takes that for a timeout. -/
theorem handshake_agreed (hserver : serverSize < 2 ^ 31) (hclient : clientSize < 2 ^ 31)
    (hthirteen : intCast (ascii "13") = some 13) (addr errno : List UInt8) (timeoutMs : Nat)
    (uri : Uri) (headers : List (List UInt8 × List UInt8)) (key : List UInt8)
    (buffer : Nat → UInt8) (huri : WSConnection.Requestable uri m.uriRelaxed)
    (hhost : HttpParser.FieldOk (ascii "Host", uri.m_host))
    (hheaders : ∀ e ∈ headers, HttpParser.FieldOk e)
    (hnone : ∀ e ∈ headers, folded e.1 ≠ folded (ascii "content-length")) (hkey : key ≠ [])
    (clientCut serverCut : Nat → Nat)
    (hfit : ((WSConnection.request uri headers key).dump true).length ≤ serverSize ∧
      ∀ k, ((WSConnection.request uri headers key).dump true).length ≤ serverCut k)
    (hrsp : ∀ k, (WSSession.response sha1sum
      (WSConnection.request uri headers key)).head.length ≤ clientCut k)
    (hroom : ∀ k, clientCut k < clientSize) (l : Link τ) (hidle : l.Idle clientCut serverCut) :
    ∃ r l', handshake sha1sum intCast lexicalCast serverSize clientSize addr errno timeoutMs uri
        headers key m buffer l = .ok r l' ∧
      (folded (WSConnection.wanted headers) = folded (ascii "Upgrade") →
        ∃ rsp, r = ((⟨0, some rsp, ascii "ok"⟩, true),
            some (WSConnection.request uri headers key)) ∧
          rsp.status = 101 ∧
          rsp.getHeader (ascii "Sec-WebSocket-Accept") =
            base64encode (sha1sum (base64encode key ++
              ascii "258EAFA5-E914-47DA-95CA-C5AB0DC85B11")) ∧
          l'.Idle clientCut serverCut ∧ l'.state = l.state) ∧
      (folded (WSConnection.wanted headers) ≠ folded (ascii "Upgrade") →
        r = ((⟨6, none, ascii "recv response timeout: " ++ addr ++ ascii " timeout_ms:" ++
          printed timeoutMs⟩, false), none) ∧ l'.server.connected = false) := by
  set req := WSConnection.request uri headers key with hreq
  set rsp := WSSession.response sha1sum req with hrspdef
  have hlong : (req.dump true).length < 2 ^ 31 := by omega
  have hpos : 0 < (req.dump true).length := by
    have hbody : req.body = [] := by
      rw [hreq, WSConnection.request_rest]
      rfl
    rw [WSSession.dump_websocket _ hbody]
    simp only [HttpParser.headText, List.length_append, List.length_cons]
    omega
  -- The request arrives.
  rcases sendShake_sent addr errno req l.client hidle.client hidle.clientOut hpos hlong with
    ⟨c₁, hshake, hc₁, hccut₁, hcout₁⟩
  set l₁ : Link τ := { l with client := c₁ } with hl₁
  set l₂ : Link τ := l₁.transmitted with hl₂
  have hready₂ : l₂.server.Ready (req.dump true) :=
    ⟨hidle.server.connected,
      by rw [hl₂, hl₁, transmitted]; simp only [hidle.server.inbox, hcout₁, List.nil_append]⟩
  have hin₂ : l₂.client.inbox = [] := by
    rw [hl₂, hl₁, transmitted]
    simp only [hc₁.inbox, hidle.serverOut, List.append_nil]
  have hcut₂ : l₂.server.cut = serverCut := hidle.serverCut
  rcases acceptShake_answered sha1sum intCast lexicalCast serverSize m hserver hthirteen uri headers
    key huri hhost hheaders hnone hkey l₂.server hready₂
    (nextRead_cut _ _ _ _ hready₂ (Nat.le_refl _) hfit.1 hlong (by rw [hcut₂]; exact hfit.2)) with
    ⟨s₁, hs₁, hout₁, hscut₁, hyes, hno⟩
  have hrun : ∀ header s₃ c r, acceptShake sha1sum intCast lexicalCast serverSize m l₂.server =
      .ok header s₃ → WSConnection.recvShake addr lexicalCast clientSize buffer timeoutMs
        (transmitted { l₂ with server := s₃ }).client = .ok r c →
      handshake sha1sum intCast lexicalCast serverSize clientSize addr errno timeoutMs uri
        headers key m buffer l =
          .ok (r, header) { transmitted { l₂ with server := s₃ } with client := c } :=
    fun header s₃ c r haccept hrecv => handshake_apply sha1sum intCast lexicalCast serverSize
      clientSize m addr errno timeoutMs uri headers key buffer l c₁ s₃ c header r hshake haccept
      hrecv
  by_cases hw : folded (WSConnection.wanted headers) = folded (ascii "Upgrade")
  · -- The response arrives.
    have hv : req.version = 17 := by
      rw [hreq, WSConnection.request_rest]
      rfl
    have htrans : rsp.Transferable := WSSession.transferable_response sha1sum req (Or.inr hv)
    have hlen : rsp.dump.length < 2 ^ 64 := by
      have hshort := htrans.body
      have hone := hrsp 0
      have hless := hroom 0
      rw [HttpResponse.dump_head rsp htrans.version htrans.status, List.length_append]
      omega
    rcases HttpConnection.sendResponse_sent rsp s₁ hs₁.connected hlen with ⟨n, s₃, hsent, hs₃⟩
    have hkept₃ := sendResponse_waiting rsp s₁ s₃ n hsent
    rw [hs₁.connected, hs₁.inbox] at hkept₃
    have hout₃ : s₃.outbox = rsp.dump := by
      rw [hs₃, hout₁, hl₂]
      exact List.nil_append _
    set l₄ : Link τ := transmitted { l₂ with server := s₃ } with hl₄
    have hready₄ : l₄.client.Ready rsp.dump := by
      refine ⟨hc₁.connected, ?_⟩
      rw [hl₄, transmitted]
      simp only [hin₂, hout₃, List.nil_append]
    have hcut₄ : l₄.client.cut = clientCut := hccut₁.trans hidle.clientCut
    rcases recvShake_answered sha1sum lexicalCast clientSize hcast hclient addr timeoutMs buffer req
      hv clientCut hrsp hroom l₄.client hcut₄ hready₄ with ⟨c₅, hclient₄, hc₅, hout₅, hcut₅⟩
    refine ⟨_, _, hrun _ s₃ c₅ _ (hyes hw n s₃ hsent) hclient₄, ?_, fun hno => absurd hw hno⟩
    intro _
    have hreceived := WSSession.received_response sha1sum req
    refine ⟨rsp.received, rfl, hreceived.1, ?_, ?_, rfl⟩
    · rw [hreceived.2, hreq, WSConnection.getHeader_key]
      rfl
    · have hserver₄ : l₄.server.inbox = [] := by
        have hout₂ : l₂.client.outbox = [] := rfl
        rw [hl₄, transmitted]
        simp only [hkept₃.2.1, hout₂, List.append_nil]
      exact ⟨hidle.running, hc₅, ⟨hkept₃.1, hserver₄⟩, hout₅, rfl, hcut₅,
        hkept₃.2.2.trans (hscut₁.trans hcut₂)⟩
  · -- There is no response.
    set s₃ : Socket := { s₁ with connected := false } with hs₃
    have hempty : (transmitted { l₂ with server := s₃ }).client.inbox = [] := by
      rw [transmitted]
      simp only [hin₂, hs₃, hout₁]
      rfl
    rcases recvResponse_nothing (HttpResponseParser.responseParser lexicalCast) clientSize buffer
      .new _ hempty with ⟨c₅, hrecv⟩
    have hclient₄ : WSConnection.recvShake addr lexicalCast clientSize buffer timeoutMs
        (transmitted { l₂ with server := s₃ }).client =
        .ok (⟨6, none, ascii "recv response timeout: " ++ addr ++ ascii " timeout_ms:" ++
          printed timeoutMs⟩, false) c₅ := by
      rw [WSConnection.recvShake, bind_ok _ _ _ _ _ hrecv]
      rfl
    exact ⟨_, _, hrun none s₃ c₅ _ (hno hw) hclient₄, fun hyes => absurd hyes hw,
      fun _ => ⟨rfl, rfl⟩⟩

/-! ## The handshake of the standard -/

/-- The digest of the key `the sample nonce` in the standard. -/
def sampleDigest : List UInt8 :=
  [0xb3, 0x7a, 0x4f, 0x2c, 0xc0, 0x62, 0x4f, 0x16, 0x90, 0xf6, 0x46, 0x06, 0xcf, 0x38, 0x59, 0x45,
    0xb2, 0xbe, 0xc4, 0xea]

def sampleUri : Uri :=
  ⟨ascii "ws", [], ascii "server.example.com", ascii "/chat", [], [], 0⟩

/-- A header of the caller. -/
def sampleHeaders : List (List UInt8 × List UInt8) := [(ascii "Origin", ascii "example.com")]

theorem requestable_sample : WSConnection.Requestable sampleUri false :=
  ⟨rfl, rfl, Or.inl rfl, Or.inl rfl⟩

theorem fits_sample :
    ((WSConnection.request sampleUri sampleHeaders (ascii "the sample nonce")).dump true).length ≤
      1000 ∧
    (WSSession.response (fun _ => sampleDigest) (WSConnection.request sampleUri sampleHeaders
      (ascii "the sample nonce"))).head.length ≤ 1000 := by
  have hreq : ((WSConnection.request sampleUri sampleHeaders
      (ascii "the sample nonce")).dump true).length = 182 := rfl
  have hrsp : (WSSession.response (fun _ => sampleDigest) (WSConnection.request sampleUri
      sampleHeaders (ascii "the sample nonce"))).head.length = 139 := rfl
  omega

theorem handshake_agreed_sample :
    ∃ rsp l', handshake (fun _ => sampleDigest)
        (fun s => if s = ascii "13" then some 13 else none) HttpSession.decimal 4096 4096
        (ascii "127.0.0.1:80") (ascii "0") 1000 sampleUri sampleHeaders (ascii "the sample nonce")
        ⟨false, 0, fun _ => 0⟩ (fun _ => 0)
        (⟨HttpSession.client (fun _ => 1000) [], HttpSession.client (fun _ => 1000) [], (), true⟩ :
          Link Unit) =
        .ok ((⟨0, some rsp, ascii "ok"⟩, true),
          some (WSConnection.request sampleUri sampleHeaders (ascii "the sample nonce"))) l' ∧
      rsp.getHeader (ascii "Sec-WebSocket-Accept") = ascii "s3pPLMBiTxaQ9kYGzzhZRbK+xOo=" := by
  have hheaders : ∀ e ∈ sampleHeaders, HttpParser.FieldOk e ∧
      folded e.1 ≠ folded (ascii "content-length") := by
    intro e he
    rw [sampleHeaders, List.mem_singleton] at he
    rw [he]
    exact ⟨⟨by decide, List.all_eq_true.1 rfl, by decide, List.all_eq_true.1 rfl, by decide⟩,
      by decide⟩
  have hhost : HttpParser.FieldOk (ascii "Host", sampleUri.m_host) :=
    ⟨by decide, List.all_eq_true.1 rfl, by decide, List.all_eq_true.1 rfl, by decide⟩
  have hwanted : folded (WSConnection.wanted sampleHeaders) = folded (ascii "Upgrade") := by decide
  rcases handshake_agreed (fun _ => sampleDigest)
    (fun s => if s = ascii "13" then some 13 else none) HttpSession.decimal 4096 4096
    ⟨false, 0, fun _ => 0⟩ HttpSession.decimal_printed (by decide) (by decide) (if_pos rfl)
    (ascii "127.0.0.1:80") (ascii "0") 1000 sampleUri sampleHeaders (ascii "the sample nonce")
    (fun _ => 0) requestable_sample hhost (fun e he => (hheaders e he).1)
    (fun e he => (hheaders e he).2) (by decide) (fun _ => 1000) (fun _ => 1000)
    ⟨fits_sample.1.trans (by decide), fun _ => fits_sample.1⟩ (fun _ => fits_sample.2)
    (fun _ => by decide)
    (⟨HttpSession.client (fun _ => 1000) [], HttpSession.client (fun _ => 1000) [], (), true⟩ :
      Link Unit)
    ⟨rfl, ⟨rfl, rfl⟩, ⟨rfl, rfl⟩, rfl, rfl, rfl, rfl⟩ with ⟨r, l', hrun, hyes, -⟩
  rcases hyes hwanted with ⟨rsp, hr, -, haccept, -⟩
  have hdigest : base64encode sampleDigest = ascii "s3pPLMBiTxaQ9kYGzzhZRbK+xOo=" := by decide
  rw [hdigest] at haccept
  rw [hr] at hrun
  exact ⟨rsp, l', hrun, haccept⟩

end Link

end YkServer
