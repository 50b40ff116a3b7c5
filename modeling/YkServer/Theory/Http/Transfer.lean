import YkServer.Theory.Http.Parsed
import YkServer.Theory.Http.Segmentation
import YkServer.Theory.Stream.Delivery
import YkServer.Theory.Util.Decimal

/-!
# Requests From One End to the Other

`HttpConnection::sendRequest` against `HttpSession::recvRequest`. A request that the
grammar has a place for is received as it was sent, if its header block arrives in
one read; where the body is cut does not matter.

Two headers arrive that were not there. `connection` carries the close flag: the
parser starts with the flag set, and only `keep-alive` takes it back. A body is
announced by `content-length`, which is what makes the receiver read it. As both
names are kept out of the headers of the request, they cannot replace one.

The receiver sets the headers one by one in the order in which they are printed.
That makes the map of the sender again, because setting different keys commutes.

## Main definitions

* `HttpRequest.head`: The header block of a request.
* `HttpRequest.Transferable`: Requests that the grammar has a place for.
* `HttpRequest.received`: What arrives.

## Theorems

* `HeaderMap.setAll_sorted`, `HeaderMap.set_comm`: Setting headers one by one.
* `dump_eq`: A printed request is its header block and its body.
* `wellFormed_head`: The header block is well formed.
* `request_transferred`: Every request.
* `header_added`: The header that was not there.
-/

namespace YkServer

open Lib Lib.Ragel HttpParser

/-! ## Headers -/

namespace HeaderMap

theorem caseInsensitiveLess_iff (a b : List UInt8) :
    caseInsensitiveLess a b = true ↔ folded a < folded b := by
  rw [caseInsensitiveLess, decide_eq_true_eq]

section

variable (k v key val : List UInt8) (m : HeaderMap)

theorem set_nil : set key val [] = [(key, val)] := rfl

theorem set_cons : set key val ((k, v) :: m) =
    if caseInsensitiveLess k key = true then (k, v) :: set key val m
    else if caseInsensitiveLess key k = true then (key, val) :: (k, v) :: m
    else (k, val) :: m := rfl

theorem set_behind (h : folded k < folded key) :
    set key val ((k, v) :: m) = (k, v) :: set key val m := by
  rw [set_cons, if_pos ((caseInsensitiveLess_iff k key).2 h)]

theorem set_front (h : folded key < folded k) :
    set key val ((k, v) :: m) = (key, val) :: (k, v) :: m := by
  rw [set_cons, if_neg, if_pos ((caseInsensitiveLess_iff key k).2 h)]
  rw [caseInsensitiveLess_iff]
  exact List.lt_asymm h

theorem set_here (h : folded k = folded key) : set key val ((k, v) :: m) = (k, val) :: m := by
  rw [set_cons, if_neg, if_neg]
  · rw [caseInsensitiveLess_iff, h]
    exact Std.lt_irrefl
  · rw [caseInsensitiveLess_iff, h]
    exact Std.lt_irrefl

theorem find_cons :
    find key ((k, v) :: m) = if folded k = folded key then some v else find key m := by
  have hcond : (!caseInsensitiveLess k key && !caseInsensitiveLess key k) =
      decide (folded k = folded key) := by
    rw [Bool.eq_iff_iff, Bool.and_eq_true, Bool.not_eq_true', Bool.not_eq_true',
      ← Bool.not_eq_true, ← Bool.not_eq_true, caseInsensitiveLess_iff, caseInsensitiveLess_iff,
      decide_eq_true_eq]
    constructor
    · rintro ⟨h₁, h₂⟩
      rcases Std.lt_trichotomy (folded k) (folded key) with h | h | h
      · exact absurd h h₁
      · exact h
      · exact absurd h h₂
    · intro h
      rw [h]
      exact ⟨Std.lt_irrefl, Std.lt_irrefl⟩
  rw [find, List.find?_cons, hcond]
  by_cases h : folded k = folded key
  · rw [if_pos h, decide_eq_true h]
    rfl
  · rw [if_neg h, decide_eq_false h]
    rfl

end

/-- What has been set is found. -/
theorem find_set (key val : List UInt8) (m : HeaderMap) : find key (set key val m) = some val := by
  induction m with
  | nil =>
      rw [set_nil, find_cons]
      exact if_pos rfl
  | cons e m ih =>
      rcases e with ⟨k, v⟩
      rcases Std.lt_trichotomy (folded k) (folded key) with h | h | h
      · rw [set_behind k v key val m h, find_cons, if_neg (Std.ne_of_lt h), ih]
      · rw [set_here k v key val m h, find_cons, if_pos h]
      · rw [set_front k v key val m h, find_cons]
        exact if_pos rfl

/-- Setting does not change what is found under other keys. -/
theorem find_set_of_ne (key val other : List UInt8) (m : HeaderMap)
    (hne : folded key ≠ folded other) :
    find other (set key val m) = find other m := by
  induction m with
  | nil =>
      rw [set_nil, find_cons, if_neg hne]
  | cons e m ih =>
      rcases e with ⟨k, v⟩
      rcases Std.lt_trichotomy (folded k) (folded key) with h | h | h
      · rw [set_behind k v key val m h, find_cons, find_cons, ih]
      · rw [set_here k v key val m h, find_cons, find_cons, if_neg (h.trans_ne hne),
          if_neg (h.trans_ne hne)]
      · rw [set_front k v key val m h, find_cons, if_neg hne]

/-- A key that no entry has is not found. -/
theorem find_absent (key : List UInt8) (m : HeaderMap) (h : ∀ e ∈ m, folded e.1 ≠ folded key) :
    find key m = none := by
  induction m with
  | nil => rfl
  | cons e m ih =>
      rw [find_cons, if_neg (h e List.mem_cons_self),
        ih (fun e' he' => h e' (List.mem_cons_of_mem _ he'))]

/-- Two keys can be set in any order, the smaller one first or last. -/
theorem set_comm_of_lt (k₁ v₁ k₂ v₂ : List UInt8) (m : HeaderMap) (hlt : folded k₁ < folded k₂) :
    set k₁ v₁ (set k₂ v₂ m) = set k₂ v₂ (set k₁ v₁ m) := by
  induction m with
  | nil => rw [set_nil, set_nil, set_front k₂ v₂ k₁ v₁ [] hlt, set_behind k₁ v₁ k₂ v₂ [] hlt, set_nil]
  | cons e m ih =>
      rcases e with ⟨k, v⟩
      rcases Std.lt_trichotomy (folded k) (folded k₁) with h₁ | h₁ | h₁
      · have h₂ := Std.lt_trans h₁ hlt
        rw [set_behind k v k₂ v₂ _ h₂, set_behind k v k₁ v₁ _ h₁, set_behind k v k₁ v₁ _ h₁,
          set_behind k v k₂ v₂ _ h₂, ih]
      · have h₂ : folded k < folded k₂ := h₁ ▸ hlt
        rw [set_behind k v k₂ v₂ _ h₂, set_here k v k₁ v₁ _ h₁, set_here k v k₁ v₁ _ h₁,
          set_behind k v₁ k₂ v₂ _ h₂]
      · rw [set_front k v k₁ v₁ _ h₁, set_behind k₁ v₁ k₂ v₂ _ hlt]
        rcases Std.lt_trichotomy (folded k) (folded k₂) with h₂ | h₂ | h₂
        · rw [set_behind k v k₂ v₂ _ h₂, set_front k v k₁ v₁ _ h₁]
        · rw [set_here k v k₂ v₂ _ h₂, set_front k v₂ k₁ v₁ _ h₁]
        · rw [set_front k v k₂ v₂ _ h₂, set_front k₂ v₂ k₁ v₁ _ hlt]

theorem set_comm (k₁ v₁ k₂ v₂ : List UInt8) (m : HeaderMap) (hne : folded k₁ ≠ folded k₂) :
    set k₁ v₁ (set k₂ v₂ m) = set k₂ v₂ (set k₁ v₁ m) := by
  rcases Std.lt_trichotomy (folded k₁) (folded k₂) with h | h | h
  · exact set_comm_of_lt k₁ v₁ k₂ v₂ m h
  · exact absurd h hne
  · exact (set_comm_of_lt k₂ v₂ k₁ v₁ m h).symm

/-- The order of a map. -/
def Sorted (m : HeaderMap) : Prop := m.Pairwise (fun a b => caseInsensitiveLess a.1 b.1 = true)

/-- The entries of a map, one after another. -/
def setAll (es : List (List UInt8 × List UInt8)) (m : HeaderMap) : HeaderMap :=
  es.foldl (fun m e => set e.1 e.2 m) m

theorem setAll_set (es : List (List UInt8 × List UInt8)) (key val : List UInt8) (m : HeaderMap)
    (h : ∀ e ∈ es, folded e.1 ≠ folded key) :
    setAll es (set key val m) = set key val (setAll es m) := by
  induction es generalizing m with
  | nil => rfl
  | cons e es ih =>
      rw [setAll, List.foldl_cons, set_comm _ _ _ _ _ (h e List.mem_cons_self)]
      exact ih (set e.1 e.2 m) (fun e' he' => h e' (List.mem_cons_of_mem _ he'))

/-- The largest key is set at the end. -/
theorem set_last (key val : List UInt8) (m : HeaderMap)
    (h : ∀ e ∈ m, caseInsensitiveLess e.1 key = true) : set key val m = m ++ [(key, val)] := by
  induction m with
  | nil => rfl
  | cons e m ih =>
      rw [set_behind e.1 e.2 key val m ((caseInsensitiveLess_iff _ _).1 (h e List.mem_cons_self)),
        ih (fun e' he' => h e' (List.mem_cons_of_mem _ he'))]
      rfl

/-- Setting the entries of a map in its order makes the map. -/
theorem setAll_sorted (es m : HeaderMap) (h : Sorted (m ++ es)) : setAll es m = m ++ es := by
  induction es generalizing m with
  | nil => rw [List.append_nil]; rfl
  | cons e es ih =>
      have hlast : set e.1 e.2 m = m ++ [e] := by
        refine set_last e.1 e.2 m ?_
        intro e' he'
        exact (List.pairwise_append.1 h).2.2 e' he' e List.mem_cons_self
      rw [setAll, List.foldl_cons, hlast]
      refine (ih (m ++ [e]) ?_).trans ?_
      · rw [List.append_assoc]
        exact h
      · rw [List.append_assoc]
        rfl

end HeaderMap

namespace HttpRequest

theorem setHeader_all (es : List (List UInt8 × List UInt8)) (r : HttpRequest) :
    es.foldl (fun r e => r.setHeader e.1 e.2) r =
      { r with headers := HeaderMap.setAll es r.headers } := by
  induction es generalizing r with
  | nil => rfl
  | cons e es ih =>
      rw [List.foldl_cons, ih]
      rfl

/-! ## What is sent -/

/-- The header that tells about the connection. -/
def connection (r : HttpRequest) : List UInt8 := ascii (if r.close then "close" else "keep-alive")

/-- The headers that are printed. -/
def sentHeaders (r : HttpRequest) : List (List UInt8 × List UInt8) :=
  (ascii "connection", connection r) ::
    (r.headers ++ if r.body = [] then [] else [(ascii "content-length", printed r.body.length)])

/-- The printed header block. -/
def head (r : HttpRequest) : List UInt8 := headText r (sentHeaders r)

theorem printHeader_eq (e : List UInt8 × List UInt8) : printHeader e.1 e.2 = fieldText e := by
  have hcolon : ascii ": " = [58, 32] := by decide
  have hend : ascii "\r\n" = [13, 10] := by decide
  rw [printHeader, fieldText, hcolon, hend]
  simp

theorem dump_eq (r : HttpRequest)
    (h : ∀ e ∈ r.headers, folded e.1 ≠ folded (ascii "connection")) :
    r.dump false = r.head ++ r.body := by
  have hspace : ascii " " = [32] := by decide
  have hquery : ascii "?" = [63] := by decide
  have hfragment : ascii "#" = [35] := by decide
  have hend : ascii "\r\n" = [13, 10] := by decide
  have hhttp : ascii " HTTP/" = 32 :: ascii "HTTP/" := by decide
  have hall : r.headers.filter (fun e => false || folded e.1 ≠ folded (ascii "connection")) =
      r.headers := by
    rw [List.filter_eq_self]
    intro e he
    simp [h e he]
  have hheaders : (fun e : List UInt8 × List UInt8 => printHeader e.1 e.2) = fieldText :=
    funext printHeader_eq
  have hconn := printHeader_eq (ascii "connection", connection r)
  have hlength := printHeader_eq (ascii "content-length", printed r.body.length)
  have hopt : (if r.query = [] then [] else ascii "?") ++ r.query = queryText r.query := by
    rw [queryText, hquery]
    by_cases hq : r.query = []
    · rw [if_pos hq, if_pos hq, hq]
      rfl
    · rw [if_neg hq, if_neg hq]
      rfl
  have hopt' : (if r.fragment = [] then [] else ascii "#") ++ r.fragment =
      fragmentText r.fragment := by
    rw [fragmentText, hfragment]
    by_cases hf : r.fragment = []
    · rw [if_pos hf, if_pos hf, hf]
      rfl
    · rw [if_neg hf, if_neg hf]
      rfl
  rw [dump, hall, hheaders, head, headText, lineText, sentHeaders, versionText, hspace, hend, hhttp]
  rw [connection] at hconn ⊢
  simp only [hconn, hlength, List.append_assoc, List.cons_append, List.nil_append,
    List.flatMap_cons, List.flatMap_append, ← hopt, ← hopt']
  by_cases hb : r.body = []
  · simp [hb]
  · simp [hb]

/-- A request that the grammar has a place for. Its headers are those of a map, and
    the two that are not taken from there are none of them. -/
structure Transferable (relaxed : Bool) (r : HttpRequest) : Prop where
  line : LineOk relaxed r
  fields : ∀ e ∈ r.headers, FieldOk e
  names : ∀ e ∈ r.headers, folded e.1 ≠ folded (ascii "connection") ∧
    folded e.1 ≠ folded (ascii "content-length")
  sorted : HeaderMap.Sorted r.headers
  body : r.body.length < 2 ^ 31

/-- What arrives: the request, with the two headers that `dump` adds. -/
def received (r : HttpRequest) : HttpRequest :=
  { r with
    headers := HeaderMap.set (ascii "connection") (connection r)
      (if r.body = [] then r.headers
      else r.headers.set (ascii "content-length") (printed r.body.length)) }

theorem printable_digit (c : UInt8) (h : digit c = true) : printable c = true ∧ c ≠ 32 := by
  simp only [digit, inRange, Bool.and_eq_true, decide_eq_true_eq] at h
  have hlow : 48 ≤ c.toNat := h.1
  have hhigh : c.toNat ≤ 57 := h.2
  refine ⟨?_, ?_⟩
  · rw [printable, Bool.and_eq_true, decide_eq_true_eq, Bool.not_eq_true', beq_eq_false_iff_ne]
    refine ⟨by omega, ?_⟩
    rintro rfl
    exact absurd hhigh (by decide)
  · rintro rfl
    exact absurd hlow (by decide)

theorem fieldOk_length (n : Nat) : FieldOk (ascii "content-length", printed n) := by
  have hname : ascii "content-length" ≠ [] := by decide
  have htoken : (ascii "content-length").all token = true := by decide
  have hstart : (ascii "content-length").head? ≠ some 13 ∧
      (ascii "content-length").head? ≠ some 10 := by decide
  refine ⟨hname, List.all_eq_true.1 htoken, hstart, ?_, ?_⟩
  · exact fun c hc => (printable_digit c ((printed_digits n).2 c hc)).1
  · intro hhead
    exact (printable_digit 32 ((printed_digits n).2 32 (List.mem_of_head? hhead))).2 rfl

theorem fieldOk_connection (r : HttpRequest) : FieldOk (ascii "connection", connection r) := by
  have hname : ascii "connection" ≠ [] := by decide
  have htoken : (ascii "connection").all token = true := by decide
  have hstart : (ascii "connection").head? ≠ some 13 ∧
      (ascii "connection").head? ≠ some 10 := by decide
  refine ⟨hname, List.all_eq_true.1 htoken, hstart, ?_, ?_⟩
  · rw [connection]
    cases r.close with
    | true => exact List.all_eq_true.1 rfl
    | false => exact List.all_eq_true.1 rfl
  · rw [connection]
    cases r.close <;> decide

theorem connection_ne_length : folded (ascii "connection") ≠ folded (ascii "content-length") := by
  decide

/-- The headers that arrive are those that were sent, in the order of the map. -/
theorem setAll_sentHeaders (r : HttpRequest) (relaxed : Bool) (h : Transferable relaxed r) :
    HeaderMap.setAll (sentHeaders r) [] = (received r).headers := by
  have hmap : HeaderMap.setAll r.headers [] = r.headers :=
    HeaderMap.setAll_sorted r.headers [] h.sorted
  have hrest : ∀ e ∈ r.headers ++ (if r.body = [] then []
      else [(ascii "content-length", printed r.body.length)]),
      folded e.1 ≠ folded (ascii "connection") := by
    intro e he
    rcases List.mem_append.1 he with he | he
    · exact (h.names e he).1
    · split at he
      · cases he
      · rw [List.mem_singleton] at he
        rw [he]
        exact connection_ne_length.symm
  have hfirst : HeaderMap.setAll (sentHeaders r) [] =
      HeaderMap.setAll (r.headers ++ if r.body = [] then []
        else [(ascii "content-length", printed r.body.length)])
        (HeaderMap.set (ascii "connection") (connection r) []) := rfl
  rw [hfirst, HeaderMap.setAll_set _ _ _ _ hrest, HeaderMap.setAll, List.foldl_append]
  have hfold : r.headers.foldl (fun m e => HeaderMap.set e.1 e.2 m) [] = r.headers := hmap
  rw [hfold, received]
  by_cases hb : r.body = []
  · rw [if_pos hb, if_pos hb]
    rfl
  · rw [if_neg hb, if_neg hb]
    rfl

theorem fieldOk_sentHeaders (r : HttpRequest) (relaxed : Bool) (h : Transferable relaxed r) :
    ∀ e ∈ sentHeaders r, FieldOk e := by
  intro e he
  rw [sentHeaders, List.mem_cons, List.mem_append] at he
  rcases he with rfl | he | he
  · exact fieldOk_connection r
  · exact h.fields e he
  · split at he
    · cases he
    · rw [List.mem_singleton] at he
      rw [he]
      exact fieldOk_length r.body.length

/-- What the parser makes of the header block. -/
theorem ofHead_sentHeaders (r : HttpRequest) (relaxed : Bool) (h : Transferable relaxed r) :
    HttpRequestParser.ofHead r (sentHeaders r) =
      { received r with close := true, body := [] } := by
  rw [HttpRequestParser.ofHead, setHeader_all]
  have hheaders := setAll_sentHeaders r relaxed h
  have hnone : (HttpRequestParser.ofLine r).headers = [] := rfl
  rw [hnone, hheaders]
  rfl

theorem find_connection (r : HttpRequest) :
    (received r).headers.find (ascii "connection") = some (connection r) :=
  HeaderMap.find_set _ _ _

theorem find_length (r : HttpRequest) (relaxed : Bool) (h : Transferable relaxed r) :
    (received r).headers.find (ascii "content-length") =
      if r.body = [] then none else some (printed r.body.length) := by
  rw [received, HeaderMap.find_set_of_ne _ _ _ _ connection_ne_length]
  by_cases hb : r.body = []
  · rw [if_pos hb, if_pos hb]
    exact HeaderMap.find_absent _ _ (fun e he => (h.names e he).2)
  · rw [if_neg hb, if_neg hb]
    exact HeaderMap.find_set _ _ _

end HttpRequest

namespace HttpSession

open HttpRequest

/-- The header says whether the connection is kept. -/
theorem connection_iff (r : HttpRequest) :
    folded (connection r) = folded (ascii "keep-alive") ↔ r.close = false := by
  rw [connection]
  generalize r.close = b
  cases b <;> decide

/-- The close flag is that of the sender. -/
theorem setClose_received (r d : HttpRequest) (hd : d = { received r with close := true }) :
    setClose d = received r := by
  have hheader : d.getHeader (ascii "connection") = connection r := by
    rw [getHeader, hd]
    exact congrArg (Option.getD · []) (find_connection r)
  rw [setClose, hheader]
  by_cases hc : r.close = false
  · have hsame : (received r).close = false := hc
    rw [if_pos ((connection_iff r).2 hc), hd, ← hsame]
  · have hsame : (received r).close = true := Bool.eq_true_of_not_eq_false hc
    rw [if_neg (fun h => hc ((connection_iff r).1 h)), hd, ← hsame]

/-- A word below half of its range. -/
theorem int64OfWord_small (n : Nat) (h : n < 2 ^ 63) : int64OfWord (UInt64.ofNat n) = n := by
  have hn : (UInt64.ofNat n).toNat = n := UInt64.toNat_ofNat_of_lt' (by
    have hsize : UInt64.size = 2 ^ 64 := rfl
    omega)
  rw [int64OfWord, hn, if_pos h]

/-- The printed block of a request is well formed, and what the parser makes of it and
    the body is the request. -/
theorem wellFormed_head (lexicalCast : List UInt8 → Option UInt64)
    (hcast : ∀ n < 2 ^ 64, lexicalCast (printed n) = some (UInt64.ofNat n)) (relaxed : Bool)
    (queryStart : Nat) (r : HttpRequest) (h : Transferable relaxed r)
    (hlen : r.head.length < 2 ^ 31) :
    ∃ q, WellFormed relaxed queryStart r.head q ∧ BodyOf lexicalCast q r.body ∧
      requestOf q r.body = received r := by
  have hfields := fieldOk_sentHeaders r relaxed h
  rcases HttpRequestParser.exec_head relaxed queryStart r (sentHeaders r) h.line hfields hlen with
    ⟨q, hexec, hfin, herr, hdata⟩
  rw [ofHead_sentHeaders r relaxed h] at hdata
  rcases trace_headText relaxed r (sentHeaders r) h.line hfields with ⟨htrace, -⟩
  have hne : r.head ≠ [] := by
    rw [head, headText]
    exact List.append_ne_nil_of_right_ne_nil _
      (List.append_ne_nil_of_right_ne_nil _ (List.cons_ne_nil _ _))
  refine ⟨q, ⟨?_, hfin, herr, ?_, ?_⟩, ?_, ?_⟩
  · rw [HttpRequestParser.httpParserExecute,
      if_neg (Nat.ne_of_gt (List.length_pos_of_ne_nil hne)), bind_ok _ _ _ _ _ (modify_apply _ _),
      List.take_length]
    exact hexec
  · rw [head, htrace, headTrace, lineTrace]
    simp [piece, tag]
  · rw [head, htrace, headTrace, lineTrace]
    simp [piece, tag]
  · have hfind : q.data.headers.find (ascii "content-length") =
        if r.body = [] then none else some (printed r.body.length) := by
      rw [hdata]
      exact find_length r relaxed h
    have hshort := h.body
    rw [BodyOf, HttpRequestParser.getContentLength, hfind]
    by_cases hb : r.body = []
    · rw [if_pos hb, hb]
      rfl
    · rw [if_neg hb]
      simp only [hcast r.body.length (by omega), Option.getD_some]
      rw [int64OfWord_small _ (by omega), Int.toNat_natCast]
  · rw [requestOf]
    refine setClose_received r _ ?_
    by_cases hb : r.body = []
    · rw [if_pos hb, hdata, ← hb]
      rfl
    · rw [if_neg hb, hdata]
      rfl

/-- A request that arrives with its header block in one read. -/
theorem recvRequest_dump (lexicalCast : List UInt8 → Option UInt64)
    (hcast : ∀ n < 2 ^ 64, lexicalCast (printed n) = some (UInt64.ofNat n)) (buffSize : Nat)
    (hint : buffSize < 2 ^ 31) (m : Memory) (r : HttpRequest) (h : Transferable m.uriRelaxed r)
    (s : Socket) (hready : s.Ready (r.dump false)) (hread : r.head.length ≤ nextRead buffSize s) :
    ∃ s', recvRequest lexicalCast buffSize m s = .ok (some (received r)) s' := by
  rw [dump_eq r (fun e he => (h.names e he).1)] at hready
  have hbytes : r.head ++ r.body = r.head ++ (r.body ++ []) := by rw [List.append_nil]
  rw [hbytes] at hready
  have hpos : 0 < r.head.length := by
    rw [head, headText, List.length_append, List.length_append]
    exact Nat.lt_of_lt_of_le (by decide) (Nat.le_trans (Nat.le_add_left 2 _) (Nat.le_add_left _ _))
  have hbuf : nextRead buffSize s ≤ buffSize := by
    unfold nextRead Socket.share
    omega
  rcases wellFormed_head lexicalCast hcast m.uriRelaxed m.queryStart r h (by omega) with
    ⟨q, hwf, hbody, hreq⟩
  have hcuts : SafeCuts m.uriRelaxed buffSize r.head s := by
    intro t ht hlt
    rw [readEnds_single _ _ _ hpos hread, List.mem_singleton] at ht
    omega
  rcases recvRequest_settled lexicalCast buffSize m r.head r.body [] q s hwf hbody (by omega) hint
    (by omega) h.body hready hcuts with ⟨-, s', -, -, hrun, -⟩
  rw [hreq] at hrun
  exact ⟨s', hrun⟩

/-- The sender writes the printed request. -/
theorem sendRequest_sent (websocket : Bool) (r : HttpRequest) (c : Socket)
    (hconn : c.connected = true) (hlen : (r.dump websocket).length < 2 ^ 64) :
    ∃ c', HttpConnection.sendRequest websocket r c = .ok (intOfWord (r.dump websocket).length) c' ∧
      c'.outbox = c.outbox ++ r.dump websocket := by
  rcases SocketStream.writeFixSize_taken c (r.dump websocket) c.outbox 0
    (r.dump websocket).length hlen (by omega) ⟨hconn, rfl⟩ ((r.dump websocket).length + 1)
    (Nat.lt_succ_self _) with ⟨c', hrun, hsent, -⟩
  rw [List.drop_zero, List.take_length] at hsent
  refine ⟨c', ?_, hsent.outbox⟩
  simp only [Nat.zero_add] at hrun
  exact hrun

/-- Every request that the grammar has a place for, whose header block fits into the
    buffer and arrives in one read: what is received is what was sent, with the two
    headers that `dump` adds. -/
theorem request_transferred (lexicalCast : List UInt8 → Option UInt64)
    (hcast : ∀ n < 2 ^ 64, lexicalCast (printed n) = some (UInt64.ofNat n)) (buffSize : Nat)
    (hint : buffSize < 2 ^ 31) (m : Memory) (r : HttpRequest) (h : Transferable m.uriRelaxed r)
    (hfit : r.head.length ≤ buffSize) (c : Socket) (hconn : c.connected = true) :
    (∃ n c', HttpConnection.sendRequest false r c = .ok n c' ∧
      c'.outbox = c.outbox ++ r.dump false) ∧
    ∀ s : Socket, s.Ready (r.dump false) → r.head.length ≤ nextRead buffSize s →
      ∃ s', recvRequest lexicalCast buffSize m s = .ok (some (received r)) s' := by
  have hlen : (r.dump false).length < 2 ^ 64 := by
    have hshort := h.body
    rw [dump_eq r (fun e he => (h.names e he).1), List.length_append]
    omega
  rcases sendRequest_sent false r c hconn hlen with ⟨c', hrun, hout⟩
  exact ⟨⟨_, c', hrun, hout⟩,
    fun s hready hread => recvRequest_dump lexicalCast hcast buffSize hint m r h s hready hread⟩

/-! ## A request -/

theorem decimalFrom_append (xs ys : List UInt8) (n : Nat) :
    decimalFrom n (xs ++ ys) = (decimalFrom n xs).bind (fun k => decimalFrom k ys) := by
  induction xs generalizing n with
  | nil => rfl
  | cons c xs ih =>
      rw [List.cons_append, decimalFrom, decimalFrom]
      by_cases hc : digit c = true
      · rw [if_pos hc, if_pos hc, ih]
      · rw [if_neg hc, if_neg hc]
        rfl

theorem decimalFrom_printed (n : Nat) : decimalFrom 0 (printed n) = some n := by
  induction n using Nat.strong_induction_on with
  | _ n ih =>
      rw [printed_eq]
      split
      · next h =>
          rw [decimalFrom, if_pos (digitByte_spec n h).1, (digitByte_spec n h).2, decimalFrom]
          simp
      · next h =>
          have hd := digitByte_spec (n % 10) (Nat.mod_lt n (by decide))
          rw [decimalFrom_append, ih (n / 10) (by omega), Option.bind_some, decimalFrom,
            if_pos hd.1, hd.2, decimalFrom]
          congr 1
          omega

theorem decimal_printed (n : Nat) (h : n < 2 ^ 64) :
    decimal (printed n) = some (UInt64.ofNat n) := by
  rw [decimal, decimalFrom_printed]
  exact if_pos ⟨(printed_digits n).1, h⟩

/-- A request with every part. -/
def postRequest : HttpRequest :=
  ⟨.POST, 0x11, false, ascii "/chat", ascii "room=1", ascii "top", ascii "hello",
    [(ascii "Accept", []), (ascii "Host", ascii "www.baidu.com")]⟩

theorem transferable_post : Transferable false postRequest where
  line := ⟨List.all_eq_true.1 rfl, Or.inr rfl, rfl, rfl, Or.inr rfl, Or.inr rfl⟩
  fields := by
    intro e he
    rw [postRequest, List.mem_cons, List.mem_singleton] at he
    rcases he with rfl | rfl
    · exact ⟨by decide, List.all_eq_true.1 rfl, by decide, List.all_eq_true.1 rfl, by decide⟩
    · exact ⟨by decide, List.all_eq_true.1 rfl, by decide, List.all_eq_true.1 rfl, by decide⟩
  names := by decide
  sorted := by
    unfold HeaderMap.Sorted
    decide
  body := by decide

/-- Its head is received at once. -/
theorem fits_post : postRequest.head.length ≤ 4096 ∧
    postRequest.head.length ≤ nextRead 4096 (client (fun _ => 4096) (postRequest.dump false)) := by
  decide +kernel

theorem request_transferred_post : Transferable false postRequest ∧
    (∃ n c', HttpConnection.sendRequest false postRequest (client (fun _ => 7) []) = .ok n c' ∧
      c'.outbox = postRequest.dump false) ∧
    ∃ s', recvRequest decimal 4096 ⟨false, 0, fun _ => 0⟩
      (client (fun _ => 4096) (postRequest.dump false)) = .ok (some (received postRequest)) s' := by
  have hall := request_transferred decimal decimal_printed 4096 (by decide) ⟨false, 0, fun _ => 0⟩
    postRequest transferable_post fits_post.1 (client (fun _ => 7) []) rfl
  refine ⟨transferable_post, ?_, hall.2 _ ⟨rfl, rfl⟩ fits_post.2⟩
  exact hall.1

/-- Every request arrives with a header that it did not have. -/
theorem header_added : Transferable false postRequest ∧
    postRequest.head.length ≤ nextRead 4096 (client (fun _ => 4096) (postRequest.dump false)) ∧
    ∃ r s', recvRequest decimal 4096 ⟨false, 0, fun _ => 0⟩
        (client (fun _ => 4096) (postRequest.dump false)) = .ok (some r) s' ∧
      postRequest.headers.find (ascii "connection") = none ∧
      r.headers.find (ascii "connection") = some (ascii "keep-alive") := by
  rcases recvRequest_dump decimal decimal_printed 4096 (by decide) ⟨false, 0, fun _ => 0⟩
    postRequest transferable_post _ ⟨rfl, rfl⟩ fits_post.2 with ⟨s', hrun⟩
  exact ⟨transferable_post, fits_post.2, received postRequest, s', hrun, by decide,
    find_connection postRequest⟩

end HttpSession

end YkServer
