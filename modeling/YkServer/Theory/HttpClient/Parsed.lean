import YkServer.Theory.HttpClient.Printed
import YkServer.Theory.Http.Transfer

/-!
# Parsing a Printed Response

What the parser makes of the header block that `HttpResponse::dump` prints, when the whole block
is in the buffer.

The actions on the block are known, so what is left is to execute them one after another. They do
not look at the state of the machine. That is why a result holds for every state here, and why
the machine and the actions can be followed separately.

## Main definitions

* `Does`, `DoesTrace`: What actions do, whatever the state of the machine.
* `Within`: Noted positions that are inside of what was parsed.
* `ofHead`: The response that is made.

## Theorems

* `exec_trace`: The loop does what the actions do.
* `doesTrace_line`, `doesTrace_fields`: The status line and the headers.
* `execute_head`: The block.
-/

namespace YkServer

open Lib Lib.Ragel HttpClientParser

namespace HttpResponseParser

/-! ## Actions and the machine -/

variable (buffer : List UInt8)

/-- What the actions of one byte do, whatever the state of the machine. -/
def Does (p : Nat) (as : List Action) (q q' : HttpResponseParser) : Prop :=
  ∀ cs, performAll buffer p as { q with cs := cs } = .ok () { q' with cs := cs }

/-- What the actions of successive bytes do. -/
def DoesTrace : Nat → List (List Action) → HttpResponseParser → HttpResponseParser → Prop
  | _, [], q, q' => q' = q
  | p, as :: tr, q, q' => ∃ q₁, Does buffer p as q q₁ ∧ DoesTrace (p + 1) tr q₁ q'

theorem does_nothing (p : Nat) (q : HttpResponseParser) : Does buffer p [] q q := fun _ => rfl

theorem Does.cons {p : Nat} {a : Action} {as : List Action} {q r q' : HttpResponseParser}
    (ha : ∀ cs, perform buffer p a { q with cs := cs } = .ok () { r with cs := cs })
    (has : Does buffer p as r q') : Does buffer p (a :: as) q q' := by
  intro cs
  rw [performAll, bind_ok _ _ _ _ _ (ha cs)]
  exact has cs

theorem does_one {p : Nat} {a : Action} {q q' : HttpResponseParser}
    (ha : ∀ cs, perform buffer p a { q with cs := cs } = .ok () { q' with cs := cs }) :
    Does buffer p [a] q q' :=
  Does.cons buffer ha (does_nothing buffer p q')

theorem DoesTrace.append {p : Nat} {tr₁ tr₂ : List (List Action)} {q q₁ q' : HttpResponseParser}
    (h₁ : DoesTrace buffer p tr₁ q q₁) (h₂ : DoesTrace buffer (p + tr₁.length) tr₂ q₁ q') :
    DoesTrace buffer p (tr₁ ++ tr₂) q q' := by
  induction tr₁ generalizing p q with
  | nil =>
      have hsame : q₁ = q := h₁
      subst hsame
      exact h₂
  | cons as tr₁ ih =>
      rcases h₁ with ⟨q₂, has, hrest⟩
      rw [List.length_cons, Nat.add_comm tr₁.length, ← Nat.add_assoc] at h₂
      exact ⟨q₂, has, ih hrest h₂⟩

theorem doesTrace_quiet (p n : Nat) (q : HttpResponseParser) :
    DoesTrace buffer p (List.replicate n []) q q := by
  induction n generalizing p with
  | zero => rfl
  | succ n ih => exact ⟨q, does_nothing buffer p q, ih (p + 1)⟩

/-- Actions on the first byte of a word. -/
theorem doesTrace_piece (p : Nat) (as : List Action) (w : List UInt8) (q q' : HttpResponseParser)
    (hw : w ≠ []) (h : Does buffer p as q q') : DoesTrace buffer p (piece as w) q q' := by
  rcases List.exists_cons_of_ne_nil hw with ⟨c, w, rfl⟩
  rw [piece, List.length_cons, List.replicate_succ, tag, List.append_nil]
  exact ⟨q', h, doesTrace_quiet buffer (p + 1) _ q'⟩

/-- The loop over bytes on which the machine does not fail and does not finish. -/
theorem exec_trace (w rest : List UInt8) (p : Nat) (cs : Cs) (q q' : HttpResponseParser)
    (h : DoesTrace buffer p (trace cs w) q q') (hlive : moves main cs.entered cs.live w ≠ .idle)
    (hdone : ∀ as ∈ trace cs w, Action.done ∉ as) :
    exec buffer (w ++ rest) p { q with cs := cs } =
      exec buffer rest (p + w.length) { q' with cs := w.foldl Cs.step cs } := by
  induction w generalizing p cs q with
  | nil =>
      have hsame : q' = q := h
      rw [hsame]
      rfl
  | cons c w ih =>
      rcases h with ⟨q₁, has, hrest⟩
      have herror : (cs.step c).error = false := by
        rw [Bool.eq_false_iff]
        intro herr
        rw [Cs.error, Bool.and_eq_true, beq_iff_eq] at herr
        have hidle : shift main cs.entered cs.live (some c) = .idle := herr.2
        rw [moves, hidle, moves_idle] at hlive
        exact hlive rfl
      have hnot := hdone (cs.actions c) List.mem_cons_self
      rw [List.cons_append, exec, bind_ok _ _ _ _ _ (get_apply _)]
      simp only [herror, Bool.false_eq_true, if_false]
      rw [bind_ok _ _ _ _ _ (has cs), bind_ok _ _ _ _ _ (modify_apply _ _), if_neg hnot,
        List.foldl_cons, List.length_cons, Nat.add_comm w.length, ← Nat.add_assoc]
      exact ih (p + 1) (cs.step c) q₁ hrest hlive
        (fun as has => hdone as (List.mem_cons_of_mem _ has))

/-- The byte that finishes. -/
theorem exec_done (b : UInt8) (rest : List UInt8) (p : Nat) (cs : Cs) (q : HttpResponseParser)
    (hacts : cs.actions b = [.done]) (herror : (cs.step b).error = false) :
    exec buffer (b :: rest) p { q with cs := cs } = .ok (p + 1) { q with cs := cs.step b } := by
  rw [exec, bind_ok _ _ _ _ _ (get_apply _)]
  simp only [herror, Bool.false_eq_true, if_false, hacts]
  rfl

/-! ## Strings -/

theorem subWord_of_le (p n : Nat) (h : n ≤ p) : subWord p n = p - n := by
  rw [subWord, if_pos h]

/-- A string inside the buffer. -/
theorem stringAt_ok (pos length : Nat) (q : HttpResponseParser) (hlen : buffer.length < 2 ^ 32)
    (h : pos + length ≤ buffer.length) :
    stringAt buffer pos length q = .ok ((buffer.drop pos).take length) q := by
  rw [stringAt, if_neg (by unfold ByteArray.maxStringSize; omega), if_neg (by omega)]
  rfl

/-- A piece of a buffer. -/
theorem piece_at (pre s post : List UInt8) :
    ((pre ++ (s ++ post)).drop pre.length).take s.length = s := by
  rw [List.drop_left, List.take_left]

/-- The positions that are noted are inside of the first `n` bytes. -/
structure Within (n : Nat) (q : HttpResponseParser) : Prop where
  mark : q.mark ≤ n
  fieldStart : q.fieldStart ≤ n
  fieldLen : q.fieldLen ≤ n

/-! ## Headers -/

/-- The callback for a header. -/
theorem does_writeValue (pos : Nat) (k v : List UInt8) (q : HttpResponseParser) (hk : k ≠ [])
    (hlen : buffer.length < 2 ^ 32) (hend : pos + k.length + 2 + v.length ≤ buffer.length)
    (hkey : (buffer.drop pos).take k.length = k)
    (hval : (buffer.drop (pos + k.length + 2)).take v.length = v)
    (hstart : q.fieldStart = pos) (hflen : q.fieldLen = k.length)
    (hmark : q.mark = pos + k.length + 2) :
    Does buffer (pos + k.length + 2 + v.length) [.writeValue] q
      { q with data := q.data.setHeader k v } := by
  refine does_one buffer ?_
  intro cs
  have hzero : k.length ≠ 0 := fun hno => hk (List.eq_nil_of_length_eq_zero hno)
  have hvlen : subWord (pos + k.length + 2 + v.length) (pos + k.length + 2) = v.length := by
    rw [subWord_of_le _ _ (by omega)]
    omega
  rw [perform, bind_ok _ _ _ _ _ (get_apply _), onResponseHttpField]
  simp only [hstart, hflen, hmark, hvlen, if_neg hzero]
  rw [bind_ok _ _ _ _ _ (stringAt_ok buffer pos k.length _ hlen (by omega)),
    bind_ok _ _ _ _ _ (stringAt_ok buffer _ v.length _ hlen (by omega)), hkey, hval]
  rfl

/-- A header. -/
theorem doesTrace_field (pre rest : List UInt8) (e : List UInt8 × List UInt8)
    (q : HttpResponseParser) (hname : e.1 ≠ [])
    (hlen : (pre ++ (fieldText e ++ rest)).length < 2 ^ 32) :
    DoesTrace (pre ++ (fieldText e ++ rest)) pre.length (fieldTrace e) q
      { q with
        fieldStart := pre.length, fieldLen := e.1.length, mark := pre.length + e.1.length + 2,
        data := q.data.setHeader e.1 e.2 } := by
  rcases e with ⟨k, v⟩
  have hkey : ((pre ++ (fieldText (k, v) ++ rest)).drop pre.length).take k.length = k := by
    rw [fieldText, List.append_assoc, List.append_assoc]
    exact piece_at pre k _
  have hval : ((pre ++ (fieldText (k, v) ++ rest)).drop (pre.length + k.length + 2)).take
      v.length = v := by
    have hsplit : pre ++ (fieldText (k, v) ++ rest) =
        (pre ++ (k ++ [58, 32])) ++ (v ++ ([13, 10] ++ rest)) := by
      simp [fieldText]
    have hpos : pre.length + k.length + 2 = (pre ++ (k ++ [58, 32])).length := by
      simp [Nat.add_assoc]
    rw [hsplit, hpos]
    exact piece_at _ v _
  have hend : pre.length + k.length + 2 + v.length ≤
      (pre ++ (fieldText (k, v) ++ rest)).length := by
    simp [fieldText]
    omega
  generalize pre ++ (fieldText (k, v) ++ rest) = buffer at *
  rw [fieldTrace]
  simp only [List.append_assoc]
  -- The name, the colon, the space, the value, and the line end.
  refine DoesTrace.append buffer (doesTrace_piece buffer _ _ k _
    { q with fieldStart := pre.length } hname (does_one buffer (fun _ => rfl))) ?_
  rw [length_piece]
  refine DoesTrace.append buffer (doesTrace_piece buffer _ _ _ _
    { q with fieldStart := pre.length, fieldLen := k.length } (List.cons_ne_nil _ _)
    (does_one buffer ?_)) ?_
  · intro cs
    rw [perform, modify_apply]
    simp only [subWord_of_le _ _ (Nat.le_add_right _ _), Nat.add_sub_cancel_left]
  rw [length_piece]
  refine DoesTrace.append buffer (doesTrace_piece buffer _ _ _ _
    { q with fieldStart := pre.length, fieldLen := k.length, mark := pre.length + k.length + 1 }
    (List.cons_ne_nil _ _) (does_one buffer (fun _ => rfl))) ?_
  rw [length_piece]
  by_cases hv : v = []
  · -- The value starts and ends at the line end.
    subst hv
    have hwrite := does_writeValue buffer pre.length k []
      { q with
        fieldStart := pre.length, fieldLen := k.length, mark := pre.length + k.length + 2 }
      hname hlen hend hkey hval rfl rfl rfl
    rw [List.length_nil, Nat.add_zero] at hwrite
    have hempty : piece [Action.startValue] ([] : List UInt8) = [] := rfl
    rw [valueOut, if_pos rfl, hempty, List.nil_append]
    refine doesTrace_piece buffer _ _ _ _ _ (List.cons_ne_nil _ _) ?_
    refine Does.cons buffer ?_ hwrite
    exact fun _ => rfl
  · refine DoesTrace.append buffer (doesTrace_piece buffer _ _ v _
      { q with
        fieldStart := pre.length, fieldLen := k.length, mark := pre.length + k.length + 2 }
      hv (does_one buffer (fun _ => rfl))) ?_
    rw [length_piece, valueOut, if_neg hv]
    exact doesTrace_piece buffer _ _ _ _ _ (List.cons_ne_nil _ _)
      (does_writeValue buffer pre.length k v _ hname hlen hend hkey hval rfl rfl rfl)

theorem length_fieldTrace (e : List UInt8 × List UInt8) :
    (fieldTrace e).length = (fieldText e).length := by
  simp only [fieldTrace, fieldText, List.length_append, length_piece, List.length_cons,
    List.length_nil]
  omega

/-- Headers, one after another. -/
theorem doesTrace_fields (pre rest : List UInt8) (es : List (List UInt8 × List UInt8))
    (q : HttpResponseParser) (hnames : ∀ e ∈ es, e.1 ≠ [])
    (hlen : (pre ++ (es.flatMap fieldText ++ rest)).length < 2 ^ 32) (hq : Within pre.length q) :
    ∃ q', DoesTrace (pre ++ (es.flatMap fieldText ++ rest)) pre.length (es.flatMap fieldTrace) q
        q' ∧ q'.data = es.foldl (fun r e => r.setHeader e.1 e.2) q.data ∧ q'.error = q.error ∧
      Within (pre ++ es.flatMap fieldText).length q' := by
  induction es generalizing pre q with
  | nil => exact ⟨q, rfl, rfl, rfl, by simpa using hq⟩
  | cons e es ih =>
      rw [List.flatMap_cons, List.append_assoc] at hlen ⊢
      have hfield := doesTrace_field pre (es.flatMap fieldText ++ rest) e q
        (hnames e List.mem_cons_self) hlen
      have hbuffer : pre ++ (fieldText e ++ (es.flatMap fieldText ++ rest)) =
          (pre ++ fieldText e) ++ (es.flatMap fieldText ++ rest) := by
        rw [List.append_assoc]
      have hshort : e.1.length + 2 ≤ (fieldText e).length := by
        simp [fieldText]
      rcases ih (pre ++ fieldText e) _ (fun e' he' => hnames e' (List.mem_cons_of_mem _ he'))
        (by rw [← hbuffer]; exact hlen)
        (⟨by simp only [List.length_append]; omega, by simp only [List.length_append]; omega,
          by simp only [List.length_append]; omega⟩ : Within (pre ++ fieldText e).length
            { q with
              fieldStart := pre.length, fieldLen := e.1.length,
              mark := pre.length + e.1.length + 2, data := q.data.setHeader e.1 e.2 }) with
        ⟨q', hrest, hdata, herr, hwithin⟩
      refine ⟨q', ?_, hdata, herr, ?_⟩
      · rw [List.flatMap_cons]
        refine DoesTrace.append _ hfield ?_
        rw [length_fieldTrace, hbuffer, ← List.length_append]
        exact hrest
      · rw [List.append_assoc] at hwithin
        exact hwithin

/-! ## Status lines -/

/-- A status, which is an `int`. -/
theorem atoi_printed (n : Nat) (post : List UInt8) (hn : n < 2 ^ 31)
    (hpost : ∀ c ∈ post.head?, isDigit c = false) : atoi (printed n ++ post) = some (n : Int) := by
  have hleading := leading_digits (printed n) post (printed_digits n).1
    (fun c hc => (printed_digits n).2 c hc) hpost
  rcases List.exists_cons_of_ne_nil (printed_digits n).1 with ⟨c, d, hcons⟩
  have hc : isDigit c = true := by
    refine (printed_digits n).2 c ?_
    rw [hcons]
    exact List.mem_cons_self
  have hsign : c ≠ 45 ∧ c ≠ 43 := by
    refine ⟨?_, ?_⟩ <;> rintro rfl <;> exact absurd hc (by decide)
  rw [decimal_printed, hcons, List.cons_append] at hleading
  rw [hcons, List.cons_append, atoi,
    List.dropWhile_cons_of_neg (Bool.eq_false_iff.1 (not_isSpace_of_isDigit c hc))]
  split
  case h_1 hminus => exact absurd (List.cons.inj hminus).1 hsign.1
  case h_2 hplus => exact absurd (List.cons.inj hplus).1 hsign.2
  case h_3 =>
    rw [hleading, Option.getD_some, if_pos ⟨by omega, by omega⟩]

/-- The callback for the version. -/
theorem does_httpVersion (pre post : List UInt8) (v : UInt8) (q : HttpResponseParser)
    (hv : v = 0x10 ∨ v = 0x11) (hmark : q.mark = pre.length) :
    Does (pre ++ (versionText v ++ post)) (pre.length + (versionText v).length) [.httpVersion] q
      { q with data := { q.data with version := v } } := by
  refine does_one _ ?_
  intro cs
  have hdrop : (pre ++ (versionText v ++ post)).drop pre.length = versionText v ++ post :=
    List.drop_left
  have hlen : subWord (pre.length + (versionText v).length) pre.length = (versionText v).length :=
    by rw [subWord_of_le _ _ (Nat.le_add_right _ _), Nat.add_sub_cancel_left]
  have hnew := strncmpEq_append (versionText v).length (versionText v) post [] (ascii "HTTP/1.1")
    (Nat.le_refl _)
  have hold := strncmpEq_append (versionText v).length (versionText v) post [] (ascii "HTTP/1.0")
    (Nat.le_refl _)
  rw [perform, bind_ok _ _ _ _ _ (get_apply _), onResponseVersion]
  simp only [hmark, hdrop, hlen, hnew, hold]
  rcases hv with rfl | rfl
  · have hfirst : strncmpEq (versionText 0x10).length (versionText 0x10 ++ [])
        (ascii "HTTP/1.1") = some false := by decide
    have hsecond : strncmpEq (versionText 0x10).length (versionText 0x10 ++ [])
        (ascii "HTTP/1.0") = some true := by decide
    rw [hfirst, hsecond]
    rfl
  · have hfirst : strncmpEq (versionText 0x11).length (versionText 0x11 ++ [])
        (ascii "HTTP/1.1") = some true := by decide
    rw [hfirst]
    rfl

/-- The callback for the status. -/
theorem does_statusCode (pre post : List UInt8) (n : Nat) (q : HttpResponseParser)
    (hn : n < 2 ^ 31) (hpost : ∀ c ∈ post.head?, isDigit c = false) (hmark : q.mark = pre.length) :
    Does (pre ++ (printed n ++ post)) (pre.length + (printed n).length) [.statusCode] q
      { q with data := { q.data with status := n } } := by
  refine does_one _ ?_
  intro cs
  rw [perform, bind_ok _ _ _ _ _ (get_apply _), onResponseStatus]
  simp only [hmark, List.drop_left, atoi_printed n post hn hpost]
  rfl

/-- The callback for the reason. -/
theorem does_reasonPhrase (pre reason post : List UInt8) (q : HttpResponseParser)
    (hlen : (pre ++ (reason ++ post)).length < 2 ^ 32) (hmark : q.mark = pre.length) :
    Does (pre ++ (reason ++ post)) (pre.length + reason.length) [.reasonPhrase] q
      { q with data := { q.data with reason := reason } } := by
  refine does_one _ ?_
  intro cs
  have hrlen : subWord (pre.length + reason.length) pre.length = reason.length := by
    rw [subWord_of_le _ _ (Nat.le_add_right _ _), Nat.add_sub_cancel_left]
  have hend : pre.length + reason.length ≤ (pre ++ (reason ++ post)).length := by
    simp
  rw [perform, bind_ok _ _ _ _ _ (get_apply _)]
  simp only [hmark, hrlen]
  rw [bind_ok _ _ _ _ _ (stringAt_ok _ _ _ _ hlen hend), piece_at]
  rfl

/-- A status line with its line end, at the start of the buffer. -/
theorem doesTrace_line (v : UInt8) (n : Nat) (reason rest : List UInt8) (q : HttpResponseParser)
    (hv : v = 0x10 ∨ v = 0x11) (hn : n < 2 ^ 31) (hr : reason ≠ [])
    (hlen : (lineText v n reason ++ ([13, 10] ++ rest)).length < 2 ^ 32) :
    DoesTrace (lineText v n reason ++ ([13, 10] ++ rest)) 0
      (lineTrace v n reason ++ piece [Action.reasonPhrase] [(13 : UInt8), 10]) q
      { q with
        mark := (versionText v).length + 1 + (printed n).length + 1,
        data := { q.data with version := v, status := n, reason := reason } } := by
  have hversion := does_httpVersion [] (32 :: (printed n ++ 32 :: reason) ++ ([13, 10] ++ rest)) v
    { q with mark := 0 } hv rfl
  have hstatus := does_statusCode (versionText v ++ [32]) (32 :: reason ++ ([13, 10] ++ rest)) n
    { q with
      mark := (versionText v ++ [32]).length, data := { q.data with version := v } } hn
    (by rintro c ⟨rfl⟩; rfl) rfl
  have hreason := does_reasonPhrase (versionText v ++ [32] ++ printed n ++ [32]) reason
    ([13, 10] ++ rest)
    { q with
      mark := (versionText v ++ [32] ++ printed n ++ [32]).length,
      data := { q.data with version := v, status := n } }
    (by simpa [lineText] using hlen) rfl
  have hbuffer₁ : [] ++ (versionText v ++
      (32 :: (printed n ++ 32 :: reason) ++ ([13, 10] ++ rest))) =
      lineText v n reason ++ ([13, 10] ++ rest) := by
    simp [lineText]
  have hbuffer₂ : versionText v ++ [32] ++ (printed n ++ (32 :: reason ++ ([13, 10] ++ rest))) =
      lineText v n reason ++ ([13, 10] ++ rest) := by
    simp [lineText]
  have hbuffer₃ : versionText v ++ [32] ++ printed n ++ [32] ++ (reason ++ ([13, 10] ++ rest)) =
      lineText v n reason ++ ([13, 10] ++ rest) := by
    simp [lineText]
  rw [hbuffer₁] at hversion
  rw [hbuffer₂] at hstatus
  rw [hbuffer₃] at hreason
  have hvne : versionText v ≠ [] := by
    rcases hv with rfl | rfl <;> decide
  generalize lineText v n reason ++ ([13, 10] ++ rest) = buffer at *
  simp only [List.length_append, List.length_cons, List.length_nil,
    Nat.zero_add] at hversion hstatus hreason
  rw [lineTrace]
  simp only [List.append_assoc]
  refine DoesTrace.append buffer (doesTrace_piece buffer _ _ _ _ { q with mark := 0 } hvne
    (does_one buffer (fun _ => rfl))) ?_
  rw [length_piece, Nat.zero_add]
  refine DoesTrace.append buffer (doesTrace_piece buffer _ _ _ _ _ (List.cons_ne_nil _ _)
    hversion) ?_
  rw [length_piece]
  refine DoesTrace.append buffer (doesTrace_piece buffer _ _ _ _
    { q with mark := (versionText v).length + 1, data := { q.data with version := v } }
    (printed_digits n).1 (does_one buffer (fun _ => rfl))) ?_
  rw [length_piece]
  refine DoesTrace.append buffer (doesTrace_piece buffer _ _ _ _ _ (List.cons_ne_nil _ _)
    hstatus) ?_
  rw [length_piece]
  refine DoesTrace.append buffer (doesTrace_piece buffer _ _ _ _
    { q with
      mark := (versionText v).length + 1 + (printed n).length + 1,
      data := { q.data with version := v, status := n } }
    hr (does_one buffer (fun _ => rfl))) ?_
  rw [length_piece]
  exact doesTrace_piece buffer _ _ _ _ _ (List.cons_ne_nil _ _) hreason

/-! ## Header blocks -/

/-- The response that a header block is parsed to. -/
def ofHead (v : UInt8) (n : Nat) (reason : List UInt8) (es : List (List UInt8 × List UInt8))
    (r : HttpResponse) : HttpResponse :=
  es.foldl (fun r e => r.setHeader e.1 e.2) { r with version := v, status := n, reason := reason }

theorem doesTrace_head (v : UInt8) (n : Nat) (reason rest : List UInt8)
    (es : List (List UInt8 × List UInt8)) (q : HttpResponseParser) (hv : v = 0x10 ∨ v = 0x11)
    (hn : n < 2 ^ 31) (hr : reason ≠ []) (hnames : ∀ e ∈ es, e.1 ≠ [])
    (hlen : (headText v n reason es ++ rest).length < 2 ^ 32) (hq : Within 0 q) :
    ∃ q', DoesTrace (headText v n reason es ++ rest) 0 (headTrace v n reason es).dropLast q q' ∧
      q'.data = ofHead v n reason es q.data ∧ q'.error = q.error ∧
      Within ((headText v n reason es).length - 2) q' := by
  have hbuffer : headText v n reason es ++ rest =
      lineText v n reason ++ ([13, 10] ++ (es.flatMap fieldText ++ ([13, 10] ++ rest))) := by
    simp [headText]
  have hline := doesTrace_line v n reason (es.flatMap fieldText ++ ([13, 10] ++ rest)) q hv hn hr
    (by rw [← hbuffer]; exact hlen)
  have hsplit : headText v n reason es ++ rest =
      (lineText v n reason ++ [13, 10]) ++ (es.flatMap fieldText ++ ([13, 10] ++ rest)) := by
    simp [headText]
  have hsize : (lineText v n reason ++ [13, 10]).length =
      (versionText v).length + 1 + (printed n).length + 1 + reason.length + 2 := by
    simp [lineText]
    omega
  rcases doesTrace_fields (lineText v n reason ++ [13, 10]) ([13, 10] ++ rest) es _ hnames
    (by rw [← hsplit]; exact hlen)
    (⟨by simp only [hsize]; omega, Nat.le_trans hq.fieldStart (Nat.zero_le _),
      Nat.le_trans hq.fieldLen (Nat.zero_le _)⟩ :
        Within (lineText v n reason ++ [13, 10]).length
          { q with
            mark := (versionText v).length + 1 + (printed n).length + 1,
            data := { q.data with version := v, status := n, reason := reason } }) with
    ⟨q', hfields, hdata, herr, hwithin⟩
  have hdrop : (headTrace v n reason es).dropLast =
      lineTrace v n reason ++ piece [Action.reasonPhrase] [(13 : UInt8), 10] ++
        (es.flatMap fieldTrace ++ [[]]) := by
    have hlast : headTrace v n reason es =
        (lineTrace v n reason ++ piece [Action.reasonPhrase] [(13 : UInt8), 10] ++
          (es.flatMap fieldTrace ++ [[]])) ++ [[.done]] := by
      simp [headTrace]
    rw [hlast, List.dropLast_concat]
  have htrace : (lineTrace v n reason ++ piece [Action.reasonPhrase] [(13 : UInt8), 10]).length =
      (lineText v n reason ++ [13, 10]).length := by
    simp only [lineTrace, lineText, List.length_append, length_piece, List.length_cons,
      List.length_nil]
    omega
  refine ⟨q', ?_, hdata, herr, ?_⟩
  · rw [hdrop]
    refine DoesTrace.append _ (by rw [hbuffer]; exact hline) ?_
    rw [htrace, Nat.zero_add]
    refine DoesTrace.append _ (by rw [hsplit]; exact hfields) ?_
    exact ⟨q', does_nothing _ _ q', rfl⟩
  · have hend : (headText v n reason es).length - 2 =
        (lineText v n reason ++ [13, 10] ++ es.flatMap fieldText).length := by
      simp only [headText, List.length_append, List.length_cons, List.length_nil]
      omega
    rw [hend]
    exact hwithin

theorem not_done_piece (as : List Action) (w : List UInt8) (h : Action.done ∉ as) :
    ∀ ys ∈ piece as w, Action.done ∉ ys := by
  intro ys hys
  cases w with
  | nil => cases hys
  | cons c w =>
      simp only [piece, List.length_cons, List.replicate_succ, tag, List.append_nil,
        List.mem_cons, List.mem_replicate] at hys
      rcases hys with rfl | ⟨-, rfl⟩
      · exact h
      · exact List.not_mem_nil

/-- Only the last byte of a block finishes. -/
theorem headTrace_split (v : UInt8) (n : Nat) (reason : List UInt8)
    (es : List (List UInt8 × List UInt8)) :
    ∃ tr, headTrace v n reason es = tr ++ [[.done]] ∧ ∀ ys ∈ tr, Action.done ∉ ys := by
  refine ⟨lineTrace v n reason ++ piece [Action.reasonPhrase] [(13 : UInt8), 10] ++
    (es.flatMap fieldTrace ++ [[]]), by simp [headTrace], ?_⟩
  intro ys hys
  simp only [lineTrace, List.mem_append, List.mem_singleton, List.mem_flatMap] at hys
  rcases hys with (((h | h | h | h | h) | h) | ⟨e, -, h⟩ | rfl)
  · exact not_done_piece _ _ (by decide) ys h
  · exact not_done_piece _ _ (by decide) ys h
  · exact not_done_piece _ _ (by decide) ys h
  · exact not_done_piece _ _ (by decide) ys h
  · exact not_done_piece _ _ (by decide) ys h
  · exact not_done_piece _ _ (by decide) ys h
  · simp only [fieldTrace, List.mem_append] at h
    rcases h with (h | h | h | h) | h
    · exact not_done_piece _ _ (by decide) ys h
    · exact not_done_piece _ _ (by decide) ys h
    · exact not_done_piece _ _ (by decide) ys h
    · exact not_done_piece _ _ (by decide) ys h
    · refine not_done_piece _ _ ?_ ys h
      unfold valueOut
      split <;> decide
  · exact List.not_mem_nil

theorem trace_concat (cs : Cs) (w : List UInt8) (c : UInt8) :
    trace cs (w ++ [c]) = trace cs w ++ [(w.foldl Cs.step cs).actions c] := by
  induction w generalizing cs with
  | nil => rfl
  | cons b w ih => rw [List.cons_append, trace, ih, trace, List.cons_append, List.foldl_cons]

/-- Where the machine gets to. -/
theorem foldl_step (cs : Cs) (w : List UInt8) (hw : w ≠ []) :
    w.foldl Cs.step cs = ⟨false, moves main cs.entered cs.live w⟩ := by
  induction w generalizing cs with
  | nil => exact absurd rfl hw
  | cons c w ih =>
      rw [List.foldl_cons, moves]
      by_cases hnil : w = []
      · subst hnil
        rfl
      · rw [ih _ hnil]
        rfl

/-- The parser behind a header block with which a buffer starts. -/
theorem execute_head (v : UInt8) (n : Nat) (reason ys zs : List UInt8)
    (es : List (List UInt8 × List UInt8)) (q : HttpResponseParser) (hv : v = 0x10 ∨ v = 0x11)
    (hn : n < 2 ^ 31) (hr : reason ≠ []) (hline : ∀ c ∈ reason, lineByte c = false)
    (h : ∀ e ∈ es, FieldOk e) (hlen : (headText v n reason es ++ ys ++ 0 :: zs).length < 2 ^ 32)
    (hstart : q.cs = .start) (herr : q.error = 0) :
    ∃ q', httpclientParserExecute (headText v n reason es ++ ys ++ 0 :: zs)
        (headText v n reason es ++ ys).length q = .ok (headText v n reason es).length q' ∧
      q'.data = ofHead v n reason es q.data ∧ hasError q' = false ∧ isFinished q' = true := by
  rcases trace_headText v n reason es hr hline h with ⟨htrace, hfinal⟩
  rcases headTrace_split v n reason es with ⟨tr, hsplit, hdone⟩
  have hhead : ∃ w, headText v n reason es = w ++ [10] := by
    refine ⟨lineText v n reason ++ [13, 10] ++ (es.flatMap fieldText ++ [13]), ?_⟩
    rw [headText]
    simp
  rcases hhead with ⟨w, hw⟩
  have hlong : 3 ≤ (headText v n reason es).length := by
    simp only [headText, List.length_append, List.length_cons, List.length_nil]
    omega
  have hwne : w ≠ [] := by
    rintro rfl
    rw [hw] at hlong
    simp at hlong
  rcases doesTrace_head v n reason (ys ++ 0 :: zs) es q.reset hv hn hr (fun e he => (h e he).name)
    (by rw [← List.append_assoc]; exact hlen)
    ⟨Nat.le_refl 0, Nat.le_refl 0, Nat.le_refl 0⟩ with ⟨q₁, hdoes, hdata, herr₁, hwithin⟩
  rw [hsplit, List.dropLast_concat] at hdoes
  rw [hw, trace_concat, hsplit] at htrace
  rcases List.append_inj' htrace rfl with ⟨htr, hlast⟩
  have hacts : (w.foldl Cs.step .start).actions 10 = [.done] := (List.cons.inj hlast).1
  have hmoves : (w.foldl Cs.step .start).step 10 =
      ⟨false, moves main true .idle (headText v n reason es)⟩ := by
    rw [foldl_step .start w hwne, hw, moves_concat, List.isEmpty_eq_false_iff.2 hwne]
    rfl
  have hlive : moves main true .idle (headText v n reason es) ≠ .idle := by
    intro hidle
    rw [hidle, Cs.firstFinal, final_idle] at hfinal
    exact Bool.false_ne_true hfinal
  have hbefore : moves main true .idle w ≠ .idle := by
    intro hidle
    rw [hw, moves_concat, hidle, List.isEmpty_eq_false_iff.2 hwne] at hlive
    exact hlive (shift_idle main _)
  have herror : ((w.foldl Cs.step .start).step 10).error = false := by
    rw [hmoves, Cs.error, Bool.not_false, Bool.true_and, beq_eq_false_iff_ne]
    exact hlive
  have htaken : (headText v n reason es ++ ys ++ 0 :: zs).take
      (headText v n reason es ++ ys).length = w ++ 10 :: ys := by
    rw [List.take_left, hw, List.append_assoc]
    rfl
  have hexec : exec (headText v n reason es ++ ys ++ 0 :: zs) (w ++ 10 :: ys) 0 q.reset =
      .ok (headText v n reason es).length
        { q₁ with cs := ⟨false, moves main true .idle (headText v n reason es)⟩ } := by
    have hreset : q.reset = { q.reset with cs := .start } := by
      rw [← hstart]
      rfl
    rw [hreset, exec_trace _ w (10 :: ys) 0 .start q.reset q₁
      (by rw [htr, List.append_assoc]; exact hdoes) hbefore (by rw [htr]; exact hdone),
      exec_done _ 10 ys _ _ q₁ hacts herror, hmoves, hw, List.length_append, Nat.zero_add]
    rfl
  refine ⟨{ q₁ with cs := ⟨false, moves main true .idle (headText v n reason es)⟩ },
    ?_, hdata, ?_, hfinal⟩
  · have hnul : (headText v n reason es ++ ys ++ 0 :: zs)[(headText v n reason es ++ ys).length]? =
        some 0 := by
      rw [List.getElem?_append_right (Nat.le_refl _), Nat.sub_self]
      rfl
    have hmark := hwithin.mark
    have hfieldStart := hwithin.fieldStart
    have hfieldLen := hwithin.fieldLen
    rw [httpclientParserExecute, if_neg (not_not.2 hnul), bind_ok _ _ _ _ _ (modify_apply _ _),
      htaken, bind_ok _ _ _ _ _ hexec, bind_ok _ _ _ _ _ (get_apply _), if_pos]
    · rfl
    · simp only [List.length_append] at hmark hfieldStart hfieldLen ⊢
      omega
  · rw [hasError, Cs.error, herr₁]
    simp only [reset, herr, Bool.not_false, Bool.true_and, ne_eq, not_true_eq_false,
      decide_false, Bool.false_or, beq_eq_false_iff_ne]
    exact hlive

end HttpResponseParser

end YkServer
