import YkServer.Theory.Http.Machine

/-!
# Parsing Through a Window

A header block that does not arrive in one piece is parsed one piece after
another. Each piece is parsed at the front of the buffer, and the positions noted
while parsing the piece before mean nothing in it. This module compares parsing a
piece with parsing the same bytes where they are in the whole block: the two
agree as long as every position that is used was noted in the piece.

Which positions have been noted is a question about the actions only. `Known` is
the answer, and `clean` says that a list of actions uses no other ones. The
length of a field is known only if it belongs to the field noted last.

## Main definitions

* `Known`, `clean`: The positions that have been noted, and their use.
* `trace`: The actions of the machine on some bytes.
* `Agree`: A parser in the whole block and one in a piece of it.

## Theorems

* `perform_agree`: An action.
* `exec_agree_more`, `exec_agree_byte`: The bytes of a piece.
-/

namespace YkServer

open Lib HttpParser

namespace HttpParser

/-- The positions that have been noted. -/
structure Known where
  mark : Bool
  field : Bool
  len : Bool
  query : Bool
  deriving DecidableEq, Repr

namespace Known

def all : Known := ⟨true, true, true, true⟩

def none : Known := ⟨false, false, false, false⟩

/-- The action uses only positions that have been noted. `request_uri` uses its
    position for a callback that is empty. -/
def allows (k : Known) : Action → Bool
  | .writeField => k.field
  | .writeValue => k.mark && k.field && k.len
  | .requestMethod => k.mark
  | .fragment => k.mark
  | .httpVersion => k.mark
  | .requestPath => k.mark
  | .queryString => k.query
  | _ => true

/-- What has been noted after an action. -/
def after (k : Known) : Action → Known
  | .mark => { k with mark := true }
  | .startValue => { k with mark := true }
  | .startField => { k with field := true, len := false }
  | .writeField => { k with len := true }
  | .startQuery => { k with query := true }
  | _ => k

end Known

/-- Every action uses only positions that have been noted. -/
def clean : Known → List Action → Bool
  | _, [] => true
  | k, a :: as => k.allows a && clean (k.after a) as

theorem clean_append (k : Known) (xs ys : List Action) :
    clean k (xs ++ ys) = (clean k xs && clean (xs.foldl Known.after k) ys) := by
  induction xs generalizing k with
  | nil => rfl
  | cons a xs ih => rw [List.cons_append, clean, ih, clean, List.foldl_cons, Bool.and_assoc]

/-- The actions on each of some bytes. -/
def trace (relaxed : Bool) : Cs → List UInt8 → List (List Action)
  | _, [] => []
  | cs, c :: rest => cs.actions relaxed c :: trace relaxed (cs.step relaxed c) rest

end HttpParser

/-! ## Comparing strings -/

/-- Only the bytes that are compared matter. -/
theorem strncmpEq_append (n : Nat) (xs ys zs s : List UInt8) (h : n ≤ xs.length) :
    strncmpEq n (xs ++ ys) s = strncmpEq n (xs ++ zs) s := by
  induction n generalizing xs s with
  | zero => rfl
  | succ n ih =>
      cases xs with
      | nil => exact absurd h (by simp)
      | cons x xs =>
          simp only [List.length_cons, Nat.add_le_add_iff_right] at h
          simp only [List.cons_append, strncmpEq]
          rw [ih xs s.tail h]

/-- A space ends the comparison with a string that has none. -/
theorem strncmpEq_space (n : Nat) (xs ys zs s : List UInt8) (hn : n ≤ s.length)
    (hs : ∀ b ∈ s, b ≠ 32) :
    strncmpEq n (xs ++ 32 :: ys) s = strncmpEq n (xs ++ 32 :: zs) s := by
  induction n generalizing xs s with
  | zero => rfl
  | succ n ih =>
      cases s with
      | nil => exact absurd hn (by simp)
      | cons b s =>
          simp only [List.length_cons, Nat.add_le_add_iff_right] at hn
          cases xs with
          | nil =>
              have hne : (32 : UInt8) ≠ b := fun h => hs b List.mem_cons_self h.symm
              simp only [List.nil_append, strncmpEq, List.headD_cons, hne, ne_eq,
                not_false_eq_true, if_true]
          | cons x xs =>
              simp only [List.cons_append, strncmpEq, List.tail_cons]
              rw [ih xs s hn (fun c hc => hs c (List.mem_cons_of_mem _ hc))]

theorem methodIn_space (xs ys zs : List UInt8) (table : List (HttpMethod × List UInt8))
    (h : ∀ e ∈ table, ∀ b ∈ e.2, b ≠ 32) :
    methodIn (xs ++ 32 :: ys) table = methodIn (xs ++ 32 :: zs) table := by
  induction table with
  | nil => rfl
  | cons e table ih =>
      rw [methodIn, methodIn,
        strncmpEq_space e.2.length xs ys zs e.2 (Nat.le_refl _) (h e List.mem_cons_self),
        ih (fun e' he' => h e' (List.mem_cons_of_mem _ he'))]

/-- The method is decided by what is in front of the space. -/
theorem charsToHttpMethod_space (xs ys zs : List UInt8) :
    charsToHttpMethod (xs ++ 32 :: ys) = charsToHttpMethod (xs ++ 32 :: zs) := by
  have htable : (httpMethodMap.all fun e => e.2.all (fun b => b != 32)) = true := by
    decide
  refine methodIn_space xs ys zs httpMethodMap ?_
  intro e he b hb
  exact bne_iff_ne.1 (List.all_eq_true.1 (List.all_eq_true.1 htable e he) b hb)

namespace HttpRequestParser

/-! ## Actions -/

/-- A parser in the whole block and one in a piece of it that starts at `base`,
    `p` bytes into the piece: they agree up to the start of the piece in the
    positions that have been noted, and in everything else. -/
structure Agree (base p : Nat) (k : Known) (r c : HttpRequestParser) : Prop where
  relaxed : c.relaxed = r.relaxed
  cs : c.cs = r.cs
  error : c.error = r.error
  data : c.data = r.data
  mark : k.mark = true → r.mark = base + c.mark ∧ c.mark ≤ p
  field : k.field = true → r.fieldStart = base + c.fieldStart ∧ c.fieldStart ≤ p
  len : k.len = true → r.fieldLen = c.fieldLen ∧ c.fieldStart + c.fieldLen ≤ p
  query : k.query = true → r.queryStart = base + c.queryStart

/-- A string that is inside the bytes of the piece up to here. -/
theorem stringAt_piece (pre v hs ws : List UInt8) (pos length : Nat) (h : pos + length ≤ v.length)
    (r r' c : HttpRequestParser) (s : List UInt8)
    (hr : stringAt (pre ++ (v ++ hs)) (pre.length + pos) length r = .ok s r') :
    r' = r ∧ stringAt (v ++ ws) pos length c = .ok s c := by
  unfold stringAt at hr ⊢
  have hwhole : ¬(pre ++ (v ++ hs)).length < pre.length + pos + length := by
    simp only [List.length_append]
    omega
  have hpiece : ¬(v ++ ws).length < pos + length := by
    simp only [List.length_append]
    omega
  by_cases hmax : ByteArray.maxStringSize < length
  · rw [if_pos hmax] at hr
    cases hr
  · rw [if_neg hmax, if_neg hwhole, List.drop_append] at hr
    rw [if_neg hmax, if_neg hpiece]
    rw [List.drop_eq_nil_of_le (by omega), Nat.add_sub_cancel_left, List.nil_append,
      List.drop_append_of_le_length (by omega),
      List.take_append_of_le_length (by rw [List.length_drop]; omega)] at hr
    rw [List.drop_append_of_le_length (by omega),
      List.take_append_of_le_length (by rw [List.length_drop]; omega)]
    cases hr
    exact ⟨rfl, rfl⟩

/-- A string from a position up to here is one from a position before here. -/
theorem stringAt_from (buffer : List UInt8) (pos p : Nat)
    (hb : buffer.length < 2 ^ 64) (q q' : HttpRequestParser) (s : List UInt8)
    (h : stringAt buffer pos (subWord p pos) q = .ok s q') : pos ≤ p := by
  -- A position behind `p` makes the length wrap, and no buffer is that long.
  by_contra hlt
  rw [subWord, if_neg hlt, stringAt] at h
  split at h
  · cases h
  · rw [if_pos (by omega)] at h
    cases h

theorem subWord_base (base p pos : Nat) (h : pos ≤ p) :
    subWord (base + p) (base + pos) = p - pos ∧ subWord p pos = p - pos := by
  unfold subWord
  rw [if_pos (by omega), if_pos h]
  omega

/-- What is left of the whole block and of the piece from a position in it. -/
theorem drop_piece (pre v hs : List UInt8) (pos : Nat) (h : pos ≤ v.length) :
    (pre ++ (v ++ hs)).drop (pre.length + pos) = v.drop pos ++ hs := by
  rw [List.drop_append, List.drop_eq_nil_of_le (by omega), Nat.add_sub_cancel_left,
    List.nil_append, List.drop_append_of_le_length h]

/-- A string from a noted position up to here, and what is made of it. -/
theorem stringAction_agree (pre v hs ws : List UInt8) (k : Known) (r r' c : HttpRequestParser)
    (at_r at_c : Nat) (f : List UInt8 → HttpRequest → HttpRequest)
    (h : Agree pre.length v.length k r c) (hpos : at_r = pre.length + at_c)
    (hb : (pre ++ (v ++ hs)).length < 2 ^ 64)
    (hr : (do
      let s ← stringAt (pre ++ (v ++ hs)) at_r (subWord (pre.length + v.length) at_r)
      setData (f s)) r = .ok () r') :
    ∃ c', (do
      let s ← stringAt (v ++ ws) at_c (subWord v.length at_c)
      setData (f s)) c = .ok () c' ∧ Agree pre.length v.length k r' c' := by
  rcases bind_eq_ok _ _ _ _ _ hr with ⟨s, r₁, hs₁, hr₁⟩
  have hle : at_c ≤ v.length := by
    have hfrom := stringAt_from _ _ _ hb _ _ _ hs₁
    omega
  subst hpos
  rcases subWord_base pre.length v.length at_c hle with ⟨hlen_r, hlen_c⟩
  rw [hlen_r] at hs₁
  rcases stringAt_piece pre v hs ws at_c (v.length - at_c) (by omega) r r₁ c s hs₁ with
    ⟨rfl, hs₂⟩
  refine ⟨{ c with data := f s c.data }, ?_, ?_⟩
  · rw [hlen_c, bind_ok _ _ _ _ _ hs₂]
    rfl
  · cases hr₁
    exact ⟨h.relaxed, h.cs, h.error, by simp only [h.data], h.mark, h.field, h.len, h.query⟩

/-- Setting an error. -/
theorem Agree.setError (base p v : Nat) (k : Known) (r c : HttpRequestParser)
    (h : Agree base p k r c) : Agree base p k { r with error := v } { c with error := v } :=
  ⟨h.relaxed, h.cs, rfl, h.data, h.mark, h.field, h.len, h.query⟩

/-- Changing the request. -/
theorem Agree.setData (base p : Nat) (f : HttpRequest → HttpRequest) (k : Known)
    (r c : HttpRequestParser) (h : Agree base p k r c) :
    Agree base p k { r with data := f r.data } { c with data := f c.data } :=
  ⟨h.relaxed, h.cs, h.error, by simp only [h.data], h.mark, h.field, h.len, h.query⟩

theorem onRequestMethod_agree (pre v hs ws : List UInt8) (k : Known) (r r' c : HttpRequestParser)
    (h : Agree pre.length v.length k r c) (hk : k.mark = true)
    (hr : onRequestMethod (pre ++ (v ++ 32 :: hs)) r.mark r = .ok () r') :
    ∃ c', onRequestMethod (v ++ 32 :: ws) c.mark c = .ok () c' ∧
      Agree pre.length v.length k r' c' := by
  rcases h.mark hk with ⟨hmark, hle⟩
  unfold onRequestMethod at hr ⊢
  -- The callback looks at all that is left of the buffer, but not behind the space.
  rw [hmark, drop_piece pre v _ _ hle, charsToHttpMethod_space _ hs ws] at hr
  rw [List.drop_append_of_le_length hle]
  revert hr
  generalize charsToHttpMethod (v.drop c.mark ++ 32 :: ws) = m
  intro hr
  cases m with
  | none => cases hr
  | some m =>
      by_cases hm : m = .INVALID_METHOD
      · subst hm
        cases hr
        exact ⟨_, rfl, h.setError _ _ 1000⟩
      · simp only at hr ⊢
        cases hr
        exact ⟨_, rfl, h.setData _ _ (fun q => { q with method := m })⟩

theorem onRequestVersion_agree (pre v hs ws : List UInt8) (k : Known)
    (r r' c : HttpRequestParser) (h : Agree pre.length v.length k r c) (hk : k.mark = true)
    (hr : onRequestVersion (pre ++ (v ++ hs)) r.mark (subWord (pre.length + v.length) r.mark) r =
      .ok () r') :
    ∃ c', onRequestVersion (v ++ ws) c.mark (subWord v.length c.mark) c = .ok () c' ∧
      Agree pre.length v.length k r' c' := by
  rcases h.mark hk with ⟨hmark, hle⟩
  rcases subWord_base pre.length v.length c.mark hle with ⟨hlen_r, hlen_c⟩
  have hfit : v.length - c.mark ≤ (v.drop c.mark).length := by rw [List.length_drop]
  unfold onRequestVersion at hr ⊢
  rw [hmark, hlen_r, drop_piece pre v _ _ hle, strncmpEq_append _ _ hs ws _ hfit,
    strncmpEq_append _ _ hs ws _ hfit] at hr
  rw [hlen_c, List.drop_append_of_le_length hle]
  revert hr
  generalize strncmpEq _ _ (ascii "HTTP/1.1") = new
  generalize strncmpEq _ _ (ascii "HTTP/1.0") = old
  intro hr
  rcases new with _ | _ | _
  · cases hr
  · rcases old with _ | _ | _
    · cases hr
    · cases hr
      exact ⟨_, rfl, h.setError _ _ 1001⟩
    · cases hr
      exact ⟨_, rfl, h.setData _ _ (fun q => { q with version := 0x10 })⟩
  · cases hr
    exact ⟨_, rfl, h.setData _ _ (fun q => { q with version := 0x11 })⟩

theorem onRequestHttpField_agree (pre v hs ws : List UInt8) (k : Known)
    (r r' c : HttpRequestParser) (h : Agree pre.length v.length k r c)
    (hk : (k.mark && k.field && k.len) = true)
    (hr : onRequestHttpField (pre ++ (v ++ hs)) r.fieldStart r.fieldLen r.mark
      (subWord (pre.length + v.length) r.mark) r = .ok () r') :
    ∃ c', onRequestHttpField (v ++ ws) c.fieldStart c.fieldLen c.mark
      (subWord v.length c.mark) c = .ok () c' ∧ Agree pre.length v.length k r' c' := by
  rw [Bool.and_eq_true, Bool.and_eq_true] at hk
  rcases h.mark hk.1.1 with ⟨hmark, hle⟩
  rcases h.field hk.1.2 with ⟨hfield, -⟩
  rcases h.len hk.2 with ⟨hlen, hend⟩
  -- Name and value are both inside the piece.
  rcases subWord_base pre.length v.length c.mark hle with ⟨hlen_r, hlen_c⟩
  unfold onRequestHttpField at hr ⊢
  rw [hlen] at hr
  by_cases hzero : c.fieldLen = 0
  · rw [if_pos hzero] at hr ⊢
    cases hr
    exact ⟨_, rfl, h⟩
  · rw [if_neg hzero] at hr ⊢
    rw [hfield, hmark, hlen_r] at hr
    rw [hlen_c]
    rcases bind_eq_ok _ _ _ _ _ hr with ⟨key, r₁, hkey, hr₁⟩
    rcases stringAt_piece pre v hs ws _ _ hend r r₁ c key hkey with ⟨rfl, hkey'⟩
    rcases bind_eq_ok _ _ _ _ _ hr₁ with ⟨val, r₂, hval, hr₂⟩
    rcases stringAt_piece pre v hs ws _ _ (by omega) r₁ r₂ c val hval with ⟨rfl, hval'⟩
    cases hr₂
    refine ⟨{ c with data := HttpRequest.setHeader key val c.data }, ?_, h.setData _ _ _⟩
    rw [bind_ok _ _ _ _ _ hkey', bind_ok _ _ _ _ _ hval']
    rfl

/-- An action at the byte `b`, in the whole block and in the piece. -/
theorem perform_agree (pre v hs ws : List UInt8) (b : UInt8) (a : Action) (k : Known)
    (r r' c : HttpRequestParser) (hb : (pre ++ (v ++ b :: hs)).length < 2 ^ 64)
    (h : Agree pre.length v.length k r c) (hk : k.allows a = true)
    (hspace : a = .requestMethod → b = 32)
    (hr : perform (pre ++ (v ++ b :: hs)) (pre.length + v.length) a r = .ok () r') :
    ∃ c', perform (v ++ b :: ws) v.length a c = .ok () c' ∧
      Agree pre.length v.length (k.after a) r' c' := by
  cases a with
  | mark | startValue =>
      cases hr
      exact ⟨_, rfl, h.relaxed, h.cs, h.error, h.data, fun _ => ⟨rfl, Nat.le_refl _⟩, h.field,
        h.len, h.query⟩
  | startField =>
      -- From here on the length belongs to another name.
      cases hr
      exact ⟨_, rfl, h.relaxed, h.cs, h.error, h.data, h.mark, fun _ => ⟨rfl, Nat.le_refl _⟩,
        (fun hno => by cases hno), h.query⟩
  | writeField =>
      rcases h.field hk with ⟨hfield, hle⟩
      rcases subWord_base pre.length v.length c.fieldStart hle with ⟨hlen_r, hlen_c⟩
      cases hr
      refine ⟨_, rfl, h.relaxed, h.cs, h.error, h.data, h.mark, h.field, fun _ => ⟨?_, ?_⟩,
        h.query⟩
      · simp only []
        rw [hfield, hlen_r, hlen_c]
      · simp only []
        rw [hlen_c]
        omega
  | writeValue => exact onRequestHttpField_agree pre v (b :: hs) (b :: ws) k r r' c h hk hr
  | requestMethod =>
      cases hspace rfl
      exact onRequestMethod_agree pre v hs ws k r r' c h hk hr
  | requestUri | done | xml | json =>
      cases hr
      exact ⟨_, rfl, h⟩
  | fragment =>
      exact stringAction_agree pre v (b :: hs) (b :: ws) k r r' c r.mark c.mark
        (fun s q => { q with fragment := s }) h (h.mark hk).1 hb hr
  | startQuery =>
      cases hr
      exact ⟨_, rfl, h.relaxed, h.cs, h.error, h.data, h.mark, h.field, h.len, fun _ => rfl⟩
  | queryString =>
      exact stringAction_agree pre v (b :: hs) (b :: ws) k r r' c r.queryStart c.queryStart
        (fun s q => { q with query := s }) h (h.query hk) hb hr
  | httpVersion => exact onRequestVersion_agree pre v (b :: hs) (b :: ws) k r r' c h hk hr
  | requestPath =>
      exact stringAction_agree pre v (b :: hs) (b :: ws) k r r' c r.mark c.mark
        (fun s q => { q with path := s }) h (h.mark hk).1 hb hr

/-- The actions of a transition. -/
theorem performAll_agree (pre v hs ws : List UInt8) (b : UInt8) (as : List Action) (k : Known)
    (r r' c : HttpRequestParser) (hb : (pre ++ (v ++ b :: hs)).length < 2 ^ 64)
    (h : Agree pre.length v.length k r c) (hk : clean k as = true)
    (hspace : .requestMethod ∈ as → b = 32)
    (hr : performAll (pre ++ (v ++ b :: hs)) (pre.length + v.length) as r = .ok () r') :
    ∃ c', performAll (v ++ b :: ws) v.length as c = .ok () c' ∧
      Agree pre.length v.length (as.foldl Known.after k) r' c' := by
  induction as generalizing k r c with
  | nil =>
      cases hr
      exact ⟨c, rfl, h⟩
  | cons a as ih =>
      rw [clean, Bool.and_eq_true] at hk
      rcases bind_eq_ok _ _ _ _ _ hr with ⟨_, r₁, ha, hr₁⟩
      rcases perform_agree pre v hs ws b a k r r₁ c hb h hk.1
        (fun ha => hspace (ha ▸ List.mem_cons_self)) ha with ⟨c₁, hc₁, h₁⟩
      rcases ih _ r₁ c₁ h₁ hk.2 (fun hm => hspace (List.mem_cons_of_mem _ hm)) hr₁ with
        ⟨c', hc', h'⟩
      refine ⟨c', ?_, h'⟩
      rw [performAll, bind_ok _ _ _ _ _ hc₁]
      exact hc'

/-! ## Bytes -/

/-- What an action at the position `p` leaves alone: the state of the machine, an
    error, and the mark, unless it is set to `p`. -/
structure Kept (p : Nat) (q q' : HttpRequestParser) : Prop where
  relaxed : q'.relaxed = q.relaxed
  cs : q'.cs = q.cs
  error : q.error ≠ 0 → q'.error ≠ 0
  mark : q.mark = p → q'.mark = p

theorem kept_refl (p : Nat) (q : HttpRequestParser) : Kept p q q :=
  ⟨rfl, rfl, fun h => h, fun h => h⟩

theorem Kept.trans {p : Nat} {q q' q'' : HttpRequestParser} (h : Kept p q q')
    (h' : Kept p q' q'') : Kept p q q'' :=
  ⟨h'.relaxed.trans h.relaxed, h'.cs.trans h.cs, fun he => h'.error (h.error he),
    fun hm => h'.mark (h.mark hm)⟩

theorem stringAt_kept (buffer : List UInt8) (pos length : Nat) (q q' : HttpRequestParser)
    (s : List UInt8) (h : stringAt buffer pos length q = .ok s q') : q' = q := by
  unfold stringAt at h
  split at h
  · cases h
  · split at h
    · cases h
    · cases h
      rfl

theorem stringAction_kept (p : Nat) (buffer : List UInt8) (pos length : Nat)
    (f : List UInt8 → HttpRequest → HttpRequest) (q q' : HttpRequestParser)
    (h : (do
      let s ← stringAt buffer pos length
      setData (f s)) q = .ok () q') : Kept p q q' := by
  rcases bind_eq_ok _ _ _ _ _ h with ⟨s, q₁, hs, h₁⟩
  cases stringAt_kept buffer pos length q q₁ s hs
  cases h₁
  exact ⟨rfl, rfl, fun he => he, fun hm => hm⟩

theorem onRequestMethod_kept (p : Nat) (buffer : List UInt8) (pos : Nat)
    (q q' : HttpRequestParser) (h : onRequestMethod buffer pos q = .ok () q') : Kept p q q' := by
  unfold onRequestMethod at h
  revert h
  generalize charsToHttpMethod (buffer.drop pos) = m
  intro h
  cases m with
  | none => cases h
  | some m =>
      by_cases hm : m = .INVALID_METHOD
      · subst hm
        cases h
        exact ⟨rfl, rfl, fun _ => Nat.succ_ne_zero _, fun hm => hm⟩
      · simp only at h
        cases h
        exact ⟨rfl, rfl, fun he => he, fun hm => hm⟩

theorem onRequestVersion_kept (p : Nat) (buffer : List UInt8) (pos length : Nat)
    (q q' : HttpRequestParser) (h : onRequestVersion buffer pos length q = .ok () q') :
    Kept p q q' := by
  unfold onRequestVersion at h
  revert h
  generalize strncmpEq _ _ (ascii "HTTP/1.1") = new
  generalize strncmpEq _ _ (ascii "HTTP/1.0") = old
  intro h
  rcases new with _ | _ | _
  · cases h
  · rcases old with _ | _ | _
    · cases h
    · cases h
      exact ⟨rfl, rfl, fun _ => Nat.succ_ne_zero _, fun hm => hm⟩
    · cases h
      exact ⟨rfl, rfl, fun he => he, fun hm => hm⟩
  · cases h
    exact ⟨rfl, rfl, fun he => he, fun hm => hm⟩

theorem perform_kept (buffer : List UInt8) (p : Nat) (a : Action) (q q' : HttpRequestParser)
    (h : perform buffer p a q = .ok () q') : Kept p q q' := by
  cases a with
  | mark | startValue =>
      cases h
      exact ⟨rfl, rfl, fun he => he, fun _ => rfl⟩
  | startField | writeField | startQuery | requestUri | done | xml | json =>
      cases h
      exact ⟨rfl, rfl, fun he => he, fun hm => hm⟩
  | writeValue =>
      have hrun : onRequestHttpField buffer q.fieldStart q.fieldLen q.mark (subWord p q.mark) q =
          .ok () q' := h
      unfold onRequestHttpField at hrun
      split at hrun
      · cases hrun
        exact kept_refl p q
      · rcases bind_eq_ok _ _ _ _ _ hrun with ⟨key, q₁, hkey, hrun₁⟩
        rw [stringAt_kept _ _ _ _ _ _ hkey] at hrun₁
        exact stringAction_kept p _ _ _ (HttpRequest.setHeader key) q q' hrun₁
  | requestMethod => exact onRequestMethod_kept p _ _ q q' h
  | fragment => exact stringAction_kept p _ _ _ (fun s r => { r with fragment := s }) q q' h
  | queryString => exact stringAction_kept p _ _ _ (fun s r => { r with query := s }) q q' h
  | httpVersion => exact onRequestVersion_kept p _ _ _ q q' h
  | requestPath => exact stringAction_kept p _ _ _ (fun s r => { r with path := s }) q q' h

theorem performAll_kept (buffer : List UInt8) (p : Nat) (as : List Action)
    (q q' : HttpRequestParser) (h : performAll buffer p as q = .ok () q') : Kept p q q' := by
  induction as generalizing q with
  | nil =>
      cases h
      exact kept_refl p _
  | cons a as ih =>
      rcases bind_eq_ok _ _ _ _ _ h with ⟨_, q₁, ha, h₁⟩
      exact (perform_kept buffer p a q q₁ ha).trans (ih q₁ h₁)

/-- The parser behind a byte, after the actions of its transition. -/
def advance (q : HttpRequestParser) (b : UInt8) : HttpRequestParser :=
  { q with cs := q.cs.step q.relaxed b }

/-- A byte the machine has a transition for whose actions succeed. -/
theorem exec_cons (buffer : List UInt8) (b : UInt8) (rest : List UInt8) (p : Nat)
    (q q' : HttpRequestParser) (herr : (q.cs.step q.relaxed b).error = false)
    (h : performAll buffer p (q.cs.actions q.relaxed b) q = .ok () q') :
    exec buffer (b :: rest) p q =
      if Action.done ∈ q.cs.actions q.relaxed b then .ok (p + 1) (q'.advance b)
      else exec buffer rest (p + 1) (q'.advance b) := by
  rw [exec, bind_ok _ _ _ _ _ (get_apply _)]
  simp only [herr]
  rw [if_neg (by decide), bind_ok _ _ _ _ _ h, bind_ok _ _ _ _ _ (modify_apply _ _)]
  split <;> rfl

/-- A run that gets past a byte has performed its actions. -/
theorem exec_cons_ok (buffer : List UInt8) (b : UInt8) (rest : List UInt8) (p n : Nat)
    (q qf : HttpRequestParser) (hn : p < n) (h : exec buffer (b :: rest) p q = .ok n qf) :
    (q.cs.step q.relaxed b).error = false ∧
      ∃ q', performAll buffer p (q.cs.actions q.relaxed b) q = .ok () q' := by
  rw [exec, bind_ok _ _ _ _ _ (get_apply _)] at h
  by_cases herr : (q.cs.step q.relaxed b).error = true
  · rw [if_pos herr] at h
    cases h
    exact absurd hn (Nat.lt_irrefl _)
  · rw [if_neg herr] at h
    rcases bind_eq_ok _ _ _ _ _ h with ⟨_, q', hall, -⟩
    exact ⟨Bool.eq_false_iff.2 herr, q', hall⟩

/-- An error that has been set is there at the end. -/
theorem exec_error (buffer rest : List UInt8) (p n : Nat) (q qf : HttpRequestParser)
    (h : exec buffer rest p q = .ok n qf) (he : q.error ≠ 0) : qf.error ≠ 0 := by
  induction rest generalizing p q with
  | nil =>
      cases h
      exact he
  | cons b rest ih =>
      rw [exec, bind_ok _ _ _ _ _ (get_apply _)] at h
      split at h
      · cases h
        exact he
      · rcases bind_eq_ok _ _ _ _ _ h with ⟨_, q', hall, h'⟩
        have he' := (performAll_kept _ _ _ q q' hall).error he
        rw [bind_ok _ _ _ _ _ (modify_apply _ _)] at h'
        split at h'
        · cases h'
          exact he'
        · exact ih (p + 1) _ h' he'

/-- One byte, in the whole block and in the piece. -/
theorem byte_agree (pre v hs ws : List UInt8) (b : UInt8) (k : Known)
    (r rf c : HttpRequestParser) (n : Nat) (hb : (pre ++ (v ++ b :: hs)).length < 2 ^ 64)
    (hn : pre.length + v.length < n) (h : Agree pre.length v.length k r c)
    (hk : clean k (r.cs.actions r.relaxed b) = true)
    (hr : exec (pre ++ (v ++ b :: hs)) (b :: hs) (pre.length + v.length) r = .ok n rf) :
    ∃ r' c' : HttpRequestParser,
      exec (pre ++ (v ++ b :: hs)) (b :: hs) (pre.length + v.length) r =
        (if Action.done ∈ r.cs.actions r.relaxed b then
          .ok (pre.length + v.length + 1) (r'.advance b)
        else exec (pre ++ (v ++ b :: hs)) hs (pre.length + v.length + 1) (r'.advance b)) ∧
      (∀ xs, exec (v ++ b :: ws) (b :: xs) v.length c =
        if Action.done ∈ r.cs.actions r.relaxed b then .ok (v.length + 1) (c'.advance b)
        else exec (v ++ b :: ws) xs (v.length + 1) (c'.advance b)) ∧
      Kept (pre.length + v.length) r r' ∧ (r.cs.step r.relaxed b).error = false ∧
      Agree pre.length (v.length + 1) ((r.cs.actions r.relaxed b).foldl Known.after k)
        (r'.advance b) (c'.advance b) := by
  -- The whole block gets past the byte, so its actions succeed there.
  rcases exec_cons_ok _ b hs _ n r rf hn hr with ⟨herr, r', hall⟩
  rcases performAll_agree pre v hs ws b _ k r r' c hb h hk
    (fun hm => requestMethod_on_space r.relaxed r.cs b hm) hall with ⟨c', hall', h'⟩
  have hkept := performAll_kept _ _ _ r r' hall
  have hcs : c.cs = r.cs := h.cs
  have hrel : c.relaxed = r.relaxed := h.relaxed
  refine ⟨r', c', exec_cons _ b hs _ r r' herr hall, ?_, hkept, herr, ?_⟩
  · intro xs
    rw [← hcs, ← hrel] at hall' herr ⊢
    exact exec_cons _ b xs _ c c' herr hall'
  · refine ⟨h'.relaxed, ?_, h'.error, h'.data, ?_, ?_, ?_, h'.query⟩
    · simp only [advance, h'.cs, h'.relaxed]
    · intro hm
      exact ⟨(h'.mark hm).1, Nat.le_succ_of_le (h'.mark hm).2⟩
    · intro hf
      exact ⟨(h'.field hf).1, Nat.le_succ_of_le (h'.field hf).2⟩
    · intro hl
      exact ⟨(h'.len hl).1, Nat.le_succ_of_le (h'.len hl).2⟩

/-- Parsing the bytes `xs` in a piece, with more of the block to come: they are
    parsed, and the whole block goes on with `hs`. -/
theorem exec_agree_more (pre xs v hs ws : List UInt8) (k : Known) (r rf c : HttpRequestParser)
    (hb : (pre ++ (v ++ (xs ++ hs))).length < 2 ^ 64) (hhs : hs ≠ []) (hxs : xs ≠ [])
    (h : Agree pre.length v.length k r c)
    (hk : clean k (trace r.relaxed r.cs (xs ++ hs)).flatten = true)
    (hr : exec (pre ++ (v ++ (xs ++ hs))) (xs ++ hs) (pre.length + v.length) r =
      .ok (pre ++ (v ++ (xs ++ hs))).length rf) :
    ∃ r' c' k', (∀ ys, exec (v ++ (xs ++ ws)) (xs ++ ys) v.length c =
        exec (v ++ (xs ++ ws)) ys (v.length + xs.length) c') ∧
      exec (pre ++ (v ++ (xs ++ hs))) hs (pre.length + (v.length + xs.length)) r' =
        .ok (pre ++ (v ++ (xs ++ hs))).length rf ∧
      Agree pre.length (v.length + xs.length) k' r' c' ∧ r'.relaxed = r.relaxed ∧
      clean k' (trace r.relaxed r'.cs hs).flatten = true ∧
      trace r.relaxed r'.cs hs = (trace r.relaxed r.cs (xs ++ hs)).drop xs.length ∧
      r'.cs.error = false ∧ r'.cs.finished r.relaxed = false := by
  induction xs generalizing v k r c with
  | nil => exact absurd rfl hxs
  | cons b xs ih =>
      have hlen : pre.length + v.length + 1 < (pre ++ (v ++ (b :: xs ++ hs))).length := by
        have hpos := List.length_pos_of_ne_nil hhs
        simp only [List.length_append, List.length_cons]
        omega
      simp only [List.cons_append, trace, List.flatten_cons] at hk
      rw [clean_append, Bool.and_eq_true] at hk
      rcases hk with ⟨hk₁, hk₂⟩
      rcases byte_agree pre v (xs ++ hs) (xs ++ ws) b k r rf c _ hb (by omega) h hk₁ hr with
        ⟨r₁, c₁, hr₁, hc₁, hkept, herr, h₁⟩
      have hcs₁ : (r₁.advance b).cs = r.cs.step r.relaxed b := by
        rw [advance, hkept.cs, hkept.relaxed]
      have hrel₁ : (r₁.advance b).relaxed = r.relaxed := hkept.relaxed
      -- The whole block ends later, so this byte does not complete the request.
      have hmore : Action.done ∉ r.cs.actions r.relaxed b := by
        intro hdone
        rw [List.cons_append, hr₁, if_pos hdone, Outcome.ok.injEq] at hr
        exact absurd hr.1 (Nat.ne_of_lt hlen)
      have hunfinished : (r.cs.step r.relaxed b).finished r.relaxed = false := by
        rw [Bool.eq_false_iff]
        intro hfin
        exact hmore ((done_iff_finished _ _ _).2 hfin)
      rw [List.cons_append, hr₁, if_neg hmore] at hr
      cases xs with
      | nil =>
          refine ⟨r₁.advance b, c₁.advance b, _, ?_, hr, h₁, hrel₁, ?_, ?_, ?_, ?_⟩
          · intro ys
            rw [List.cons_append, List.cons_append, hc₁ ([] ++ ys), if_neg hmore]
            rfl
          · rw [hcs₁]
            exact hk₂
          · simp only [List.nil_append, List.cons_append, trace, List.length_cons,
              List.length_nil, List.drop_succ_cons, List.drop_zero, hcs₁]
          · rw [hcs₁]
            exact herr
          · rw [hcs₁]
            exact hunfinished
      | cons b' xs =>
          -- The piece so far is one byte longer.
          have hpos : v.length + 1 = (v ++ [b]).length := by
            rw [List.length_append, List.length_singleton]
          have hwhole : pre ++ (v ++ (b :: b' :: xs ++ hs)) =
              pre ++ ((v ++ [b]) ++ (b' :: xs ++ hs)) := by
            simp only [List.append_assoc, List.cons_append, List.nil_append]
          have hpiece : v ++ (b :: b' :: xs ++ ws) = (v ++ [b]) ++ (b' :: xs ++ ws) := by
            simp only [List.append_assoc, List.cons_append, List.nil_append]
          rw [hpos] at h₁
          rcases ih (v ++ [b]) _ (r₁.advance b) (c₁.advance b) (by rw [← hwhole]; exact hb)
            (List.cons_ne_nil _ _) h₁ (by rw [hcs₁, hrel₁]; exact hk₂)
            (by
              rw [← hpos, ← hwhole, ← Nat.add_assoc]
              exact hr) with ⟨r', c', k', hc', hr', h', hrel', hk', htrace', herr', hfin'⟩
          rw [← hpos] at hc' hr' h'
          rw [hrel₁] at hrel' hk' htrace' hfin'
          have hend : v.length + (b :: b' :: xs).length = v.length + 1 + (b' :: xs).length := by
            simp only [List.length_cons]
            omega
          rw [hend]
          refine ⟨r', c', k', ?_, ?_, h', hrel', hk', ?_, herr', hfin'⟩
          · intro ys
            have hc₂ := hc₁ (b' :: xs ++ ys)
            rw [if_neg hmore] at hc₂
            rw [hpiece]
            refine Eq.trans ?_ (hc' ys)
            rw [← hpiece]
            exact hc₂
          · rw [hwhole]
            exact hr'
          · rw [htrace', hcs₁]
            rfl

/-- The last byte of the block in a piece: parsing stops behind it. -/
theorem exec_agree_byte (pre v ws : List UInt8) (b : UInt8) (k : Known)
    (r rf c : HttpRequestParser) (hb : (pre ++ (v ++ [b])).length < 2 ^ 64)
    (h : Agree pre.length v.length k r c) (hk : clean k (r.cs.actions r.relaxed b) = true)
    (hr : exec (pre ++ (v ++ [b])) [b] (pre.length + v.length) r =
      .ok (pre ++ (v ++ [b])).length rf)
    (hfin : rf.isFinished = true) :
    ∃ c' k', (∀ ys, exec (v ++ (b :: ws)) (b :: ys) v.length c = .ok (v.length + 1) c') ∧
      Agree pre.length (v.length + 1) k' rf c' := by
  have hlen : pre.length + v.length < (pre ++ (v ++ [b])).length := by
    simp only [List.length_append, List.length_singleton]
    omega
  rcases byte_agree pre v [] ws b k r rf c _ hb hlen h hk hr with
    ⟨r₁, c₁, hr₁, hc₁, hkept, -, h₁⟩
  -- The run ended in a final state, so the byte executed `done`.
  have hdone : Action.done ∈ r.cs.actions r.relaxed b := by
    by_contra hmore
    rw [hr₁, if_neg hmore, exec, pure_apply, Outcome.ok.injEq] at hr
    refine hmore ((done_iff_finished _ _ _).2 ?_)
    rw [← hr.2, isFinished, advance, hkept.cs, hkept.relaxed] at hfin
    exact hfin
  rw [hr₁, if_pos hdone, Outcome.ok.injEq] at hr
  rw [hr.2] at h₁
  refine ⟨c₁.advance b, _, ?_, h₁⟩
  intro ys
  rw [hc₁ ys, if_pos hdone]

/-- Parsing the last bytes of the block in a piece: parsing stops behind them. -/
theorem exec_agree_last (pre xs v ws : List UInt8) (k : Known) (r rf c : HttpRequestParser)
    (hb : (pre ++ (v ++ xs)).length < 2 ^ 64) (hxs : xs ≠ [])
    (h : Agree pre.length v.length k r c)
    (hk : clean k (trace r.relaxed r.cs xs).flatten = true)
    (hr : exec (pre ++ (v ++ xs)) xs (pre.length + v.length) r =
      .ok (pre ++ (v ++ xs)).length rf)
    (hfin : rf.isFinished = true) :
    ∃ c' k', (∀ ys, exec (v ++ (xs ++ ws)) (xs ++ ys) v.length c =
        .ok (v.length + xs.length) c') ∧
      Agree pre.length (v.length + xs.length) k' rf c' := by
  rcases List.eq_nil_or_concat xs with rfl | ⟨ini, b, rfl⟩
  · exact absurd rfl hxs
  · rw [List.concat_eq_append] at hb hk hr ⊢
    by_cases hini : ini = []
    · subst hini
      simp only [List.nil_append, trace, List.flatten_cons, List.flatten_nil,
        List.append_nil] at hk
      exact exec_agree_byte pre v ws b k r rf c hb h hk hr hfin
    · -- The bytes in front of the last one, and then that one.
      rcases exec_agree_more pre ini v [b] (b :: ws) k r rf c hb (List.cons_ne_nil _ _) hini h hk
        hr with ⟨r₁, c₁, k₁, hc₁, hr₁, h₁, hrel₁, hk₁, -, -, -⟩
      simp only [trace, List.flatten_cons, List.flatten_nil, List.append_nil] at hk₁
      rw [← hrel₁] at hk₁
      rw [← List.length_append] at hr₁ h₁
      rw [← List.append_assoc v] at hb hr₁
      rcases exec_agree_byte pre (v ++ ini) ws b k₁ r₁ rf c₁ hb h₁ hk₁ hr₁ hfin with
        ⟨c', k', hc', h'⟩
      have hend : v.length + (ini ++ [b]).length = (v ++ ini).length + 1 := by
        simp only [List.length_append, List.length_singleton]
        omega
      rw [hend]
      refine ⟨c', k', ?_, h'⟩
      intro ys
      have hpiece : v ++ (ini ++ [b] ++ ws) = v ++ (ini ++ b :: ws) := by
        simp only [List.append_assoc, List.cons_append, List.nil_append]
      rw [hpiece, List.append_assoc ini, List.singleton_append, hc₁ (b :: ys),
        ← List.length_append, ← List.append_assoc v]
      exact hc' ys

end HttpRequestParser

end YkServer
