import YkServer.Core.RockTransfer
import YkServer.Theory.Stream.Transfer

/-!
# Rock Messages without Interruption

`serializeTo` and `parseFrom` are functions in `Core.Rock` and threads in `Core.RockTransfer`. A
thread that nobody interrupts does what the function does: where the function returns, the thread
comes to the same result, with the same socket behind it.

On a socket that was closed a thread does not come to anything. The `-1` of a call is a word close
to `2 ^ 64`, so there is more left than before, and that goes on until `left` has come around.
Only the header of a message counts as sent then.

## Main definitions

* `Stream.Rounds`: How the rounds of a loop end.
* `Rock.Sends`, `Rock.Parses`: What the calls of a thread come to.

## Theorems

* `rounds_fixLoop`, `rounds_writeLoop`: A loop is its rounds.
* `serializeTo_rounds`, `parseFrom_rounds`: The functions are their calls.
* `loops_hang`: The loops on a socket that was closed.
-/

namespace YkServer

open Lib

/-! ## Loops -/

namespace Stream

variable {ε σ : Type}

/-- How the rounds of a loop end. -/
inductive Rounds (round : Nat → Nat → Prog ε σ (Int ⊕ Nat × Nat)) :
    Nat → Nat → σ → Outcome ε σ Int → Prop where
  | last (offset left : Nat) (s s' : σ) (rt : Int) : round offset left s = .ok (.inl rt) s' →
      Rounds round offset left s (.ok rt s')
  | throw (offset left : Nat) (s s' : σ) (e : ε) : round offset left s = .throw e s' →
      Rounds round offset left s (.throw e s')
  | next (offset left offset' left' : Nat) (s s' : σ) (o : Outcome ε σ Int) :
      round offset left s = .ok (.inr (offset', left')) s' → Rounds round offset' left' s' o →
      Rounds round offset left s o

/-- A loop that returns or throws does so as its rounds do. -/
theorem rounds_fixLoop (call : Nat → Nat → Prog ε σ Int) (length fuel offset left : Nat) (s : σ)
    (hleft : left ≠ 0) (h : (fixLoop call length fuel offset left s).Safe (fun _ => True)) :
    Rounds (fixRound call length) offset left s (fixLoop call length fuel offset left s) := by
  induction fuel generalizing offset left s with
  | zero => exact h.elim
  | succ fuel ih =>
      rw [fixLoop, if_neg hleft] at h ⊢
      rcases hcall : call offset left s with ⟨r, s₁⟩ | ⟨e, s₁⟩ | _ | _
      · have hround : fixRound call length offset left s = _ := bind_ok _ _ _ _ _ hcall
        rw [bind_ok _ _ _ _ _ hcall] at h ⊢
        by_cases hzero : wordOfInt r = 0
        · simp only [hzero, if_true] at hround ⊢
          exact .last _ _ _ _ _ hround
        · simp only [hzero, if_false] at h hround ⊢
          by_cases hsub : subWord left (wordOfInt r) = 0
          · -- The loop finds that nothing is left in a round of its own.
            rw [hsub] at h ⊢
            rw [if_pos hsub] at hround
            cases fuel with
            | zero => exact h.elim
            | succ fuel =>
                rw [fixLoop, if_pos rfl]
                exact .last _ _ _ _ _ hround
          · rw [if_neg hsub] at hround
            exact .next _ _ _ _ _ _ _ hround (ih _ _ _ hsub h)
      · rw [bind_throw _ _ _ _ _ hcall]
        exact .throw _ _ _ _ _ (bind_throw _ _ _ _ _ hcall)
      · rw [bind_fault _ _ _ hcall] at h
        exact h.elim
      · rw [bind_hang _ _ _ hcall] at h
        exact h.elim

/-- The same of the other loop. -/
theorem rounds_writeLoop (write : Nat → Nat → Prog ε σ Int) (length fuel offset left : Nat)
    (s : σ) (hleft : left ≠ 0)
    (h : (writeLoop write length fuel offset left s).Safe (fun _ => True)) :
    Rounds (writeRound write length) offset left s (writeLoop write length fuel offset left s) := by
  induction fuel generalizing offset left s with
  | zero => exact h.elim
  | succ fuel ih =>
      rw [writeLoop, if_neg hleft] at h ⊢
      rcases hcall : write offset left s with ⟨r, s₁⟩ | ⟨e, s₁⟩ | _ | _
      · have hround : writeRound write length offset left s = _ := bind_ok _ _ _ _ _ hcall
        rw [bind_ok _ _ _ _ _ hcall] at h ⊢
        by_cases hzero : wordOfInt r = 0
        · simp only [hzero, if_true] at hround ⊢
          exact .last _ _ _ _ _ hround
        · simp only [hzero, if_false] at h hround ⊢
          by_cases hall : left ≤ wordOfInt r
          · rw [if_pos hall] at h hround ⊢
            cases fuel with
            | zero => exact h.elim
            | succ fuel =>
                rw [writeLoop, if_pos rfl]
                exact .last _ _ _ _ _ hround
          · rw [if_neg hall] at h hround ⊢
            refine .next _ _ _ _ _ _ _ hround (ih _ _ _ ?_ h)
            rw [subWord, if_pos (by omega)]
            omega
      · rw [bind_throw _ _ _ _ _ hcall]
        exact .throw _ _ _ _ _ (bind_throw _ _ _ _ _ hcall)
      · rw [bind_fault _ _ _ hcall] at h
        exact h.elim
      · rw [bind_hang _ _ _ hcall] at h
        exact h.elim

/-- A call that does not look at the offset makes the same round at any. -/
theorem fixRound_offset (call : Nat → Prog ε σ Int) (length offset left : Nat) (s : σ) :
    (∀ rt s', fixRound (fun _ left => call left) length offset left s = .ok (.inl rt) s' →
      fixRound (fun _ left => call left) length 0 left s = .ok (.inl rt) s') ∧
    (∀ e s', fixRound (fun _ left => call left) length offset left s = .throw e s' →
      fixRound (fun _ left => call left) length 0 left s = .throw e s') ∧
    ∀ offset' left' s',
      fixRound (fun _ left => call left) length offset left s = .ok (.inr (offset', left')) s' →
      ∃ o, fixRound (fun _ left => call left) length 0 left s = .ok (.inr (o, left')) s' := by
  rw [fixRound, fixRound]
  rcases hcall : call left s with ⟨r, s₁⟩ | ⟨e, s₁⟩ | _ | _
  · rw [bind_ok _ _ _ _ _ hcall, bind_ok _ _ _ _ _ hcall]
    by_cases hzero : wordOfInt r = 0
    · simp only [hzero, if_true]
      exact ⟨fun _ _ h => h, fun _ _ h => h, fun _ _ _ h => by cases h⟩
    · simp only [hzero, if_false]
      by_cases hsub : subWord left (wordOfInt r) = 0
      · simp only [hsub, if_true]
        exact ⟨fun _ _ h => h, fun _ _ h => h, fun _ _ _ h => by cases h⟩
      · simp only [hsub, if_false]
        refine ⟨fun _ _ h => (by cases h), fun _ _ h => (by cases h), fun _ _ _ h => ?_⟩
        cases h
        exact ⟨_, rfl⟩
  · rw [bind_throw _ _ _ _ _ hcall, bind_throw _ _ _ _ _ hcall]
    exact ⟨fun _ _ h => (by cases h), fun _ _ h => h, fun _ _ _ h => by cases h⟩
  · rw [bind_fault _ _ _ hcall, bind_fault _ _ _ hcall]
    exact ⟨fun _ _ h => (by cases h), fun _ _ h => (by cases h), fun _ _ _ h => by cases h⟩
  · rw [bind_hang _ _ _ hcall, bind_hang _ _ _ hcall]
    exact ⟨fun _ _ h => (by cases h), fun _ _ h => (by cases h), fun _ _ _ h => by cases h⟩

end Stream

namespace Rock

/-! ## Sending -/

/-- What the calls of a writer come to. -/
inductive Sends : Writer → Socket → Int → Socket → Prop where
  | last (w : Writer) (s s' : Socket) (rt : Int) : sendRound w s = some (s', .inl rt) →
      Sends w s rt s'
  | next (w w' : Writer) (s s₁ s' : Socket) (rt : Int) : sendRound w s = some (s₁, .inr w') →
      Sends w' s₁ rt s' → Sends w s rt s'

/-- The bytes of a message. -/
theorem sends_body (msg : RockMessage) (length offset left : Nat) (st : Socket × ByteArray)
    (o : Outcome Exn (Socket × ByteArray) Int)
    (h : Stream.Rounds (Stream.fixRound (fun _ left => SocketStream.writeBytes left) length)
      offset left st o) (rt : Int) (st' : Socket × ByteArray) (ho : o = .ok rt st') :
    Sends (.body msg st.2 length left) st.1
      (if rt ≤ 0 then -4 else intOfWord (headerSize + st'.2.size)) st'.1 := by
  induction h with
  | last offset left s s' r hround =>
      cases ho
      refine .last _ _ _ _ ?_
      rw [sendRound, (Stream.fixRound_offset _ _ _ _ _).1 _ _ hround]
  | throw => cases ho
  | next offset left offset' left' s s₁ o hround _ ih =>
      rcases (Stream.fixRound_offset _ _ _ _ _).2.2 _ _ _ hround with ⟨i, hround'⟩
      refine .next _ _ _ _ _ _ ?_ (ih ho)
      rw [sendRound, hround']

/-- The header of a message, and what comes behind it. -/
theorem sends_header (msg : RockMessage) (ba : ByteArray) (offset left : Nat) (s s' : Socket)
    (o : Outcome Exn Socket Int)
    (h : Stream.Rounds (Stream.writeRound (SocketStream.write (header ba.size)) headerSize)
      offset left s o) (head rt : Int) (s₁ : Socket) (ho : o = .ok head s₁)
    (hend : if head ≤ 0 then rt = -3 ∧ s' = s₁ else if ba.getReadSize = 0 then rt = -4 ∧ s' = s₁
      else Sends (.body msg ba ba.getReadSize ba.getReadSize) s₁ rt s') :
    Sends (.header msg ba offset left) s rt s' := by
  induction h with
  | last offset left s s₂ r hround =>
      cases ho
      by_cases hhead : head ≤ 0
      · rw [if_pos hhead] at hend
        refine .last _ _ _ _ ?_
        rw [sendRound, hround]
        simp only [hhead, if_true, hend]
      · rw [if_neg hhead] at hend
        by_cases hread : ba.getReadSize = 0
        · rw [if_pos hread] at hend
          refine .last _ _ _ _ ?_
          rw [sendRound, hround]
          simp only [hhead, hread, if_true, if_false, hend]
        · rw [if_neg hread] at hend
          refine .next _ _ _ _ _ _ ?_ hend
          rw [sendRound, hround]
          simp only [hhead, hread, if_false]
  | throw => cases ho
  | next offset left offset' left' s s₂ o hround _ ih =>
      refine .next _ _ _ _ _ _ ?_ (ih ho)
      rw [sendRound, hround]

/-- Where `serializeTo` returns, its calls come to the same. -/
theorem serializeTo_rounds (heap : Nat → UInt8) (msg : RockMessage) (s s' : Socket) (rt : Int)
    (h : serializeTo heap msg s = .ok rt s') :
    ∃ w, sendBegin heap msg = some w ∧ Sends w s rt s' := by
  rcases bind_eq_ok _ _ _ _ _ h with ⟨⟨rt₁, ba'⟩, s₁, hwithin, hpure⟩
  cases hpure
  rcases bind_eq_ok _ _ _ _ _ (within_eq_ok _ _ _ _ _ hwithin) with ⟨u, ⟨s₂, ba⟩, hsecond, hrest⟩
  rcases second_eq_ok _ _ _ _ hsecond with ⟨hser, hs₂⟩
  simp only at hser hs₂
  cases hs₂
  rw [bind_ok _ _ _ _ _ (get_apply _)] at hrest
  rcases bind_eq_ok _ _ _ _ _ hrest with ⟨head, ⟨s₃, ba₃⟩, hfirst, hbody⟩
  rcases first_eq_ok _ _ _ _ hfirst with ⟨hhead, hba₃⟩
  simp only at hhead hba₃
  cases hba₃
  refine ⟨.header msg ba 0 headerSize, by rw [sendBegin, hser], ?_⟩
  refine sends_header msg ba 0 headerSize s s' _ (Stream.rounds_writeLoop _ _ _ _ _ s (by decide)
    (by rw [← Stream.writeFixSize, hhead]; trivial)) head rt s₃ hhead ?_
  by_cases hneg : head ≤ 0
  · rw [if_pos hneg] at hbody ⊢
    cases hbody
    exact ⟨rfl, rfl⟩
  · rw [if_neg hneg] at hbody ⊢
    rcases bind_eq_ok _ _ _ _ _ hbody with ⟨r, ⟨s₄, ba₄⟩, hwrite, hlast⟩
    by_cases hread : ba.getReadSize = 0
    · -- There is nothing to send, and 0 is returned for that.
      rw [if_pos hread]
      rw [hread] at hwrite
      cases hwrite
      cases hlast
      exact ⟨rfl, rfl⟩
    · rw [if_neg hread]
      have hsends := sends_body msg ba.getReadSize 0 ba.getReadSize (s₃, ba) _
        (Stream.rounds_fixLoop _ _ _ _ _ _ hread
          (by rw [← Stream.writeFixSizeBytes, hwrite]; trivial)) r (s₄, ba₄) hwrite
      by_cases hr : r ≤ 0
      · rw [if_pos hr] at hlast hsends
        cases hlast
        exact hsends
      · rw [if_neg hr] at hlast hsends
        rw [bind_ok _ _ _ _ _ (get_apply _)] at hlast
        simp only [pure_apply, Outcome.ok.injEq, Prod.mk.injEq] at hlast
        rcases hlast with ⟨rfl, rfl, -⟩
        exact hsends

/-! ## Receiving -/

/-- What the calls of a reader come to. -/
inductive Parses (maxLength : UInt32) (heap : Nat → UInt8) :
    Reader → Socket → Option RockMessage → Socket → Prop where
  | done (msg : Option RockMessage) (s : Socket) : Parses maxLength heap (.parsed msg) s msg s
  | next (r r' : Reader) (s s₁ s' : Socket) (msg : Option RockMessage) :
      recvRound maxLength heap r s = some (s₁, r') → Parses maxLength heap r' s₁ msg s' →
      Parses maxLength heap r s msg s'

variable (maxLength : UInt32) (heap : Nat → UInt8)

/-- What is caught of an outcome: the message, or none if it is an exception. -/
def Caught {σ : Type} (o : Outcome Exn σ (Option RockMessage)) (msg : Option RockMessage)
    (s : σ) : Prop :=
  o = .ok msg s ∨ msg = none ∧ ∃ e, o = .throw e s

theorem caught_bind {σ α : Type} (m : Prog Exn σ α) (f : α → Prog Exn σ (Option RockMessage))
    (s s' : σ) (msg : Option RockMessage) (h : Caught ((m >>= f) s) msg s') :
    (∃ a s₁, m s = .ok a s₁ ∧ Caught (f a s₁) msg s') ∨ msg = none ∧ ∃ e, m s = .throw e s' := by
  rcases hm : m s with ⟨a, s₁⟩ | ⟨e, s₁⟩ | _ | _
  · rw [bind_ok _ _ _ _ _ hm] at h
    exact Or.inl ⟨a, s₁, rfl, h⟩
  · rw [bind_throw _ _ _ _ _ hm] at h
    rcases h with hno | ⟨hmsg, e', he⟩
    · cases hno
    · cases he
      exact Or.inr ⟨hmsg, e, rfl⟩
  · rw [bind_fault _ _ _ hm] at h
    rcases h with hno | ⟨-, _, hno⟩ <;> cases hno
  · rw [bind_hang _ _ _ hm] at h
    rcases h with hno | ⟨-, _, hno⟩ <;> cases hno

/-- The bytes of a message. -/
theorem parses_body (length offset left : Nat) (st : Socket × ByteArray)
    (o : Outcome Exn (Socket × ByteArray) Int)
    (h : Stream.Rounds (Stream.fixRound (fun _ left => SocketStream.readBytes left) length)
      offset left st o) (msg : Option RockMessage) (st' : Socket × ByteArray)
    (hend : (∃ rt st₁, o = .ok rt st₁ ∧
        Caught ((if rt ≤ 0 then pure none else Prog.second parseMessage) st₁) msg st') ∨
      msg = none ∧ ∃ e, o = .throw e st') :
    Parses maxLength heap (.body st.2 length left) st.1 msg st'.1 := by
  induction h with
  | last offset left st st₁ rt hround =>
      refine .next _ _ _ _ _ _ ?_ (.done _ _)
      rcases hend with ⟨rt', st₂, ho, hcaught⟩ | ⟨-, e, hno⟩
      · cases ho
        rw [recvRound, (Stream.fixRound_offset _ _ _ _ _).1 _ _ hround]
        by_cases hrt : rt ≤ 0
        · rw [if_pos hrt] at hcaught
          rcases hcaught with hpure | ⟨-, e, hno⟩
          · cases hpure
            simp only [hrt, if_true]
          · cases hno
        · rw [if_neg hrt] at hcaught
          simp only [hrt, if_false]
          rcases hparse : parseMessage st₁.2 with ⟨m, ba⟩ | ⟨e, ba⟩ | _ | _ <;>
            simp only [Caught, Prog.second, hparse, reduceCtorEq, Outcome.ok.injEq, exists_false,
              and_false, or_false, false_or] at hcaught
          · rw [attempt_ok _ _ _ _ hparse, ← hcaught.1, ← hcaught.2]
          · rcases hcaught with ⟨hmsg, e', he⟩
            cases he
            simp only [Prog.attempt, hparse, hmsg]
      · cases hno
  | throw offset left st st₁ e hround =>
      refine .next _ _ _ _ _ _ ?_ (.done _ _)
      rcases hend with ⟨rt, st₂, hno, -⟩ | ⟨hmsg, e', he⟩
      · cases hno
      · cases he
        rw [recvRound, (Stream.fixRound_offset _ _ _ _ _).2.1 _ _ hround, hmsg]
  | next offset left offset' left' st st₁ o hround _ ih =>
      rcases (Stream.fixRound_offset _ _ _ _ _).2.2 _ _ _ hround with ⟨i, hround'⟩
      refine .next _ _ _ _ _ _ ?_ (ih hend)
      rw [recvRound, hround']

/-- What comes behind the header of a message: nothing that is read, or its bytes. -/
theorem parses_rest (h : List UInt8) (s s' : Socket) (msg : Option RockMessage)
    (hcaught : Caught (parseHeader maxLength heap h s) msg s') :
    ((bodyLength maxLength h = none ∨ bodyLength maxLength h = some 0) ∧ msg = none ∧ s' = s) ∨
      ∃ length, bodyLength maxLength h = some length ∧ length ≠ 0 ∧
        Parses maxLength heap (.body (ByteArray.new baseSize heap) length length) s msg s' := by
  rw [parseHeader] at hcaught
  cases hlength : bodyLength maxLength h with
  | none =>
      rw [hlength] at hcaught
      rcases hcaught with hpure | ⟨-, e, hno⟩
      · cases hpure
        exact Or.inl ⟨Or.inl rfl, rfl, rfl⟩
      · cases hno
  | some length =>
      rw [hlength] at hcaught
      -- The byte array is a local variable.
      have hbody : ∃ ba, Caught (parseBody length (s, ByteArray.new baseSize heap)) msg
          (s', ba) := by
        rcases caught_bind _ _ _ _ _ hcaught with
          ⟨⟨m, ba⟩, s₁, hwithin, hpure⟩ | ⟨hmsg, e, hwithin⟩
        · rcases hpure with hpure | ⟨-, e, hno⟩
          · cases hpure
            exact ⟨ba, Or.inl (within_eq_ok _ _ _ _ _ hwithin)⟩
          · cases hno
        · rcases within_eq_throw _ _ _ _ _ hwithin with ⟨ba, hthrow⟩
          exact ⟨ba, Or.inr ⟨hmsg, e, hthrow⟩⟩
      rcases hbody with ⟨ba, hbody⟩
      have hloop := caught_bind _ _ _ _ _ hbody
      by_cases hzero : length = 0
      · -- `readFixSize` of nothing returns 0.
        rw [hzero] at hloop
        rcases hloop with ⟨rt, st, hread, hrest⟩ | ⟨-, e, hno⟩
        · cases hread
          rcases hrest with hpure | ⟨-, e, hno⟩
          · cases hpure
            exact Or.inl ⟨Or.inr (by rw [hzero]), rfl, rfl⟩
          · cases hno
        · cases hno
      · refine Or.inr ⟨length, rfl, hzero, ?_⟩
        refine parses_body maxLength heap length 0 length (s, ByteArray.new baseSize heap) _
          (Stream.rounds_fixLoop _ _ _ _ _ _ hzero ?_) msg (s', ba) hloop
        rcases hloop with ⟨rt, st, hread, -⟩ | ⟨-, e, hread⟩ <;>
          rw [← Stream.readFixSizeBytes, hread] <;> trivial

/-- The header of a message, and what comes behind it. -/
theorem parses_header (offset left : Nat) (st : Socket × List UInt8)
    (o : Outcome Exn (Socket × List UInt8) Int)
    (h : Stream.Rounds (Stream.fixRound SocketStream.read headerSize) offset left st o)
    (msg : Option RockMessage) (s' : Socket)
    (hend : (∃ rt st₁, o = .ok rt st₁ ∧
        Caught ((if rt ≤ 0 then pure none else parseHeader maxLength heap st₁.2) st₁.1) msg s') ∨
      msg = none ∧ ∃ e h', o = .throw e (s', h')) :
    Parses maxLength heap (.header st.2 offset left) st.1 msg s' := by
  induction h with
  | last offset left st st₁ rt hround =>
      rcases hend with ⟨rt', st₂, ho, hcaught⟩ | ⟨-, e, h', hno⟩
      · cases ho
        by_cases hrt : rt ≤ 0
        · rw [if_pos hrt] at hcaught
          rcases hcaught with hpure | ⟨-, e, hno⟩
          · cases hpure
            refine .next _ _ _ _ _ _ ?_ (.done _ _)
            rw [recvRound, hround]
            simp only [hrt, if_true]
          · cases hno
        · rw [if_neg hrt] at hcaught
          rcases parses_rest maxLength heap st₁.2 st₁.1 s' msg hcaught with
            ⟨hlength | hlength, hmsg, hs'⟩ | ⟨length, hlength, hzero, hparses⟩
          · refine .next _ _ _ _ _ _ ?_ (.done _ _)
            rw [recvRound, hround]
            simp only [hrt, if_false, hlength, hmsg, hs']
          · refine .next _ _ _ _ _ _ ?_ (.done _ _)
            rw [recvRound, hround]
            simp only [hrt, if_true, if_false, hlength, hmsg, hs']
          · refine .next _ _ _ _ _ _ ?_ hparses
            rw [recvRound, hround]
            simp only [hrt, if_false, hlength, hzero]
      · cases hno
  | throw offset left st st₁ e hround =>
      refine .next _ _ _ _ _ _ ?_ (.done _ _)
      rcases hend with ⟨rt, st₂, hno, -⟩ | ⟨hmsg, e', h', he⟩
      · cases hno
      · cases he
        rw [recvRound, hround, hmsg]
  | next offset left offset' left' st st₁ o hround _ ih =>
      refine .next _ _ _ _ _ _ ?_ (ih hend)
      rw [recvRound, hround]

/-- Where `parseFrom` returns, its calls come to the same. -/
theorem parseFrom_rounds (s s' : Socket) (msg : Option RockMessage)
    (h : parseFrom maxLength heap s = .ok msg s') : Parses maxLength heap .new s msg s' := by
  have hcaught : Caught (parseFrame maxLength heap s) msg s' := by
    rcases bind_eq_ok _ _ _ _ _ h with ⟨x, s₁, hattempt, hpure⟩
    rcases hframe : parseFrame maxLength heap s with ⟨m, s₂⟩ | ⟨e, s₂⟩ | _ | _ <;>
      simp only [Prog.attempt, hframe] at hattempt <;> cases hattempt
    · cases hpure
      exact Or.inl rfl
    · cases hpure
      exact Or.inr ⟨rfl, e, rfl⟩
  have hloop : (∃ rt st₁, Stream.readFixSize SocketStream.read (headerSize + 1) headerSize
        (s, header 0) = .ok rt st₁ ∧
        Caught ((if rt ≤ 0 then pure none else parseHeader maxLength heap st₁.2) st₁.1) msg s') ∨
      msg = none ∧ ∃ e h', Stream.readFixSize SocketStream.read (headerSize + 1) headerSize
        (s, header 0) = .throw e (s', h') := by
    rcases caught_bind _ _ _ _ _ hcaught with ⟨⟨rt, h'⟩, s₁, hwithin, hrest⟩ | ⟨hmsg, e, hwithin⟩
    · exact Or.inl ⟨rt, (s₁, h'), within_eq_ok _ _ _ _ _ hwithin, hrest⟩
    · rcases within_eq_throw _ _ _ _ _ hwithin with ⟨h', hthrow⟩
      exact Or.inr ⟨hmsg, e, h', hthrow⟩
  refine parses_header maxLength heap 0 headerSize (s, header 0) _
    (Stream.rounds_fixLoop _ _ _ _ _ _ (by decide) ?_) msg s' hloop
  rcases hloop with ⟨rt, st, hread, -⟩ | ⟨-, e, h', hread⟩ <;>
    rw [← Stream.readFixSize, hread] <;> trivial

end Rock

/-! ## A socket that was closed -/

namespace Stream

/-- A call that fails all the time. What is left grows by one in every round. -/
theorem fixLoop_failing {ε σ : Type} (call : Nat → Nat → Prog ε σ Int) (length : Nat) (s : σ)
    (h : ∀ offset left, call offset left s = .ok (-1) s) (fuel offset left : Nat) (hpos : 0 < left)
    (hleft : left + fuel < 2 ^ 64) : fixLoop call length fuel offset left s = .hang := by
  induction fuel generalizing offset left with
  | zero => rfl
  | succ fuel ih =>
      have hword : wordOfInt (-1) = 2 ^ 64 - 1 := by decide
      have hnext : subWord left (2 ^ 64 - 1) = left + 1 := by
        rw [subWord, if_neg (by omega)]
        omega
      rw [fixLoop, if_neg (by omega), bind_ok _ _ _ _ _ (h offset left)]
      simp only [hword]
      rw [if_neg (by decide), hnext]
      exact ih _ _ (Nat.succ_pos left) (by omega)

end Stream

namespace Rock

/-- On a socket that was closed the loops of a reader, and that of a writer for the bytes of a
    message, do not come to an end, wherever they are. The loop for a header returns as if all of
    it had been sent. -/
theorem loops_hang (s : Socket) (h : s.connected = false) (ba : ByteArray) (header : List UInt8)
    (length fuel offset left : Nat) (hpos : 0 < left) (hleft : left + fuel < 2 ^ 64) :
    Stream.fixLoop SocketStream.read length fuel offset left (s, header) = .hang ∧
      Stream.fixLoop (fun _ left => SocketStream.readBytes left) length fuel offset left (s, ba) =
        .hang ∧
      Stream.fixLoop (fun _ left => SocketStream.writeBytes left) length fuel offset left
        (s, ba) = .hang ∧
      Stream.writeRound (SocketStream.write header) length offset left s =
        .ok (.inl (intOfWord length)) s := by
  have hconn : ¬s.connected = true := by rw [h]; exact Bool.false_ne_true
  refine ⟨?_, ?_, ?_, ?_⟩
  · refine Stream.fixLoop_failing _ _ _ (fun offset left => ?_) fuel offset left hpos hleft
    have hrecv : Socket.recv left s = .ok (-1, []) s := by rw [Socket.recv, if_neg hconn]
    rw [SocketStream.read, bind_ok _ _ _ _ _ (first_ok _ s s header _ hrecv)]
    rfl
  · refine Stream.fixLoop_failing _ _ _ (fun _ left => ?_) fuel offset left hpos hleft
    rw [SocketStream.readBytes, bind_ok _ _ _ _ _ (get_apply _)]
    simp only [h, Bool.false_eq_true, not_false_eq_true, if_true]
    rfl
  · refine Stream.fixLoop_failing _ _ _ (fun _ left => ?_) fuel offset left hpos hleft
    rw [SocketStream.writeBytes, bind_ok _ _ _ _ _ (get_apply _)]
    simp only [h, Bool.false_eq_true, not_false_eq_true, if_true]
    rfl
  · have hword : wordOfInt (-1) = 2 ^ 64 - 1 := by decide
    have hwrite : SocketStream.write header offset left s = .ok (-1) s := by
      rw [SocketStream.write, if_neg hconn]
    rw [Stream.writeRound, bind_ok _ _ _ _ _ hwrite]
    simp only [hword]
    rw [if_neg (by decide), if_pos (by omega)]
    rfl

end Rock

end YkServer
