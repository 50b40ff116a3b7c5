import YkServer.Core.WSServer
import YkServer.Lib.Parts

/-!
# WebSocket Sessions

What the callbacks of a servlet see of a session.

Whatever they do, and whatever comes in, `onConnect` is the first of them. If it returns zero,
messages follow up to the first for which `handle` does not return zero, and `onClose` is the
last, so it is called if and only if `onConnect` has returned zero. An exception of a callback is
the only way around that: nothing is called any more, and not even `close()`. So `onClose` is not
called then, unless it is the callback that has thrown.

## Main definitions

* `WSServlet.recorded`: A servlet with a record of its calls.
* `Lifecycle`, `Unfinished`: What the record looks like.

## Theorems

* `messages_recorded`: The loop over the messages.
* `serve_recorded`: What is behind the handshake.
* `handleClient_lifecycle`: Every run with any servlets.
-/

namespace YkServer

open Lib

/-! ## Records -/

/-- A call of a callback, and what it returned; `none` if it threw. -/
inductive WSEvent where
  | connect (header : HttpRequest) (rt : Option Int)
  | message (header : HttpRequest) (msg : WSFrameMessage) (rt : Option Int)
  | close (header : HttpRequest) (rt : Option Int)
  deriving DecidableEq, Repr

/-- A callback with a record of its calls. -/
def logged {τ : Type} (event : Option Int → WSEvent) (m : Prog Exn (Socket × τ) Int) :
    Prog Exn (Socket × (τ × List WSEvent)) Int := fun st =>
  match m (st.1, st.2.1) with
  | .ok rt (s, t) => .ok rt (s, (t, st.2.2 ++ [event (some rt)]))
  | .throw e (s, t) => .throw e (s, (t, st.2.2 ++ [event none]))
  | .fault => .fault
  | .hang => .hang

/-- A servlet with a record of its calls. -/
def WSServlet.recorded {τ : Type} (servlet : WSServlet τ) : WSServlet (τ × List WSEvent) where
  onConnect header := logged (.connect header) (servlet.onConnect header)
  handle header msg := logged (.message header msg) (servlet.handle header msg)
  onClose header := logged (.close header) (servlet.onClose header)

/-- A lookup of servlets with records. -/
def recordedLookup {τ : Type} (getWSServlet : List UInt8 → τ → Option (WSServlet τ) × τ)
    (uri : List UInt8) (t : τ × List WSEvent) :
    Option (WSServlet (τ × List WSEvent)) × (τ × List WSEvent) :=
  ((getWSServlet uri t.1).1.map WSServlet.recorded, ((getWSServlet uri t.1).2, t.2))

/-- Messages for which `handle` has returned zero. -/
def handledAll (header : HttpRequest) (ms : List WSFrameMessage) : List WSEvent :=
  ms.map (fun m => .message header m (some 0))

/-- The record of a session that has ended. -/
inductive Lifecycle (header : HttpRequest) : List WSEvent → Prop where
  | refused (rt : Int) : rt ≠ 0 → Lifecycle header [.connect header (some rt)]
  | closed (ms : List WSFrameMessage) (rt : Int) :
      Lifecycle header (.connect header (some 0) ::
        (handledAll header ms ++ [.close header (some rt)]))
  | stopped (ms : List WSFrameMessage) (last : WSFrameMessage) (v rt : Int) : v ≠ 0 →
      Lifecycle header (.connect header (some 0) ::
        (handledAll header ms ++ [.message header last (some v), .close header (some rt)]))

/-- The record of a session that was left with an exception: of the call before it, or of
    reading where the last call has returned. -/
inductive Unfinished (header : HttpRequest) : List WSEvent → Prop where
  | handshake : Unfinished header []
  | connecting : Unfinished header [.connect header none]
  | reading (ms : List WSFrameMessage) :
      Unfinished header (.connect header (some 0) :: handledAll header ms)
  | handling (ms : List WSFrameMessage) (last : WSFrameMessage) :
      Unfinished header (.connect header (some 0) ::
        (handledAll header ms ++ [.message header last none]))
  | closing (ms : List WSFrameMessage) :
      Unfinished header (.connect header (some 0) ::
        (handledAll header ms ++ [.close header none]))
  | stopping (ms : List WSFrameMessage) (last : WSFrameMessage) (v : Int) : v ≠ 0 →
      Unfinished header (.connect header (some 0) ::
        (handledAll header ms ++ [.message header last (some v), .close header none]))

theorem yields_logged {τ : Type} (event : Option Int → WSEvent) (m : Prog Exn (Socket × τ) Int)
    (s : Socket) (t : τ) (es : List WSEvent) :
    (logged event m (s, (t, es))).Yields (fun rt st => st.2.2 = es ++ [event (some rt)])
      (fun st => st.2.2 = es ++ [event none]) := by
  rw [logged]
  cases m (s, t) with
  | ok rt st => exact rfl
  | throw e st => exact rfl
  | fault => trivial
  | hang => trivial

namespace WSServer

variable {τ : Type} (maxSize : UInt32)

/-- The loop over the messages. -/
theorem messages_recorded (servlet : WSServlet τ) (header : HttpRequest) (fuel : Nat) (s : Socket)
    (t : τ) (es : List WSEvent) :
    (messages maxSize servlet.recorded header fuel (s, (t, es))).Yields
      (fun _ st => (∃ ms, st.2.2 = es ++ handledAll header ms) ∨
        ∃ ms last v, v ≠ 0 ∧
          st.2.2 = es ++ (handledAll header ms ++ [.message header last (some v)]))
      (fun st => (∃ ms, st.2.2 = es ++ handledAll header ms) ∨
        ∃ ms last, st.2.2 = es ++ (handledAll header ms ++ [.message header last none])) := by
  induction fuel generalizing s t es with
  | zero => trivial
  | succ fuel ih =>
      have hnone : es = es ++ handledAll header [] := (List.append_nil es).symm
      rw [messages]
      refine yields_bind _ _ _ (yields_mono _ (yields_first _ s (t, es)) (fun _ _ h => h) ?_) ?_
      · intro st hst
        refine Or.inl ⟨[], ?_⟩
        rw [hst]
        exact hnone
      · rintro res ⟨s₁, t₁⟩ ht₁
        subst ht₁
        cases res with
        | none => exact Or.inl ⟨[], hnone⟩
        | some msg =>
            refine yields_bind _ _ _ (yields_mono _ (yields_logged (.message header msg)
              (servlet.handle header msg) s₁ t es) (fun _ _ h => h) ?_) ?_
            · -- `handle` has thrown.
              intro st hst
              exact Or.inr ⟨[], msg, hst⟩
            · rintro rt ⟨s₂, ⟨t₂, es₂⟩⟩ hes₂
              simp only at hes₂
              by_cases hrt : rt = 0
              · -- The loop goes on with one message more in the record.
                rw [if_neg (not_not.2 hrt), hes₂, hrt]
                have hcons : ∀ ms, es ++ [.message header msg (some 0)] ++ handledAll header ms =
                    es ++ handledAll header (msg :: ms) := by
                  intro ms
                  rw [handledAll, handledAll, List.map_cons, List.append_assoc]
                  rfl
                refine yields_mono _ (ih s₂ t₂ (es ++ [.message header msg (some 0)])) ?_ ?_
                · rintro - st (⟨ms, hms⟩ | ⟨ms, last, v, hv, hms⟩)
                  · exact Or.inl ⟨msg :: ms, by rw [hms, hcons]⟩
                  · refine Or.inr ⟨msg :: ms, last, v, hv, ?_⟩
                    rw [hms, ← List.append_assoc, hcons, List.append_assoc]
                · rintro st (⟨ms, hms⟩ | ⟨ms, last, hms⟩)
                  · exact Or.inl ⟨msg :: ms, by rw [hms, hcons]⟩
                  · refine Or.inr ⟨msg :: ms, last, ?_⟩
                    rw [hms, ← List.append_assoc, hcons, List.append_assoc]
              · rw [if_pos hrt]
                exact Or.inr ⟨[], msg, rt, hrt, hes₂⟩

/-- What happens behind the handshake. -/
theorem serve_recorded (getWSServlet : List UInt8 → τ → Option (WSServlet τ) × τ) (fuel : Nat)
    (header : HttpRequest) (s : Socket) (t : τ) :
    (serve maxSize (recordedLookup getWSServlet) fuel header (s, (t, []))).Yields
      (fun _ st => st.2.2 = [] ∨ Lifecycle header st.2.2)
      (fun st => Unfinished header st.2.2) := by
  rw [serve, bind_ok _ _ _ _ _ (get_apply _)]
  simp only []
  rw [bind_ok _ _ _ _ _ (modify_apply _ _)]
  cases hslt : (getWSServlet header.path t).1 with
  | none =>
      simp only [recordedLookup, hslt, Option.map_none]
      exact Or.inl rfl
  | some servlet =>
      simp only [recordedLookup, hslt, Option.map_some]
      refine yields_bind _ _ _ (yields_mono _ (yields_logged (.connect header)
        (servlet.onConnect header) s _ []) (fun _ _ h => h) ?_) ?_
      · intro st hst
        rw [hst]
        exact .connecting
      · rintro rt ⟨s₁, ⟨t₁, es₁⟩⟩ hes₁
        simp only [List.nil_append] at hes₁
        by_cases hrt : rt = 0
        · rw [if_neg (not_not.2 hrt), hes₁, hrt]
          refine yields_bind _ _ _ (yields_mono _ (messages_recorded maxSize servlet header fuel s₁
            t₁ [.connect header (some 0)]) (fun _ _ h => h) ?_) ?_
          · rintro st (⟨ms, hms⟩ | ⟨ms, last, hms⟩)
            · rw [hms]
              exact .reading ms
            · rw [hms]
              exact .handling ms last
          · rintro - ⟨s₂, ⟨t₂, es₂⟩⟩ hes₂
            refine yields_bind _ _ _ (yields_mono _ (yields_logged (.close header)
              (servlet.onClose header) s₂ t₂ es₂) (fun _ _ h => h) ?_) ?_
            · -- `onClose` itself has thrown.
              intro st hst
              rw [hst]
              rcases hes₂ with ⟨ms, rfl⟩ | ⟨ms, last, v, hv, rfl⟩
              · exact .closing ms
              · simp only [List.append_assoc, List.cons_append, List.nil_append]
                exact .stopping ms last v hv
            · rintro v' ⟨s₃, ⟨t₃, es₃⟩⟩ hes₃
              simp only at hes₃
              right
              simp only [hes₃]
              rcases hes₂ with ⟨ms, rfl⟩ | ⟨ms, last, v, hv, rfl⟩
              · exact .closed ms v'
              · simp only [List.append_assoc, List.cons_append, List.nil_append]
                exact .stopped ms last v v' hv
        · rw [if_pos hrt]
          right
          rw [hes₁]
          exact .refused rt hrt

/-- Every run of `handleClient`, with any servlets and whatever comes in: if it returns, the socket
    is closed and the record of the callbacks is that of a session that has ended, or empty; if
    an exception leaves it, the last call is the one that has thrown, or none of them has, and
    `onClose` has not been called unless the exception is its own. -/
theorem handleClient_lifecycle (sha1sum : List UInt8 → List UInt8)
    (intCast : List UInt8 → Option Int) (lexicalCast : List UInt8 → Option UInt64) (buffSize : Nat)
    (m : HttpSession.Memory) (getWSServlet : List UInt8 → τ → Option (WSServlet τ) × τ)
    (fuel : Nat) (s : Socket) (t : τ) :
    (handleClient maxSize sha1sum intCast lexicalCast buffSize m (recordedLookup getWSServlet) fuel
      (s, (t, []))).Yields
      (fun _ st => st.1.connected = false ∧
        (st.2.2 = [] ∨ ∃ header, Lifecycle header st.2.2))
      (fun st => ∃ header, Unfinished header st.2.2) := by
  have hclose : ∀ (s' : Socket) (t' : τ × List WSEvent) (Q : Socket × τ × List WSEvent → Prop),
      (t'.2 = [] ∨ ∃ header, Lifecycle header t'.2) →
      ((Prog.first HttpSession.close : Prog Exn (Socket × (τ × List WSEvent)) Unit)
        (s', t')).Yields
        (fun _ st => st.1.connected = false ∧ (st.2.2 = [] ∨ ∃ header, Lifecycle header st.2.2))
        Q := fun _ _ _ h => ⟨rfl, h⟩
  rw [handleClient]
  refine yields_bind _ _ _ (yields_mono _ (yields_first _ s (t, [])) (fun _ _ h => h) ?_) ?_
  · intro st hst
    rw [hst]
    exact ⟨HttpRequest.new, .handshake⟩
  · rintro res ⟨s₁, t₁⟩ ht₁
    subst ht₁
    cases res with
    | none => exact hclose s₁ _ _ (Or.inl rfl)
    | some header =>
        refine yields_bind _ _ _ (yields_mono _ (serve_recorded maxSize getWSServlet fuel header s₁
          t) (fun _ _ h => h) (fun st hst => ⟨header, hst⟩)) ?_
        rintro - ⟨s₂, t₂⟩ ht₂
        refine hclose s₂ t₂ _ ?_
        rcases ht₂ with h | h
        · exact Or.inl h
        · exact Or.inr ⟨header, h⟩

end WSServer

end YkServer
