import YkServer.Core.WebSocket

/-!
# Sending a Message Again

What a write does is up to the stream a message is sent over. The world of `Resend` is
one message that is sent again and again. Each call brings its stream along, as
functions on whatever the streams share, together with the side, the final bit and the
value of `rand()`. What a call hands to its stream, in the writes that succeed, and
whether it closes the stream is kept for the last call.

## Main definitions

* `Sent`: What a call handed to its stream.
* `Call`, `Resend`: One call, and a message among them.
* `Resend.step`: Carry out a call.
-/

namespace YkServer

open Lib

namespace WebSocket

/-- What a call handed to its stream in the writes that succeeded, and whether it closed
    it. -/
structure Sent where
  bytes : List UInt8
  closed : Bool
  deriving DecidableEq, Repr

/-- A call of `WSSendMessage`, with its stream. -/
structure Call (σ : Type) where
  writeFixSize : List UInt8 → σ → Int × σ
  close : σ → σ
  client : Bool
  fin : Bool
  randValue : UInt32

namespace Call

variable {σ : Type}

/-- The stream's `writeFixSize`, with a record. -/
def recorded (c : Call σ) (bytes : List UInt8) : Prog Exn (σ × Sent) Int := fun st =>
  let rt := (c.writeFixSize bytes st.1).1
  .ok rt ((c.writeFixSize bytes st.1).2,
    if 0 < rt then { st.2 with bytes := st.2.bytes ++ bytes } else st.2)

/-- The stream's `close`, with a record. -/
def recordedClose (c : Call σ) : Prog Exn (σ × Sent) Unit := fun st =>
  .ok () (c.close st.1, { st.2 with closed := true })

/-- The call. -/
def send (c : Call σ) : Prog Exn ((σ × Sent) × WSFrameMessage) Int :=
  AnyStream.WSSendMessage c.recorded c.recordedClose c.client c.fin c.randValue

end Call

/-- A message that is sent again and again, over streams that share a state. -/
structure Resend (σ : Type) where
  streams : σ
  sent : Sent
  msg : WSFrameMessage

/-- Carry out a call. -/
def Resend.step {σ : Type} (c : Call σ) (w : Resend σ) : Option (Resend σ) :=
  match c.send ((w.streams, ⟨[], false⟩), w.msg) with
  | .ok _ ((s, sent), msg) => some ⟨s, sent, msg⟩
  | _ => none

end WebSocket

end YkServer
