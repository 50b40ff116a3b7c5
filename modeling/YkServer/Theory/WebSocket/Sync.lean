import YkServer.Theory.WebSocket.Fragments
import Mathlib.Logic.Relation

/-!
# Frame Synchronisation

Where the heads of frames are read, on a connection that receives any frames and is
read by one call of `WSRecvMessage` after another. A frame that is not a data frame is
taken for its head alone, so the next head is read at its true start exactly if
nothing stands behind the head: no mask, as clients have to send one, and no payload.
Otherwise the mask and the payload are read as the frames that follow.

A data frame that is refused ends the connection, and no head is read behind it. The
frames up to there are those a receiver meets, and with the heads of these it is in
step. It takes the whole sequence if it also refuses none.

## Main definitions

* `Round`: From one head to the next, in a call or in the next call.
* `HeadAt`: The states in which a head is read.
* `met`: The frames up to the first one that is refused.
* `InStep`: Each head is read at the start of a frame.
* `Taken`: No frame is refused.

## Theorems

* `round_control`, `round_accepted`, `round_refused`: One round.
* `heads_in_step`, `heads_out_of_step`: All rounds.
* `frames_in_step`: Every sequence of frames.
* `masked_ping_misread`: A ping as clients have to send it.
-/

namespace YkServer

open Lib

namespace WebSocket

/-- One round of the loop that reads another head afterwards, in the same call or, if it
    returned a message, in the next one. -/
def Round (maxSize : UInt32) (client : Bool) (a b : Socket × Locals) : Prop :=
  recvFrame maxSize client a.2 a.1 = .ok (.again b.2) b.1 ∨
    (∃ m, recvFrame maxSize client a.2 a.1 = .ok (.done m) b.1) ∧ b.2 = ⟨0, [], 0⟩

/-- The states in which a head is read, from a stream on. -/
def HeadAt (maxSize : UInt32) (client : Bool) (s₀ s : Socket) (l : Locals) : Prop :=
  Relation.ReflTransGen (Round maxSize client) (s₀, ⟨0, [], 0⟩) (s, l)

theorem accepted_iff (maxSize : UInt32) (client : Bool) (total : Nat) (f : Frame) :
    ((client = true ∨ f.key ≠ none) ∧ f.payload ≠ [] ∧ total < 2 ^ 31 ∧
      f.payload.length < 2 ^ 31 ∧ total + f.payload.length < maxSize.toNat ∧
      (f.key ≠ none → total + f.payload.length ≤ 2 ^ 31)) ↔ Accepted maxSize client total f := by
  constructor
  · rintro ⟨hmasked, hne, hbefore, hlength, hlimit, hindex⟩
    exact ⟨hmasked, hne, hbefore, hlength, hlimit, hindex⟩
  · intro h
    exact ⟨h.masked, h.nonempty, h.before, h.length, h.limit, h.index⟩

instance (maxSize : UInt32) (client : Bool) (total : Nat) (f : Frame) :
    Decidable (Accepted maxSize client total f) :=
  decidable_of_iff _ (accepted_iff maxSize client total f)

/-- The bytes of the message so far when a frame has been taken. -/
def nextTotal (total : Nat) (f : Frame) : Nat :=
  if f.Data then if f.fin then 0 else total + f.payload.length else total

/-- The frames up to the first data frame that is refused. -/
def met (maxSize : UInt32) (client : Bool) : Nat → List Frame → List Frame
  | _, [] => []
  | total, f :: fs =>
    if f.Data ∧ ¬Accepted maxSize client total f then [f]
    else f :: met maxSize client (nextTotal total f) fs

/-- Every data frame is accepted. -/
def Taken (maxSize : UInt32) (client : Bool) : Nat → List Frame → Prop
  | _, [] => True
  | total, f :: fs => (f.Data → Accepted maxSize client total f) ∧
      Taken maxSize client (nextTotal total f) fs

/-- Each head is read at the start of one of the frames or behind the last, and each frame
    behind which another head is read has been consumed whole. -/
structure InStep (maxSize : UInt32) (client : Bool) (frames : List Frame) (s₀ : Socket) :
    Prop where
  starts : ∀ s l, HeadAt maxSize client s₀ s l → ∃ post, post <:+ frames ∧ s.inbox = wire post
  whole : ∀ s l s' l' f post, HeadAt maxSize client s₀ s l → f :: post <:+ frames →
    s.inbox = wire (f :: post) → Round maxSize client (s, l) (s', l') → s'.inbox = wire post

/-- The end of the frames is reached. -/
def Finished (maxSize : UInt32) (client : Bool) (s₀ : Socket) : Prop :=
  ∃ s l, HeadAt maxSize client s₀ s l ∧ s.inbox = []

/-! ## One round -/

/-- A head is read at the start of some frames, with the size of the data in `cur_len`. -/
structure Positioned (s : Socket) (l : Locals) (frames : List Frame) : Prop where
  connected : s.connected = true
  inbox : s.inbox = wire frames
  size : l.curLen = intOfWord l.data.length
  bounded : l.data.length < 2 ^ 32

theorem Positioned.opened {s : Socket} {l : Locals} {frames : List Frame}
    (h : Positioned s l frames) : s.Open (wire frames) s.outbox :=
  ⟨h.connected, h.inbox, rfl⟩

/-- A round is what the body of the loop does. -/
theorem round_again (maxSize : UInt32) (client : Bool) (s s' : Socket) (l l' : Locals)
    (h : recvFrame maxSize client l s = .ok (.again l') s') (b : Socket × Locals) :
    Round maxSize client (s, l) b ↔ b = (s', l') := by
  unfold Round
  rw [h]
  constructor
  · rintro (hagain | ⟨⟨m, hdone⟩, -⟩)
    · cases hagain
      rfl
    · cases hdone
  · rintro rfl
    exact Or.inl rfl

theorem round_done (maxSize : UInt32) (client : Bool) (s s' : Socket) (l : Locals)
    (m : WSFrameMessage) (h : recvFrame maxSize client l s = .ok (.done m) s')
    (b : Socket × Locals) :
    Round maxSize client (s, l) b ↔ b = (s', ⟨0, [], 0⟩) := by
  unfold Round
  rw [h]
  constructor
  · rintro (hagain | ⟨⟨m, hdone⟩, hfresh⟩)
    · cases hagain
    · cases hdone
      exact Prod.ext rfl hfresh
  · rintro rfl
    exact Or.inr ⟨⟨m, rfl⟩, rfl⟩

theorem round_none (maxSize : UInt32) (client : Bool) (s : Socket) (l : Locals)
    (h : recvFrame maxSize client l s = .fault ∨
      ∃ s', recvFrame maxSize client l s = .ok .stop s') (b : Socket × Locals) :
    ¬Round maxSize client (s, l) b := by
  unfold Round
  rcases h with hfault | ⟨s', hstop⟩
  · rw [hfault]
    rintro (hagain | ⟨⟨m, hdone⟩, -⟩)
    · cases hagain
    · cases hdone
  · rw [hstop]
    rintro (hagain | ⟨⟨m, hdone⟩, -⟩)
    · cases hagain
    · cases hdone

/-- A frame that is not a data frame: only the head is consumed. -/
theorem round_control (maxSize : UInt32) (client : Bool) (s : Socket) (l : Locals) (f : Frame)
    (fs : List Frame) (h : Positioned s l (f :: fs)) (hf : ¬f.Data) :
    ∃ s', (∀ b, Round maxSize client (s, l) b ↔ b = (s', l)) ∧ s'.connected = true ∧
      s'.inbox = f.body ++ wire fs := by
  rcases recvFrame_control maxSize client l f s (wire fs) s.outbox hf h.opened with
    ⟨s', hrun, hopen⟩
  exact ⟨s', round_again maxSize client s s' l l hrun, hopen.connected, hopen.inbox⟩

theorem round_refused (maxSize : UInt32) (client : Bool) (s : Socket) (l : Locals) (f : Frame)
    (fs : List Frame) (h : Positioned s l (f :: fs)) (hf : f.Data)
    (hno : ¬Accepted maxSize client l.data.length f) (b : Socket × Locals) :
    ¬Round maxSize client (s, l) b :=
  round_none maxSize client s l (recvFrame_refused maxSize client l f s (wire fs) s.outbox h.size
    h.bounded hf hno h.opened) b

/-- An accepted frame is consumed whole. -/
theorem round_accepted (maxSize : UInt32) (client : Bool) (s : Socket) (l : Locals) (f : Frame)
    (fs : List Frame) (h : Positioned s l (f :: fs)) (hf : f.Data)
    (hacc : Accepted maxSize client l.data.length f) :
    ∃ s' l', (∀ b, Round maxSize client (s, l) b ↔ b = (s', l')) ∧ Positioned s' l' fs ∧
      l'.data.length = nextTotal l.data.length f := by
  have hmax := maxSize.toNat_lt
  have hlimit := hacc.limit
  rcases recvFrame_accepted maxSize client l f s (wire fs) s.outbox h.size hf hacc h.opened with
    ⟨s', hrun, hopen⟩
  -- The last frame of a message ends the call; the next one starts with no data.
  rcases hfin : f.fin with _ | _
  · rw [advance, if_neg (by rw [hfin]; exact Bool.false_ne_true)] at hrun
    refine ⟨s', _, round_again maxSize client s s' l _ hrun,
      ⟨hopen.connected, hopen.inbox, rfl, ?_⟩, ?_⟩
    · rw [List.length_append]
      omega
    · rw [nextTotal, if_pos hf, if_neg (by rw [hfin]; exact Bool.false_ne_true),
        List.length_append]
  · rw [advance, if_pos hfin] at hrun
    refine ⟨s', _, round_done maxSize client s s' l _ hrun,
      ⟨hopen.connected, hopen.inbox, rfl, by decide⟩, ?_⟩
    rw [nextTotal, if_pos hf, if_pos hfin]
    rfl

/-- A frame that is neither refused nor carries more than its head without being a data frame
    is consumed whole. -/
theorem round_whole (maxSize : UInt32) (client : Bool) (s : Socket) (l : Locals) (f : Frame)
    (fs : List Frame) (h : Positioned s l (f :: fs))
    (hacc : f.Data → Accepted maxSize client l.data.length f) (hbare : ¬f.Data → f.Bare) :
    ∃ s' l', (∀ b, Round maxSize client (s, l) b ↔ b = (s', l')) ∧ Positioned s' l' fs ∧
      l'.data.length = nextTotal l.data.length f := by
  by_cases hf : f.Data
  · exact round_accepted maxSize client s l f fs h hf (hacc hf)
  · rcases round_control maxSize client s l f fs h hf with ⟨s', hround, hconn, hin⟩
    rcases hbare hf with ⟨hkey, hpay⟩
    have hbody : f.body = [] := by
      rw [Frame.body, hkey, hpay]
      rfl
    rw [hbody, List.nil_append] at hin
    exact ⟨s', l, hround, ⟨hconn, hin, h.size, h.bounded⟩, by rw [nextTotal, if_neg hf]⟩

/-- No round starts at the end of the stream. -/
theorem round_end (maxSize : UInt32) (client : Bool) (s : Socket) (l : Locals)
    (h : Positioned s l []) (b : Socket × Locals) : ¬Round maxSize client (s, l) b := by
  rcases recvHead_total s h.connected with ⟨r, s', hhead, -, hcons⟩
  have hempty : s.inbox = [] := h.inbox
  cases r with
  | none =>
      refine round_none maxSize client s l (Or.inr ⟨s', ?_⟩) b
      rw [recvFrame, bind_ok _ _ _ _ _ hhead]
      rfl
  | some head =>
      -- There are no two bytes to be had.
      have htwo := (hcons (by simp)).inbox
      rw [hempty, List.length_nil] at htwo
      omega

/-! ## All rounds -/

/-- What is met of some frames after one that is not refused. -/
theorem met_cons (maxSize : UInt32) (client : Bool) (total : Nat) (f : Frame) (fs : List Frame)
    (h : f.Data → Accepted maxSize client total f) :
    met maxSize client total (f :: fs) = f :: met maxSize client (nextTotal total f) fs := by
  rw [met, if_neg (fun hno => hno.2 (h hno.1))]

/-- The first frame is always met. -/
theorem head_mem_met (maxSize : UInt32) (client : Bool) (total : Nat) (f : Frame)
    (fs : List Frame) : f ∈ met maxSize client total (f :: fs) := by
  rw [met]
  split
  · exact List.mem_singleton_self f
  · exact List.mem_cons_self

theorem mem_of_met (maxSize : UInt32) (client : Bool) (total : Nat) (frames : List Frame)
    (g : Frame) (h : g ∈ met maxSize client total frames) : g ∈ frames := by
  induction frames generalizing total with
  | nil => exact h
  | cons f fs ih =>
      rw [met] at h
      split at h
      · rw [List.mem_singleton] at h
        exact h ▸ List.mem_cons_self
      · rcases List.mem_cons.1 h with rfl | htail
        · exact List.mem_cons_self
        · exact List.mem_cons_of_mem _ (ih _ htail)

/-- What is asked of the frames that are met. -/
def MetBare (maxSize : UInt32) (client : Bool) (total : Nat) (frames : List Frame) : Prop :=
  ∀ f ∈ met maxSize client total frames, ¬f.Data → f.Bare

/-- A round from the start of a frame leads to the start of the next. -/
theorem round_in_step (maxSize : UInt32) (client : Bool) (s : Socket) (l : Locals) (f : Frame)
    (fs : List Frame) (h : Positioned s l (f :: fs))
    (hbare : MetBare maxSize client l.data.length (f :: fs)) (b : Socket × Locals)
    (hround : Round maxSize client (s, l) b) :
    Positioned b.1 b.2 fs ∧ MetBare maxSize client b.2.data.length fs := by
  -- There was a round, so the frame was not refused.
  have hacc : f.Data → Accepted maxSize client l.data.length f := by
    intro hf
    by_contra hno
    exact round_refused maxSize client s l f fs h hf hno b hround
  rcases round_whole maxSize client s l f fs h hacc
    (hbare f (head_mem_met maxSize client _ f fs)) with ⟨s', l', hall, hpos, htotal⟩
  rw [hall] at hround
  rw [hround]
  refine ⟨hpos, ?_⟩
  intro g hg
  rw [htotal] at hg
  exact hbare g (by rw [met_cons _ _ _ _ _ hacc]; exact List.mem_cons_of_mem _ hg)

/-- Every head is read at the start of a frame, if the frames that are met allow it. -/
theorem heads_in_step (maxSize : UInt32) (client : Bool) (s : Socket) (l : Locals)
    (frames : List Frame) (h : Positioned s l frames)
    (hbare : MetBare maxSize client l.data.length frames) (b : Socket × Locals)
    (hreach : Relation.ReflTransGen (Round maxSize client) (s, l) b) :
    ∃ post, post <:+ frames ∧ Positioned b.1 b.2 post ∧
      MetBare maxSize client b.2.data.length post := by
  -- The induction is on the rounds: each leads from one place between frames to the next.
  induction hreach with
  | refl => exact ⟨frames, List.suffix_rfl, h, hbare⟩
  | tail _ hround ih =>
      rcases ih with ⟨post, hsuffix, hpos, hmet⟩
      cases post with
      | nil => exact absurd hround (round_end maxSize client _ _ hpos _)
      | cons f post =>
          rcases round_in_step maxSize client _ _ f post hpos hmet _ hround with ⟨hpos', hmet'⟩
          exact ⟨post, (List.suffix_cons f post).trans hsuffix, hpos', hmet'⟩

theorem length_wire_cons (f : Frame) (fs : List Frame) :
    (wire (f :: fs)).length = 2 + f.body.length + (wire fs).length := by
  rw [wire_cons, List.length_append, Frame.bytes, List.length_append, length_bytesOfHead]

theorem length_wire_suffix (post frames : List Frame) (h : post <:+ frames) :
    (wire post).length ≤ (wire frames).length := by
  rcases h with ⟨front, rfl⟩
  rw [wire, wire, List.flatMap_append, List.length_append]
  omega

/-- Something stands behind the head of a frame that is not bare. -/
theorem body_pos (f : Frame) (h : ¬f.Bare) : 0 < f.body.length := by
  rw [Frame.body, List.length_append, List.length_append, length_maskedWith]
  rcases hkey : f.key with _ | k
  · have hpay : f.payload ≠ [] := fun hnil => h ⟨hkey, hnil⟩
    have hpos := List.length_pos_of_ne_nil hpay
    omega
  · have hfour := f.key_length k hkey
    rw [Option.getD_some]
    omega

/-- If a frame that is met carries more than its head and is not a data frame, some head is
    read inside it. -/
theorem heads_out_of_step (maxSize : UInt32) (client : Bool) (frames : List Frame) (s : Socket)
    (l : Locals) (h : Positioned s l frames)
    (hbad : ∃ f ∈ met maxSize client l.data.length frames, ¬f.Data ∧ ¬f.Bare) :
    ∃ b, Relation.ReflTransGen (Round maxSize client) (s, l) b ∧
      b.1.inbox.length < (wire frames).length ∧
      ∀ post, post <:+ frames → b.1.inbox ≠ wire post := by
  induction frames generalizing s l with
  | nil =>
      rcases hbad with ⟨f, hf, -⟩
      exact absurd hf List.not_mem_nil
  | cons f fs ih =>
      have hlen := length_wire_cons f fs
      by_cases hf : ¬f.Data ∧ ¬f.Bare
      · -- The next head is read right behind the head of this frame.
        rcases round_control maxSize client s l f fs h hf.1 with ⟨s', hall, -, hin⟩
        have hpos := body_pos f hf.2
        have hin' : s'.inbox.length = f.body.length + (wire fs).length := by
          rw [hin, List.length_append]
        refine ⟨(s', l), .single ((hall _).2 rfl), by simp only []; omega, ?_⟩
        -- No place between frames has as many bytes behind it: one has more, the others less.
        intro post hpost heq
        have hsame : s'.inbox.length = (wire post).length := congrArg List.length heq
        rcases List.suffix_cons_iff.1 hpost with rfl | hpost
        · omega
        · have hle := length_wire_suffix post fs hpost
          omega
      · -- The frame in question comes later, and this one is consumed whole.
        rcases hbad with ⟨g, hg, hgbad⟩
        have hne : g ≠ f := fun heq => hf (heq ▸ hgbad)
        have hacc : f.Data → Accepted maxSize client l.data.length f := by
          intro hdata
          by_contra hno
          rw [met, if_pos ⟨hdata, hno⟩, List.mem_singleton] at hg
          exact hne hg
        have hbare : ¬f.Data → f.Bare := by
          intro hdata
          by_contra hno
          exact hf ⟨hdata, hno⟩
        rcases round_whole maxSize client s l f fs h hacc hbare with
          ⟨s', l', hall, hpos, htotal⟩
        rw [met_cons _ _ _ _ _ hacc, ← htotal] at hg
        rcases ih s' l' hpos ⟨g, (List.mem_cons.1 hg).resolve_left hne, hgbad⟩ with
          ⟨b, hreach, hless, hapart⟩
        refine ⟨b, .head ((hall _).2 rfl) hreach, by omega, ?_⟩
        intro post hpost heq
        rcases List.suffix_cons_iff.1 hpost with rfl | hpost
        · have hsame := congrArg List.length heq
          omega
        · exact hapart post hpost heq

/-- The end of the frames is only reached if no frame is refused. -/
theorem taken_of_finished (maxSize : UInt32) (client : Bool) (frames : List Frame) (s : Socket)
    (l : Locals) (h : Positioned s l frames)
    (hbare : MetBare maxSize client l.data.length frames) (b : Socket × Locals)
    (hreach : Relation.ReflTransGen (Round maxSize client) (s, l) b) (hend : b.1.inbox = []) :
    Taken maxSize client l.data.length frames ∧ ∀ f ∈ frames, ¬f.Data → f.Bare := by
  induction frames generalizing s l with
  | nil => exact ⟨trivial, fun f hf => absurd hf List.not_mem_nil⟩
  | cons f fs ih =>
      rcases hreach.cases_head with rfl | ⟨c, hround, hrest⟩
      · -- There is still a frame here.
        have hlen := length_wire_cons f fs
        rw [← h.inbox, hend, List.length_nil] at hlen
        omega
      · have hacc : f.Data → Accepted maxSize client l.data.length f := by
          intro hf
          by_contra hno
          exact round_refused maxSize client s l f fs h hf hno c hround
        have hhead := hbare f (head_mem_met maxSize client _ f fs)
        rcases round_whole maxSize client s l f fs h hacc hhead with ⟨s', l', hall, -, htotal⟩
        rcases round_in_step maxSize client s l f fs h hbare c hround with ⟨hpos', hmet'⟩
        rw [hall] at hround
        subst hround
        rcases ih s' l' hpos' hmet' hrest with ⟨htaken, hbares⟩
        rw [htotal] at htaken
        refine ⟨⟨hacc, htaken⟩, ?_⟩
        intro g hg
        rcases List.mem_cons.1 hg with rfl | htail
        · exact hhead
        · exact hbares g htail

theorem finished_of_taken (maxSize : UInt32) (client : Bool) (frames : List Frame) (s : Socket)
    (l : Locals) (h : Positioned s l frames)
    (htaken : Taken maxSize client l.data.length frames)
    (hbare : ∀ f ∈ frames, ¬f.Data → f.Bare) :
    ∃ b, Relation.ReflTransGen (Round maxSize client) (s, l) b ∧ b.1.inbox = [] := by
  induction frames generalizing s l with
  | nil => exact ⟨(s, l), .refl, h.inbox⟩
  | cons f fs ih =>
      rcases round_whole maxSize client s l f fs h htaken.1 (hbare f List.mem_cons_self) with
        ⟨s', l', hall, hpos, htotal⟩
      rcases ih s' l' hpos (by rw [htotal]; exact htaken.2)
        (fun g hg => hbare g (List.mem_cons_of_mem _ hg)) with ⟨b, hreach, hend⟩
      exact ⟨b, .head ((hall _).2 rfl) hreach, hend⟩

/-- Every frame has bytes. -/
theorem eq_nil_of_wire_append (front post : List Frame) (h : wire post = wire (front ++ post)) :
    front = [] := by
  have hfront := length_wire front
  have hlen := congrArg List.length h
  rw [wire, wire, List.flatMap_append, List.length_append] at hlen
  unfold wire at hfront
  exact List.eq_nil_of_length_eq_zero (by omega)

/-- Two places among the frames with the same bytes behind them are one. -/
theorem suffix_unique (frames a b : List Frame) (ha : a <:+ frames) (hb : b <:+ frames)
    (h : wire a = wire b) : a = b := by
  rcases Nat.le_total a.length b.length with hle | hle
  · rcases List.suffix_of_suffix_length_le ha hb hle with ⟨front, rfl⟩
    rw [eq_nil_of_wire_append front a h, List.nil_append]
  · rcases List.suffix_of_suffix_length_le hb ha hle with ⟨front, rfl⟩
    rw [eq_nil_of_wire_append front b h.symm, List.nil_append]

/-- Whatever frames a connection receives: each head is read at its true start, and each frame
    behind which another head is read is consumed whole, exactly if every frame that is met and
    is not a data frame is a head and nothing else. All of the frames are consumed exactly if,
    besides, no data frame is refused. -/
theorem frames_in_step (maxSize : UInt32) (client : Bool) (frames : List Frame) (s₀ : Socket)
    (hconn : s₀.connected = true) (hin : s₀.inbox = wire frames) :
    (InStep maxSize client frames s₀ ↔
      ∀ f ∈ met maxSize client 0 frames, ¬f.Data → f.Bare) ∧
    (InStep maxSize client frames s₀ ∧ Finished maxSize client s₀ ↔
      (∀ f ∈ frames, ¬f.Data → f.Bare) ∧ Taken maxSize client 0 frames) := by
  have hpos : Positioned s₀ ⟨0, [], 0⟩ frames := ⟨hconn, hin, rfl, by decide⟩
  have hiff : InStep maxSize client frames s₀ ↔
      ∀ f ∈ met maxSize client 0 frames, ¬f.Data → f.Bare := by
    constructor
    · -- A head inside a frame contradicts that each is read at a start.
      intro hstep f hf hdata
      by_contra hbare
      rcases heads_out_of_step maxSize client frames s₀ _ hpos ⟨f, hf, hdata, hbare⟩ with
        ⟨b, hreach, -, hapart⟩
      rcases hstep.starts b.1 b.2 hreach with ⟨post, hpost, heq⟩
      exact hapart post hpost heq
    · intro hbare
      refine ⟨?_, ?_⟩
      · intro s l hreach
        rcases heads_in_step maxSize client s₀ _ frames hpos hbare (s, l) hreach with
          ⟨post, hpost, hpos', -⟩
        exact ⟨post, hpost, hpos'.inbox⟩
      · intro s l s' l' f post hreach hpost heq hround
        rcases heads_in_step maxSize client s₀ _ frames hpos hbare (s, l) hreach with
          ⟨post', hpost', hpos', hmet'⟩
        -- The bytes left determine the place, as no frame is empty.
        have hsame : post' = f :: post :=
          suffix_unique frames post' (f :: post) hpost' hpost (hpos'.inbox.symm.trans heq)
        rw [hsame] at hpos' hmet'
        exact (round_in_step maxSize client s l f post hpos' hmet' (s', l') hround).1.inbox
  refine ⟨hiff, ?_⟩
  constructor
  · rintro ⟨hstep, s, l, hreach, hend⟩
    rcases taken_of_finished maxSize client frames s₀ _ hpos (hiff.1 hstep) (s, l) hreach hend with
      ⟨htaken, hbare⟩
    exact ⟨hbare, htaken⟩
  · rintro ⟨hbare, htaken⟩
    rcases finished_of_taken maxSize client frames s₀ _ hpos htaken hbare with ⟨b, hreach, hend⟩
    exact ⟨hiff.2 (fun f hf => hbare f (mem_of_met maxSize client 0 frames f hf)),
      b.1, b.2, hreach, hend⟩

/-- Two fragments with a ping of this program between them. -/
theorem frames_in_step_two :
    InStep 33554432 false [firstPart, pingFrame, lastPart]
      (peer (wire [firstPart, pingFrame, lastPart])) ∧
      Finished 33554432 false (peer (wire [firstPart, pingFrame, lastPart])) := by
  refine (frames_in_step 33554432 false [firstPart, pingFrame, lastPart] _ rfl rfl).2.2 ⟨?_, ?_⟩
  · intro f hf hdata
    simp only [List.mem_cons, List.not_mem_nil, or_false] at hf
    rcases hf with rfl | rfl | rfl
    · exact absurd (Or.inr (Or.inl rfl)) hdata
    · exact ⟨rfl, rfl⟩
    · exact absurd (Or.inl rfl) hdata
  · exact ⟨fun _ => by decide, fun hdata => absurd hdata (by decide), fun _ => by decide, trivial⟩

/-- A ping as clients have to send it, with a mask and three bytes. -/
def maskedPing : Frame := messageFrame true true 0x8181 ⟨PING, [0, 0, 0x78]⟩ (by decide) (by decide)

/-- Its mask and its payload are read as a frame of their own, and returned as a message that
    nobody sent. -/
theorem masked_ping_misread :
    (∃ r', WSRecvMessage 33554432 false (peer (wire [maskedPing])) =
      .ok (some ⟨TEXT_FRAME, [0x78]⟩) r') ∧
      ¬InStep 33554432 false [maskedPing] (peer (wire [maskedPing])) := by
  refine ⟨⟨_, rfl⟩, ?_⟩
  intro hstep
  rcases heads_out_of_step 33554432 false [maskedPing] (peer (wire [maskedPing])) ⟨0, [], 0⟩
    ⟨rfl, rfl, rfl, by decide⟩ ⟨maskedPing, head_mem_met _ _ _ _ _, by decide, by decide⟩ with
    ⟨b, hreach, -, hapart⟩
  rcases hstep.starts b.1 b.2 hreach with ⟨post, hpost, heq⟩
  exact hapart post hpost heq

end WebSocket

end YkServer
