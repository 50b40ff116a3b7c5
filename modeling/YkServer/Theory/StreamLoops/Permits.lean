import YkServer.Lib.Weights
import YkServer.Theory.StreamLoops.Steps
import YkServer.Theory.Worker.Semaphore

/-!
# One Reader and One Writer

The two permits of `m_waitSem` are in its counter, with calls of `start`, or with the
loops. A call of `start` takes both of them, passes one to each loop or gives both back,
and a loop gives its permit back when it ends.

A call of `start` that has both permits has all there are, so there is no loop and no
other such call. From there on it counts as a reader and as a writer, until it has
started them.

`start` has no `try`. An exception of the connect callback leaves it with both permits,
which nobody gives back, so every later call of `start` waits for ever.

## Main definitions

* `LoopThread.startHeld`, `LoopThread.reading`, `LoopThread.writing`: Who has a permit.
* `LoopThread.readSide`, `LoopThread.writeSide`: Who is or will be a reader or a writer.
* `LoopThread.lost`: The permits that an exception takes along.
* `StreamLoops.Permits`: Where the permits are, and who waits.
* `StreamLoops.Returns`: No connect callback throws.

## Theorems

* `step_permits`: Every step keeps the permits.
* `step_lost`, `lost_iff`: When permits are lost.
* `one_reader_one_writer`: The permits and the loops, in every run.
* `permits_lost`: A connect callback that throws.
-/

namespace YkServer

open Lib

namespace LoopThread

/-- The permits of a call of `start`. -/
def startHeld : LoopThread → Nat
  | .start (.wait second) | .start (.queued second) => second.toNat
  | .start (.ifTimer false) | .start (.cancel false) | .start (.clear false) => 2
  | .start .test | .start .reconnect | .start .connectCb | .start .startRead => 2
  | .start .startWrite => 1
  | .start (.notify second) => if second then 1 else 2
  | .innerClose .start _ => 2
  | _ => 0

/-- The permits that a call of `start` had when the connect callback threw, and that nobody
    gives back. -/
def lost : LoopThread → Nat
  | .start .thrown => 2
  | _ => 0

/-- A `doRead` that is alive: it was scheduled, and has not given its permit back. -/
def reading : LoopThread → Bool
  | .read .top | .read .doRecv | .read .notify => true
  | .innerClose .doRecv _ | .innerClose .doRead _ => true
  | _ => false

/-- A `doWrite` that is alive. -/
def writing : LoopThread → Bool
  | .write .ended => false
  | .write _ => true
  | .innerClose .doWrite _ => true
  | _ => false

def held (t : LoopThread) : Nat :=
  t.startHeld + t.reading.toNat + t.writing.toNat + t.lost

/-- A call of `start` that may still start both loops. -/
def coming : LoopThread → Nat
  | .start (.ifTimer false) | .start (.cancel false) | .start (.clear false) => 1
  | .start .test | .start .reconnect | .start .connectCb | .start .startRead => 1
  | _ => 0

def readSide (t : LoopThread) : Nat := t.coming + t.reading.toNat

def writeSide : LoopThread → Nat
  | .start .startWrite => 1
  | t => t.coming + t.writing.toNat

/-- A thread in the queue of `m_waitSem`. -/
def Waits (t : LoopThread) : Prop := ∃ second, t = .start (.queued second)

/-- A thread in the queue of `m_sem`. -/
def WaitsToSend (t : LoopThread) : Prop := t = .write .queued

/-- A reader or writer to be has a permit, and no thread is two of them. -/
theorem sides_le (t : LoopThread) :
    t.readSide ≤ t.held ∧ t.readSide ≤ 1 ∧ t.writeSide ≤ t.held ∧ t.writeSide ≤ 1 := by
  have hnone : 0 ≤ t.held ∧ 0 ≤ 1 ∧ 0 ≤ t.held ∧ 0 ≤ 1 :=
    ⟨Nat.zero_le _, Nat.zero_le _, Nat.zero_le _, Nat.zero_le _⟩
  cases t with
  | start pos =>
      cases pos with
      -- Only the places that do not depend on data can be decided.
      | wait second | queued second | notify second => cases second <;> decide
      | ifTimer failed | cancel failed | clear failed => cases failed <;> decide
      | test | reconnect | connectCb | startRead | startWrite | ifAuto | addTimer | thrown => decide
      | store p => exact hnone
      | returned b => exact hnone
  | read pos => cases pos <;> decide
  | write pos =>
      cases pos with
      | doSend ctxs => exact ⟨Nat.zero_le _, Nat.zero_le _, Nat.le_refl 1, Nat.le_refl 1⟩
      | top | wait | queued | swap | clear | notify | ended => decide
  | innerClose caller pos => cases caller <;> cases pos <;> decide
  | enqueue empty => exact hnone
  | close pos => exact hnone

/-- Who is handed a permit has one more, and if it is the second it has both. -/
theorem woken_spec (t : LoopThread) (h : t.Waits) : t.woken.held = t.held + 1 ∧
    (t.woken.readSide ≤ t.readSide ∧ t.woken.writeSide ≤ t.writeSide ∨ t.woken.held = 2) := by
  rcases h with ⟨second, rfl⟩
  cases second <;> decide

end LoopThread

namespace StreamLoops

/-- Where the permits are, and who waits. -/
structure Permits (w : StreamLoops) : Prop where
  total : w.waitSem.concurrency.toNat + (w.threads.map LoopThread.held).sum = 2
  readers : (w.threads.map LoopThread.readSide).sum ≤ 1
  writers : (w.threads.map LoopThread.writeSide).sum ≤ 1
  queued : Queued LoopThread.Waits w.threads w.waitSem.waiters
  sending : Queued LoopThread.WaitsToSend w.threads w.sem.waiters

theorem permits_new (connected : Bool) (now : UInt64) : Permits (new connected now) :=
  ⟨rfl, Nat.zero_le _, Nat.zero_le _, queued_nil [], queued_nil []⟩

/-- What may become of a thread and its permits without more readers or writers. -/
def Narrows (t t' : LoopThread) : Prop :=
  t'.readSide ≤ t.readSide ∧ t'.writeSide ≤ t.writeSide ∨ t'.held = 2

instance (t t' : LoopThread) : Decidable (Narrows t t') :=
  inferInstanceAs (Decidable
    (t'.readSide ≤ t.readSide ∧ t'.writeSide ≤ t.writeSide ∨ t'.held = 2))

/-- A thread that has both permits is the only one with any. -/
theorem sum_side (f : LoopThread → Nat) (hle : ∀ t, f t ≤ t.held) (hone : ∀ t, f t ≤ 1)
    (l : List LoopThread) (i : Nat) (t t' : LoopThread) (hi : l[i]? = some t)
    (h : f t' ≤ f t ∨ t'.held = 2) (hsum : (l.map f).sum ≤ 1)
    (hheld : ((l.set i t').map LoopThread.held).sum ≤ 2) : ((l.set i t').map f).sum ≤ 1 := by
  rcases h with hless | hboth
  · -- The thread counts for less than before.
    have hset := sum_set f l i t t' hi
    omega
  · -- It has both permits, so the others have none and count for nothing.
    have hnew : (l.set i t')[i]? = some t' := (getElem?_update l i t t' hi i).trans (if_pos rfl)
    have hexcept := sum_le_except f LoopThread.held (l.set i t') i t' hnew hle
    have hsmall := hone t'
    omega

/-- The threads when one of them goes on, with no more permits than there are. -/
theorem sides_set (l : List LoopThread) (i : Nat) (t t' : LoopThread) (hi : l[i]? = some t)
    (h : Narrows t t') (hreaders : (l.map LoopThread.readSide).sum ≤ 1)
    (hwriters : (l.map LoopThread.writeSide).sum ≤ 1)
    (hheld : ((l.set i t').map LoopThread.held).sum ≤ 2) :
    ((l.set i t').map LoopThread.readSide).sum ≤ 1 ∧
      ((l.set i t').map LoopThread.writeSide).sum ≤ 1 := by
  refine ⟨?_, ?_⟩
  · exact sum_side LoopThread.readSide (fun t => t.sides_le.1) (fun t => t.sides_le.2.1) l i t t' hi
      (h.imp_left And.left) hreaders hheld
  · exact sum_side LoopThread.writeSide (fun t => t.sides_le.2.2.1) (fun t => t.sides_le.2.2.2) l i
      t t' hi (h.imp_left And.right) hwriters hheld

/-- A thread goes on with the same permits. -/
theorem permits_goto (w w' : StreamLoops) (h : Permits w) (i : Nat) (t t' : LoopThread)
    (hi : w.threads[i]? = some t) (hwait : w'.waitSem = w.waitSem) (hsem : w'.sem = w.sem)
    (hthreads : w'.threads = w.threads.set i t') (hfree : ¬t.Waits) (hbusy : ¬t.WaitsToSend)
    (hsame : t'.held = t.held ∧ Narrows t t') : Permits w' := by
  rcases hsame with ⟨hheld, hnarrows⟩
  have hsum := sum_set LoopThread.held w.threads i t t' hi
  have htotal := h.total
  rcases sides_set w.threads i t t' hi hnarrows h.readers h.writers (by omega) with
    ⟨hreaders, hwriters⟩
  have hqueued := queued_set w.threads _ h.queued i t t' hi (h.queued.not_mem i t hi hfree)
  have hsending := queued_set w.threads _ h.sending i t t' hi (h.sending.not_mem i t hi hbusy)
  rw [← hthreads] at hreaders hwriters hqueued hsending hsum
  rw [← hwait] at hqueued htotal
  rw [← hsem] at hsending
  exact ⟨by omega, hreaders, hwriters, hqueued, hsending⟩

/-- A thread waits for one more permit. -/
theorem permits_wait (w : StreamLoops) (h : Permits w) (i : Nat) (t got queued : LoopThread)
    (hi : w.threads[i]? = some t) (hfree : ¬t.Waits) (hbusy : ¬t.WaitsToSend)
    (hwaits : queued.Waits) (hgot : got.held = t.held + 1 ∧ Narrows t got)
    (hqueued : queued.held = t.held ∧ Narrows t queued) (b : Bool) (s : FiberSemaphore Nat)
    (hrun : w.waitSem.wait i = (b, s)) :
    Permits (goto { w with waitSem := s } i (if b then got else queued)) := by
  have htotal := h.total
  have hsum := sum_set LoopThread.held w.threads i t
  have hsending := fun t' => queued_set w.threads _ h.sending i t t' hi
    (h.sending.not_mem i t hi hbusy)
  rcases FiberSemaphore.wait_queued w.waitSem s w.threads h.queued i t got queued hi hfree hwaits b
    hrun with ⟨hwaiters, ⟨rfl, hcount⟩ | ⟨rfl, hzero, hzero'⟩⟩
  · have hnew := hsum got hi
    rcases sides_set w.threads i t got hi hgot.2 h.readers h.writers (by omega) with
      ⟨hreaders, hwriters⟩
    refine ⟨?_, hreaders, hwriters, hwaiters, hsending got⟩
    simp only [goto, if_true]
    omega
  · have hnew := hsum queued hi
    rcases sides_set w.threads i t queued hi hqueued.2 h.readers h.writers (by omega) with
      ⟨hreaders, hwriters⟩
    refine ⟨?_, hreaders, hwriters, hwaiters, hsending queued⟩
    simp only [goto, Bool.false_eq_true, if_false]
    omega

/-- A thread gives a permit back, and the first who waits for one has it. -/
theorem permits_notifyWait (w : StreamLoops) (h : Permits w) (i : Nat) (t t' : LoopThread)
    (hi : w.threads[i]? = some t) (hfree : ¬t.Waits) (hbusy : ¬t.WaitsToSend)
    (hheld : t'.held + 1 = t.held) (hnarrows : Narrows t t') :
    Permits (notifyWait (w.goto i t')) := by
  have htotal := h.total
  have hsum := sum_set LoopThread.held w.threads i t t' hi
  rcases sides_set w.threads i t t' hi hnarrows h.readers h.writers (by omega) with
    ⟨hreaders, hwriters⟩
  have hqueued := queued_set w.threads _ h.queued i t t' hi (h.queued.not_mem i t hi hfree)
  have hsending := queued_set w.threads _ h.sending i t t' hi (h.sending.not_mem i t hi hbusy)
  unfold notifyWait
  rcases hrun : (w.goto i t').waitSem.notify with ⟨next, s⟩
  rcases FiberSemaphore.notify_queued w.waitSem s (w.threads.set i t') hqueued LoopThread.woken
    next hrun with ⟨k, u, rfl, hk, hu, hmodify, hcount, hrest⟩ | ⟨rfl, hcount, hnobody⟩
  · -- The first in the queue is handed the permit.
    have hwoken := sum_set LoopThread.held (w.threads.set i t') k u u.woken hk
    rcases u.woken_spec hu with ⟨hone, hwide⟩
    have hout : k ∉ w.sem.waiters := by
      refine hsending.not_mem k u hk ?_
      rcases hu with ⟨second, rfl⟩
      exact LoopThread.noConfusion
    rcases sides_set (w.threads.set i t') k u u.woken hk hwide hreaders hwriters (by omega) with
      ⟨hreaders', hwriters'⟩
    simp only [goto, hmodify]
    exact ⟨by simp only [hcount]; omega, hreaders', hwriters', hrest,
      queued_set _ _ hsending k u u.woken hk hout⟩
  · -- There are no more permits than two, so the counter does not wrap.
    refine ⟨?_, hreaders, hwriters, ?_, hsending⟩
    · simp only [goto, hcount]
      omega
    · simp only [hnobody]
      exact queued_nil _

theorem permits_notify (w : StreamLoops) (h : Permits w) : Permits w.notify := by
  unfold notify
  rcases hrun : w.sem.notify with ⟨next, s⟩
  rcases FiberSemaphore.notify_queued w.sem s w.threads h.sending LoopThread.woken next hrun with
    ⟨k, u, rfl, hk, hu, hmodify, _, hrest⟩ | ⟨rfl, _, hnobody⟩
  · -- A writer goes on, and nobody else.
    have hfree : ¬u.Waits := by
      rintro ⟨second, rfl⟩
      cases hu
    rw [LoopThread.WaitsToSend] at hu
    rw [hu] at hk hrest hmodify hfree
    have hsum := sum_set LoopThread.held w.threads k _ (.write .swap) hk
    have hsame : (LoopThread.write .swap).held = (LoopThread.write .queued).held := rfl
    have htotal := h.total
    rcases sides_set w.threads k _ (.write .swap) hk (Or.inl (by decide)) h.readers h.writers
      (by omega) with ⟨hreaders, hwriters⟩
    simp only [hmodify]
    exact ⟨by simp only [LoopThread.woken]; omega, hreaders, hwriters,
      queued_set w.threads _ h.queued k _ _ hk (h.queued.not_mem k _ hk hfree), hrest⟩
  · refine ⟨h.total, h.readers, h.writers, h.queued, ?_⟩
    simp only [hnobody]
    exact queued_nil _

/-- A thread that has no permit comes. -/
theorem permits_spawn (w w' : StreamLoops) (h : Permits w) (t : LoopThread)
    (hwait : w'.waitSem = w.waitSem) (hsem : w'.sem = w.sem)
    (hthreads : w'.threads = w.threads ++ [t]) (hheld : t.held = 0) : Permits w' := by
  have hsides := t.sides_le
  -- Who has no permit is neither a reader nor a writer.
  have hnone : t.readSide = 0 ∧ t.writeSide = 0 := by omega
  refine ⟨?_, ?_, ?_, ?_, ?_⟩
  · rw [hwait, hthreads, sum_concat, hheld]
    exact h.total
  · rw [hthreads, sum_concat, hnone.1]
    exact h.readers
  · rw [hthreads, sum_concat, hnone.2]
    exact h.writers
  · rw [hthreads, hwait]
    exact queued_concat w.threads _ h.queued t
  · rw [hthreads, hsem]
    exact queued_concat w.threads _ h.sending t

/-- A call of `start` passes a permit to a loop. -/
theorem permits_pass (w : StreamLoops) (h : Permits w) (i : Nat) (t t' loop : LoopThread)
    (hi : w.threads[i]? = some t) (hfree : ¬t.Waits) (hbusy : ¬t.WaitsToSend)
    (hheld : t'.held + loop.held = t.held)
    (hreads : t'.readSide + loop.readSide ≤ t.readSide)
    (hwrites : t'.writeSide + loop.writeSide ≤ t.writeSide) :
    Permits ((w.goto i t').spawn loop) := by
  have htotal := h.total
  have hreaders := h.readers
  have hwriters := h.writers
  have hsum := sum_set LoopThread.held w.threads i t t' hi
  have hsumr := sum_set LoopThread.readSide w.threads i t t' hi
  have hsumw := sum_set LoopThread.writeSide w.threads i t t' hi
  refine ⟨?_, ?_, ?_, ?_, ?_⟩
  · simp only [spawn, goto, sum_concat]
    omega
  · simp only [spawn, goto, sum_concat]
    omega
  · simp only [spawn, goto, sum_concat]
    omega
  · exact queued_concat _ _
      (queued_set w.threads _ h.queued i t t' hi (h.queued.not_mem i t hi hfree)) loop
  · exact queued_concat _ _
      (queued_set w.threads _ h.sending i t t' hi (h.sending.not_mem i t hi hbusy)) loop

/-- Who takes a step does not wait. -/
theorem Goes.awake {w w' : StreamLoops} {i : Nat} {t : LoopThread} (h : Goes w i t w') :
    ¬t.Waits ∧ ¬t.WaitsToSend := by
  refine ⟨?_, ?_⟩
  · rintro ⟨second, rfl⟩
    cases h with
    | moves t t' hmoves => cases hmoves
  · rintro rfl
    cases h with
    | moves t t' hmoves => cases hmoves

/-- The steps that only move a thread. -/
theorem Moves.permits {w : StreamLoops} {t t' : LoopThread} (h : Moves w t t') :
    t'.held = t.held ∧ Narrows t t' := by
  cases h with
  | timer failed | noTimer failed => cases failed <;> decide
  | connected | disconnected | accepted | refused | threw | retry | giveUp | receive
  | leaveRead | received | notReceived | thrown | readAgain | readEnds | write | leaveWrite
  | written | closeTimer | closeNoTimer => decide

theorem goes_permits (w w' : StreamLoops) (h : Permits w) (i : Nat) (t : LoopThread)
    (hi : w.threads[i]? = some t) (hgoes : Goes w i t w') : Permits w' := by
  rcases hgoes.awake with ⟨hfree, hbusy⟩
  have hgoto := fun w' t' hwait hsem hthreads => permits_goto w w' h i t t' hi hwait hsem hthreads
    hfree hbusy
  have hgive := fun t' => permits_notifyWait w h i t t' hi hfree hbusy
  have hpass := fun t' loop => permits_pass w h i t t' loop hi hfree hbusy
  cases hgoes with
  | moves t t' hmoves =>
      exact hgoto _ t' rfl rfl rfl hmoves.permits
  | wait second got s hrun =>
      -- With the second permit it has both, so it may become a reader and a writer.
      refine permits_wait w h i _ _ _ hi hfree hbusy ⟨second, rfl⟩ ?_ ?_ got s hrun
      · cases second <;> decide
      · cases second <;> decide
  | cancel failed b p s htimer hrun =>
      refine hgoto _ (.start (.clear failed)) rfl rfl rfl ?_
      cases failed <;> decide
  | clearTimer failed =>
      refine hgoto _ (.afterTimer failed) rfl rfl rfl ?_
      cases failed <;> decide
  | reconnect b =>
      refine hgoto _ (if b then .start .connectCb else .innerClose .start .shut) rfl rfl rfl ?_
      cases b <;> decide
  -- A loop is started with one of the two permits of the call.
  | startRead => exact hpass (.start .startWrite) (.read .top) rfl (by decide) (by decide)
  | startWrite =>
      exact hpass (.start (.returned true)) (.write .top) rfl (by decide) (by decide)
  | notifyStart second =>
      refine hgive (.start (if second then .ifAuto else .notify true)) ?_ ?_
      · cases second <;> rfl
      · cases second <;> decide
  -- A loop that ends gives its permit back.
  | notifyRead => exact hgive (.read .ifAuto) rfl (Or.inl (by decide))
  | notifyWrite => exact hgive (.write .ended) rfl (Or.inl (by decide))
  | armStart p now b s hrun =>
      exact hgoto _ (.start (.store p)) rfl rfl rfl ⟨rfl, Or.inl ⟨Nat.le_refl 0, Nat.le_refl 0⟩⟩
  | armRead p now b s hrun => exact hgoto _ (.read .ended) rfl rfl rfl (by decide)
  | store p =>
      exact hgoto _ (.start (.returned false)) rfl rfl rfl
        ⟨rfl, Or.inl ⟨Nat.le_refl 0, Nat.le_refl 0⟩⟩
  | semWait got s hrun =>
      -- The permits of `m_waitSem` stay where they are.
      have hwait : Permits (w.goto i (if got then .write .swap else .write .queued)) := by
        refine hgoto _ (if got then .write .swap else .write .queued) rfl rfl rfl ?_
        cases got <;> decide
      rcases FiberSemaphore.wait_queued w.sem s w.threads h.sending i _ (.write .swap)
        (.write .queued) hi hbusy rfl got hrun with ⟨hsending, _⟩
      exact ⟨hwait.total, hwait.readers, hwait.writers, hwait.queued, hsending⟩
  | swap =>
      exact hgoto _ (.write (.doSend w.queue)) rfl rfl rfl
        ⟨rfl, Or.inl ⟨Nat.le_refl 0, Nat.le_refl 1⟩⟩
  | sent x ctxs =>
      exact hgoto _ (.write (.doSend ctxs)) rfl rfl rfl
        ⟨rfl, Or.inl ⟨Nat.le_refl 0, Nat.le_refl 1⟩⟩
  | notSent x ctxs t' ht' =>
      rcases ht' with rfl | rfl
      · exact hgoto _ (.innerClose .doWrite .shut) rfl rfl rfl
          ⟨rfl, Or.inl ⟨Nat.le_refl 0, Nat.le_refl 1⟩⟩
      · exact hgoto _ (.write .clear) rfl rfl rfl ⟨rfl, Or.inl ⟨Nat.le_refl 0, Nat.le_refl 1⟩⟩
  | leave => exact hgoto _ (.write .notify) rfl rfl rfl (by decide)
  -- `innerClose` runs in a thread that keeps what it has, whoever called it.
  | shut caller =>
      refine hgoto _ (.innerClose caller .notify) rfl rfl rfl ?_
      cases caller <;> decide
  | notify caller =>
      refine permits_notify _ (hgoto _ (.innerClose caller .clear) rfl rfl rfl ?_)
      cases caller <;> decide
  | clear caller =>
      refine hgoto _ caller.after rfl rfl rfl ?_
      cases caller <;> decide
  | enqueued => exact permits_notify _ (hgoto _ (.enqueue false) rfl rfl rfl (by decide))
  | closeCancel b p s htimer hrun => exact hgoto _ (.close .shut) rfl rfl rfl (by decide)
  | closeShut => exact hgoto _ (.close .returned) rfl rfl rfl (by decide)

theorem step_permits (w w' : StreamLoops) (a : Action) (h : Permits w)
    (hstep : step a w = some w') : Permits w' := by
  cases step_happens w w' a hstep with
  | connect | setAutoConnect | listExpiredCb =>
      exact ⟨h.total, h.readers, h.writers, h.queued, h.sending⟩
  | start | callback => exact permits_spawn w _ h (.start (.wait false)) rfl rfl rfl rfl
  | enqueue x => exact permits_spawn w _ h (.enqueue w.queue.isEmpty) rfl rfl rfl rfl
  | close => exact permits_spawn w _ h (.close .ifTimer) rfl rfl rfl rfl
  | go i result p now t w' hi hgoes => exact goes_permits w w' h i t hi hgoes

theorem run_permits (connected : Bool) (now : UInt64) (acts : List Action) (w : StreamLoops)
    (hrun : run step acts (new connected now) = some w) : Permits w :=
  run_inv Permits (fun w a w' hw _ hstep => step_permits w w' a hw hstep) acts
    (new connected now) w (permits_new connected now) (along_true acts _) hrun

/-! ## What an exception loses -/

/-- The connect callback does not throw. -/
def Returns (w : StreamLoops) (a : Action) : Prop :=
  ∀ i p now, a = .go i .throw p now → w.threads[i]? ≠ some (.start .connectCb)

/-- The permits that are lost. -/
def lostPermits (w : StreamLoops) : Nat := (w.threads.map LoopThread.lost).sum

theorem lost_woken (t : LoopThread) (h : t.Waits ∨ t.WaitsToSend) : t.woken.lost = t.lost := by
  rcases h with ⟨second, rfl⟩ | rfl
  · cases second <;> rfl
  · rfl

theorem lost_goto (w w' : StreamLoops) (i : Nat) (t t' : LoopThread) (hi : w.threads[i]? = some t)
    (hthreads : w'.threads = w.threads.set i t') (h : t'.lost = t.lost) :
    w'.lostPermits = w.lostPermits := by
  have hsum := sum_set LoopThread.lost w.threads i t t' hi
  rw [lostPermits, lostPermits, hthreads]
  omega

theorem lost_spawn (w w' : StreamLoops) (t : LoopThread) (hthreads : w'.threads = w.threads ++ [t])
    (h : t.lost = 0) : w'.lostPermits = w.lostPermits := by
  rw [lostPermits, lostPermits, hthreads, sum_concat, h]
  rfl

theorem lost_notifyWait (w : StreamLoops)
    (hqueued : Queued LoopThread.Waits w.threads w.waitSem.waiters) :
    w.notifyWait.lostPermits = w.lostPermits := by
  unfold notifyWait
  rcases hrun : w.waitSem.notify with ⟨next, s⟩
  rcases FiberSemaphore.notify_queued w.waitSem s w.threads hqueued LoopThread.woken next hrun with
    ⟨k, u, rfl, hk, hu, hmodify, -, -⟩ | ⟨rfl, -, -⟩
  · exact lost_goto w _ k u u.woken hk hmodify (lost_woken u (Or.inl hu))
  · rfl

theorem lost_notify (w : StreamLoops)
    (hsending : Queued LoopThread.WaitsToSend w.threads w.sem.waiters) :
    w.notify.lostPermits = w.lostPermits := by
  unfold notify
  rcases hrun : w.sem.notify with ⟨next, s⟩
  rcases FiberSemaphore.notify_queued w.sem s w.threads hsending LoopThread.woken next hrun with
    ⟨k, u, rfl, hk, hu, hmodify, -, -⟩ | ⟨rfl, -, -⟩
  · exact lost_goto w _ k u u.woken hk hmodify (lost_woken u (Or.inr hu))
  · rfl

theorem Moves.lost {w : StreamLoops} {t t' : LoopThread} (h : Moves w t t')
    (ht : t ≠ .start .connectCb) : t'.lost = t.lost := by
  cases h with
  | timer failed | noTimer failed => cases failed <;> rfl
  | accepted | refused | threw => exact absurd rfl ht
  | connected | disconnected | retry | giveUp | receive | leaveRead | received | notReceived
  | thrown | readAgain | readEnds | write | leaveWrite | written | closeTimer | closeNoTimer => rfl

/-- Nothing is lost elsewhere. -/
theorem goes_lost (w w' : StreamLoops) (h : Permits w) (i : Nat) (t : LoopThread)
    (hi : w.threads[i]? = some t) (hgoes : Goes w i t w') (ht : t ≠ .start .connectCb) :
    w'.lostPermits = w.lostPermits := by
  have hqueued := fun t' => queued_set w.threads _ h.queued i t t' hi
    (h.queued.not_mem i t hi hgoes.awake.1)
  have hsending := fun t' => queued_set w.threads _ h.sending i t t' hi
    (h.sending.not_mem i t hi hgoes.awake.2)
  have hset := fun w' t' => lost_goto w w' i t t' hi
  cases hgoes with
  | moves t t' hmoves => exact hset _ t' rfl (hmoves.lost ht)
  | wait second got s hrun =>
      refine hset _ _ rfl ?_
      cases got <;> cases second <;> rfl
  | clearTimer failed =>
      refine hset _ _ rfl ?_
      cases failed <;> rfl
  | reconnect b =>
      refine hset _ _ rfl ?_
      cases b <;> rfl
  | semWait got s hrun =>
      refine hset _ _ rfl ?_
      cases got <;> rfl
  | startRead =>
      exact (lost_spawn _ _ (.read .top) rfl rfl).trans
        (hset (w.goto i (.start .startWrite)) _ rfl rfl)
  | startWrite =>
      exact (lost_spawn _ _ (.write .top) rfl rfl).trans
        (hset (w.goto i (.start (.returned true))) _ rfl rfl)
  | notifyStart second =>
      refine (lost_notifyWait _ (hqueued _)).trans (hset _ _ rfl ?_)
      cases second <;> rfl
  | notifyRead | notifyWrite => exact (lost_notifyWait _ (hqueued _)).trans (hset _ _ rfl rfl)
  | notify caller => exact (lost_notify _ (hsending _)).trans (hset _ _ rfl rfl)
  | enqueued => exact (lost_notify _ (hsending _)).trans (hset _ _ rfl rfl)
  | notSent x ctxs t' ht' =>
      rcases ht' with rfl | rfl
      · exact hset _ _ rfl rfl
      · exact hset _ _ rfl rfl
  | clear caller =>
      refine hset _ _ rfl ?_
      cases caller <;> rfl
  | cancel | armStart | armRead | store | swap | sent | leave | shut | closeCancel | closeShut =>
      exact hset _ _ rfl rfl

/-- A step loses both permits of a call where the connect callback throws, and nothing
    anywhere else. -/
theorem step_lost (w w' : StreamLoops) (a : Action) (h : Permits w)
    (hstep : step a w = some w') :
    (Returns w a → w'.lostPermits = w.lostPermits) ∧
      (¬Returns w a → w'.lostPermits = w.lostPermits + 2) := by
  have hother : (∀ i p now, a ≠ .go i .throw p now) → w'.lostPermits = w.lostPermits →
      (Returns w a → w'.lostPermits = w.lostPermits) ∧
        (¬Returns w a → w'.lostPermits = w.lostPermits + 2) := by
    intro hno heq
    refine ⟨fun _ => heq, fun hnot => absurd ?_ hnot⟩
    exact fun i p now ha => absurd ha (hno i p now)
  cases a with
  | connect | setAutoConnect =>
      cases hstep
      exact hother (fun _ _ _ => Action.noConfusion) rfl
  | start | enqueue | close =>
      cases hstep
      exact hother (fun _ _ _ => Action.noConfusion) (lost_spawn w _ _ rfl rfl)
  | listExpiredCb now nowTimer =>
      cases step_happens w w' _ hstep with
      | listExpiredCb => exact hother (fun _ _ _ => Action.noConfusion) rfl
  | callback =>
      cases step_happens w w' _ hstep with
      | callback => exact hother (fun _ _ _ => Action.noConfusion) (lost_spawn w _ _ rfl rfl)
  | go i result p now =>
      cases step_happens w w' _ hstep with
      | go i result p now t w' hi hgoes =>
          by_cases ht : t = .start .connectCb
          · -- The outcome of the callback decides.
            rw [ht] at hi
            simp only [step, hi, Option.bind_some, goOn, goStart] at hstep
            cases result with
            | ok | fail =>
                cases hstep
                exact hother (fun _ _ _ hno => by cases hno) (lost_goto w _ i _ _ hi rfl rfl)
            | throw =>
                cases hstep
                refine ⟨fun hret => absurd hi (hret i p now rfl), fun _ => ?_⟩
                have hsum := sum_set LoopThread.lost w.threads i _ (.start .thrown) hi
                exact hsum
          · have heq := goes_lost w w' h i t hi hgoes ht
            refine ⟨fun _ => heq, fun hnot => absurd ?_ hnot⟩
            intro j q now' ha hj
            cases ha
            rw [hi, Option.some.injEq] at hj
            exact ht hj

theorem lost_iff (connected : Bool) (now : UInt64) (acts : List Action) (w : StreamLoops)
    (hrun : run step acts (new connected now) = some w) :
    w.lostPermits = 0 ↔ Along step Returns acts (new connected now) := by
  rcases run_good_or_bad (P := Returns) (fun w => Permits w ∧ w.lostPermits = 0)
    (fun w => Permits w ∧ 0 < w.lostPermits)
    (by
      rintro w a w' ⟨hp, hzero⟩ hret hstep
      exact ⟨step_permits w w' a hp hstep, ((step_lost w w' a hp hstep).1 hret).trans hzero⟩)
    (by
      rintro w a w' ⟨hp, hzero⟩ hthrow hstep
      have htwo := (step_lost w w' a hp hstep).2 hthrow
      exact ⟨step_permits w w' a hp hstep, by omega⟩)
    (by
      -- What is lost is never given back.
      rintro w a w' ⟨hp, hpos⟩ hstep
      have hboth := step_lost w w' a hp hstep
      refine ⟨step_permits w w' a hp hstep, ?_⟩
      by_cases hret : Returns w a
      · rw [hboth.1 hret]
        exact hpos
      · rw [hboth.2 hret]
        exact Nat.lt_of_lt_of_le hpos (Nat.le_add_right _ _))
    acts (new connected now) w ⟨permits_new connected now, rfl⟩ hrun with
    ⟨hall, -, hzero⟩ | ⟨hnot, -, hpos⟩
  · exact iff_of_true hzero hall
  · exact iff_of_false (Nat.ne_of_gt hpos) hnot

/-- In every run there is at most one loop of each kind alive. The permits of `m_waitSem`, those
    of the calls of `start` that are under way and the loops that are alive are two together
    exactly as long as no connect callback has thrown. -/
theorem one_reader_one_writer (connected : Bool) (now : UInt64) (acts : List Action)
    (w : StreamLoops) (hrun : run step acts (new connected now) = some w) :
    (w.waitSem.concurrency.toNat + (w.threads.map LoopThread.startHeld).sum +
      w.threads.countP LoopThread.reading + w.threads.countP LoopThread.writing = 2 ↔
        Along step Returns acts (new connected now)) ∧
    w.threads.countP LoopThread.reading ≤ 1 ∧ w.threads.countP LoopThread.writing ≤ 1 := by
  have h := run_permits connected now acts w hrun
  have htotal := h.total
  have hreaders := h.readers
  have hwriters := h.writers
  -- What a thread holds is what it holds as a call of `start` or as a loop, or has lost.
  have hheld : (w.threads.map LoopThread.held).sum =
      (w.threads.map LoopThread.startHeld).sum + w.threads.countP LoopThread.reading +
        w.threads.countP LoopThread.writing + w.lostPermits := by
    rw [lostPermits, ← sum_toNat, ← sum_toNat, ← List.sum_map_add, ← List.sum_map_add,
      ← List.sum_map_add]
    rfl
  have hreads : w.threads.countP LoopThread.reading ≤
      (w.threads.map LoopThread.readSide).sum := by
    refine countP_le_sum LoopThread.reading LoopThread.readSide w.threads ?_
    intro t ht
    rw [LoopThread.readSide, ht]
    exact Nat.le_add_left 1 _
  have hwrites : w.threads.countP LoopThread.writing ≤
      (w.threads.map LoopThread.writeSide).sum := by
    refine countP_le_sum LoopThread.writing LoopThread.writeSide w.threads ?_
    intro t ht
    -- A call of `start` that is about to start the writer is no writer yet.
    have hle : t.writing.toNat ≤ t.writeSide := by
      cases t with
      | start => exact Nat.zero_le _
      | read | write | innerClose | enqueue | close => exact Nat.le_add_left _ _
    rw [ht] at hle
    exact hle
  refine ⟨?_, by omega, by omega⟩
  rw [← lost_iff connected now acts w hrun]
  omega

/-- The first connection is refused by the callback, the second call of `start` starts both
    loops, and the third one waits. -/
def threeStarts : List Action :=
  Action.start :: List.replicate 5 (Action.go 0 .fail 0 0) ++
    List.replicate 6 (Action.go 0 .ok 0 0) ++
    [Action.start, .start, .go 1 .ok 0 0, .go 1 .ok 0 0, .go 2 .ok 0 0] ++
    List.replicate 6 (Action.go 1 .ok 0 0)

theorem one_reader_one_writer_third :
    ∃ w, run step threeStarts (new true 0) = some w ∧
      .start (.queued false) ∈ w.threads ∧
      w.waitSem.concurrency.toNat + (w.threads.map LoopThread.startHeld).sum +
        w.threads.countP LoopThread.reading + w.threads.countP LoopThread.writing = 2 := by
  have hall : (run step threeStarts (new true 0)).map StreamLoops.threads =
      some [.start (.returned false), .start (.returned true), .start (.queued false),
        .read .top, .write .top] := by decide
  rcases Option.map_eq_some_iff.1 hall with ⟨w, hrun, hthreads⟩
  -- No callback of this run throws.
  have hreturns : Along step Returns threeStarts (new true 0) := by
    refine along_mono (P := fun _ a => ∀ i p now, a ≠ .go i .throw p now) ?_ _ _
      (along_of_mem threeStarts _ ?_)
    · exact fun w a ha i p now heq => absurd heq (ha i p now)
    · intro a ha i p now heq
      rw [heq] at ha
      simp [threeStarts] at ha
  refine ⟨w, hrun, ?_, (one_reader_one_writer true 0 threeStarts w hrun).1.2 hreturns⟩
  rw [hthreads]
  decide

/-- The connect callback throws, and the next call of `start` waits for permits that nobody
    has. -/
theorem permits_lost :
    ∃ w, run step (Action.start :: List.replicate 4 (Action.go 0 .ok 0 0) ++
        [Action.go 0 .throw 0 0, .start, .go 1 .ok 0 0]) (new true 0) = some w ∧
      w.threads = [.start .thrown, .start (.queued false)] ∧
      w.waitSem.concurrency.toNat + (w.threads.map LoopThread.startHeld).sum +
        w.threads.countP LoopThread.reading + w.threads.countP LoopThread.writing = 0 := by
  exact ⟨_, rfl, rfl, rfl⟩

end StreamLoops

end YkServer
