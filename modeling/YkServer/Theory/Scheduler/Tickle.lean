import YkServer.Theory.Scheduler.Moves

/-!
# Wake-Ups

A worker that finds nothing in the queue goes to sleep in `epoll_wait`, and who puts
an item in the queue writes to the pipe to wake it. There are two gaps. Between its
scan and the increment of the idle counter a worker is not idle yet as far as the
counter knows, so a `tickle` in that moment writes nothing. And an item that is
put behind others makes no call of `tickle` at all, although the others may be for
threads that are busy.

Where neither happens, an item that a sleeping worker could run is never left alone:
there is a worker that is busy and can run it, or a wake-up is on its way. A worker
that is on its way to its scan counts as one, since it takes the item or calls
`tickle` for it.

## Main definitions

* `Pc.gap`, `Pc.drowsy`, `Pc.occupied`, `Pc.prompt`: Kinds of places.
* `Scheduler.Committed`, `Scheduler.Able`: What keeps an item from being left alone.
* `Scheduler.Slept`, `Scheduler.Owed`: Whom an item waits for.
* `Scheduler.Heeded`: A step that falls into neither gap.

## Theorems

* `cared_behind`: An item that is put behind others.
* `idle_move`, `heard_move`: What a step keeps.
* `wakeup_kept`: No wake-up is lost as long as every step is heeded.
* `wakeup_lost`: The two ways to lose one.
-/

namespace YkServer

open Lib

namespace Pc

/-- The worker has found nothing and has not incremented the idle counter yet. -/
def gap : Pc → Bool
  | .picked none => true
  | .tickling (.picked none) => true
  | _ => false

/-- It has found nothing and is not going to look again before it sleeps. -/
def drowsy : Pc → Bool
  | .picked none => true
  | .asking => true
  | .waiting => true
  | _ => false

/-- It has an item that it is going to run, or runs. -/
def occupied : Pc → Bool
  | .picked (some _) => true
  | .entering _ _ _ => true
  | .running _ _ => true
  | _ => false

/-- It is in `tickle`, or on its way to its scan with nothing to run before. -/
def prompt : Pc → Bool
  | .top => true
  | .tickling _ => true
  | .poking _ => true
  | .leaving _ _ => true
  | .back _ _ => true
  | .settling _ _ => true
  | .requeueing _ _ => true
  | .holding _ _ => true
  | .dropping => true
  | .handling => true
  | .idleOut => true
  | _ => false

/-- The idle counter counts it. -/
def idle : Pc → Bool
  | .asking => true
  | .waiting => true
  | .handling => true
  | .idleOut => true
  | _ => false

end Pc

namespace Scheduler

/-- A thread is committed to writing to the pipe: it is in `tickle`, or it is a worker
    on its way to a scan. -/
def Committed (s : Scheduler) : Prop :=
  0 < s.ticklers ∨ 0 < s.pokers ∨
    ∃ (w : Nat) (x : Worker), s.workers[w]? = some x ∧ x.pc.prompt = true

/-- A worker that is busy can run the item. -/
def Able (s : Scheduler) (it : FiberAndThread) : Prop :=
  ∃ (w : Nat) (x : Worker), s.workers[w]? = some x ∧ x.pc.occupied = true ∧ For w it

/-- The item is not left alone. -/
def Cared (s : Scheduler) (it : FiberAndThread) : Prop :=
  s.Able it ∨ 0 < s.pipe ∨ s.Committed

/-- There is an item that a worker in some kind of place could run. -/
def Fitting (s : Scheduler) (it : FiberAndThread) (p : Pc → Bool) : Prop :=
  s.Runnable it ∧ ∃ (w : Nat) (x : Worker), s.workers[w]? = some x ∧ p x.pc = true ∧ For w it

/-- The only workers left that could run the item have found nothing and are about to
    sleep, or asleep. -/
def Slept (s : Scheduler) (it : FiberAndThread) : Prop :=
  s.Fitting it Pc.drowsy ∧ ∀ (w : Nat) (x : Worker), s.workers[w]? = some x → For w it →
    x.pc.drowsy = true ∨ x.pc = .exited

/-- A worker that is not busy could run the item, and none that is busy. -/
def Owed (s : Scheduler) (it : FiberAndThread) : Prop :=
  s.Fitting it (fun pc => pc.drowsy || pc.prompt) ∧ ¬s.Able it

/-- No `tickle` finds the idle counter at zero while a worker that has just found nothing
    could run an item that no busy worker can run. And no item that only sleeping workers
    could run is put behind others, unless one of these waits for a worker that is not
    busy as well. -/
def Heeded (s : Scheduler) : Action → Prop
  | .test => s.idleThreadCount ≤ 0 → ∀ it ∈ s.fibers, s.Fitting it Pc.gap → s.Able it
  | .go w => ∀ x next, s.workers[w]? = some x → x.pc = .tickling next →
    s.idleThreadCount ≤ 0 → ∀ it ∈ s.fibers, s.Fitting it Pc.gap → s.Able it
  | .schedule _ fcs thread => s.fibers ≠ [] → ∀ it ∈ enqueued thread fcs s.tickets,
    s.Slept it → ∃ old ∈ s.fibers, s.Owed old
  | _ => True

/-! ## The idle counter -/

theorem idle_next (next : Next) : next.pc.idle = false := by
  rcases next with (_ | ft) | _ <;> rfl

theorem idle_move (s s' : Scheduler) (a : Action) (hmove : Move s a s')
    (h : s.idleThreadCount = s.count Pc.idle) : s'.idleThreadCount = s'.count Pc.idle := by
  cases hmove with
  | start => exact h.trans (count_start s Pc.idle rfl).symm
  | newFiber | stop | tickle | test hsome hidle | dropTest hsome hidle | poke hsome => exact h
  | schedule caller fcs thread hcall hknown => exact h
  | drain w x hx hpc => exact h
  | take w x ft left tickleMe hx hpc hscan =>
      refine count_move s _ Pc.idle _ _ h w x x _ rfl hx ?_
      rw [hpc]
      cases tickleMe <;> simp [Pc.idle]
  | miss w x left tickleMe hx hpc hscan =>
      refine count_move s s Pc.idle _ _ h w x x _ rfl hx ?_
      rw [hpc]
      cases tickleMe <;> simp [Pc.idle]
  -- Behind `tickle` comes the item that was found or the top of the loop: neither is idle.
  | ownDrop w x next hx hpc hidle =>
      refine count_move s s Pc.idle _ _ h w x x _ rfl hx ?_
      rw [hpc, idle_next]
      simp [Pc.idle]
  | ownPoke w x next hx hpc =>
      refine count_move s _ Pc.idle _ _ h w x x _ rfl hx ?_
      rw [hpc, idle_next]
      simp [Pc.idle]
  | requeue w x f isCb hx hpc =>
      refine count_move s _ Pc.idle _ _ h w x x _ rfl hx ?_
      rw [hpc]
      cases s.fibers.isEmpty <;> simp [Pc.idle]
  | _ =>
      refine count_move s _ Pc.idle _ _ h _ _ _ _ rfl (by assumption) ?_
      simp [*, Pc.idle, setState]

/-- With the counter at zero, nobody is in `epoll_wait`. -/
theorem not_idle (s : Scheduler) (h : s.idleThreadCount = s.count Pc.idle)
    (hzero : s.idleThreadCount ≤ 0) (w : Nat) (x : Worker) (hx : s.workers[w]? = some x) :
    x.pc.idle = false := by
  have hcount : s.workers.countP (fun x => x.pc.idle) = 0 := by
    have hle : (s.workers.countP (fun x => x.pc.idle) : Int) ≤ 0 := by
      rw [h, count] at hzero
      exact hzero
    omega
  exact Bool.eq_false_iff.2 (List.countP_eq_zero.1 hcount x (List.mem_of_getElem? hx))

/-! ## What is not left alone -/

/-- No item that an idle worker could run is left alone. -/
def Heard (s : Scheduler) : Prop := ∀ it ∈ s.fibers, s.Fitting it Pc.drowsy → s.Cared it

theorem cared_of_prompt (s : Scheduler) (w : Nat) (x : Worker) (hx : s.workers[w]? = some x)
    (hpc : x.pc.prompt = true) (it : FiberAndThread) : s.Cared it :=
  Or.inr (Or.inr (Or.inr (Or.inr ⟨w, x, hx, hpc⟩)))

/-- A worker comes to a place from which it looks at the queue. -/
theorem heard_prompt (s₁ : Scheduler) (w : Nat) (x y : Worker) (pc : Pc)
    (hx : s₁.workers[w]? = some x) (hpc : pc.prompt = true) : (s₁.goto w y pc).Heard :=
  fun it _ _ => cared_of_prompt _ w { y with pc := pc }
    ((workers_goto s₁ w w x y pc hx).trans (if_pos rfl)) hpc it

/-- Other workers are where they were. -/
theorem other_goto (s s₁ : Scheduler) (w w' : Nat) (x x' y : Worker) (pc : Pc)
    (hworkers : s₁.workers = s.workers) (hx : s.workers[w]? = some x) (hw : w' ≠ w)
    (hx' : s.workers[w']? = some x') : (s₁.goto w y pc).workers[w']? = some x' := by
  rw [workers_goto s₁ w w' x y pc (by rw [hworkers]; exact hx), if_neg hw, hworkers]
  exact hx'

/-- A worker that was not in the way of anything moves. -/
theorem cared_goto (s s₁ : Scheduler) (w : Nat) (x y : Worker) (pc : Pc) (it : FiberAndThread)
    (hworkers : s₁.workers = s.workers) (hx : s.workers[w]? = some x)
    (hpipe : s₁.pipe = s.pipe) (hticklers : s₁.ticklers = s.ticklers)
    (hpokers : s₁.pokers = s.pokers) (hprompt : x.pc.prompt = false)
    (hoccupied : x.pc.occupied = true → pc.occupied = true) (h : s.Cared it) :
    (s₁.goto w y pc).Cared it := by
  rcases h with ⟨w', x', hx', hocc, hfor⟩ | hbyte | htickle | hpoke | ⟨w', x', hx', hpr⟩
  · -- A busy worker stays busy, also if it is the one that moves.
    refine Or.inl ⟨w', ?_⟩
    by_cases hw : w' = w
    · subst hw
      rw [hx, Option.some.injEq] at hx'
      subst hx'
      exact ⟨{ y with pc := pc }, (workers_goto s₁ w' w' x y pc (by rw [hworkers]; exact hx)).trans
        (if_pos rfl), hoccupied hocc, hfor⟩
    · exact ⟨x', other_goto s s₁ w w' x x' y pc hworkers hx hw hx', hocc, hfor⟩
  · exact Or.inr (Or.inl (by rw [show (s₁.goto w y pc).pipe = s.pipe from hpipe]; exact hbyte))
  · refine Or.inr (Or.inr (Or.inl ?_))
    rw [show (s₁.goto w y pc).ticklers = s.ticklers from hticklers]
    exact htickle
  · refine Or.inr (Or.inr (Or.inr (Or.inl ?_)))
    rw [show (s₁.goto w y pc).pokers = s.pokers from hpokers]
    exact hpoke
  · -- The worker on its way to a scan is another one.
    have hw : w' ≠ w := by
      rintro rfl
      rw [hx, Option.some.injEq] at hx'
      rw [hx', hpr] at hprompt
      cases hprompt
    exact cared_of_prompt _ w' x' (other_goto s s₁ w w' x x' y pc hworkers hx hw hx') hpr it

/-- The workers that could run an item after one has moved are those that could before. -/
theorem fitting_goto (s s₁ : Scheduler) (w : Nat) (x y : Worker) (pc : Pc) (it : FiberAndThread)
    (hworkers : s₁.workers = s.workers) (hx : s.workers[w]? = some x)
    (hrun : s₁.Runnable it → s.Runnable it) (hdrowsy : pc.drowsy = true → x.pc.drowsy = true)
    (h : (s₁.goto w y pc).Fitting it Pc.drowsy) : s.Fitting it Pc.drowsy := by
  rcases h with ⟨hit, w', x', hx', hdrowsy', hfor⟩
  refine ⟨hrun hit, w', ?_⟩
  rw [workers_goto s₁ w w' x y pc (by rw [hworkers]; exact hx), hworkers] at hx'
  by_cases hw : w' = w
  · rw [if_pos hw, Option.some.injEq] at hx'
    rw [← hx'] at hdrowsy'
    exact ⟨x, by rw [hw]; exact hx, hdrowsy hdrowsy', hfor⟩
  · rw [if_neg hw] at hx'
    exact ⟨x', hx', hdrowsy', hfor⟩

/-- A worker that is not on its way to a scan moves, and wakes nobody up. -/
theorem heard_goto (s s₁ : Scheduler) (h : s.Heard) (w : Nat) (x y : Worker) (pc : Pc)
    (hworkers : s₁.workers = s.workers) (hx : s.workers[w]? = some x)
    (hfibers : s₁.fibers = s.fibers) (hpipe : s₁.pipe = s.pipe)
    (hticklers : s₁.ticklers = s.ticklers) (hpokers : s₁.pokers = s.pokers)
    (hrun : ∀ it, s₁.Runnable it → s.Runnable it) (hprompt : x.pc.prompt = false)
    (hoccupied : x.pc.occupied = true → pc.occupied = true)
    (hdrowsy : pc.drowsy = true → x.pc.drowsy = true) : (s₁.goto w y pc).Heard := by
  intro it hit hfit
  refine cared_goto s s₁ w x y pc it hworkers hx hpipe hticklers hpokers hprompt hoccupied ?_
  refine h it ?_ (fitting_goto s s₁ w x y pc it hworkers hx (hrun it) hdrowsy hfit)
  rw [← hfibers]
  exact hit

/-! ## Steps -/

/-- Writing a state other than `EXEC` where there was another than `EXEC`, and writing
    `EXEC`, make nothing runnable. -/
theorem runnable_setState (s : Scheduler) (f : Nat) (st : FiberState) (it : FiberAndThread)
    (hst : s.states[f]? ≠ some .EXEC) (h : (s.setState f st).Runnable it) : s.Runnable it := by
  rcases it with ⟨⟨f'⟩ | ⟨c⟩, thread, ticket⟩
  · by_cases hff : f' = f
    · rw [Runnable, taskState, hff]
      exact hst
    · rw [Runnable, taskState, setState, List.getElem?_set_ne (Ne.symm hff)] at h
      exact h
  · exact fun hno => (by cases hno)

theorem runnable_newFiber (s : Scheduler) (it : FiberAndThread)
    (h : ({ s with states := s.states ++ [.INIT] } : Scheduler).Runnable it) : s.Runnable it := by
  rcases it with ⟨⟨f⟩ | ⟨c⟩, thread, ticket⟩
  · intro hexec
    have hlt : f < s.states.length := (List.getElem?_eq_some_iff.1 hexec).1
    refine h ?_
    rw [taskState, List.getElem?_append_left hlt]
    exact hexec
  · exact fun hno => (by cases hno)

/-- What is dropped when the idle counter is at zero: the workers that could have been
    meant are in the gap. -/
theorem able_of_drop (s : Scheduler) (hidle : s.idleThreadCount = s.count Pc.idle)
    (hzero : s.idleThreadCount ≤ 0)
    (hheeded : ∀ it ∈ s.fibers, s.Fitting it Pc.gap → s.Able it) (it : FiberAndThread)
    (hit : it ∈ s.fibers) (hfit : s.Fitting it (fun pc => pc.drowsy || pc.gap)) : s.Able it := by
  rcases hfit with ⟨hrun, w, x, hx, hpc, hfor⟩
  refine hheeded it hit ⟨hrun, w, x, hx, ?_, hfor⟩
  have hawake := not_idle s hidle hzero w x hx
  rw [Bool.or_eq_true] at hpc
  rcases hpc with hdrowsy | hgap
  · -- Of the drowsy places, two are counted as idle, and the counter is at zero.
    cases hplace : x.pc with
    | picked ft =>
        cases ft with
        | none => rfl
        | some ft =>
            rw [hplace] at hdrowsy
            cases hdrowsy
    | asking | waiting =>
        rw [hplace] at hawake
        cases hawake
    | _ =>
        rw [hplace] at hdrowsy
        cases hdrowsy
  · exact hgap

/-- A worker is in one of three kinds of places, or has left its loop. -/
theorem place_cases (pc : Pc) :
    pc.occupied = true ∨ pc.drowsy = true ∨ pc.prompt = true ∨ pc = .exited := by
  cases pc with
  | picked ft =>
      cases ft with
      | none => exact Or.inr (Or.inl rfl)
      | some ft => exact Or.inl rfl
  | entering | running => exact Or.inl rfl
  | asking | waiting => exact Or.inr (Or.inl rfl)
  | exited => exact Or.inr (Or.inr (Or.inr rfl))
  | _ => exact Or.inr (Or.inr (Or.inl rfl))

/-- An item that waits for a worker that is not busy has a wake-up on its way, which is one
    for every item. -/
theorem cared_of_owed (s : Scheduler) (h : s.Heard) (old it : FiberAndThread)
    (hold : old ∈ s.fibers) (howed : s.Owed old) : s.Cared it := by
  rcases howed with ⟨⟨hrun, w, x, hx, hpc, hfor⟩, hbusy⟩
  rw [Bool.or_eq_true] at hpc
  rcases hpc with hdrowsy | hprompt
  · -- The worker sleeps, so the item has been heard of.
    rcases h old hold ⟨hrun, w, x, hx, hdrowsy, hfor⟩ with hable | hwake
    · exact absurd hable hbusy
    · exact Or.inr hwake
  · exact cared_of_prompt s w x hx hprompt it

/-- An item is put behind others. -/
theorem cared_behind (s : Scheduler) (h : s.Heard) (it : FiberAndThread)
    (hheeded : s.Slept it → ∃ old ∈ s.fibers, s.Owed old) (hfit : s.Fitting it Pc.drowsy) :
    s.Cared it := by
  by_cases hslept : s.Slept it
  · rcases hheeded hslept with ⟨old, hold, howed⟩
    exact cared_of_owed s h old it hold howed
  · -- Somebody who could run it is awake: busy, or on the way to a scan.
    have hawake : ∃ (w : Nat) (x : Worker), s.workers[w]? = some x ∧ For w it ∧
        ¬(x.pc.drowsy = true ∨ x.pc = .exited) := by
      by_contra hno
      refine hslept ⟨hfit, ?_⟩
      intro w x hx hfor
      by_contra hpc
      exact hno ⟨w, x, hx, hfor, hpc⟩
    rcases hawake with ⟨w, x, hx, hfor, hpc⟩
    rcases place_cases x.pc with hocc | hdrowsy | hprompt | hexit
    · exact Or.inl ⟨w, x, hx, hocc, hfor⟩
    · exact absurd (Or.inl hdrowsy) hpc
    · exact cared_of_prompt s w x hx hprompt it
    · exact absurd (Or.inr hexit) hpc

/-- A call of `schedule`: either the queue was empty and `tickle` is called, or the new
    items are put behind others. -/
theorem heard_schedule (s : Scheduler) (h : s.Heard) (caller : Option Nat)
    (fcs : List (Option Task)) (thread : Option Nat)
    (hheeded : s.Heeded (.schedule caller fcs thread)) :
    ({ s with
      fibers := s.fibers ++ enqueued thread fcs s.tickets
      tickets := s.tickets + (enqueued thread fcs s.tickets).length
      ticklers := s.ticklers + if (s.scheduleAll thread fcs).1 then 1 else 0 } :
      Scheduler).Heard := by
  have hmore : ∀ it, s.Cared it → ({ s with
      fibers := s.fibers ++ enqueued thread fcs s.tickets
      tickets := s.tickets + (enqueued thread fcs s.tickets).length
      ticklers := s.ticklers + if (s.scheduleAll thread fcs).1 then 1 else 0 } :
      Scheduler).Cared it := by
    rintro it (hable | hbyte | htickle | hpoke | hprompt)
    · exact Or.inl hable
    · exact Or.inr (Or.inl hbyte)
    · exact Or.inr (Or.inr (Or.inl (Nat.lt_of_lt_of_le htickle (Nat.le_add_right _ _))))
    · exact Or.inr (Or.inr (Or.inr (Or.inl hpoke)))
    · exact Or.inr (Or.inr (Or.inr (Or.inr hprompt)))
  intro it hit hfit
  rcases List.mem_append.1 hit with hold | hnew
  · exact hmore it (h it hold hfit)
  · -- Only into an empty queue does an item come with a call of `tickle`.
    by_cases hempty : s.fibers = []
    · refine Or.inr (Or.inr (Or.inl ?_))
      simp only [scheduleAll_fst thread fcs s hempty (List.ne_nil_of_mem hnew), if_true]
      exact Nat.succ_pos _
    · exact hmore it (cared_behind s h it (hheeded hempty it hnew) hfit)

/-- A worker's own call of `tickle` finds nobody idle. -/
theorem heard_ownDrop (s : Scheduler) (hidle : s.idleThreadCount = s.count Pc.idle) (w : Nat)
    (x : Worker) (next : Next) (hx : s.workers[w]? = some x) (hpc : x.pc = .tickling next)
    (hzero : s.idleThreadCount ≤ 0)
    (hheeded : ∀ it ∈ s.fibers, s.Fitting it Pc.gap → s.Able it) :
    (s.goto w x next.pc).Heard := by
  intro it hit hfit
  have hbefore : s.Fitting it (fun pc => pc.drowsy || pc.gap) := by
    rcases hfit with ⟨hrun, w', x', hx', hdrowsy, hfor⟩
    refine ⟨hrun, w', ?_⟩
    rw [workers_goto s w w' x x next.pc hx] at hx'
    by_cases hw : w' = w
    · -- It was this worker that found nothing.
      rw [if_pos hw, Option.some.injEq] at hx'
      rw [← hx'] at hdrowsy
      refine ⟨x, by rw [hw]; exact hx, ?_, hfor⟩
      rw [hpc]
      rcases next with (_ | ft) | _
      · rfl
      · cases hdrowsy
      · cases hdrowsy
    · rw [if_neg hw] at hx'
      exact ⟨x', hx', Bool.or_eq_true_iff.2 (Or.inl hdrowsy), hfor⟩
  rcases able_of_drop s hidle hzero hheeded it hit hbefore with ⟨a, z, hz, hocc, hfor⟩
  -- The busy worker is another one: this one is in `tickle`.
  have ha : a ≠ w := by
    rintro rfl
    rw [hx, Option.some.injEq] at hz
    rw [← hz, hpc] at hocc
    cases hocc
  exact Or.inl ⟨a, z, other_goto s s w a x z x next.pc rfl hx ha hz, hocc, hfor⟩

theorem heard_move (s s' : Scheduler) (a : Action) (hmove : Move s a s') (hio : s.io = true)
    (hidle : s.idleThreadCount = s.count Pc.idle) (h : s.Heard) (hheeded : s.Heeded a) :
    s'.Heard := by
  cases hmove with
  | start =>
      intro it hit hfit
      exact cared_of_prompt _ s.workers.length ⟨.top, none, false⟩ List.getElem?_concat_length rfl
        it
  | newFiber =>
      intro it hit hfit
      exact h it hit ⟨runnable_newFiber s it hfit.1, hfit.2⟩
  | schedule caller fcs thread hcall hknown =>
      exact heard_schedule s h caller fcs thread hheeded
  | stop => exact h
  | tickle => exact fun it hit hfit => Or.inr (Or.inr (Or.inl (Nat.succ_pos _)))
  | test hsome hpos => exact fun it hit hfit => Or.inr (Or.inr (Or.inr (Or.inl (Nat.succ_pos _))))
  | dropTest hsome hzero =>
      intro it hit hfit
      have hle : s.idleThreadCount ≤ 0 := Int.not_lt.1 (fun hpos => hzero ⟨hio, hpos⟩)
      rcases hfit with ⟨hrun, w, x, hx, hdrowsy, hfor⟩
      exact Or.inl (able_of_drop s hidle hle (hheeded hle) it hit
        ⟨hrun, w, x, hx, Bool.or_eq_true_iff.2 (Or.inl hdrowsy), hfor⟩)
  | poke hsome => exact fun it hit hfit => Or.inr (Or.inl (Nat.succ_pos _))
  | drain w x hx hpc =>
      exact fun it hit hfit =>
        cared_of_prompt { s with pipe := 0 } w x hx (by rw [hpc]; rfl) it
  | take w x ft left tickleMe hx hpc hscan =>
      cases tickleMe with
      | true => exact heard_prompt _ w x x _ hx rfl
      | false =>
          -- The scan has left nothing that can be run.
          rcases scan_some s w _ left ft false hscan with ⟨pre, post, -, -, -, -, hquiet⟩
          intro it hit hfit
          exact absurd hfit.1 (hquiet rfl it hit)
  | miss w x left tickleMe hx hpc hscan =>
      cases tickleMe with
      | true => exact heard_prompt s w x x _ hx rfl
      | false =>
          intro it hit hfit
          exact absurd hfit.1 ((scan_none s w _ left false hscan).2 rfl it hit)
  | ownTest w x next hx hpc hpos => exact heard_prompt s w x x _ hx rfl
  | ownDrop w x next hx hpc hzero =>
      have hle : s.idleThreadCount ≤ 0 := Int.not_lt.1 (fun hpos => hzero ⟨hio, hpos⟩)
      exact heard_ownDrop s hidle w x next hx hpc hle (hheeded x next hx hpc hle)
  | ownPoke w x next hx hpc => exact fun it hit hfit => Or.inr (Or.inl (Nat.succ_pos _))
  | pickFiber w x f thread ticket st hx hpc hst hend =>
      exact heard_goto s s h w x x _ rfl hx rfl rfl rfl rfl (fun _ hrun => hrun) (by rw [hpc]; rfl)
        (fun _ => rfl) (fun hno => (by cases hno))
  | reuse w x c thread ticket g st hx hpc hg hst hend =>
      refine heard_goto s _ h w x _ _ rfl hx rfl rfl rfl rfl
        (fun it => runnable_setState s g .INIT it ?_) (by rw [hpc]; rfl) (fun _ => rfl)
        (fun hno => (by cases hno))
      rw [hst]
      rcases hend with (rfl | rfl) | rfl <;> decide
  | pickCallback w x c thread ticket hx hpc hg =>
      exact heard_goto s _ h w x _ _ rfl hx rfl rfl rfl rfl (runnable_newFiber s) (by rw [hpc]; rfl)
        (fun _ => rfl) (fun hno => (by cases hno))
  | exit w x hx hpc hterm =>
      exact heard_goto s s h w x x _ rfl hx rfl rfl rfl rfl (fun _ hrun => hrun) (by rw [hpc]; rfl)
        (by rw [hpc]; exact fun hno => (by cases hno)) (fun hno => (by cases hno))
  | idle w x hx hpc hterm =>
      exact heard_goto s _ h w x x _ rfl hx rfl rfl rfl rfl (fun _ hrun => hrun) (by rw [hpc]; rfl)
        (by rw [hpc]; exact fun hno => (by cases hno)) (by rw [hpc]; exact fun _ => rfl)
  | swapIn w x f isCb ticket st hx hpc hst hne =>
      refine heard_goto s _ h w x x _ rfl hx rfl rfl rfl rfl
        (fun it => runnable_setState s f .EXEC it ?_) (by rw [hpc]; rfl) (fun _ => rfl)
        (fun hno => (by cases hno))
      rw [hst]
      exact fun heq => hne (Option.some.inj heq)
  | askWait w x quiet hx hpc hio' =>
      exact heard_goto s s h w x x _ rfl hx rfl rfl rfl rfl (fun _ hrun => hrun) (by rw [hpc]; rfl)
        (by rw [hpc]; exact fun hno => (by cases hno)) (by rw [hpc]; exact fun _ => rfl)
  | requeue w x f isCb hx hpc =>
      refine heard_prompt _ w x x _ hx ?_
      cases s.fibers.isEmpty <;> rfl
  | _ =>
      -- The worker is on its way to its next scan.
      exact heard_prompt _ _ _ _ _ (by assumption) rfl

/-! ## Whole runs -/

/-- The invariant. -/
structure Watched (s : Scheduler) : Prop where
  io : s.io = true
  idle : s.idleThreadCount = s.count Pc.idle
  heard : s.Heard

theorem io_move (s s' : Scheduler) (a : Action) (hmove : Move s a s') : s'.io = s.io := by
  cases hmove <;> rfl

theorem watched_step (s : Scheduler) (a : Action) (s' : Scheduler) (h : s.Watched)
    (hheeded : s.Heeded a) (hstep : step a s = some s') : s'.Watched := by
  have hmove := move_of_step s a s' hstep
  exact ⟨(io_move s s' a hmove).trans h.io, idle_move s s' a hmove h.idle,
    heard_move s s' a hmove h.io h.idle h.heard hheeded⟩

/-- Any run of any number of workers of an `IOManager` in which every step is heeded.
    Whenever the queue holds an item that a worker in `epoll_wait` could run, a busy
    worker can run it, or there is a byte in the pipe, or a thread is committed to
    writing one. -/
theorem wakeup_kept (as : List Action) (s : Scheduler) (hrun : run step as (new true) = some s)
    (hheeded : Along step Heeded as (new true)) (it : FiberAndThread) (hit : it ∈ s.fibers)
    (hable : s.Runnable it) (w : Nat) (x : Worker) (hx : s.workers[w]? = some x)
    (hpc : x.pc = .waiting) (hfor : For w it) : s.Able it ∨ 0 < s.pipe ∨ s.Committed := by
  have hwatched := run_inv Watched watched_step as (new true) s
    ⟨rfl, rfl, fun it hit => absurd hit List.not_mem_nil⟩ hheeded hrun
  exact hwatched.heard it hit ⟨hable, w, x, hx, by rw [hpc]; rfl, hfor⟩

/-- A worker sleeps, a callback is put in the empty queue, and another one behind it. -/
theorem wakeup_kept_two :
    ∃ s, run step [.start, .go 0, .go 0, .ask 0 false, .schedule none [some (.cb 5)] none,
        .schedule none [some (.cb 6)] none] (new true) = some s ∧
      s.workers = [⟨.waiting, none, false⟩] ∧ ⟨.cb 6, none, 1⟩ ∈ s.fibers ∧
      (s.Able ⟨.cb 6, none, 1⟩ ∨ 0 < s.pipe ∨ s.Committed) := by
  have hgo : ∀ (s : Scheduler) (pc : Pc), s.workers = [⟨pc, none, false⟩] →
      (∀ next, pc ≠ .tickling next) → s.Heeded (.go 0) := by
    intro s pc hworkers hpc x next hx htickling
    rw [hworkers] at hx
    cases hx
    exact absurd htickling (hpc next)
  -- The first callback waits for the sleeping worker when the second one comes.
  have howed : ∀ (s : Scheduler), s.workers = [⟨.waiting, none, false⟩] →
      s.fibers = [⟨.cb 5, none, 0⟩] →
      s.Heeded (.schedule none [some (.cb 6)] none) := by
    intro s hworkers hfibers _ it _ _
    refine ⟨⟨.cb 5, none, 0⟩, by rw [hfibers]; exact List.mem_cons_self,
      ⟨fun hno => (by cases hno), 0, ⟨.waiting, none, false⟩, by rw [hworkers]; rfl, rfl,
        Or.inl rfl⟩, ?_⟩
    rintro ⟨w, x, hx, hocc, -⟩
    rw [hworkers] at hx
    have hwait := List.mem_singleton.1 (List.mem_of_getElem? hx)
    rw [hwait] at hocc
    cases hocc
  have hheeded : Along step Heeded [.start, .go 0, .go 0, .ask 0 false,
      .schedule none [some (.cb 5)] none, .schedule none [some (.cb 6)] none] (new true) := by
    refine ⟨trivial, hgo _ .top rfl ?_, hgo _ (.picked none) rfl ?_, trivial, ?_,
      howed _ rfl rfl, trivial⟩
    · exact fun next hno => (by cases hno)
    · exact fun next hno => (by cases hno)
    · exact fun hno => absurd rfl hno
  refine ⟨_, rfl, rfl, List.mem_cons_of_mem _ List.mem_cons_self, ?_⟩
  exact wakeup_kept _ _ rfl hheeded _ (List.mem_cons_of_mem _ List.mem_cons_self)
    (fun hno => (by cases hno)) 0 ⟨.waiting, none, false⟩ rfl rfl (Or.inl rfl)

/-- A worker has found nothing when a callback is put in the queue, and `tickle` finds the
    idle counter still at zero. Or: a worker runs a callback and another one is
    waiting for it, so the queue is not empty when a callback for the second worker
    is put in. In both cases the worker sleeps, it is the only one that can run the
    callback, and nobody is going to wake it. -/
theorem wakeup_lost :
    (∃ s, run step [.start, .go 0, .schedule none [some (.cb 5)] none, .test, .go 0,
        .ask 0 false] (new true) = some s ∧ s.fibers = [⟨.cb 5, none, 0⟩] ∧
      s.workers = [⟨.waiting, none, false⟩] ∧ s.pipe = 0 ∧ s.ticklers = 0 ∧ s.pokers = 0) ∧
    ∃ s, run step [.start, .schedule none [some (.cb 5)] none, .test, .go 0, .go 0, .go 0,
        .start, .go 1, .go 1, .ask 1 false, .schedule none [some (.cb 6)] (some 0), .test, .poke,
        .wake 1, .drain 1, .go 1, .go 1, .go 1, .go 1, .go 1, .ask 1 false,
        .schedule none [some (.cb 7)] (some 1)] (new true) = some s ∧
      s.fibers = [⟨.cb 6, some 0, 1⟩, ⟨.cb 7, some 1, 2⟩] ∧
      s.workers = [⟨.running 0 true, none, false⟩, ⟨.waiting, none, false⟩] ∧ s.pipe = 0 ∧
      s.ticklers = 0 ∧ s.pokers = 0 := by
  constructor
  · exact ⟨_, rfl, rfl, rfl, rfl, rfl, rfl⟩
  · exact ⟨_, rfl, rfl, rfl, rfl, rfl, rfl⟩

end Scheduler

end YkServer
