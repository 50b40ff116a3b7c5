import YkServer.Theory.Scheduler.Moves
import Mathlib.Data.List.Nodup

/-!
# Exactly-Once Dispatch

An item leaves the queue when some worker's scan takes it, and it is the first that
this worker may take. Every item has a ticket, no two have the same, and a worker
that has taken one is the only one that ever has, so the fiber or callback of an
item is swapped in once at most. The active counter is the number of workers that
have taken an item and not finished with it, whichever way the loop goes.

## Main definitions

* `Pc.busy`: The worker has an item.
* `Pc.ticket`: The ticket of an item that was not run yet.
* `Scheduler.Dispatch`: The invariant.

## Theorems

* `active_move`, `tickets_move`: What a step keeps.
* `exactly_once`: What holds in every run.
-/

namespace YkServer

open Lib

/-- The worker has taken an item and has not finished with it. -/
def Pc.busy : Pc → Bool
  | .tickling (.picked (some _)) => true
  | .poking (.picked (some _)) => true
  | .picked (some _) => true
  | .entering _ _ _ => true
  | .running _ _ => true
  | .leaving _ _ => true
  | .back _ _ => true
  | .dropping => true
  | _ => false

/-- The ticket of the item that the worker has and has not run yet. -/
def Pc.ticket : Pc → Option Nat
  | .tickling (.picked (some ft)) => some ft.ticket
  | .poking (.picked (some ft)) => some ft.ticket
  | .picked (some ft) => some ft.ticket
  | .entering _ _ ticket => some ticket
  | _ => none

namespace Scheduler

/-! ## The active counter -/

/-- What comes after `tickle` has an item if `tickle` had it. -/
theorem busy_next (next : Next) : next.pc.busy = (Pc.tickling next).busy := by
  rcases next with (_ | ft) | _ <;> rfl

theorem busy_poking (next : Next) : (Pc.poking next).busy = (Pc.tickling next).busy := by
  rcases next with (_ | ft) | _ <;> rfl

theorem active_move (s s' : Scheduler) (a : Action) (hmove : Move s a s')
    (h : s.activeThreadCount = s.count Pc.busy) : s'.activeThreadCount = s'.count Pc.busy := by
  cases hmove with
  | start => exact h.trans (count_start s Pc.busy rfl).symm
  | newFiber | stop | tickle => exact h
  | schedule caller fcs thread hcall hknown => exact h
  | test hsome hidle | dropTest hsome hidle => exact h
  | poke hsome => exact h
  | drain w x hx hpc => exact h
  | take w x ft left tickleMe hx hpc hscan =>
      refine count_move s _ Pc.busy _ _ h w x x _ rfl hx ?_
      rw [hpc]
      cases tickleMe <;> simp [Pc.busy]
  | miss w x left tickleMe hx hpc hscan =>
      refine count_move s s Pc.busy _ _ h w x x _ rfl hx ?_
      rw [hpc]
      cases tickleMe <;> simp [Pc.busy]
  | ownTest w x next hx hpc hidle =>
      refine count_move s s Pc.busy _ _ h w x x _ rfl hx ?_
      rw [hpc, busy_poking, activeThreadCount_goto]
      omega
  | ownDrop w x next hx hpc hidle =>
      refine count_move s s Pc.busy _ _ h w x x _ rfl hx ?_
      rw [hpc, busy_next, activeThreadCount_goto]
      omega
  | ownPoke w x next hx hpc =>
      refine count_move s _ Pc.busy _ _ h w x x _ rfl hx ?_
      rw [hpc, busy_next, busy_poking]
      simp
  | requeue w x f isCb hx hpc =>
      refine count_move s _ Pc.busy _ _ h w x x _ rfl hx ?_
      rw [hpc]
      cases s.fibers.isEmpty <;> simp [Pc.busy]
  | _ =>
      -- What is left goes to one place, and is counted off where the item is done with.
      refine count_move s _ Pc.busy _ _ h _ _ _ _ rfl (by assumption) ?_
      simp [*, Pc.busy, setState]

/-! ## Tickets -/

/-- The items in the queue and those taken out of it. -/
def items (s : Scheduler) : List FiberAndThread := s.fibers ++ s.taken.map Prod.fst

/-- No two items have the same ticket, and pinned ones were taken by their thread. -/
structure Tickets (s : Scheduler) : Prop where
  nodup : (s.items.map FiberAndThread.ticket).Nodup
  below : ∀ it ∈ s.items, it.ticket < s.tickets
  pinned : ∀ ft w, (ft, w) ∈ s.taken → For w ft

theorem tickets_same (s s' : Scheduler) (h : s.Tickets) (hfibers : s'.fibers = s.fibers)
    (htaken : s'.taken = s.taken) (htickets : s'.tickets = s.tickets) : s'.Tickets := by
  have hitems : s'.items = s.items := by rw [items, items, hfibers, htaken]
  refine ⟨by rw [hitems]; exact h.nodup, ?_, by rw [htaken]; exact h.pinned⟩
  rw [hitems, htickets]
  exact h.below

/-- New items with tickets that were not given out. -/
theorem tickets_append (s s' : Scheduler) (h : s.Tickets) (new : List FiberAndThread)
    (hfibers : s'.fibers = s.fibers ++ new) (htaken : s'.taken = s.taken)
    (hnodup : (new.map FiberAndThread.ticket).Nodup)
    (hnew : ∀ it ∈ new, s.tickets ≤ it.ticket ∧ it.ticket < s'.tickets)
    (hle : s.tickets ≤ s'.tickets) : s'.Tickets := by
  -- The new items stand between the queue and what was taken; the order does not matter here.
  have hperm : s'.items.Perm (new ++ s.items) := by
    rw [items, items, hfibers, htaken, ← List.append_assoc]
    exact List.Perm.append_right _ List.perm_append_comm
  refine ⟨(hperm.map FiberAndThread.ticket).nodup_iff.2 ?_, ?_, by rw [htaken]; exact h.pinned⟩
  · rw [List.map_append, List.nodup_append]
    refine ⟨hnodup, h.nodup, ?_⟩
    intro t ht t' ht' heq
    rcases List.mem_map.1 ht with ⟨it, hit, rfl⟩
    rcases List.mem_map.1 ht' with ⟨it', hit', rfl⟩
    have hold := h.below it' hit'
    have hge := (hnew it hit).1
    omega
  · intro it hit
    rcases List.mem_append.1 (hperm.mem_iff.1 hit) with hmem | hmem
    · exact (hnew it hmem).2
    · exact Nat.lt_of_lt_of_le (h.below it hmem) hle

/-- An item is taken. -/
theorem tickets_take (s s' : Scheduler) (h : s.Tickets) (ft : FiberAndThread) (w : Nat)
    (pre post : List FiberAndThread) (hqueue : s.fibers = pre ++ ft :: post)
    (hfibers : s'.fibers = pre ++ post) (htaken : s'.taken = (ft, w) :: s.taken)
    (htickets : s'.tickets = s.tickets) (hfor : For w ft) : s'.Tickets := by
  -- The item changes from one of the two lists to the other.
  have hperm : s'.items.Perm s.items := by
    rw [items, items, hqueue, hfibers, htaken, List.map_cons]
    refine List.perm_middle.trans ?_
    rw [← List.cons_append]
    exact List.Perm.append_right _ List.perm_middle.symm
  refine ⟨(hperm.map FiberAndThread.ticket).nodup_iff.2 h.nodup, ?_, ?_⟩
  · intro it hit
    rw [htickets]
    exact h.below it (hperm.mem_iff.1 hit)
  · intro ft' w' hmem
    rw [htaken] at hmem
    rcases List.mem_cons.1 hmem with heq | hmem'
    · cases heq
      exact hfor
    · exact h.pinned ft' w' hmem'

theorem tickets_move (s s' : Scheduler) (a : Action) (hmove : Move s a s') (h : s.Tickets) :
    s'.Tickets := by
  cases hmove with
  | schedule caller fcs thread hcall hknown =>
      -- Two moves put items in the queue, and both give out new tickets.
      refine tickets_append s _ h _ rfl rfl (nodup_enqueued thread fcs s.tickets) ?_
        (Nat.le_add_right _ _)
      intro it hit
      exact (mem_enqueued thread fcs s.tickets it hit).2.2
  | requeue w x f isCb hx hpc =>
      refine tickets_append s _ h [⟨.fiber f, none, s.tickets⟩] rfl rfl (List.nodup_singleton _) ?_
        (Nat.le_succ _)
      intro it hit
      rw [List.mem_singleton.1 hit]
      exact ⟨Nat.le_refl _, Nat.lt_succ_self _⟩
  | take w x ft left tickleMe hx hpc hscan =>
      rcases scan_some s w _ left ft tickleMe hscan with ⟨pre, post, hqueue, rfl, helig, -⟩
      exact tickets_take s _ h ft w pre post hqueue rfl rfl rfl helig.1
  | _ => exact tickets_same s _ h rfl rfl rfl

/-! ## Running an item -/

/-- What has run was taken and ran once, and a worker that is going to run an item has
    taken it itself. -/
structure Runs (s : Scheduler) : Prop where
  nodup : s.executed.Nodup
  taken : ∀ t ∈ s.executed, ∃ p ∈ s.taken, p.1.ticket = t
  held : ∀ w x t, s.workers[w]? = some x → x.pc.ticket = some t →
    t ∉ s.executed ∧ ∃ ft, (ft, w) ∈ s.taken ∧ ft.ticket = t

/-- The taker of an item is known by the ticket. -/
theorem Tickets.taker {s : Scheduler} (h : s.Tickets) (p q : FiberAndThread × Nat)
    (hp : p ∈ s.taken) (hq : q ∈ s.taken) (heq : p.1.ticket = q.1.ticket) : p = q := by
  have hnodup := h.nodup
  rw [items, List.map_append, List.map_map] at hnodup
  exact List.inj_on_of_nodup_map hnodup.of_append_right hp hq heq

/-- An item in the queue has not run. -/
theorem not_executed (s : Scheduler) (h : s.Tickets) (hruns : s.Runs) (ft : FiberAndThread)
    (hft : ft ∈ s.fibers) : ft.ticket ∉ s.executed := by
  intro hmem
  rcases hruns.taken _ hmem with ⟨p, hp, heq⟩
  have hnodup := h.nodup
  rw [items, List.map_append, List.nodup_append] at hnodup
  exact hnodup.2.2 _ (List.mem_map_of_mem hft) _
    (List.mem_map_of_mem (List.mem_map_of_mem hp)) heq.symm

/-- A worker moves and has the item it had, or none. -/
theorem runs_goto (s s₁ : Scheduler) (h : s.Runs) (w : Nat) (x y : Worker) (pc : Pc)
    (hworkers : s₁.workers = s.workers) (htaken : s₁.taken = s.taken)
    (hexecuted : s₁.executed = s.executed) (hx : s.workers[w]? = some x)
    (hpc : pc.ticket = none ∨ pc.ticket = x.pc.ticket) : (s₁.goto w y pc).Runs := by
  have hgoto : (s₁.goto w y pc).taken = s.taken ∧ (s₁.goto w y pc).executed = s.executed :=
    ⟨htaken, hexecuted⟩
  refine ⟨by rw [hgoto.2]; exact h.nodup, by rw [hgoto.1, hgoto.2]; exact h.taken, ?_⟩
  intro w' x' t hx' ht
  rw [workers_goto s₁ w w' x y pc (by rw [hworkers]; exact hx), hworkers] at hx'
  rw [hgoto.1, hgoto.2]
  by_cases heq : w' = w
  · rw [if_pos heq, Option.some.injEq] at hx'
    rw [← hx'] at ht
    -- The worker that moves had the item before.
    rcases hpc with hnone | hsame
    · rw [hnone] at ht
      cases ht
    · rw [heq]
      exact h.held w x t hx (hsame ▸ ht)
  · rw [if_neg heq] at hx'
    exact h.held w' x' t hx' ht

theorem ticket_next (next : Next) : next.pc.ticket = (Pc.tickling next).ticket := by
  rcases next with (_ | ft) | _ <;> rfl

theorem ticket_poking (next : Next) : (Pc.poking next).ticket = (Pc.tickling next).ticket := by
  rcases next with (_ | ft) | _ <;> rfl

/-- An item is taken by a worker. -/
theorem runs_take (s : Scheduler) (h : s.Tickets) (hruns : s.Runs) (s₁ : Scheduler) (w : Nat)
    (x : Worker) (ft : FiberAndThread) (pc : Pc) (hft : ft ∈ s.fibers)
    (hworkers : s₁.workers = s.workers) (htaken : s₁.taken = (ft, w) :: s.taken)
    (hexecuted : s₁.executed = s.executed) (hx : s.workers[w]? = some x)
    (hpc : pc.ticket = some ft.ticket) : (s₁.goto w x pc).Runs := by
  have hgoto : (s₁.goto w x pc).taken = (ft, w) :: s.taken ∧
      (s₁.goto w x pc).executed = s.executed := ⟨htaken, hexecuted⟩
  refine ⟨by rw [hgoto.2]; exact hruns.nodup, ?_, ?_⟩
  · rw [hgoto.1, hgoto.2]
    intro t ht
    rcases hruns.taken t ht with ⟨p, hp, heq⟩
    exact ⟨p, List.mem_cons_of_mem _ hp, heq⟩
  · intro w' x' t hx' ht
    rw [workers_goto s₁ w w' x x pc (by rw [hworkers]; exact hx), hworkers] at hx'
    rw [hgoto.1, hgoto.2]
    by_cases heq : w' = w
    · rw [if_pos heq, Option.some.injEq] at hx'
      rw [← hx'] at ht
      rw [hpc, Option.some.injEq] at ht
      rw [← ht, heq]
      exact ⟨not_executed s h hruns ft hft, ft, List.mem_cons_self, rfl⟩
    · rw [if_neg heq] at hx'
      rcases hruns.held w' x' t hx' ht with ⟨hnot, ft', hmem, hticket⟩
      exact ⟨hnot, ft', List.mem_cons_of_mem _ hmem, hticket⟩

/-- The item of a worker is swapped in. No other worker has one with the same ticket. -/
theorem runs_swapIn (s : Scheduler) (h : s.Tickets) (hruns : s.Runs) (w : Nat) (x : Worker)
    (f : Nat) (isCb : Bool) (ticket : Nat) (hx : s.workers[w]? = some x)
    (hpc : x.pc = .entering f isCb ticket) :
    ({ s.setState f .EXEC with executed := ticket :: s.executed }.goto w x
      (.running f isCb)).Runs := by
  rcases hruns.held w x ticket hx (by rw [hpc]; rfl) with ⟨hfresh, ft, hmem, hticket⟩
  refine ⟨List.nodup_cons.2 ⟨hfresh, hruns.nodup⟩, ?_, ?_⟩
  · intro t ht
    rcases List.mem_cons.1 ht with rfl | ht'
    · exact ⟨(ft, w), hmem, hticket⟩
    · exact hruns.taken t ht'
  · intro w' x' t hx' ht
    have hx' := (workers_goto s w w' x x (.running f isCb) hx).symm.trans hx'
    by_cases heq : w' = w
    · rw [if_pos heq, Option.some.injEq] at hx'
      rw [← hx'] at ht
      cases ht
    · rw [if_neg heq] at hx'
      rcases hruns.held w' x' t hx' ht with ⟨hnot, ft', hmem', hticket'⟩
      refine ⟨fun hno => ?_, ft', hmem', hticket'⟩
      rcases List.mem_cons.1 hno with rfl | hold
      · -- An item with the same ticket was taken by the same worker.
        have hsame := h.taker (ft', w') (ft, w) hmem' hmem (hticket'.trans hticket.symm)
        exact heq (congrArg Prod.snd hsame)
      · exact hnot hold

theorem runs_move (s s' : Scheduler) (a : Action) (hmove : Move s a s') (h : s.Tickets)
    (hruns : s.Runs) : s'.Runs := by
  cases hmove with
  | start =>
      refine ⟨hruns.nodup, hruns.taken, ?_⟩
      intro w x t hx ht
      rcases getElem?_concat_eq_some s.workers _ x w hx with hold | ⟨-, rfl⟩
      · exact hruns.held w x t hold ht
      · cases ht
  | newFiber | stop | tickle => exact ⟨hruns.nodup, hruns.taken, hruns.held⟩
  | schedule caller fcs thread hcall hknown => exact ⟨hruns.nodup, hruns.taken, hruns.held⟩
  | test hsome hidle | dropTest hsome hidle => exact ⟨hruns.nodup, hruns.taken, hruns.held⟩
  | poke hsome => exact ⟨hruns.nodup, hruns.taken, hruns.held⟩
  | drain w x hx hpc => exact ⟨hruns.nodup, hruns.taken, hruns.held⟩
  | take w x ft left tickleMe hx hpc hscan =>
      rcases scan_some s w _ left ft tickleMe hscan with ⟨pre, post, hqueue, rfl, -⟩
      refine runs_take s h hruns _ w x ft _ ?_ rfl rfl rfl hx ?_
      · rw [hqueue]
        exact List.mem_append_right _ List.mem_cons_self
      · cases tickleMe <;> rfl
  | miss w x left tickleMe hx hpc hscan =>
      refine runs_goto s s hruns w x x _ rfl rfl rfl hx (Or.inl ?_)
      cases tickleMe <;> rfl
  | ownTest w x next hx hpc hidle =>
      refine runs_goto s s hruns w x x _ rfl rfl rfl hx (Or.inr ?_)
      rw [hpc, ticket_poking]
  | ownDrop w x next hx hpc hidle =>
      refine runs_goto s s hruns w x x _ rfl rfl rfl hx (Or.inr ?_)
      rw [hpc, ticket_next]
  | ownPoke w x next hx hpc =>
      refine runs_goto s _ hruns w x x _ rfl rfl rfl hx (Or.inr ?_)
      rw [hpc, ticket_next, ticket_poking]
  -- The ticket of an item is kept until its fiber is swapped in.
  | pickFiber w x f thread ticket st hx hpc hst hend =>
      refine runs_goto s s hruns w x x _ rfl rfl rfl hx (Or.inr ?_)
      rw [hpc]
      rfl
  | reuse w x c thread ticket g st hx hpc hg hst hend =>
      refine runs_goto s _ hruns w x _ _ rfl rfl rfl hx (Or.inr ?_)
      rw [hpc]
      rfl
  | pickCallback w x c thread ticket hx hpc hg =>
      refine runs_goto s _ hruns w x _ _ rfl rfl rfl hx (Or.inr ?_)
      rw [hpc]
      rfl
  | swapIn w x f isCb ticket st hx hpc hst hne =>
      exact runs_swapIn s h hruns w x f isCb ticket hx hpc
  | requeue w x f isCb hx hpc =>
      refine runs_goto s _ hruns w x x _ rfl rfl rfl hx (Or.inl ?_)
      cases s.fibers.isEmpty <;> rfl
  | _ =>
      -- The worker has no item any more, or had none.
      exact runs_goto s _ hruns _ _ _ _ rfl rfl rfl (by assumption) (Or.inl rfl)

/-! ## Whole runs -/

/-- The invariant. -/
structure Dispatch (s : Scheduler) : Prop where
  active : s.activeThreadCount = s.count Pc.busy
  tickets : s.Tickets
  runs : s.Runs

theorem dispatch_new (io : Bool) : (new io).Dispatch := by
  refine ⟨rfl, ⟨List.nodup_nil, fun it hit => absurd hit List.not_mem_nil,
    fun ft w hmem => absurd hmem List.not_mem_nil⟩, ⟨List.nodup_nil,
    fun t ht => absurd ht List.not_mem_nil, ?_⟩⟩
  intro w x t hx
  cases hx

theorem dispatch_step (s : Scheduler) (a : Action) (s' : Scheduler) (h : s.Dispatch)
    (hstep : step a s = some s') : s'.Dispatch := by
  have hmove := move_of_step s a s' hstep
  exact ⟨active_move s s' a hmove h.active, tickets_move s s' a hmove h.tickets,
    runs_move s s' a hmove h.tickets h.runs⟩

theorem dispatch_run (io : Bool) (as : List Action) (s : Scheduler)
    (h : run step as (new io) = some s) : s.Dispatch :=
  run_inv Dispatch (fun s a s' hs _ hstep => dispatch_step s a s' hs hstep) as (new io) s
    (dispatch_new io) (along_true as (new io)) h

/-- Nothing leaves the queue but what a worker's scan takes, and that is the first item
    that it may take. -/
theorem removal_move (s s' : Scheduler) (a : Action) (hmove : Move s a s') :
    (s'.taken = s.taken ∧ ∃ new, s'.fibers = s.fibers ++ new) ∨
      ∃ w ft pre post, a = .go w ∧ s.fibers = pre ++ ft :: post ∧ s'.fibers = pre ++ post ∧
        s'.taken = (ft, w) :: s.taken ∧ s.Eligible w ft ∧ ∀ it ∈ pre, ¬s.Eligible w it := by
  cases hmove with
  | take w x ft left tickleMe hx hpc hscan =>
      rcases scan_some s w _ left ft tickleMe hscan with ⟨pre, post, hqueue, rfl, helig, hpre, -⟩
      exact Or.inr ⟨w, ft, pre, post, rfl, hqueue, rfl, rfl, helig, hpre⟩
  | schedule caller fcs thread hcall hknown => exact Or.inl ⟨rfl, _, rfl⟩
  | requeue w x f isCb hx hpc => exact Or.inl ⟨rfl, _, rfl⟩
  | _ => exact Or.inl ⟨rfl, [], (List.append_nil _).symm⟩

/-- A scan that takes nothing has found nothing to take. -/
theorem scan_complete (s s' : Scheduler) (w : Nat) (x : Worker) (hx : s.workers[w]? = some x)
    (hpc : x.pc = .top) (hstep : step (.go w) s = some s') (hnone : s'.taken = s.taken) :
    ∀ it ∈ s.fibers, ¬s.Eligible w it := by
  have hgo : step (.go w) s = s.go w x := by simp only [step, hx]
  rw [hgo, go, hpc] at hstep
  rcases hscan : s.scan w s.fibers with ⟨_ | ft, left, tickleMe⟩
  · exact (scan_none s w s.fibers left tickleMe hscan).1
  · -- A scan that finds an item takes it.
    rw [hscan] at hstep
    cases hstep
    exact absurd (congrArg List.length hnone) (Nat.succ_ne_self _)

/-- In every run of any number of workers: an item is taken out of the queue by one worker
    at most and swapped in once at most, and only after it was taken; a pinned
    item is taken by its thread; the active counter is the number of workers that
    have an item; and at every step nothing leaves the queue but the first item
    that a scanning worker may take. -/
theorem exactly_once (io : Bool) (as : List Action) (s : Scheduler)
    (h : run step as (new io) = some s) :
    (s.taken.map (fun p => p.1.ticket)).Nodup ∧
    (∀ it ∈ s.fibers, ∀ p ∈ s.taken, p.1.ticket ≠ it.ticket) ∧
    s.executed.Nodup ∧ (∀ t ∈ s.executed, ∃ p ∈ s.taken, p.1.ticket = t) ∧
    (∀ ft w, (ft, w) ∈ s.taken → ft.thread = none ∨ ft.thread = some w) ∧
    s.activeThreadCount = s.count Pc.busy ∧ 0 ≤ s.activeThreadCount ∧
    (∀ a s', step a s = some s' →
      (s'.taken = s.taken ∧ ∃ new, s'.fibers = s.fibers ++ new) ∨
        ∃ w ft pre post, a = .go w ∧ s.fibers = pre ++ ft :: post ∧ s'.fibers = pre ++ post ∧
          s'.taken = (ft, w) :: s.taken ∧ s.Eligible w ft ∧ ∀ it ∈ pre, ¬s.Eligible w it) ∧
    ∀ w x s', s.workers[w]? = some x → x.pc = .top → step (.go w) s = some s' →
      s'.taken = s.taken → ∀ it ∈ s.fibers, ¬s.Eligible w it := by
  have hinv := dispatch_run io as s h
  have hnodup := hinv.tickets.nodup
  rw [items, List.map_append, List.map_map, List.nodup_append] at hnodup
  refine ⟨hnodup.2.1, ?_, hinv.runs.nodup, hinv.runs.taken, hinv.tickets.pinned, hinv.active, ?_,
    ?_, ?_⟩
  · intro it hit p hp heq
    exact hnodup.2.2 _ (List.mem_map_of_mem hit) _ (List.mem_map_of_mem hp) heq.symm
  · rw [hinv.active]
    exact s.count_nonneg Pc.busy
  · intro a s' hstep
    exact removal_move s s' a (move_of_step s a s' hstep)
  · intro w x s' hx hpc hstep hnone
    exact scan_complete s s' w x hx hpc hstep hnone

/-- Two workers, a fiber for the second and a callback for any of them. The first
    leaves the fiber and takes the callback, the second takes the fiber. -/
theorem exactly_once_pinned :
    ∃ s, run step [.start, .start, .newFiber, .schedule none [some (.fiber 0)] (some 1),
        .schedule none [some (.cb 5)] none, .go 0, .go 0, .go 0, .go 0, .go 1, .go 1, .go 1]
        (new true) = some s ∧
      s.executed = [0, 1] ∧ s.taken.map Prod.snd = [1, 0] ∧ s.activeThreadCount = 2 ∧
      s.executed.Nodup := by
  have hrun : (run step [.start, .start, .newFiber, .schedule none [some (.fiber 0)] (some 1),
      .schedule none [some (.cb 5)] none, .go 0, .go 0, .go 0, .go 0, .go 1, .go 1, .go 1]
      (new true)).map (fun s => (s.executed, s.taken.map Prod.snd, s.activeThreadCount)) =
      some ([0, 1], [1, 0], 2) := by decide
  rcases Option.map_eq_some_iff.1 hrun with ⟨s, hs, hparts⟩
  simp only [Prod.mk.injEq] at hparts
  exact ⟨s, hs, hparts.1, hparts.2.1, hparts.2.2, (exactly_once true _ s hs).2.2.1⟩

end Scheduler

end YkServer
