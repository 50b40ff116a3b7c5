import YkServer.Core.FdTable
import YkServer.Lib.Interleaving
import YkServer.Lib.Table
import YkServer.Theory.IOManager.Steps

/-!
# What the Table Remembers

Growing the table keeps every pointer in it. But the size a thread resizes to
depends on its own descriptor alone, and it is not compared with the size the
table has once the write lock is held. When another thread with a larger
descriptor was faster, the table shrinks, and what was registered in the part that
is cut off is not found any more. `table_kept` says that this is the only way to
lose anything.

## Main definitions

* `FdTable.Room`: A resize does not cut anything off.
* `FdTable.Remembers`: A step loses nothing.
* `FdTable.Inv`: What holds as long as there was room.

## Theorems

* `step_cases`: What a step can do.
* `table_kept`: The table is kept along a run exactly if there always was room.
* `table_shrinks`: A run in which it is not.
-/

namespace YkServer

open Lib

namespace FdTable

/-- The size that a thread asks for is not below the size the table has by then. -/
def Room (s : FdTable) : Action → Prop
  | .resize t => ∀ fd event cb, s.threads t = .grow fd event cb →
    s.fdContexts.length ≤ fd * 3 / 2
  | _ => True

/-- The table does not shrink, the pointers in it stay, and whoever cancels a
    registered event finds the entry it was registered with. -/
def Remembers (s s' : FdTable) : Prop :=
  s.fdContexts.length ≤ s'.fdContexts.length ∧
  (∀ fd p : Nat, s.fdContexts[fd]? = some p → s'.fdContexts[fd]? = some p) ∧
  ∀ r ∈ s'.returned,
    (∃ c, s'.objects[r.p]? = some c ∧ c.registered r.event = true) ∧
    ∀ t, s'.threads t = .idle →
      step (.cancelEvent t r.fd r.event) s' = some (s'.goto t (.cancelling r.fd r.event r.p))

/-! ## Resizing -/

theorem length_contextResize (size : Nat) (s : FdTable) :
    (s.contextResize size).fdContexts.length = size := by
  simp only [contextResize, List.length_append, List.length_take, List.length_range']
  omega

/-- Growing the table keeps what is in it. -/
theorem getElem?_contextResize (size : Nat) (s : FdTable) (h : s.fdContexts.length ≤ size)
    (fd p : Nat) (hp : s.fdContexts[fd]? = some p) :
    (s.contextResize size).fdContexts[fd]? = some p := by
  have hlt : fd < s.fdContexts.length := (List.getElem?_eq_some_iff.1 hp).1
  simp only [contextResize, List.take_of_length_le h, List.getElem?_append_left hlt, hp]

/-- Objects are not freed. -/
theorem objects_contextResize (size : Nat) (s : FdTable) (p : Nat) (c : FdContext)
    (hp : s.objects[p]? = some c) : (s.contextResize size).objects[p]? = some c := by
  have hlt : p < s.objects.length := (List.getElem?_eq_some_iff.1 hp).1
  simp only [contextResize, List.getElem?_append_left hlt, hp]

theorem good_contextResize (size : Nat) (s : FdTable) (h : ∀ c ∈ s.objects, c.Good) :
    ∀ c ∈ (s.contextResize size).objects, c.Good := by
  intro c hc
  rcases List.mem_append.1 hc with hold | hnew
  · exact h c hold
  · rcases List.mem_map.1 hnew with ⟨fd, -, rfl⟩
    exact FdContext.good_new fd

/-! ## The entry alone -/

/-- `addEvent` fails, or it adds the event to an entry that did not have it. -/
theorem addLocked_cases (c c' : FdContext) (h : c.Good) (e : Event) (cb : Option Nat)
    (caller : Caller) (ok b : Bool) (hadd : c.addLocked e cb caller ok = some (c', b)) :
    (b = false ∧ c' = c) ∨ b = true ∧ c'.Good ∧
      ∀ e', c'.registered e' = (c.registered e' || decide (e' = e)) := by
  cases ok with
  | false =>
      cases hadd
      exact Or.inl ⟨rfl, rfl⟩
  | true =>
      simp only [FdContext.addLocked, Bool.not_true, Bool.false_eq_true, if_false] at hadd
      split at hadd
      · cases hadd
        exact Or.inr ⟨rfl, FdContext.good_add h e _ (IOManager.waiting_newContext cb caller),
          fun e' => h.registered_add e e' _⟩
      · cases hadd

/-- `cancelEvent` finds nothing, fails, or takes the event out of the entry. -/
theorem cancelLocked_cases (c c' : FdContext) (h : c.Good) (e : Event) (ok b : Bool)
    (hcancel : c.cancelLocked e ok = some (c', b)) :
    (b = false ∧ c' = c) ∨ b = true ∧ c'.Good ∧
      ∀ e', c'.registered e' = (c.registered e' && decide (e' ≠ e)) := by
  by_cases hreg : c.registered e = true
  · have hbit : ¬c.events &&& e.bit = 0 := (hasBit_true c.events e).1 hreg
    rw [FdContext.cancelLocked, if_neg hbit] at hcancel
    cases ok with
    | false =>
        cases hcancel
        exact Or.inl ⟨rfl, rfl⟩
    | true =>
        simp only [Bool.not_true, Bool.false_eq_true, if_false,
          FdContext.triggerEvent_good h e hreg] at hcancel
        cases hcancel
        exact Or.inr ⟨rfl, FdContext.good_drop h e, fun e' => h.registered_drop e e'⟩
  · have hbit : c.events &&& e.bit = 0 :=
      (hasBit_false c.events e).1 (Bool.not_eq_true _ ▸ hreg)
    rw [FdContext.cancelLocked, if_pos hbit] at hcancel
    cases hcancel
    exact Or.inl ⟨rfl, rfl⟩

/-! ## Steps -/

/-- A thread goes on without touching the table. It has its entry from the table as it
    is, and waits for the write lock only if it has found the table too small. -/
def Moves (s s' : FdTable) : Prop :=
  ∃ t pc, s' = s.goto t pc ∧ (∀ fd e cb p, pc = .adding fd e cb p → s.fdContexts[fd]? = some p) ∧
    ∀ fd e cb, pc = .grow fd e cb → s.fdContexts.length ≤ fd

/-- A thread resizes the table. -/
def Resizes (s s' : FdTable) (a : Action) : Prop :=
  ∃ t fd e cb p, a = .resize t ∧ s.threads t = .grow fd e cb ∧
    (s.contextResize (fd * 3 / 2)).fdContexts[fd]? = some p ∧
    s' = (s.contextResize (fd * 3 / 2)).goto t (.adding fd e cb p)

/-- A thread registers an event. -/
def Adds (s s' : FdTable) : Prop :=
  ∃ t fd e cb p c c', s.threads t = .adding fd e cb p ∧ s.objects[p]? = some c ∧ c'.Good ∧
    (∀ e', c'.registered e' = (c.registered e' || decide (e' = e))) ∧
    s' = goto { s with objects := s.objects.set p c', returned := ⟨fd, e, p⟩ :: s.returned } t .idle

/-- A thread cancels one. -/
def Cancels (s s' : FdTable) : Prop :=
  ∃ t e p c c', s.objects[p]? = some c ∧ c'.Good ∧
    (∀ e', c'.registered e' = (c.registered e' && decide (e' ≠ e))) ∧
    s' = goto { s with
      objects := s.objects.set p c'
      returned := s.returned.filter (fun r => ¬(r.p = p ∧ r.event = e)) } t .idle

theorem moves_idle (s : FdTable) (t : Nat) : s.Moves (s.goto t .idle) :=
  ⟨t, .idle, rfl, fun _ _ _ _ h => (by cases h), fun _ _ _ h => (by cases h)⟩

/-- Everything a step can do. -/
theorem step_cases (s s' : FdTable) (a : Action) (hgood : ∀ c ∈ s.objects, c.Good)
    (hstep : step a s = some s') : s.Moves s' ∨ s.Resizes s' a ∨ s.Adds s' ∨ s.Cancels s' := by
  cases a with
  | addEvent t fd e cb =>
      rw [step] at hstep
      split at hstep
      · split at hstep
        · split at hstep
          · next p hp =>
              cases hstep
              refine Or.inl ⟨t, _, rfl, fun fd' e' cb' p' h => ?_, fun _ _ _ h => (by cases h)⟩
              cases h
              exact hp
          · cases hstep
        · -- The read lock is released here, and the write lock is taken later.
          next hsmall =>
            cases hstep
            refine Or.inl ⟨t, _, rfl, fun _ _ _ _ h => (by cases h), fun fd' e' cb' h => ?_⟩
            cases h
            exact Nat.le_of_not_lt hsmall
      · cases hstep
  | resize t =>
      rw [step] at hstep
      split at hstep
      · next fd e cb hpc =>
          simp only [] at hstep
          split at hstep
          · next p hp =>
              cases hstep
              exact Or.inr (Or.inl ⟨t, fd, e, cb, p, rfl, hpc, hp, rfl⟩)
          · cases hstep
      · cases hstep
  | add t caller ok =>
      rw [step] at hstep
      split at hstep
      · next fd e cb p hpc =>
          split at hstep
          · next c hc =>
              -- The entry is locked for what follows.
              have hcases := fun c' b =>
                addLocked_cases c c' (hgood c (List.mem_of_getElem? hc)) e cb caller ok b
              split at hstep
              · next c' hadd =>
                  cases hstep
                  rcases hcases c' true hadd with ⟨hno, -⟩ | ⟨-, hgood', hreg⟩
                  · cases hno
                  · exact Or.inr (Or.inr (Or.inl
                      ⟨t, fd, e, cb, p, c, c', hpc, hc, hgood', hreg, rfl⟩))
              · cases hstep
                exact Or.inl (s.moves_idle t)
              · cases hstep
          · cases hstep
      · cases hstep
  | cancelEvent t fd e =>
      rw [step] at hstep
      split at hstep
      · next hidle =>
          split at hstep
          · cases hstep
            -- The descriptor is beyond the table: `cancelEvent` returns false.
            have hsame : s.goto t .idle = s := by rw [goto, ← hidle, Function.update_eq_self]
            have hmoves := s.moves_idle t
            rw [hsame] at hmoves
            exact Or.inl hmoves
          · split at hstep
            · cases hstep
              exact Or.inl ⟨t, _, rfl, fun _ _ _ _ h => (by cases h), fun _ _ _ h => (by cases h)⟩
            · cases hstep
      · cases hstep
  | cancel t ok =>
      rw [step] at hstep
      split at hstep
      · next fd e p hpc =>
          split at hstep
          · next c hc =>
              have hcases := fun c' b =>
                cancelLocked_cases c c' (hgood c (List.mem_of_getElem? hc)) e ok b
              split at hstep
              · next c' hcancel =>
                  cases hstep
                  rcases hcases c' true hcancel with ⟨hno, -⟩ | ⟨-, hgood', hreg⟩
                  · cases hno
                  · exact Or.inr (Or.inr (Or.inr ⟨t, e, p, c, c', hc, hgood', hreg, rfl⟩))
              · cases hstep
                exact Or.inl (s.moves_idle t)
              · cases hstep
          · cases hstep
      · cases hstep

/-! ## The invariant -/

/-- The table has its first entries, nobody waits to grow it for one of them, and the
    entries are in order. As long as there was room, a thread that has its entry
    still has the one of the table, and so has every registered event. -/
structure Inv (s : FdTable) : Prop where
  large : 32 ≤ s.fdContexts.length
  grow : ∀ t fd e cb, s.threads t = .grow fd e cb → 32 ≤ fd
  good : ∀ c ∈ s.objects, c.Good
  adding : ∀ t fd e cb p, s.threads t = .adding fd e cb p → s.fdContexts[fd]? = some p
  returned : ∀ r ∈ s.returned, s.fdContexts[r.fd]? = some r.p ∧
    ∃ c, s.objects[r.p]? = some c ∧ c.registered r.event = true

theorem inv_new : new.Inv := by
  refine ⟨Nat.le_of_eq (length_contextResize 32 _).symm, fun _ _ _ _ h => (by cases h), ?_,
    fun _ _ _ _ _ h => (by cases h), fun r hr => absurd hr List.not_mem_nil⟩
  exact good_contextResize 32 _ (fun c hc => absurd hc List.not_mem_nil)

/-- Where the threads are after one has moved. -/
theorem threads_goto (s : FdTable) (t t' : Nat) (pc : TablePc) :
    (s.goto t pc).threads t' = if t' = t then pc else s.threads t' :=
  Function.update_apply s.threads t pc t'

/-- What is to be checked of the thread that moves, and of the rest of the state. -/
theorem inv_goto (s : FdTable) (h : s.Inv) (t : Nat) (pc : TablePc)
    (hadding : ∀ fd e cb p, pc = .adding fd e cb p → s.fdContexts[fd]? = some p)
    (hgrow : ∀ fd e cb, pc = .grow fd e cb → s.fdContexts.length ≤ fd) : (s.goto t pc).Inv := by
  refine ⟨h.large, ?_, h.good, ?_, h.returned⟩
  · intro t' fd e cb hpc
    rw [threads_goto] at hpc
    split at hpc
    · -- Whoever wants to grow the table has found it too small, and it had 32 entries.
      exact h.large.trans (hgrow fd e cb hpc)
    · exact h.grow t' fd e cb hpc
  · intro t' fd e cb p hpc
    rw [threads_goto] at hpc
    split at hpc
    · exact hadding fd e cb p hpc
    · exact h.adding t' fd e cb p hpc

theorem inv_contextResize (s : FdTable) (h : s.Inv) (size : Nat)
    (hroom : s.fdContexts.length ≤ size) : (s.contextResize size).Inv := by
  refine ⟨?_, h.grow, good_contextResize size s h.good, ?_, ?_⟩
  · rw [length_contextResize]
    exact h.large.trans hroom
  · intro t fd e cb p hpc
    exact getElem?_contextResize size s hroom fd p (h.adding t fd e cb p hpc)
  · intro r hr
    rcases h.returned r hr with ⟨htable, c, hc, hreg⟩
    exact ⟨getElem?_contextResize size s hroom _ _ htable, c,
      objects_contextResize size s _ c hc, hreg⟩

theorem good_set (s : FdTable) (h : s.Inv) (p : Nat) (c' : FdContext) (hgood : c'.Good) :
    ∀ c ∈ s.objects.set p c', c.Good := by
  intro c hc
  rcases List.mem_or_eq_of_mem_set hc with hold | rfl
  · exact h.good c hold
  · exact hgood

theorem inv_adds (s s' : FdTable) (h : s.Inv) (hadds : s.Adds s') : s'.Inv := by
  rcases hadds with ⟨t, fd, e, cb, p, c, c', hpc, hc, hgood, hreg, rfl⟩
  refine inv_goto { s with objects := s.objects.set p c', returned := ⟨fd, e, p⟩ :: s.returned }
    ⟨h.large, h.grow, good_set s h p c' hgood, h.adding, ?_⟩ t .idle
    (fun _ _ _ _ hno => (by cases hno)) (fun _ _ _ hno => (by cases hno))
  intro r hr
  simp only [getElem?_update s.objects p c c' hc]
  rcases List.mem_cons.1 hr with rfl | hr'
  · refine ⟨h.adding t fd e cb p hpc, c', if_pos rfl, ?_⟩
    simp only [hreg, decide_true, Bool.or_true]
  · rcases h.returned r hr' with ⟨htable, c₁, hc₁, hreg₁⟩
    refine ⟨htable, ?_⟩
    -- The event is added beside those of the entry.
    by_cases hp : r.p = p
    · rw [hp, hc, Option.some.injEq] at hc₁
      refine ⟨c', if_pos hp, ?_⟩
      rw [hreg, hc₁, hreg₁, Bool.true_or]
    · exact ⟨c₁, (if_neg hp).trans hc₁, hreg₁⟩

theorem inv_cancels (s s' : FdTable) (h : s.Inv) (hcancels : s.Cancels s') : s'.Inv := by
  rcases hcancels with ⟨t, e, p, c, c', hc, hgood, hreg, rfl⟩
  refine inv_goto { s with
      objects := s.objects.set p c'
      returned := s.returned.filter (fun r => ¬(r.p = p ∧ r.event = e)) }
    ⟨h.large, h.grow, good_set s h p c' hgood, h.adding, ?_⟩ t .idle
    (fun _ _ _ _ hno => (by cases hno)) (fun _ _ _ hno => (by cases hno))
  intro r hr
  simp only [getElem?_update s.objects p c c' hc]
  rcases List.mem_filter.1 hr with ⟨hr', hother⟩
  rcases h.returned r hr' with ⟨htable, c₁, hc₁, hreg₁⟩
  refine ⟨htable, ?_⟩
  by_cases hp : r.p = p
  · -- The same entry, so another event.
    have hne : r.event ≠ e := by
      intro heq
      simp only [hp, heq, and_self, not_true_eq_false, decide_false] at hother
      cases hother
    rw [hp, hc, Option.some.injEq] at hc₁
    refine ⟨c', if_pos hp, ?_⟩
    rw [hreg, hc₁, hreg₁, Bool.true_and, decide_eq_true_eq]
    exact hne
  · exact ⟨c₁, (if_neg hp).trans hc₁, hreg₁⟩

theorem inv_step (s : FdTable) (a : Action) (s' : FdTable) (h : s.Inv) (hroom : s.Room a)
    (hstep : step a s = some s') : s'.Inv := by
  rcases step_cases s s' a h.good hstep with ⟨t, pc, rfl, hadding, hgrow⟩ |
    ⟨t, fd, e, cb, p, rfl, hpc, hp, rfl⟩ | hadds | hcancels
  · exact inv_goto s h t pc hadding hgrow
  · refine inv_goto _ (inv_contextResize s h _ (hroom fd e cb hpc)) t _ ?_
      (fun _ _ _ hno => (by cases hno))
    intro fd' e' cb' p' heq
    cases heq
    exact hp
  · exact inv_adds s s' h hadds
  · exact inv_cancels s s' h hcancels

/-! ## Whole runs -/

/-- No step but a resize touches the table. -/
theorem fdContexts_step (s s' : FdTable) (a : Action) (h : s.Inv) (hroom : s.Room a)
    (hstep : step a s = some s') : s.fdContexts.length ≤ s'.fdContexts.length ∧
      ∀ fd p : Nat, s.fdContexts[fd]? = some p → s'.fdContexts[fd]? = some p := by
  rcases step_cases s s' a h.good hstep with ⟨t, pc, rfl, -⟩ |
    ⟨t, fd, e, cb, p, rfl, hpc, -, rfl⟩ | ⟨t, fd, e, cb, p, c, c', -, -, -, -, rfl⟩ |
    ⟨t, e, p, c, c', -, -, -, rfl⟩
  · exact ⟨Nat.le_refl _, fun _ _ hp => hp⟩
  · have hsize := hroom fd e cb hpc
    refine ⟨hsize.trans (Nat.le_of_eq (length_contextResize _ s).symm), ?_⟩
    exact getElem?_contextResize _ s hsize
  · exact ⟨Nat.le_refl _, fun _ _ hp => hp⟩
  · exact ⟨Nat.le_refl _, fun _ _ hp => hp⟩

/-- The look-up of `cancelEvent`. -/
theorem step_cancelEvent (s : FdTable) (t fd p : Nat) (e : Event) (hidle : s.threads t = .idle)
    (hp : s.fdContexts[fd]? = some p) :
    step (.cancelEvent t fd e) s = some (s.goto t (.cancelling fd e p)) := by
  have hlt : ¬s.fdContexts.length ≤ fd := Nat.not_le.2 (List.getElem?_eq_some_iff.1 hp).1
  rw [step, if_pos hidle, if_neg hlt, hp]

/-- A resize always finds the entry it was made for. -/
theorem step_resize (s : FdTable) (h : s.Inv) (t fd : Nat) (e : Event) (cb : Option Nat)
    (hpc : s.threads t = .grow fd e cb) :
    ∃ s', step (.resize t) s = some s' ∧ s'.fdContexts.length = fd * 3 / 2 := by
  have hlarge := h.grow t fd e cb hpc
  -- For a descriptor from 32 on, half as much again is enough.
  have hlt : fd < (s.contextResize (fd * 3 / 2)).fdContexts.length := by
    rw [length_contextResize]
    omega
  rcases hp : (s.contextResize (fd * 3 / 2)).fdContexts[fd]? with _ | p
  · exact absurd hlt (Nat.not_lt.2 (List.getElem?_eq_none_iff.1 hp))
  · refine ⟨(s.contextResize (fd * 3 / 2)).goto t (.adding fd e cb p), ?_,
      length_contextResize (fd * 3 / 2) s⟩
    simp only [step, hpc, hp]

/-- Whatever any number of threads do, at every step of the run the table is kept,
    entry by entry, and what is registered is found, exactly if no resize of the
    run asks for less than there is. -/
theorem table_kept (as : List Action) :
    Along step (fun s a => ∀ s', step a s = some s' → Remembers s s') as new ↔
      Along step Room as new := by
  refine along_iff Inv ?_ inv_step as new inv_new
  intro s a h
  constructor
  · intro hremembers
    cases a with
    | resize t =>
        intro fd e cb hpc
        -- The resize can be made, and then the table must not have become smaller.
        rcases step_resize s h t fd e cb hpc with ⟨s', hstep, hlength⟩
        rw [← hlength]
        exact (hremembers s' hstep).1
    | addEvent t fd e cb => trivial
    | add t caller ok => trivial
    | cancelEvent t fd e => trivial
    | cancel t ok => trivial
  · intro hroom s' hstep
    rcases fdContexts_step s s' a h hroom hstep with ⟨hlength, hsame⟩
    refine ⟨hlength, hsame, fun r hr => ?_⟩
    rcases (inv_step s a s' h hroom hstep).returned r hr with ⟨htable, hreg⟩
    exact ⟨hreg, fun t hidle => step_cancelEvent s' t r.fd r.p r.event hidle htable⟩

/-- Two threads find the table too small, for descriptors 50 and 32. The first makes
    it 75 entries long and registers its event, then the second makes it 48 and
    the event is not found any more. -/
theorem table_shrinks :
    ∃ s s', run step [.addEvent 1 50 .READ none, .addEvent 2 32 .READ none, .resize 1,
        .add 1 ⟨7, 8⟩ true] new = some s ∧
      step (.resize 2) s = some s' ∧ ⟨50, .READ, 50⟩ ∈ s'.returned ∧
      s.fdContexts.length = 75 ∧ s'.fdContexts.length = 48 ∧
      step (.cancelEvent 1 50 .READ) s' = some s' ∧ ¬Remembers s s' := by
  refine ⟨_, _, rfl, rfl, List.mem_cons_self, rfl, rfl, rfl, ?_⟩
  intro hremembers
  exact absurd hremembers.1 (by decide)

end FdTable

end YkServer
