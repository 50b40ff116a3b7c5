import YkServer.Lib.Interleaving
import YkServer.Theory.Timer.OrderedSet

/-!
# The Life of a Timer

What every operation of the timer manager keeps, and what follows for whole
runs. The set is in order, and it holds a timer exactly as long as the timer has a
callback. So whoever looks for a timer that has one finds it, and a timer that has
lost its callback, because it was cancelled or because it was a one-shot timer
that expired, is not in the set and is not handed out again.

All that is said about an operation is `Effect`. A timer that moves is first taken
out of the set, then written, then put back, so no key changes in the set.

## Main definitions

* `TimerManager.live`, `TimerManager.cbOf`: Whether the timer has a callback, and which.
* `TimerManager.Inv`: The set is in order and holds the live timers.
* `TimerManager.Effect`: What an operation does.
* `Timer.expire`: What expiring does to a timer.

## Theorems

* `collect_exact`, `listExpiredCb_collect`: The loop over the expired timers, and where it
  starts.
* `perform_effect`: Every operation returns, and has such an effect.
* `TimerHistory.run_total`, `TimerHistory.silent_run`: Whole runs.
* `timer_set`: What holds after every run.
-/

namespace YkServer

open Lib

/-- What expiring does to a timer. -/
def Timer.expire (now : UInt64) (t : Timer) : Timer :=
  if t.recurring then { t with next := now + t.ms } else { t with cb := none }

namespace TimerManager

/-- The timer has a callback. -/
def live (s : TimerManager) (p : Nat) : Bool :=
  match s.heap p with
  | some t => t.cb.isSome
  | none => false

/-- The callback of a timer. -/
def cbOf (s : TimerManager) (p : Nat) : Option Nat := (s.heap p).bind Timer.cb

/-- The set is in order, and the timers in it are those that have a callback. -/
structure Inv (s : TimerManager) : Prop where
  sorted : s.Sorted
  mem : ∀ p, p ∈ s.timers ↔ s.live p = true

/-- Timers stay, recurring ones stay recurring, no callback comes back, and the
    one-shot timers among `out` lose theirs. -/
def Kept (s s' : TimerManager) (out : List Nat) : Prop :=
  ∀ p t, s.heap p = some t → ∃ t', s'.heap p = some t' ∧ t'.recurring = t.recurring ∧
    (t.cb = none → t'.cb = none) ∧ (p ∈ out → t.recurring = false → t'.cb = none)

/-- An operation that hands out the callbacks of `out`. -/
structure Effect (s s' : TimerManager) (out : List Nat) : Prop where
  inv : s'.Inv
  nodup : out.Nodup
  live : ∀ p ∈ out, s.live p = true
  kept : Kept s s' out

theorem live_some (s : TimerManager) (p : Nat) (t : Timer) (h : s.heap p = some t) :
    s.live p = t.cb.isSome := by
  simp only [live, h]

theorem cbOf_some (s : TimerManager) (p : Nat) (t : Timer) (h : s.heap p = some t) :
    s.cbOf p = t.cb := by
  rw [cbOf, h, Option.bind_some]

theorem live_eq_cbOf (s : TimerManager) (p : Nat) : s.live p = (s.cbOf p).isSome := by
  unfold live cbOf
  rcases s.heap p with _ | t <;> rfl

theorem live_none (s : TimerManager) (p : Nat) (h : s.heap p = none) : s.live p = false := by
  simp only [live, h]

theorem live_withTimer (s : TimerManager) (p q : Nat) (t : Timer) :
    (s.withTimer p t).live q = if q = p then t.cb.isSome else s.live q := by
  by_cases hq : q = p
  · rw [if_pos hq, live_some _ _ t]
    rw [heap_withTimer, if_pos hq]
  · rw [if_neg hq]
    simp only [live, heap_withTimer, if_neg hq]

theorem inv_new (now : UInt64) : (new now).Inv :=
  ⟨List.Pairwise.nil, fun _ => ⟨fun h => absurd h List.not_mem_nil, fun h => by cases h⟩⟩

/-! ## Keeping timers -/

theorem kept_same (s s' : TimerManager) (h : s'.heap = s.heap) : Kept s s' [] := by
  intro p t hp
  exact ⟨t, by rw [h]; exact hp, rfl, fun hcb => hcb, fun hno => absurd hno List.not_mem_nil⟩

/-- Writing one timer. -/
theorem kept_heap (s s' : TimerManager) (p : Nat) (t t' : Timer) (out : List Nat)
    (hheap : ∀ q, s'.heap q = if q = p then some t' else s.heap q) (hp : s.heap p = some t)
    (hrec : t'.recurring = t.recurring) (hcb : t.cb = none → t'.cb = none)
    (hout : ∀ q ∈ out, q = p) (hshot : p ∈ out → t.recurring = false → t'.cb = none) :
    Kept s s' out := by
  intro q u hq
  by_cases hqp : q = p
  · subst hqp
    rw [hp, Option.some.injEq] at hq
    subst hq
    exact ⟨t', by rw [hheap, if_pos rfl], hrec, hcb, hshot⟩
  · exact ⟨u, by rw [hheap, if_neg hqp]; exact hq, rfl, fun h => h,
      fun hmem => absurd (hout q hmem) hqp⟩

/-! ## The operations -/

/-- The set is in order, and the timers with a callback are those in it and those of
    `rest`, which are not in it. -/
structure Apart (s : TimerManager) (rest : List Nat) : Prop where
  sorted : s.Sorted
  nodup : rest.Nodup
  out : ∀ p ∈ rest, p ∉ s.timers
  mem : ∀ p, p ∈ s.timers ∨ p ∈ rest ↔ s.live p = true

theorem Inv.apart {s : TimerManager} (h : s.Inv) : Apart s [] := by
  refine ⟨h.sorted, List.nodup_nil, fun p hp => absurd hp List.not_mem_nil, fun p => ?_⟩
  rw [← h.mem]
  exact ⟨fun hor => hor.resolve_right List.not_mem_nil, Or.inl⟩

theorem Apart.inv {s : TimerManager} (h : Apart s []) : s.Inv := by
  refine ⟨h.sorted, fun p => ?_⟩
  rw [← h.mem]
  exact ⟨Or.inl, fun hor => hor.resolve_right List.not_mem_nil⟩

/-- A timer with a callback exists. -/
theorem heap_of_live (s : TimerManager) (p : Nat) (h : s.live p = true) :
    ∃ t, s.heap p = some t := by
  rcases hp : s.heap p with _ | t
  · rw [live_none s p hp] at h
    cases h
  · exact ⟨t, rfl⟩

/-- A new timer, before it is inserted. -/
theorem apart_construct (s : TimerManager) (rest : List Nat) (h : Apart s rest) (p : Nat)
    (t : Timer) (hfree : s.heap p = none) (hcb : t.cb.isSome = true) :
    Apart (s.withTimer p t) (p :: rest) := by
  -- Only objects that exist are in the set or wait for it.
  have hnot : ¬(p ∈ s.timers ∨ p ∈ rest) := by
    rw [h.mem, live_none s p hfree]
    exact Bool.false_ne_true
  rcases not_or.1 hnot with ⟨hset, hrest⟩
  refine ⟨sorted_withTimer s h.sorted p t hset, List.nodup_cons.2 ⟨hrest, h.nodup⟩, ?_, ?_⟩
  · intro q hq
    rcases List.mem_cons.1 hq with rfl | hq'
    · exact hset
    · exact h.out q hq'
  · intro q
    have hmem : q ∈ (s.withTimer p t).timers ↔ q ∈ s.timers := Iff.rfl
    rw [hmem, List.mem_cons, live_withTimer]
    by_cases hq : q = p
    · rw [if_pos hq]
      exact ⟨fun _ => hcb, fun _ => Or.inr (Or.inl hq)⟩
    · rw [if_neg hq, ← h.mem]
      exact ⟨fun hor => hor.imp_right (fun hmem => hmem.resolve_left hq),
        fun hor => hor.imp_right Or.inr⟩

/-- Inserting a timer. -/
theorem apart_plus (s : TimerManager) (rest : List Nat) (h : Apart s rest) (p : Nat)
    (hp : p ∈ rest) : Apart (s.plus p) (rest.erase p) := by
  have hout := h.out p hp
  refine ⟨sorted_plus s h.sorted p hout, h.nodup.erase p, ?_, ?_⟩
  · intro q hq hmem
    rcases (List.Nodup.mem_erase_iff h.nodup).1 hq with ⟨hne, hq'⟩
    exact h.out q hq' (((mem_plus s p q).1 hmem).resolve_left hne)
  · intro q
    have hlive : (s.plus p).live q = s.live q := rfl
    rw [mem_plus, hlive, ← h.mem, List.Nodup.mem_erase_iff h.nodup]
    by_cases hq : q = p
    · subst hq
      exact ⟨fun _ => Or.inr hp, fun _ => Or.inl (Or.inl rfl)⟩
    · exact ⟨fun hor => hor.imp (fun hmem => hmem.resolve_left hq) And.right,
        fun hor => hor.imp Or.inr (fun hmem => ⟨hq, hmem⟩)⟩

/-- Taking one out. -/
theorem apart_without (s : TimerManager) (rest : List Nat) (h : Apart s rest) (p : Nat)
    (hp : p ∈ s.timers) : Apart (s.without p) (p :: rest) := by
  have hnot : p ∉ rest := fun hno => h.out p hno hp
  refine ⟨sorted_without s h.sorted p, List.nodup_cons.2 ⟨hnot, h.nodup⟩, ?_, ?_⟩
  · intro q hq hmem
    rcases (mem_without s h.sorted p hp q).1 hmem with ⟨hset, hne⟩
    exact h.out q ((List.mem_cons.1 hq).resolve_left hne) hset
  · intro q
    have hlive : (s.without p).live q = s.live q := rfl
    rw [mem_without s h.sorted p hp, hlive, ← h.mem, List.mem_cons]
    by_cases hq : q = p
    · subst hq
      exact ⟨fun _ => Or.inl hp, fun _ => Or.inr (Or.inl rfl)⟩
    · exact ⟨fun hor => hor.imp And.left (fun hmem => hmem.resolve_left hq),
        fun hor => hor.imp (fun hmem => ⟨hmem, hq⟩) Or.inr⟩

/-- Writing one that is out of the set. -/
theorem apart_write (s : TimerManager) (rest : List Nat) (h : Apart s rest) (p : Nat) (t : Timer)
    (hp : p ∈ rest) (hcb : t.cb.isSome = true) : Apart (s.withTimer p t) rest := by
  refine ⟨sorted_withTimer s h.sorted p t (h.out p hp), h.nodup, h.out, ?_⟩
  intro q
  have hmem : q ∈ (s.withTimer p t).timers ↔ q ∈ s.timers := Iff.rfl
  rw [hmem, live_withTimer]
  by_cases hq : q = p
  · subst hq
    rw [if_pos rfl]
    exact ⟨fun _ => hcb, fun _ => Or.inr hp⟩
  · rw [if_neg hq]
    exact h.mem q

/-- Taking the callback of one that is out of the set. -/
theorem apart_kill (s : TimerManager) (rest : List Nat) (p : Nat) (t : Timer)
    (h : Apart s (p :: rest)) (hcb : t.cb.isSome = false) : Apart (s.withTimer p t) rest := by
  rcases List.nodup_cons.1 h.nodup with ⟨hnot, hnodup⟩
  have hout := h.out p List.mem_cons_self
  refine ⟨sorted_withTimer s h.sorted p t hout, hnodup,
    fun q hq => h.out q (List.mem_cons_of_mem _ hq), ?_⟩
  intro q
  have hmem : q ∈ (s.withTimer p t).timers ↔ q ∈ s.timers := Iff.rfl
  rw [hmem, live_withTimer]
  by_cases hq : q = p
  · subst hq
    rw [if_pos rfl, hcb]
    exact ⟨fun hor => absurd hor (not_or.2 ⟨hout, hnot⟩), fun hno => by cases hno⟩
  · rw [if_neg hq, ← h.mem, List.mem_cons]
    exact ⟨fun hor => hor.imp_right Or.inr,
      fun hor => hor.imp_right (fun hmem => hmem.resolve_left hq)⟩

/-- A timer taken out, written and put back. -/
theorem apart_moved (s : TimerManager) (rest : List Nat) (h : Apart s rest) (p : Nat) (t : Timer)
    (hp : p ∈ s.timers) (hcb : t.cb.isSome = true) :
    Apart (((s.without p).withTimer p t).plus p) rest := by
  -- Out of the set, the key of the timer may change; then it is put back where it belongs.
  have hout := apart_write _ _ (apart_without s rest h p hp) p t List.mem_cons_self hcb
  have hback := apart_plus _ _ hout p List.mem_cons_self
  rw [List.erase_cons_head] at hback
  exact hback

/-- The test of `addTimer(val, lock)`. -/
def atFront (s : TimerManager) (p : Nat) : Bool :=
  decide (place s.rank (s.rank p) s.timers = 0) && !s.tickled

theorem addTimerLocked_spec (s : TimerManager) (p : Nat) (hp : p ∉ s.timers) :
    addTimerLocked p s =
      .ok (s.atFront p) { s.plus p with tickled := s.tickled || s.atFront p } := by
  rw [addTimerLocked, bind_ok _ _ _ _ _ (insert_spec s p hp), bind_ok _ _ _ _ _ (get_apply _)]
  have hfront : (decide (place s.rank (s.rank p) s.timers = 0) && !(s.plus p).tickled) =
      s.atFront p := rfl
  simp only [hfront]
  cases hat : s.atFront p with
  | true =>
      rw [if_pos rfl, bind_ok _ _ _ _ _ (modify_apply _ _), Bool.or_true]
      rfl
  | false =>
      rw [if_neg (by decide), Bool.or_false]
      rfl

/-- The invariant does not look at the flag. -/
theorem inv_tickled (s : TimerManager) (h : s.Inv) (b : Bool) :
    ({ s with tickled := b } : TimerManager).Inv := ⟨h.sorted, h.mem⟩

/-- A new timer in free memory. -/
theorem addTimer_spec (s : TimerManager) (h : s.Inv) (p : Nat) (ms : UInt64) (cb : Nat)
    (recurring : Bool) (now : UInt64) (hfree : s.heap p = none) (s₁ : TimerManager)
    (hs₁ : s₁ = s.withTimer p ⟨recurring, ms, now + ms, some cb⟩) :
    addTimer p ms cb recurring now s =
      .ok (s₁.atFront p) { s₁.plus p with tickled := s₁.tickled || s₁.atFront p } := by
  have hp : p ∉ s₁.timers := by
    rw [hs₁]
    change p ∉ s.timers
    rw [h.mem, live_none s p hfree]
    exact Bool.false_ne_true
  have hnew : construct p ms cb recurring now s = .ok () s₁ := by
    simp only [construct, hfree]
    rw [hs₁]
    rfl
  exact (bind_ok _ _ _ _ _ hnew).trans (addTimerLocked_spec s₁ p hp)

theorem addTimer_effect (s : TimerManager) (h : s.Inv) (p : Nat) (ms : UInt64) (cb : Nat)
    (recurring : Bool) (now : UInt64) (hfree : s.heap p = none) :
    ∃ a s', addTimer p ms cb recurring now s = .ok a s' ∧ Effect s s' [] := by
  have hapart := apart_plus _ _ (apart_construct s [] h.apart p ⟨recurring, ms, now + ms, some cb⟩
    hfree rfl) p List.mem_cons_self
  rw [List.erase_cons_head] at hapart
  refine ⟨_, _, addTimer_spec s h p ms cb recurring now hfree _ rfl,
    ⟨inv_tickled _ hapart.inv _, List.nodup_nil, fun q hq => absurd hq List.not_mem_nil, ?_⟩⟩
  intro q t hq
  refine ⟨t, ?_, rfl, fun hcb => hcb, fun hno => absurd hno List.not_mem_nil⟩
  have hne : q ≠ p := by
    rintro rfl
    rw [hfree] at hq
    cases hq
  exact (heap_withTimer s p q _).trans (by rw [if_neg hne]; exact hq)

/-- Nothing happens. -/
theorem effect_same (s s' : TimerManager) (h : s'.Inv) (hheap : s'.heap = s.heap) :
    Effect s s' [] :=
  ⟨h, List.nodup_nil, fun _ hp => absurd hp List.not_mem_nil, kept_same s s' hheap⟩

theorem cancel_dead (s : TimerManager) (p : Nat) (t : Timer) (hp : s.heap p = some t)
    (hcb : ¬t.cb.isSome = true) : cancel p s = .ok false s := by
  rw [cancel, bind_ok _ _ _ _ _ (load_some s p t hp)]
  simp only [hcb, Bool.false_eq_true, if_false]
  rfl

/-- The callback goes first. The key stays, so the timer is found. -/
theorem cancel_live (s : TimerManager) (h : s.Sorted) (p : Nat) (t : Timer)
    (hp : s.heap p = some t) (hcb : t.cb.isSome = true) (hmem : p ∈ s.timers) :
    cancel p s = .ok true ((s.without p).withTimer p { t with cb := none }) := by
  have hrank : (s.withTimer p { t with cb := none }).rank = s.rank :=
    rank_withTimer s p _ t hp rfl
  have hsorted : (s.withTimer p { t with cb := none }).Sorted := by
    unfold Sorted
    rw [hrank]
    exact h
  -- The comparator does not look at callbacks, so writing and taking out may be exchanged.
  have hswap : (s.withTimer p { t with cb := none }).without p =
      (s.without p).withTimer p { t with cb := none } := by
    unfold without
    rw [hrank]
    rfl
  rw [cancel, bind_ok _ _ _ _ _ (load_some s p t hp)]
  simp only [hcb, if_true]
  rw [bind_ok _ _ _ _ _ (store_in s p { t with cb := none } t hp rfl),
    bind_ok _ _ _ _ _ (find_mem _ hsorted p hmem),
    bind_ok _ _ _ _ _ (erase_found _ p), hswap, pure_apply]

theorem cancel_effect (s : TimerManager) (h : s.Inv) (p : Nat) (t : Timer)
    (hp : s.heap p = some t) :
    ∃ a s', cancel p s = .ok a s' ∧ Effect s s' [] ∧
      (a = true → ∃ t', s'.heap p = some t' ∧ t'.cb = none) := by
  by_cases hcb : t.cb.isSome = true
  · have hmem : p ∈ s.timers := by
      rw [h.mem, live_some s p t hp]
      exact hcb
    have hapart := apart_kill _ _ p { t with cb := none } (apart_without s [] h.apart p hmem) rfl
    refine ⟨true, _, cancel_live s h.sorted p t hp hcb hmem, ⟨hapart.inv, List.nodup_nil,
      fun q hq => absurd hq List.not_mem_nil, ?_⟩, ?_⟩
    · exact kept_heap s _ p t _ [] (fun q => heap_withTimer _ p q _) hp rfl (fun _ => rfl)
        (fun q hq => absurd hq List.not_mem_nil) (fun hno => absurd hno List.not_mem_nil)
    · intro _
      exact ⟨_, (heap_withTimer _ p p _).trans (if_pos rfl), rfl⟩
  · exact ⟨false, s, cancel_dead s p t hp hcb, effect_same s s h rfl, fun hno => by cases hno⟩

/-- A timer that was moved. -/
theorem effect_moved (s : TimerManager) (h : s.Inv) (p : Nat) (t t' : Timer)
    (hp : s.heap p = some t) (hmem : p ∈ s.timers) (hcb : t'.cb = t.cb)
    (hrec : t'.recurring = t.recurring) :
    Effect s (((s.without p).withTimer p t').plus p) [] := by
  have hsome : t'.cb.isSome = true := by
    rw [hcb, ← live_some s p t hp, ← h.mem]
    exact hmem
  exact ⟨(apart_moved s [] h.apart p t' hmem hsome).inv, List.nodup_nil,
    fun q hq => absurd hq List.not_mem_nil,
    kept_heap s _ p t t' [] (fun q => heap_withTimer s p q t') hp hrec
      (fun hnone => hcb.trans hnone) (fun q hq => absurd hq List.not_mem_nil)
      (fun hno => absurd hno List.not_mem_nil)⟩

/-- Not in the set after it was taken out. -/
theorem not_mem_without (s : TimerManager) (h : s.Sorted) (p : Nat) (hp : p ∈ s.timers) :
    p ∉ (s.without p).timers := fun hno => ((mem_without s h p hp p).1 hno).2 rfl

theorem mem_of_cb (s : TimerManager) (h : s.Inv) (p : Nat) (t : Timer) (hp : s.heap p = some t)
    (hcb : ¬t.cb.isNone = true) : p ∈ s.timers := by
  rw [h.mem, live_some s p t hp, ← Option.not_isNone, Bool.not_eq_true']
  exact Bool.eq_false_iff.2 hcb

/-- A timer without a callback is not refreshed. -/
theorem refresh_dead (s : TimerManager) (p : Nat) (t : Timer) (now : UInt64)
    (hp : s.heap p = some t) (hcb : t.cb.isNone = true) : refresh p now s = .ok false s := by
  rw [refresh, bind_ok _ _ _ _ _ (load_some s p t hp)]
  simp only [hcb, if_true]
  rfl

theorem refresh_live (s : TimerManager) (h : s.Sorted) (p : Nat) (t : Timer) (now : UInt64)
    (hp : s.heap p = some t) (hcb : ¬t.cb.isNone = true) (hmem : p ∈ s.timers) :
    refresh p now s =
      .ok true (((s.without p).withTimer p { t with next := now + t.ms }).plus p) := by
  have hout := not_mem_without s h p hmem
  rw [refresh, bind_ok _ _ _ _ _ (load_some s p t hp)]
  simp only [hcb, Bool.false_eq_true, if_false]
  rw [bind_ok _ _ _ _ _ (find_mem s h p hmem)]
  simp only []
  rw [bind_ok _ _ _ _ _ (erase_found s p),
    bind_ok _ _ _ _ _ (store_out (s.without p) p { t with next := now + t.ms } t hp hout),
    bind_ok _ _ _ _ _ (insert_spec ((s.without p).withTimer p _) p hout), pure_apply]

theorem refresh_effect (s : TimerManager) (h : s.Inv) (p : Nat) (t : Timer) (now : UInt64)
    (hp : s.heap p = some t) : ∃ a s', refresh p now s = .ok a s' ∧ Effect s s' [] := by
  by_cases hcb : t.cb.isNone = true
  · exact ⟨false, s, refresh_dead s p t now hp hcb, effect_same s s h rfl⟩
  · exact ⟨true, _, refresh_live s h.sorted p t now hp hcb (mem_of_cb s h p t hp hcb),
      effect_moved s h p t { t with next := now + t.ms } hp (mem_of_cb s h p t hp hcb) rfl rfl⟩

/-- The object `reset` writes. -/
def resetTo (t : Timer) (ms : UInt64) (fromNow : Bool) (now : UInt64) : Timer :=
  { t with ms := ms, next := (if fromNow then now else t.next - t.ms) + ms }

/-- A timer without a callback is not reset. -/
theorem resetLocked_dead (s : TimerManager) (p : Nat) (t : Timer) (ms : UInt64) (fromNow : Bool)
    (now : UInt64) (hp : s.heap p = some t) (hcb : t.cb.isNone = true) :
    resetLocked p ms fromNow now s = .ok (false, false) s := by
  rw [resetLocked, bind_ok _ _ _ _ _ (load_some s p t hp)]
  simp only [hcb, if_true]
  rfl

theorem resetLocked_live (s : TimerManager) (h : s.Sorted) (p : Nat) (t : Timer) (ms : UInt64)
    (fromNow : Bool) (now : UInt64) (hp : s.heap p = some t) (hcb : ¬t.cb.isNone = true)
    (hmem : p ∈ s.timers) (s₁ : TimerManager)
    (hs₁ : s₁ = (s.without p).withTimer p (resetTo t ms fromNow now)) :
    resetLocked p ms fromNow now s =
      .ok (true, s₁.atFront p) { s₁.plus p with tickled := s₁.tickled || s₁.atFront p } := by
  have hout := not_mem_without s h p hmem
  have hadd := addTimerLocked_spec s₁ p (by rw [hs₁]; exact hout)
  have hstore := store_out (s.without p) p (resetTo t ms fromNow now) t hp hout
  rw [← hs₁, resetTo] at hstore
  rw [resetLocked, bind_ok _ _ _ _ _ (load_some s p t hp)]
  simp only [hcb, Bool.false_eq_true, if_false]
  rw [bind_ok _ _ _ _ _ (find_mem s h p hmem)]
  simp only []
  rw [bind_ok _ _ _ _ _ (erase_found s p), bind_ok _ _ _ _ _ hstore, bind_ok _ _ _ _ _ hadd,
    pure_apply]

theorem resetLocked_effect (s : TimerManager) (h : s.Inv) (p : Nat) (t : Timer) (ms : UInt64)
    (fromNow : Bool) (now : UInt64) (hp : s.heap p = some t) :
    ∃ a s', resetLocked p ms fromNow now s = .ok a s' ∧ Effect s s' [] := by
  by_cases hcb : t.cb.isNone = true
  · exact ⟨_, s, resetLocked_dead s p t ms fromNow now hp hcb, effect_same s s h rfl⟩
  · have hmem := mem_of_cb s h p t hp hcb
    have heff := effect_moved s h p t (resetTo t ms fromNow now) hp hmem rfl rfl
    exact ⟨_, _, resetLocked_live s h.sorted p t ms fromNow now hp hcb hmem _ rfl,
      ⟨inv_tickled _ heff.inv _, heff.nodup, heff.live, heff.kept⟩⟩

theorem reset_effect (s : TimerManager) (h : s.Inv) (p : Nat) (t : Timer) (ms : UInt64)
    (fromNow : Bool) (now : UInt64) (hp : s.heap p = some t) :
    ∃ a s', reset p ms fromNow now s = .ok a s' ∧ Effect s s' [] := by
  by_cases hsame : (decide (ms = t.ms) && !fromNow) = true
  · refine ⟨(true, false), s, ?_, effect_same s s h rfl⟩
    rw [reset, bind_ok _ _ _ _ _ (load_some s p t hp)]
    simp only [hsame, if_true]
    rfl
  · rcases resetLocked_effect s h p t ms fromNow now hp with ⟨a, s', hrun, heff⟩
    refine ⟨a, s', ?_, heff⟩
    rw [reset, bind_ok _ _ _ _ _ (load_some s p t hp)]
    simp only [hsame, Bool.false_eq_true, if_false]
    exact hrun

/-- The first timer of the set exists. -/
theorem Inv.front {s : TimerManager} (h : s.Inv) (p : Nat) (ps : List Nat)
    (htimers : s.timers = p :: ps) : ∃ t, s.heap p = some t := by
  refine heap_of_live s p ?_
  rw [← h.mem, htimers]
  exact List.mem_cons_self

/-- All that `getNextTimer` changes is the flag. -/
theorem getNextTimer_spec (s : TimerManager)
    (h : ∀ p ps, s.timers = p :: ps → ∃ t, s.heap p = some t) (now : UInt64) :
    ∃ a, getNextTimer now s = .ok a { s with tickled := false } ∧ (s.timers = [] → a = 0 - 1) ∧
      ∀ p ps t, s.timers = p :: ps → s.heap p = some t →
        a = if now ≥ t.next then 0 else t.next - now := by
  rcases s with ⟨heap, _ | ⟨p, ps⟩, previous, tickled⟩
  · exact ⟨0 - 1, rfl, fun _ => rfl, fun _ _ _ htimers => by cases htimers⟩
  · rcases h p ps rfl with ⟨t, hp⟩
    refine ⟨if now ≥ t.next then 0 else t.next - now, ?_, fun hnil => (by cases hnil), ?_⟩
    · rw [getNextTimer, bind_ok _ _ _ _ _ (modify_apply _ _), bind_ok _ _ _ _ _ (get_apply _)]
      simp only []
      rw [bind_ok _ _ _ _ _ (load_some ⟨heap, p :: ps, previous, false⟩ p t hp)]
      split
      · rfl
      · rfl
    · intro p' ps' t' htimers hp'
      cases htimers
      rw [hp, Option.some.injEq] at hp'
      rw [hp']

theorem getNextTimer_effect (s : TimerManager) (h : s.Inv) (now : UInt64) :
    ∃ a s', getNextTimer now s = .ok a s' ∧ Effect s s' [] := by
  rcases getNextTimer_spec s (fun p ps => h.front p ps) now with ⟨a, hrun, -⟩
  exact ⟨a, _, hrun, effect_same s _ (inv_tickled s h false) rfl⟩

/-! ## Expiry -/

/-- The set after one round of the loop. -/
def expireOne (s : TimerManager) (now : UInt64) (p : Nat) (t : Timer) : TimerManager :=
  if t.recurring then (s.withTimer p { t with next := now + t.ms }).plus p
  else s.withTimer p { t with cb := none }

theorem heap_expireOne (s : TimerManager) (now : UInt64) (p q : Nat) (t : Timer) :
    (s.expireOne now p t).heap q = if q = p then some (t.expire now) else s.heap q := by
  by_cases hrec : t.recurring = true
  · rw [expireOne, if_pos hrec, Timer.expire, if_pos hrec]
    exact heap_withTimer s p q _
  · rw [expireOne, if_neg hrec, Timer.expire, if_neg hrec]
    exact heap_withTimer s p q _

/-- One round of the loop over the expired timers: the others are still out of the
    set and have their callbacks. -/
theorem apart_next (s : TimerManager) (p : Nat) (rest : List Nat) (t : Timer) (now : UInt64)
    (h : Apart s (p :: rest)) (hp : s.heap p = some t) :
    Apart (s.expireOne now p t) rest := by
  rw [expireOne]
  by_cases hrec : t.recurring = true
  · rw [if_pos hrec]
    have hlive : t.cb.isSome = true := by
      rw [← live_some s p t hp, ← h.mem]
      exact Or.inr List.mem_cons_self
    have hback := apart_plus _ _ (apart_write s _ h p { t with next := now + t.ms }
      List.mem_cons_self hlive) p List.mem_cons_self
    rw [List.erase_cons_head] at hback
    exact hback
  · rw [if_neg hrec]
    exact apart_kill s rest p _ h rfl

/-- One round: a timer that is out of the set. -/
theorem collect_cons (now : UInt64) (p : Nat) (rest : List Nat) (s s' : TimerManager) (t : Timer)
    (cbs : List (Nat × Option Nat)) (hp : s.heap p = some t) (hout : p ∉ s.timers)
    (hrun : collect now rest (s.expireOne now p t) = .ok cbs s') :
    collect now (p :: rest) s = .ok ((p, t.cb) :: cbs) s' := by
  rw [collect, bind_ok _ _ _ _ _ (load_some s p t hp)]
  by_cases hrec : t.recurring = true
  · rw [expireOne, if_pos hrec] at hrun
    rw [if_pos hrec, bind_ok _ _ _ _ _ (store_out s p { t with next := now + t.ms } t hp hout),
      bind_ok _ _ _ _ _ (insert_spec (s.withTimer p _) p hout)]
    simp only []
    rw [bind_ok _ _ _ _ _ hrun, pure_apply]
  · rw [expireOne, if_neg hrec] at hrun
    rw [if_neg hrec, bind_ok _ _ _ _ _ (store_out s p { t with cb := none } t hp hout)]
    simp only []
    rw [bind_ok _ _ _ _ _ hrun, pure_apply]

/-- The loop hands out the callbacks in the order of the list, and each timer of the
    list expires. -/
theorem collect_exact (now : UInt64) (expired : List Nat) (s : TimerManager)
    (h : Apart s expired) :
    ∃ s', collect now expired s = .ok (expired.map (fun p => (p, s.cbOf p))) s' ∧ s'.Inv ∧
      ∀ q, s'.heap q = if q ∈ expired then (s.heap q).map (Timer.expire now) else s.heap q := by
  induction expired generalizing s with
  | nil =>
      refine ⟨s, rfl, h.inv, fun q => ?_⟩
      rw [if_neg List.not_mem_nil]
  | cons p rest ih =>
      rcases heap_of_live s p ((h.mem p).1 (Or.inr List.mem_cons_self)) with ⟨t, hp⟩
      rcases List.nodup_cons.1 h.nodup with ⟨hnot, -⟩
      rcases ih (s.expireOne now p t) (apart_next s p rest t now h hp) with
        ⟨s', hrun, hinv, hheap⟩
      -- The round changes none of the timers that are still to come.
      have hold : rest.map (fun q => (q, (s.expireOne now p t).cbOf q)) =
          rest.map (fun q => (q, s.cbOf q)) := by
        refine List.map_congr_left (fun q hq => ?_)
        have hne : q ≠ p := fun heq => hnot (heq ▸ hq)
        rw [cbOf, heap_expireOne, if_neg hne, cbOf]
      rw [hold] at hrun
      refine ⟨s', ?_, hinv, fun q => ?_⟩
      · rw [List.map_cons, cbOf_some s p t hp]
        exact collect_cons now p rest s s' t _ hp (h.out p List.mem_cons_self) hrun
      · rw [hheap, heap_expireOne]
        by_cases hq : q = p
        · rw [if_pos hq, if_neg (by rw [hq]; exact hnot), hq, if_pos List.mem_cons_self, hp,
            Option.map_some]
        · rw [if_neg hq]
          simp only [List.mem_cons, hq, false_or]

/-- The timers that are handed out. -/
theorem map_fst_callbacks (s : TimerManager) (expired : List Nat) :
    (expired.map (fun p => (p, s.cbOf p))).map Prod.fst = expired := by
  rw [List.map_map]
  exact List.map_id expired

/-- Timers that expire stay, and the one-shot timers among them lose their callbacks. -/
theorem kept_expired (s s' : TimerManager) (now : UInt64) (expired : List Nat)
    (hheap : ∀ q, s'.heap q =
      if q ∈ expired then (s.heap q).map (Timer.expire now) else s.heap q) :
    Kept s s' expired := by
  intro p t hp
  by_cases hmem : p ∈ expired
  · refine ⟨t.expire now, by rw [hheap, if_pos hmem, hp, Option.map_some], ?_⟩
    by_cases hrec : t.recurring = true
    · rw [Timer.expire, if_pos hrec]
      exact ⟨rfl, fun hcb => hcb, fun _ hshot => absurd hrec (by rw [hshot]; decide)⟩
    · rw [Timer.expire, if_neg hrec]
      exact ⟨rfl, fun _ => rfl, fun _ _ => rfl⟩
  · exact ⟨t, by rw [hheap, if_neg hmem, hp], rfl, fun hcb => hcb, fun hno => absurd hno hmem⟩

/-- Cutting the expired timers off leaves a loop to run. -/
theorem apart_start (s : TimerManager) (h : s.Inv) (now : UInt64) (it : Nat) :
    Apart { s with previouseTime := now, timers := s.timers.drop it } (s.timers.take it) := by
  have hnodup := h.sorted.nodup
  refine ⟨List.Pairwise.sublist (List.drop_sublist _ _) h.sorted,
    hnodup.sublist (List.take_sublist _ _), ?_, ?_⟩
  · intro p hp hdrop
    rw [← List.take_append_drop it s.timers, List.nodup_append] at hnodup
    exact hnodup.2.2 p hp p hdrop rfl
  · intro p
    have hlive : ({ s with previouseTime := now, timers := s.timers.drop it } :
        TimerManager).live p = s.live p := rfl
    have hparts : p ∈ s.timers ↔ p ∈ s.timers.take it ∨ p ∈ s.timers.drop it := by
      rw [← List.mem_append, List.take_append_drop]
    rw [hlive, ← h.mem, hparts]
    exact or_comm

/-- The test of `detectClockRollover`. -/
def rolledBack (s : TimerManager) (now : UInt64) : Bool :=
  decide (now < s.previouseTime) && decide (now < s.previouseTime - 60 * 60 * 1000)

/-- The call cuts the set and runs the loop over the front part. It returns early only if the
    clock has not gone back and the first timer is not due. -/
theorem listExpiredCb_collect (s : TimerManager) (h : s.Inv) (now : UInt64) (nowTimer : Nat) :
    ∃ it s₀, s₀.heap = s.heap ∧ Apart s₀ (s.timers.take it) ∧
      listExpiredCb now nowTimer s = collect now (s.timers.take it) s₀ ∧
      (it = s.expiredCount (s.rolledBack now) now nowTimer ∨ it = 0 ∧ s.rolledBack now = false ∧
        ∀ p t, s.timers.head? = some p → s.heap p = some t → now < t.next) := by
  rcases s with ⟨heap, _ | ⟨p, ps⟩, previous, tickled⟩
  · refine ⟨_, ⟨heap, [], previous, tickled⟩, rfl, ?_, ?_, Or.inl rfl⟩
    · rw [List.take_nil]
      exact h.apart
    · rw [List.take_nil]
      rfl
  · set s : TimerManager := ⟨heap, p :: ps, previous, tickled⟩ with hs
    rcases h.front p ps rfl with ⟨t, hp⟩
    have hclock : detectClockRollover now s =
        .ok (s.rolledBack now) { s with previouseTime := now } := rfl
    have hstart := fun it => apart_start s h now it
    by_cases hearly : (!s.rolledBack now && decide (t.next > now)) = true
    · refine ⟨0, { s with previouseTime := now }, rfl, hstart 0, ?_, Or.inr ⟨rfl, ?_⟩⟩
      · rw [listExpiredCb, bind_ok _ _ _ _ _ (get_apply s)]
        simp only [hs]
        rw [← hs, bind_ok _ _ _ _ _ hclock,
          bind_ok _ _ _ _ _ (load_some { s with previouseTime := now } p t hp), if_pos hearly]
        rfl
      · rw [Bool.and_eq_true, Bool.not_eq_true', decide_eq_true_eq] at hearly
        refine ⟨hearly.1, fun p' t' hp' ht' => ?_⟩
        cases hp'
        rw [hp, Option.some.injEq] at ht'
        rw [← ht']
        exact hearly.2
    · set it := s.expiredCount (s.rolledBack now) now nowTimer with hit
      refine ⟨it, { s with previouseTime := now, timers := s.timers.drop it }, rfl, hstart it, ?_,
        Or.inl rfl⟩
      rw [listExpiredCb, bind_ok _ _ _ _ _ (get_apply s)]
      simp only [hs]
      rw [← hs, bind_ok _ _ _ _ _ hclock,
        bind_ok _ _ _ _ _ (load_some { s with previouseTime := now } p t hp), if_neg hearly,
        bind_ok _ _ _ _ _ (modify_apply _ _)]

theorem listExpiredCb_effect (s : TimerManager) (h : s.Inv) (now : UInt64) (nowTimer : Nat) :
    ∃ cbs s', listExpiredCb now nowTimer s = .ok cbs s' ∧ Effect s s' (cbs.map Prod.fst) := by
  rcases listExpiredCb_collect s h now nowTimer with ⟨it, s₀, hheap₀, hapart, heq, -⟩
  rcases collect_exact now _ s₀ hapart with ⟨s', hrun, hinv, hheap⟩
  refine ⟨_, s', heq.trans hrun, ?_⟩
  rw [map_fst_callbacks]
  refine ⟨hinv, hapart.nodup, ?_, ?_⟩
  · intro p hp
    rw [← h.mem]
    exact List.mem_of_mem_take hp
  · refine kept_expired s s' now _ (fun q => ?_)
    rw [hheap, hheap₀]

/-- Every operation returns, and what it does is an effect. -/
theorem perform_effect (h : TimerHistory) (hinv : h.manager.Inv) (op : Op)
    (hvalid : TimerHistory.Valid h op) :
    ∃ out s', perform op h.manager = .ok out s' ∧ Effect h.manager s' out := by
  have hexists : ∀ p, (h.manager.heap p).isSome = true → ∃ t, h.manager.heap p = some t :=
    fun p hp => Option.isSome_iff_exists.1 hp
  -- Only `listExpiredCb` hands callbacks out; of the others the result does not matter.
  have hdrop : ∀ {α : Type} (m : Prog Empty TimerManager α),
      (∃ a s', m h.manager = .ok a s' ∧ Effect h.manager s' []) →
      ∃ out s', perform.nothing m h.manager = .ok out s' ∧ Effect h.manager s' out := by
    rintro α m ⟨a, s', hrun, heff⟩
    exact ⟨[], s', bind_ok _ _ _ _ _ hrun, heff⟩
  cases op with
  | addTimer p ms cb recurring now =>
      exact hdrop _ (addTimer_effect _ hinv p ms cb recurring now hvalid)
  | cancel p =>
      rcases hexists p hvalid with ⟨t, hp⟩
      rcases cancel_effect _ hinv p t hp with ⟨a, s', hrun, heff, -⟩
      exact hdrop _ ⟨a, s', hrun, heff⟩
  | refresh p now =>
      rcases hexists p hvalid with ⟨t, hp⟩
      exact hdrop _ (refresh_effect _ hinv p t now hp)
  | reset p ms fromNow now =>
      rcases hexists p hvalid with ⟨t, hp⟩
      exact hdrop _ (reset_effect _ hinv p t ms fromNow now hp)
  | getNextTimer now => exact hdrop _ (getNextTimer_effect _ hinv now)
  | listExpiredCb now nowTimer =>
      rcases listExpiredCb_effect _ hinv now nowTimer with ⟨cbs, s', hrun, heff⟩
      exact ⟨_, s', bind_ok _ _ _ _ _ hrun, heff⟩

end TimerManager

/-! ## Whole runs -/

namespace TimerHistory

open TimerManager

/-- A one-shot timer that has its callback was not handed out, one without was
    handed out once at most, and there is nothing from timers that do not exist. -/
structure Inv (h : TimerHistory) : Prop where
  manager : h.manager.Inv
  fresh : ∀ p, h.manager.heap p = none → h.handed.count p = 0
  once : ∀ p t, h.manager.heap p = some t → t.recurring = false →
    h.handed.count p ≤ if t.cb.isSome then 0 else 1

theorem inv_new (now : UInt64) : (new now).Inv :=
  ⟨TimerManager.inv_new now, fun _ _ => rfl, fun _ _ hp => by cases hp⟩

/-- What an effect does to the history. -/
theorem inv_effect (h : TimerHistory) (hinv : h.Inv) (s' : TimerManager) (out : List Nat)
    (heff : Effect h.manager s' out) : (⟨s', h.handed ++ out⟩ : TimerHistory).Inv := by
  have hout : ∀ p, h.manager.live p = false → out.count p = 0 := by
    intro p hdead
    refine List.count_eq_zero.2 (fun hmem => ?_)
    rw [heff.live p hmem] at hdead
    cases hdead
  refine ⟨heff.inv, ?_, ?_⟩
  · intro p hp
    -- Timers are not deleted, so this one did not exist before either.
    have hold : h.manager.heap p = none := by
      rcases hheap : h.manager.heap p with _ | t
      · rfl
      · rcases heff.kept p t hheap with ⟨t', hp', -⟩
        rw [hp'] at hp
        cases hp
    rw [List.count_append, hinv.fresh p hold, hout p (live_none _ p hold)]
  · intro p t' hp' hshot
    rw [List.count_append]
    rcases hheap : h.manager.heap p with _ | t
    · rw [hinv.fresh p hheap, hout p (live_none _ p hheap)]
      exact Nat.zero_le _
    · rcases heff.kept p t hheap with ⟨t'', hp'', hrec, hcb, hlost⟩
      rw [hp'', Option.some.injEq] at hp'
      subst hp'
      have honce := hinv.once p t hheap (hrec ▸ hshot)
      have hone : out.count p ≤ 1 := List.nodup_iff_count.1 heff.nodup p
      by_cases hmem : p ∈ out
      · -- Handed out now: it had its callback and has lost it.
        rw [← live_some _ p t hheap, heff.live p hmem, if_pos rfl] at honce
        rw [hlost hmem (hrec ▸ hshot), Option.isSome_none, if_neg (by decide)]
        omega
      · -- Not handed out now: what was counted before is all there is.
        rw [List.count_eq_zero.2 hmem]
        by_cases hsome : t.cb.isSome = true
        · rw [if_pos hsome] at honce
          omega
        · have hnone : t''.cb = none := hcb (Option.not_isSome_iff_eq_none.1 hsome)
          rw [if_neg hsome] at honce
          rw [hnone, Option.isSome_none, if_neg (by decide)]
          exact honce

/-- A step of a run. -/
theorem step_effect (h : TimerHistory) (hinv : h.Inv) (op : Op) (hvalid : Valid h op) :
    ∃ out s', step op h = some ⟨s', h.handed ++ out⟩ ∧ Effect h.manager s' out := by
  rcases perform_effect h hinv.manager op hvalid with ⟨out, s', hrun, heff⟩
  exact ⟨out, s', by simp only [step, hrun], heff⟩

/-- Every run of valid calls goes through. -/
theorem run_total (ops : List Op) (h : TimerHistory) (hinv : h.Inv)
    (hvalid : Along step Valid ops h) : ∃ h', run step ops h = some h' ∧ h'.Inv := by
  refine run_goes Inv (fun h op hinv hvalid => ?_) ops h hinv hvalid
  rcases step_effect h hinv op hvalid with ⟨out, s', hstep, heff⟩
  exact ⟨_, hstep, inv_effect h hinv s' out heff⟩

/-- Once a timer has no callback, it has none later on and is not handed out. -/
def Silent (p : Nat) (h h' : TimerHistory) : Prop :=
  ∀ t, h.manager.heap p = some t → t.cb = none →
    (∃ t', h'.manager.heap p = some t' ∧ t'.cb = none) ∧ h'.handed.count p = h.handed.count p

theorem silent_run (p : Nat) (ops : List Op) (h h' : TimerHistory) (hinv : h.Inv)
    (hvalid : Along step Valid ops h) (hrun : run step ops h = some h') : Silent p h h' := by
  refine (run_related Inv (Silent p) ?_ ?_ ?_ ops h h' hinv hvalid hrun).2
  · intro h t hp hcb
    exact ⟨⟨t, hp, hcb⟩, rfl⟩
  · intro h₁ h₂ h₃ h₁₂ h₂₃ t hp hcb
    rcases h₁₂ t hp hcb with ⟨⟨t', hp', hcb'⟩, hcount⟩
    rcases h₂₃ t' hp' hcb' with ⟨hlater, hcount'⟩
    exact ⟨hlater, hcount'.trans hcount⟩
  · intro h op h' hinv hvalid hstep
    rcases step_effect h hinv op hvalid with ⟨out, s', hstep', heff⟩
    rw [hstep', Option.some.injEq] at hstep
    subst hstep
    refine ⟨inv_effect h hinv s' out heff, ?_⟩
    intro t hp hcb
    rcases heff.kept p t hp with ⟨t', hp', -, hkept, -⟩
    refine ⟨⟨t', hp', hkept hcb⟩, ?_⟩
    -- Only timers with a callback are handed out.
    have hnot : p ∉ out := by
      intro hmem
      have hlive := heff.live p hmem
      rw [live_some _ p t hp, hcb] at hlive
      cases hlive
    rw [List.count_append, List.count_eq_zero.2 hnot, Nat.add_zero]

/-- Every run of valid calls, whatever the clock shows: it goes through, so nothing
    undefined happens; the set is strictly ordered, holds exactly the timers with
    a callback, and each of them is found; a one-shot timer is handed out once at
    most; and a timer that was cancelled is not handed out any more. -/
theorem timer_set (now : UInt64) (ops : List Op) (hvalid : Along step Valid ops (new now)) :
    ∃ h, run step ops (new now) = some h ∧
      h.manager.timers.Pairwise
        (fun p q => comparator (h.manager.key p) (h.manager.key q) = true) ∧
      (∀ p, p ∈ h.manager.timers ↔ h.manager.live p = true) ∧
      (∀ p, h.manager.live p = true → ∃ i, find p h.manager = .ok (some i) h.manager ∧
        h.manager.timers[i]? = some p) ∧
      (∀ p t, h.manager.heap p = some t → t.recurring = false → h.handed.count p ≤ 1) ∧
      ∀ xs ys p h₁ s₂, ops = xs ++ .cancel p :: ys → run step xs (new now) = some h₁ →
        cancel p h₁.manager = .ok true s₂ → h.handed.count p = h₁.handed.count p := by
  rcases run_total ops (new now) (inv_new now) hvalid with ⟨h, hrun, hinv⟩
  refine ⟨h, hrun, ?_, hinv.manager.mem, ?_, ?_, ?_⟩
  · refine List.Pairwise.imp ?_ hinv.manager.sorted
    intro p q hlt
    rw [comparator_eq, decide_eq_true_eq]
    exact hlt
  · intro p hlive
    have hmem := (hinv.manager.mem p).2 hlive
    exact ⟨_, find_mem h.manager hinv.manager.sorted p hmem,
      getElem?_place h.manager.rank _ hinv.manager.sorted p hmem⟩
  · intro p t hp hshot
    have honce := hinv.once p t hp hshot
    split at honce
    · omega
    · exact honce
  · intro xs ys p h₁ s₂ hops hxs hcancel
    subst hops
    rw [along_append xs _ (new now) h₁ hxs] at hvalid
    rcases hvalid with ⟨hvalidxs, hvalidys⟩
    have hinv₁ := run_inv Inv (fun h op h' hinv hv hstep => by
      rcases step_effect h hinv op hv with ⟨out, s', hstep', heff⟩
      rw [hstep', Option.some.injEq] at hstep
      rw [← hstep]
      exact inv_effect h hinv s' out heff) xs (new now) h₁ (inv_new now) hvalidxs hxs
    -- The call that returned true, and the rest of the run behind it.
    have hstep : step (.cancel p) h₁ = some ⟨s₂, h₁.handed ++ []⟩ := by
      have hperform : perform (.cancel p) h₁.manager = .ok [] s₂ :=
        bind_ok _ _ _ _ _ hcancel
      simp only [step, hperform]
    rw [List.append_nil] at hstep
    rw [run_append xs _ (new now) h₁ hxs, run_cons _ ys h₁ _ hstep] at hrun
    have hexists : Valid h₁ (.cancel p) := hvalidys.1
    rw [along_cons _ ys h₁ _ hstep] at hvalidys
    rcases Option.isSome_iff_exists.1 hexists with ⟨t, hp⟩
    rcases cancel_effect h₁.manager hinv₁.manager p t hp with ⟨a, s', hcancel', heff, hlost⟩
    rw [hcancel, Outcome.ok.injEq] at hcancel'
    rcases hcancel' with ⟨rfl, rfl⟩
    rcases hlost rfl with ⟨t', hp', hcb'⟩
    have hinv₂ : (⟨s₂, h₁.handed⟩ : TimerHistory).Inv := by
      have hafter := inv_effect h₁ hinv₁ s₂ [] heff
      rw [List.append_nil] at hafter
      exact hafter
    exact (silent_run p ys ⟨s₂, h₁.handed⟩ h hinv₂ hvalidys.2 hrun t' hp' hcb').2

/-- A one-shot timer that expires, and one that is cancelled before it does. -/
theorem timer_set_two :
    Along step Valid [.addTimer 1 10 7 false 100, .addTimer 2 20 8 false 100,
      .listExpiredCb 115 9, .cancel 2, .listExpiredCb 200 9] (new 100) ∧
    ∃ h, run step [.addTimer 1 10 7 false 100, .addTimer 2 20 8 false 100,
      .listExpiredCb 115 9, .cancel 2, .listExpiredCb 200 9] (new 100) = some h ∧
      ∀ p, p ∈ h.manager.timers ↔ h.manager.live p = true := by
  have hvalid : Along step Valid [.addTimer 1 10 7 false 100, .addTimer 2 20 8 false 100,
      .listExpiredCb 115 9, .cancel 2, .listExpiredCb 200 9] (new 100) :=
    ⟨rfl, rfl, trivial, rfl, trivial, trivial⟩
  rcases timer_set 100 _ hvalid with ⟨h, hrun, -, hmem, -⟩
  exact ⟨hvalid, h, hrun, hmem⟩

end TimerHistory

end YkServer
