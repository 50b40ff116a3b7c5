import Mathlib.Data.List.Nodup
import YkServer.Core.HttpConnectionPool
import YkServer.Lib.Interleaving
import YkServer.Lib.Table
import YkServer.Lib.Weights

/-!
# Accounts of a Pool

Every connection that was not deleted is in one place: in the list, with somebody it was
handed out to, or in the hands of a call. `m_total` counts them, with some delay: a
call counts for what it has still to add to or take off the counter. The counter is an
`int32_t`, so it is the number of connections modulo `2 ^ 32`, and that number itself below
`2 ^ 31`.

## Main definitions

* `PoolPos.counted`, `PoolPos.holds`: What a call counts for, and what it has in its hands.
* `HttpConnectionPool.owns`: In how many places a connection is.
* `HttpConnectionPool.Accounted`: What holds of a pool.
* `HttpConnectionPool.Quiet`: No call is in progress.

## Theorems

* `takeConn_count`: What the loop takes out of the list.
* `owns_goto`: A call goes on.
* `goOn_accounted`, `step_accounted`: No step loses or doubles a connection.
* `pool_accounted`: The accounts of a pool in which no call is in progress.
* `pool_wraps`: The counter of a pool with too many connections.
-/

namespace YkServer

open Lib

/-- The connections that `m_total` counts for a call. -/
def PoolPos.counted : PoolPos → Nat
  | .clearing _ size ptr => size + ptr.toList.length
  | .got _ | .releasing _ | .deleting _ | .deleted | .recycling _ => 1
  | _ => 0

/-- The connections a call has in its hands. -/
def PoolPos.holds : PoolPos → List Nat
  | .clearing invalid _ ptr => invalid ++ ptr.toList
  | .made c | .got c | .releasing c | .deleting c | .recycling c => [c]
  | _ => []

namespace HttpConnectionPool

/-- How many connections there should be by the counter. -/
def count (p : HttpConnectionPool) : Nat :=
  p.conns.length + p.handed.length + (p.threads.map PoolPos.counted).sum

/-- In how many places a connection is. -/
def owns (p : HttpConnectionPool) (c : Nat) : Nat :=
  p.conns.count c + p.handed.count c + (p.threads.map (fun t => t.holds.count c)).sum

/-- A connection that was made and not deleted. -/
def live (p : HttpConnectionPool) (c : Nat) : Nat :=
  match p.objects[c]? with
  | some o => if o.deletes = 0 then 1 else 0
  | none => 0

/-- Only connections that are there are in any place, and in one only. -/
structure Accounted (p : HttpConnectionPool) : Prop where
  total : p.total = Int32.ofNat p.count
  owned : ∀ c, p.owns c ≤ p.live c
  once : ∀ o ∈ p.objects, o.deletes ≤ 1

theorem accounted_new (maxAliveTime maxRequest : UInt64) :
    Accounted (new maxAliveTime maxRequest) :=
  ⟨rfl, fun _ => Nat.zero_le _, fun _ ho => absurd ho List.not_mem_nil⟩

theorem live_le (p : HttpConnectionPool) (c : Nat) : p.live c ≤ 1 := by
  unfold live
  split
  · split
    · exact Nat.le_refl 1
    · exact Nat.zero_le 1
  · exact Nat.zero_le 1

/-! ## A call goes on -/

theorem count_goto (p : HttpConnectionPool) (i : Nat) (pos pos' : PoolPos)
    (hi : p.threads[i]? = some pos) :
    (p.goto i pos').count + pos.counted = p.count + pos'.counted := by
  have hsum := sum_set PoolPos.counted p.threads i pos pos' hi
  simp only [count, goto]
  omega

theorem owns_goto (p : HttpConnectionPool) (i : Nat) (pos pos' : PoolPos)
    (hi : p.threads[i]? = some pos) (c : Nat) :
    (p.goto i pos').owns c + pos.holds.count c = p.owns c + pos'.holds.count c := by
  have hsum := sum_set (fun t => t.holds.count c) p.threads i pos pos' hi
  simp only [owns, goto]
  omega

/-- The loop takes what it takes from the front of the list. -/
theorem takeConn_count (p : HttpConnectionPool) (nowMs : UInt64) (connected cs : List Nat) :
    cs = (p.takeConn nowMs connected cs).1 ++ (p.takeConn nowMs connected cs).2.1.toList ++
      (p.takeConn nowMs connected cs).2.2 := by
  induction cs with
  | nil => rfl
  | cons c cs ih =>
      rw [takeConn]
      split
      · simp only [List.cons_append]
        rw [← ih]
      · rfl

/-! ## Connections come and go -/

theorem live_delete (p : HttpConnectionPool) (c x : Nat) :
    (p.delete c).live x = if x = c then 0 else p.live x := by
  simp only [live, delete, List.getElem?_modify]
  rcases p.objects[x]? with _ | o
  · simp only [Option.map_eq_map, Option.map_none, ite_self]
  · by_cases hx : c = x
    · rw [Option.map_eq_map, Option.map_some, if_pos hx, if_pos hx.symm]
      exact if_neg (Nat.succ_ne_zero o.deletes)
    · rw [Option.map_eq_map, Option.map_some, if_neg hx, if_neg (fun heq : x = c => hx heq.symm)]

theorem once_delete (p : HttpConnectionPool) (h : ∀ o ∈ p.objects, o.deletes ≤ 1) (c : Nat)
    (hlive : p.live c = 1) : ∀ o ∈ (p.delete c).objects, o.deletes ≤ 1 := by
  intro o ho
  rcases List.mem_iff_getElem?.1 ho with ⟨x, hx⟩
  rw [delete, List.getElem?_modify, Option.map_eq_map, Option.map_eq_some_iff] at hx
  rcases hx with ⟨old, hold, rfl⟩
  by_cases hxc : c = x
  · -- It was not deleted before.
    rw [← hxc] at hold
    have hzero : old.deletes = 0 := by
      by_contra hne
      rw [live, hold] at hlive
      simp only [if_neg hne] at hlive
      cases hlive
    simp only [if_pos hxc, hzero]
    exact Nat.le_refl 1
  · simp only [if_neg hxc]
    exact h old (List.mem_of_getElem? hold)

/-- A new connection has the next number. -/
theorem live_concat (p : HttpConnectionPool) (x : Nat) :
    live { p with objects := p.objects ++ [⟨0, 0, 0⟩] } x =
      if x = p.objects.length then 1 else p.live x := by
  simp only [live]
  by_cases hx : x = p.objects.length
  · rw [if_pos hx, hx, List.getElem?_concat_length]
    rfl
  · rw [if_neg hx]
    rcases hold : p.objects[x]? with _ | o
    · rcases hnew : (p.objects ++ [HttpConn.mk 0 0 0])[x]? with _ | o
      · rfl
      · rcases getElem?_concat_eq_some p.objects _ _ x hnew with hthere | ⟨hlast, -⟩
        · rw [hold] at hthere
          cases hthere
        · exact absurd hlast hx
    · rw [getElem?_concat_of_some p.objects _ _ x hold]

/-- What is counted for the requests does not matter here. -/
theorem live_check (p : HttpConnectionPool) (c x : Nat) :
    live { p with
      objects := p.objects.modify c (fun o => { o with request := o.request + 1 }) } x =
      p.live x := by
  simp only [live, List.getElem?_modify]
  rcases p.objects[x]? with _ | o
  · rfl
  · by_cases hx : c = x
    · rw [Option.map_eq_map, Option.map_some, if_pos hx]
    · rw [Option.map_eq_map, Option.map_some, if_neg hx]

theorem once_check (p : HttpConnectionPool) (h : ∀ o ∈ p.objects, o.deletes ≤ 1) (c : Nat) :
    ∀ o ∈ p.objects.modify c (fun o => { o with request := o.request + 1 }), o.deletes ≤ 1 := by
  intro o ho
  rcases List.mem_iff_getElem?.1 ho with ⟨x, hx⟩
  rw [List.getElem?_modify, Option.map_eq_map, Option.map_eq_some_iff] at hx
  rcases hx with ⟨old, hold, rfl⟩
  have hle := h old (List.mem_of_getElem? hold)
  split
  · exact hle
  · exact hle

/-! ## Steps -/

/-- A call goes on, and something is changed on the way. The counter goes up and down by what
    the call counts for more or less, and what the call does not hold any more was given to
    the list, to the user, or deleted. -/
theorem accounted_goto (p q : HttpConnectionPool) (h : Accounted p) (i : Nat)
    (pos pos' : PoolPos) (hthreads : q.threads = p.threads) (hi : p.threads[i]? = some pos)
    (up down : Nat) (htotal : q.total = p.total + Int32.ofNat up - Int32.ofNat down)
    (hcount : q.conns.length + q.handed.length + pos'.counted + down =
      p.conns.length + p.handed.length + pos.counted + up)
    (howned : ∀ c, q.conns.count c + q.handed.count c + pos'.holds.count c + p.live c ≤
      p.conns.count c + p.handed.count c + pos.holds.count c + q.live c)
    (honce : ∀ o ∈ q.objects, o.deletes ≤ 1) : Accounted (q.goto i pos') := by
  have hj : q.threads[i]? = some pos := by
    rw [hthreads]
    exact hi
  refine ⟨?_, ?_, honce⟩
  · have hgoto := count_goto q i pos pos' hj
    have hq : q.count = q.conns.length + q.handed.length +
        (p.threads.map PoolPos.counted).sum := by
      rw [count, hthreads]
    have hp : p.count = p.conns.length + p.handed.length +
        (p.threads.map PoolPos.counted).sum := rfl
    have hsum : (q.goto i pos').count + down = p.count + up := by omega
    have hword : Int32.ofNat (q.goto i pos').count + Int32.ofNat down =
        Int32.ofNat p.count + Int32.ofNat up := by
      rw [← Int32.ofNat_add, ← Int32.ofNat_add, hsum]
    have hold := h.total
    simp only [goto, htotal, hold] at hword ⊢
    grind
  · intro c
    have hgoto := owns_goto q i pos pos' hj c
    have hle := h.owned c
    have hmore := howned c
    have hq : q.owns c = q.conns.count c + q.handed.count c +
        (p.threads.map (fun t => t.holds.count c)).sum := by
      rw [owns, hthreads]
    have hp : p.owns c = p.conns.count c + p.handed.count c +
        (p.threads.map (fun t => t.holds.count c)).sum := rfl
    have hlive : (q.goto i pos').live c = q.live c := rfl
    rw [hlive]
    omega

/-- A call goes on and leaves the counter as it is. -/
theorem accounted_same (p q : HttpConnectionPool) (h : Accounted p) (i : Nat)
    (pos pos' : PoolPos) (hthreads : q.threads = p.threads) (hi : p.threads[i]? = some pos)
    (htotal : q.total = p.total)
    (hcount : q.conns.length + q.handed.length + pos'.counted =
      p.conns.length + p.handed.length + pos.counted)
    (howned : ∀ c, q.conns.count c + q.handed.count c + pos'.holds.count c + p.live c ≤
      p.conns.count c + p.handed.count c + pos.holds.count c + q.live c)
    (honce : ∀ o ∈ q.objects, o.deletes ≤ 1) : Accounted (q.goto i pos') := by
  refine accounted_goto p q h i pos pos' hthreads hi 0 0 ?_ hcount howned honce
  rw [htotal]
  grind

/-- A call that holds a connection holds one that was not deleted. -/
theorem live_of_holds (p : HttpConnectionPool) (h : Accounted p) (i : Nat) (pos : PoolPos)
    (hi : p.threads[i]? = some pos) (c : Nat) (hc : c ∈ pos.holds) : p.live c = 1 := by
  have hle := le_sum (fun t : PoolPos => t.holds.count c) p.threads pos (List.mem_of_getElem? hi)
  have hpos : 0 < pos.holds.count c := List.count_pos_iff.2 hc
  have howned := h.owned c
  have hlive := live_le p c
  rw [owns] at howned
  omega

/-- A call deletes a connection it holds and goes on without it. -/
theorem accounted_delete (p : HttpConnectionPool) (h : Accounted p) (i c : Nat)
    (pos pos' : PoolPos) (hi : p.threads[i]? = some pos)
    (hholds : ∀ x, pos.holds.count x = pos'.holds.count x + if c == x then 1 else 0)
    (hcounted : pos'.counted = pos.counted) : Accounted ((p.delete c).goto i pos') := by
  have hmem : c ∈ pos.holds := by
    rw [← List.count_pos_iff, hholds c, if_pos (beq_self_eq_true c)]
    exact Nat.succ_pos _
  refine accounted_same p (p.delete c) h i pos pos' rfl hi rfl ?_ ?_
    (once_delete p h.once c (live_of_holds p h i pos hi c hmem))
  · simp only [delete, hcounted]
  · intro x
    rw [live_delete, hholds x]
    have hlive := live_le p x
    simp only [delete, beq_iff_eq, eq_comm (a := c)]
    split <;> omega

theorem goOn_accounted (p p' : HttpConnectionPool) (h : Accounted p) (i : Nat) (pos : PoolPos)
    (hi : p.threads[i]? = some pos) (hstep : p.goOn i pos = some p') : Accounted p' := by
  cases pos with
  | clearing invalid size ptr =>
      cases invalid with
      | cons c rest =>
          cases hstep
          refine accounted_delete p h i c _ _ hi ?_ rfl
          intro x
          exact List.count_cons
      | nil =>
          cases hstep
          -- What was deleted is taken off the counter at once.
          cases ptr with
          | some c =>
              refine accounted_goto p _ h i _ _ rfl hi 0 size ?_ ?_ ?_ h.once
              · simp only
                grind
              · simp only [PoolPos.counted, Option.toList_some, List.length_singleton]
                omega
              · intro x
                exact Nat.le_refl _
          | none =>
              refine accounted_goto p _ h i _ _ rfl hi 0 size ?_ ?_ ?_ h.once
              · simp only
                grind
              · simp only [PoolPos.counted, Option.toList_none, List.length_nil]
                omega
              · intro x
                exact Nat.le_refl _
  | made c =>
      cases hstep
      refine accounted_goto p _ h i _ _ rfl hi 1 0 ?_ ?_ ?_ h.once
      · simp only
        grind
      · simp only [PoolPos.counted]
      · intro x
        exact Nat.le_refl _
  | got c =>
      cases hstep
      refine accounted_same p _ h i _ _ rfl hi rfl ?_ ?_ h.once
      · simp only [PoolPos.counted, List.length_append, List.length_singleton]
        omega
      · intro x
        simp only [PoolPos.holds, List.count_append, List.count_nil, live]
        omega
  | deleting c =>
      cases hstep
      refine accounted_delete p h i c _ _ hi ?_ rfl
      intro x
      exact List.count_cons
  | deleted =>
      cases hstep
      refine accounted_goto p _ h i _ _ rfl hi 0 1 ?_ ?_ ?_ h.once
      · simp only
        grind
      · simp only [PoolPos.counted]
      · intro x
        exact Nat.le_refl _
  | recycling c =>
      cases hstep
      refine accounted_same p _ h i _ _ rfl hi rfl ?_ ?_ h.once
      · simp only [PoolPos.counted, List.length_append, List.length_singleton]
        omega
      · intro x
        simp only [PoolPos.holds, List.count_append, List.count_nil, live]
        omega
  | getting | connecting | returned | releasing | released => cases hstep

/-- A call begins. -/
theorem accounted_begin (p q : HttpConnectionPool) (h : Accounted p) (pos : PoolPos)
    (hthreads : q.threads = p.threads ++ [pos]) (htotal : q.total = p.total)
    (hobjects : q.objects = p.objects) (hconns : q.conns = p.conns)
    (hcount : q.handed.length + pos.counted = p.handed.length)
    (hholds : ∀ c, q.handed.count c + pos.holds.count c = p.handed.count c) : Accounted q := by
  refine ⟨?_, ?_, ?_⟩
  · rw [htotal, h.total, count, count, hthreads, hconns, sum_concat]
    refine congrArg Int32.ofNat ?_
    omega
  · intro c
    have hle := h.owned c
    have hc := hholds c
    rw [owns, live] at hle
    rw [owns, live, hthreads, hconns, hobjects, sum_concat]
    omega
  · rw [hobjects]
    exact h.once

theorem step_accounted (p p' : HttpConnectionPool) (a : Action) (h : Accounted p)
    (hstep : step a p = some p') : Accounted p' := by
  cases a with
  | getConnection nowMs =>
      cases hstep
      exact accounted_begin p _ h _ rfl rfl rfl rfl rfl (fun _ => rfl)
  | lock i connected =>
      simp only [step] at hstep
      split at hstep
      · rename_i nowMs hi
        have htake := takeConn_count p nowMs connected p.conns
        rcases htaken : p.takeConn nowMs connected p.conns with ⟨invalid, ptr, rest⟩
        rw [htaken] at hstep htake
        simp only at htake
        cases hstep
        refine accounted_same p _ h i _ _ rfl hi rfl ?_ ?_ h.once
        · have hlen := congrArg List.length htake
          rw [List.length_append, List.length_append] at hlen
          simp only [PoolPos.counted]
          omega
        · intro c
          have hc := congrArg (List.count c) htake
          rw [List.count_append, List.count_append] at hc
          simp only [PoolPos.holds, List.count_append, List.count_nil, live]
          omega
      · cases hstep
  | connect i ok =>
      simp only [step] at hstep
      split at hstep
      · rename_i hi
        split at hstep
        · cases hstep
          refine accounted_same p _ h i _ _ rfl hi rfl rfl ?_ ?_
          · intro c
            rw [live_concat]
            have hle := h.owned c
            have hnone : p.live p.objects.length = 0 := by
              rw [live, List.getElem?_eq_none (Nat.le_refl _)]
            simp only [PoolPos.holds, List.count_singleton, List.count_nil, beq_iff_eq,
              eq_comm (a := p.objects.length)]
            split
            · rename_i hc
              rw [hc, hnone]
            · omega
          · intro o ho
            rcases List.mem_append.1 ho with hold | hnew
            · exact h.once o hold
            · rw [List.mem_singleton.1 hnew]
              exact Nat.zero_le 1
        · cases hstep
          exact accounted_same p p h i _ _ rfl hi rfl rfl (fun _ => Nat.le_refl _) h.once
      · cases hstep
  | release c =>
      simp only [step] at hstep
      split at hstep
      · rename_i hc
        cases hstep
        refine accounted_begin p _ h (.releasing c) rfl rfl rfl rfl ?_ ?_
        · have hlen := List.length_erase_of_mem hc
          have hpos := List.length_pos_of_mem hc
          simp only [PoolPos.counted]
          omega
        · intro x
          have herase : (p.handed.erase c).count x = p.handed.count x - if c == x then 1 else 0 :=
            List.count_erase
          simp only [PoolPos.holds, List.count_singleton]
          rw [herase]
          by_cases hx : c = x
          · have hpos : 0 < p.handed.count x := by
              rw [← hx]
              exact List.count_pos_iff.2 hc
            rw [if_pos (beq_iff_eq.2 hx)]
            omega
          · rw [if_neg (fun heq => hx (beq_iff_eq.1 heq))]
            omega
      · cases hstep
  | check i connected nowMs =>
      simp only [step] at hstep
      split at hstep
      · rename_i c hi
        have hsame : ∀ pos', pos'.counted = 1 → pos'.holds = [c] → Accounted (goto { p with
            objects := p.objects.modify c (fun o => { o with request := o.request + 1 }) } i
            pos') := by
          intro pos' hcounted hholds
          refine accounted_same p _ h i _ _ rfl hi rfl ?_ ?_ (once_check p h.once c)
          · rw [hcounted]
            rfl
          · intro x
            rw [live_check, hholds]
            exact Nat.le_refl _
        split at hstep
        · cases hstep
          exact hsame (.deleting c) rfl rfl
        · cases hstep
          exact hsame (.recycling c) rfl rfl
      · cases hstep
  | go i =>
      rcases Option.bind_eq_some_iff.1 hstep with ⟨pos, hi, hgo⟩
      exact goOn_accounted p p' h i pos hi hgo

/-! ## Pools at rest -/

/-- No call is in progress. -/
def Quiet (p : HttpConnectionPool) : Prop :=
  ∀ t ∈ p.threads, t = .released ∨ ∃ ptr, t = .returned ptr

theorem count_quiet (p : HttpConnectionPool) (h : p.Quiet) :
    p.count = p.conns.length + p.handed.length := by
  have hsum : (p.threads.map PoolPos.counted).sum = 0 := by
    refine List.sum_eq_zero ?_
    intro n hn
    rcases List.mem_map.1 hn with ⟨t, ht, rfl⟩
    rcases h t ht with rfl | ⟨ptr, rfl⟩
    · rfl
    · rfl
  rw [count, hsum, Nat.add_zero]

theorem run_accounted (maxAliveTime maxRequest : UInt64) (as : List Action)
    (p : HttpConnectionPool) (hrun : run step as (new maxAliveTime maxRequest) = some p) :
    Accounted p :=
  run_inv Accounted (fun p a p' h _ hstep => step_accounted p p' a h hstep) as _ p
    (accounted_new maxAliveTime maxRequest) (along_true as _) hrun

theorem owned_once (p : HttpConnectionPool) (h : Accounted p) (c : Nat) :
    (p.conns ++ p.handed).count c ≤ p.live c := by
  have hle := h.owned c
  rw [owns] at hle
  rw [List.count_append]
  omega

/-- In any run, no connection is deleted twice, and those in the list and with the users were
    made, not deleted, and are in one of the two once. When no call is in progress, `m_total` is
    their number, as far as an `int32_t` can be. -/
theorem pool_accounted (maxAliveTime maxRequest : UInt64) (as : List Action)
    (p : HttpConnectionPool) (hrun : run step as (new maxAliveTime maxRequest) = some p) :
    (∀ o ∈ p.objects, o.deletes ≤ 1) ∧ (p.conns ++ p.handed).Nodup ∧
    (∀ c ∈ p.conns ++ p.handed, ∃ o, p.objects[c]? = some o ∧ o.deletes = 0) ∧
    (p.Quiet → p.total = Int32.ofNat (p.conns.length + p.handed.length) ∧
      (p.conns.length + p.handed.length < 2 ^ 31 →
        p.total.toInt = p.conns.length + p.handed.length)) := by
  have h := run_accounted maxAliveTime maxRequest as p hrun
  refine ⟨h.once, ?_, ?_, ?_⟩
  · refine List.nodup_iff_count_le_one.2 ?_
    intro c
    exact Nat.le_trans (owned_once p h c) (live_le p c)
  · intro c hc
    have hpos := List.count_pos_iff.2 hc
    have hle := owned_once p h c
    rw [live] at hle
    split at hle
    · rename_i o ho
      refine ⟨o, ho, ?_⟩
      by_contra hne
      rw [if_neg hne] at hle
      omega
    · omega
  · intro hquiet
    have htotal := h.total
    rw [count_quiet p hquiet] at htotal
    refine ⟨htotal, ?_⟩
    intro hlt
    rw [htotal, Int32.toInt_ofNat_of_lt hlt]
    exact Int.natCast_add _ _
/-- A connection that is handed out, released and handed out again. -/
def reused : List Action :=
  [.getConnection 0, .lock 0 [], .go 0, .connect 0 true, .go 0, .go 0, .release 0,
    .check 1 true 200000, .go 1, .getConnection 200000, .lock 2 [0], .go 2, .go 2]

theorem pool_accounted_reused : ∃ p, run step reused (new 100000 3) = some p ∧ p.Quiet ∧
    p.handed = [0] ∧ p.total.toInt = p.conns.length + p.handed.length := by
  have hrun : run step reused (new 100000 3) = some ⟨100000, 3, [], 1, [⟨0, 1, 0⟩], [0],
      [.returned (some 0), .released, .returned (some 0)]⟩ := by decide
  have hquiet : Quiet ⟨100000, 3, [], 1, [⟨0, 1, 0⟩], [0],
      [.returned (some 0), .released, .returned (some 0)]⟩ := by simp [Quiet]
  exact ⟨_, hrun, hquiet, rfl,
    ((pool_accounted 100000 3 reused _ hrun).2.2.2 hquiet).2 (by decide)⟩

/-! ## Pools with more connections than the counter counts -/

/-- A call of `getConnection` that finds no connection in the list and makes one. -/
def fresh (i : Nat) : List Action :=
  [.getConnection 0, .lock i [], .go i, .connect i true, .go i, .go i]

/-- So many of them, one after the other. -/
def freshes : Nat → List Action
  | 0 => []
  | n + 1 => freshes n ++ fresh n

theorem run_fresh (p : HttpConnectionPool) (h : p.conns = []) :
    run step (fresh p.threads.length) p = some { p with
      total := p.total - Int32.ofNat 0 + 1
      objects := p.objects ++ [⟨0, 0, 0⟩]
      handed := p.handed ++ [p.objects.length]
      threads := p.threads ++ [.returned (some p.objects.length)] } := by
  simp [fresh, run, step, goto, goOn, takeConn, h]

theorem run_freshes (n : Nat) : ∃ p, run step (freshes n) (new 0 0) = some p ∧ p.Quiet ∧
    p.conns = [] ∧ p.handed.length = n ∧ p.threads.length = n := by
  induction n with
  | zero => exact ⟨_, rfl, fun _ ht => absurd ht List.not_mem_nil, rfl, rfl, rfl⟩
  | succ n ih =>
      rcases ih with ⟨p, hrun, hquiet, hconns, hhanded, hthreads⟩
      have hfresh := run_fresh p hconns
      rw [hthreads] at hfresh
      refine ⟨_, (run_append _ _ _ p hrun).trans hfresh, ?_, hconns, ?_, ?_⟩
      · intro t ht
        rcases List.mem_append.1 ht with hold | hnew
        · exact hquiet t hold
        · exact .inr ⟨_, List.mem_singleton.1 hnew⟩
      · rw [List.length_append, hhanded, List.length_singleton]
      · rw [List.length_append, hthreads, List.length_singleton]

/-- With `2 ^ 31` connections handed out the counter is negative. -/
theorem pool_wraps : ∃ p, run step (freshes (2 ^ 31)) (new 0 0) = some p ∧ p.Quiet ∧
    p.conns.length + p.handed.length = 2 ^ 31 ∧
    p.total.toInt ≠ p.conns.length + p.handed.length := by
  rcases run_freshes (2 ^ 31) with ⟨p, hrun, hquiet, hconns, hhanded, -⟩
  have hlen : p.conns.length + p.handed.length = 2 ^ 31 := by
    rw [hconns, hhanded, List.length_nil, Nat.zero_add]
  refine ⟨p, hrun, hquiet, hlen, ?_⟩
  have htotal := (run_accounted 0 0 _ p hrun).total
  rw [count_quiet p hquiet, hlen] at htotal
  have hneg : p.total.toInt = -2 ^ 31 := by
    rw [htotal]
    decide
  omega

end HttpConnectionPool

end YkServer
