import YkServer.Theory.Http.Pool

/-!
# The Age of a Connection

Nothing sets `m_createTime`, so both comparisons are with the time that a connection may
live for, counted from the start of the clock. And they are the wrong way around: what has
not passed that time is thrown away, and what has is kept. With a clock that has been
running for longer no connection is ever too old, and with a new one each is.

`ageing_iff` says in which steps this makes no difference.

## Main definitions

* `AgingPool.Expired`, `AgingPool.Fresh`: What the age should be compared with.
* `AgingPool.AgesWell`: What is expected of a step.
* `AgingPool.Spares`: The condition for it.
* `HttpConnectionPool.Unaged`: What holds of a pool.

## Theorems

* `unaged_step`: No step sets the time, and what is in the list has served less than it may.
* `takeConn_early`, `takeConn_late`: The loop.
* `ageing_iff`: Any run.
* `expired_handed_out`: A connection that is too old.
-/

namespace YkServer

open Lib

namespace AgingPool

/-- A connection was made more than `m_maxAliveTime` ago. -/
def Expired (w : AgingPool) (nowMs : UInt64) (c : Nat) : Prop :=
  (w.bornAt c).toNat + w.pool.maxAliveTime.toNat < nowMs.toNat

/-- A connection was made less than `m_maxAliveTime` ago. -/
def Fresh (w : AgingPool) (nowMs : UInt64) (c : Nat) : Prop :=
  nowMs.toNat < (w.bornAt c).toNat + w.pool.maxAliveTime.toNat

/-- A connection should be kept: it is connected, and neither too old nor used up. -/
def Keep (w : AgingPool) (nowMs : UInt64) (c : Nat) (connected : Prop) : Prop :=
  connected ∧ w.Fresh nowMs c ∧ w.pool.requestCount c < w.pool.maxRequest

/-- What is expected of a step: what `getConnection` takes from the list is not too old, and
    what `getConnection` and `ReleasePtr` are going to delete was not to be kept. -/
def AgesWell (w : AgingPool) (a : HttpConnectionPool.Action × UInt64) : Prop :=
  ∀ w', step a w = some w' →
    match a.1 with
    | .lock i connected => ∀ nowMs invalid size ptr, w.pool.threads[i]? = some (.getting nowMs) →
        w'.pool.threads[i]? = some (.clearing invalid size ptr) →
        (∀ c, ptr = some c → ¬w.Expired nowMs c) ∧
          ∀ c ∈ invalid, ¬w.Keep nowMs c (c ∈ connected)
    | .check i connected nowMs => ∀ c, w'.pool.threads[i]? = some (.deleting c) →
        ¬w'.Keep nowMs c (connected = true)
    | _ => True

/-- Before `m_maxAliveTime` on the clock there is no connection to be taken, or to be given
    back that could be used again. Later on, the first that could be taken is not too old. -/
def Spares (w : AgingPool) (a : HttpConnectionPool.Action × UInt64) : Prop :=
  match a.1 with
  | .lock i connected => ∀ nowMs, w.pool.threads[i]? = some (.getting nowMs) →
      if nowMs < w.pool.maxAliveTime then ∀ c ∈ w.pool.conns, c ∉ connected
      else ∀ c, w.pool.conns.find? (· ∈ connected) = some c → ¬w.Expired nowMs c
  | .check i connected nowMs => ∀ c, w.pool.threads[i]? = some (.releasing c) →
      ¬(connected = true ∧ w.pool.requestCount c + 1 < w.pool.maxRequest ∧
        (nowMs < w.pool.maxAliveTime ∨ nowMs = w.pool.maxAliveTime ∧ 0 < w.bornAt c))
  | _ => True

end AgingPool

namespace HttpConnectionPool

/-- A connection is in the list, or on its way there. -/
def Pooled (p : HttpConnectionPool) (c : Nat) : Prop :=
  c ∈ p.conns ∨ .recycling c ∈ p.threads

/-- No connection has a time, and a connection in the list has served less than it may. -/
structure Unaged (p : HttpConnectionPool) : Prop where
  accounted : p.Accounted
  unset : ∀ c, p.createTime c = 0
  pooled : ∀ c, p.Pooled c → p.requestCount c < p.maxRequest

theorem unaged_new (maxAliveTime maxRequest : UInt64) : Unaged (new maxAliveTime maxRequest) := by
  refine ⟨accounted_new maxAliveTime maxRequest, fun _ => rfl, ?_⟩
  rintro c (hc | hc)
  · cases hc
  · cases hc

/-! ## Objects -/

/-- Deleting a connection is not seen in its fields. -/
theorem fields_delete (p : HttpConnectionPool) (c x : Nat) :
    (p.delete c).createTime x = p.createTime x ∧
      (p.delete c).requestCount x = p.requestCount x := by
  simp only [createTime, requestCount, delete, List.getElem?_modify]
  rcases p.objects[x]? with _ | o
  · exact ⟨rfl, rfl⟩
  · by_cases hx : c = x
    · rw [Option.map_eq_map, Option.map_some, if_pos hx]
      exact ⟨rfl, rfl⟩
    · rw [Option.map_eq_map, Option.map_some, if_neg hx]
      exact ⟨rfl, rfl⟩

/-- A connection that is in some place is there. -/
theorem lt_of_owns (p : HttpConnectionPool) (h : p.Accounted) (c : Nat) (hpos : 0 < p.owns c) :
    c < p.objects.length := by
  have hlive := Nat.lt_of_lt_of_le hpos (h.owned c)
  by_contra hge
  rw [live, List.getElem?_eq_none (Nat.le_of_not_lt hge)] at hlive
  exact Nat.lt_irrefl 0 hlive

/-- Whoever holds a connection counts. -/
theorem owns_of_mem (p : HttpConnectionPool) (c : Nat) (pos : PoolPos) (hpos : pos ∈ p.threads)
    (hholds : c ∈ pos.holds) : 0 < p.owns c := by
  have hle := le_sum (fun t : PoolPos => t.holds.count c) p.threads pos hpos
  have hcount : 0 < pos.holds.count c := List.count_pos_iff.2 hholds
  rw [owns]
  omega

theorem owns_of_pooled (p : HttpConnectionPool) (c : Nat) (hc : p.Pooled c) : 0 < p.owns c := by
  rcases hc with hconns | hthread
  · have hcount : 0 < p.conns.count c := List.count_pos_iff.2 hconns
    rw [owns]
    omega
  · exact owns_of_mem p c (.recycling c) hthread (List.mem_singleton_self c)

/-- A connection that is being released is not in the list. -/
theorem not_pooled_of_releasing (p : HttpConnectionPool) (h : p.Accounted) (c : Nat)
    (hreleasing : .releasing c ∈ p.threads) : ¬p.Pooled c := by
  have hone := (h.owned c).trans (live_le p c)
  have hself : (PoolPos.releasing c).holds.count c = 1 := List.count_singleton_self
  rw [owns] at hone
  rintro (hconns | hthread)
  · have hcount : 0 < p.conns.count c := List.count_pos_iff.2 hconns
    have hle : (PoolPos.releasing c).holds.count c ≤
        (p.threads.map (fun t => t.holds.count c)).sum :=
      le_sum (fun t : PoolPos => t.holds.count c) p.threads _ hreleasing
    omega
  · have hother : (PoolPos.recycling c).holds.count c = 1 := List.count_singleton_self
    have hle : (PoolPos.releasing c).holds.count c + (PoolPos.recycling c).holds.count c ≤
        (p.threads.map (fun t => t.holds.count c)).sum :=
      add_le_sum (fun t : PoolPos => t.holds.count c) p.threads _ _ hreleasing hthread
        (fun heq => by cases heq)
    omega

/-- The objects behind `++ptr->m_request`. -/
def served (p : HttpConnectionPool) (c : Nat) : HttpConnectionPool :=
  { p with objects := p.objects.modify c (fun o => { o with request := o.request + 1 }) }

theorem fields_served (p : HttpConnectionPool) (c : Nat) (hc : c < p.objects.length) (x : Nat) :
    (p.served c).createTime x = p.createTime x ∧
      (p.served c).requestCount x =
        if x = c then p.requestCount c + 1 else p.requestCount x := by
  simp only [createTime, requestCount, served, List.getElem?_modify]
  by_cases hx : x = c
  · rw [hx, if_pos rfl, List.getElem?_eq_getElem hc, Option.map_eq_map, Option.map_some,
      if_pos rfl]
    exact ⟨rfl, rfl⟩
  · rw [if_neg hx]
    rcases p.objects[x]? with _ | o
    · exact ⟨rfl, rfl⟩
    · rw [Option.map_eq_map, Option.map_some, if_neg (fun heq : c = x => hx heq.symm)]
      exact ⟨rfl, rfl⟩

/-- A new connection has the next number. -/
theorem fields_concat (p : HttpConnectionPool) (x : Nat) :
    (p.createTime x = 0 → createTime { p with objects := p.objects ++ [⟨0, 0, 0⟩] } x = 0) ∧
      (x < p.objects.length →
        requestCount { p with objects := p.objects ++ [⟨0, 0, 0⟩] } x = p.requestCount x) := by
  simp only [createTime, requestCount]
  by_cases hx : x < p.objects.length
  · rw [List.getElem?_append_left hx]
    exact ⟨id, fun _ => rfl⟩
  · refine ⟨fun _ => ?_, fun hlt => absurd hlt hx⟩
    rcases hnew : (p.objects ++ [HttpConn.mk 0 0 0])[x]? with _ | o
    · rfl
    · rcases getElem?_concat_eq_some p.objects _ _ x hnew with hthere | ⟨-, rfl⟩
      · exact absurd (List.getElem?_eq_some_iff.1 hthere).1 hx
      · rfl

/-! ## Steps -/

/-- Only a new call, or one that goes on, can be on its way to the list. -/
theorem pooled_goto (p q : HttpConnectionPool) (i : Nat) (pos : PoolPos) (c : Nat)
    (hthreads : q.threads = p.threads) (hconns : ∀ x ∈ q.conns, x ∈ p.conns)
    (hpos : pos ≠ .recycling c) (hc : (q.goto i pos).Pooled c) : p.Pooled c := by
  rcases hc with hmem | hmem
  · exact Or.inl (hconns c hmem)
  · simp only [goto, hthreads] at hmem
    rcases List.mem_or_eq_of_mem_set hmem with hold | hnew
    · exact Or.inr hold
    · exact absurd hnew.symm hpos

/-- A step that makes no difference for the connections in the list. -/
theorem unaged_of (p q : HttpConnectionPool) (h : p.Unaged) (haccounted : q.Accounted)
    (hmax : q.maxRequest = p.maxRequest) (hunset : ∀ c, q.createTime c = 0)
    (hpooled : ∀ c, q.Pooled c → p.Pooled c ∧ q.requestCount c = p.requestCount c) :
    q.Unaged := by
  refine ⟨haccounted, hunset, fun c hc => ?_⟩
  rcases hpooled c hc with ⟨hold, hsame⟩
  rw [hsame, hmax]
  exact h.pooled c hold

/-- A call goes on, and nothing of a connection in the list is changed on the way. -/
theorem unaged_goto (p q : HttpConnectionPool) (h : p.Unaged) (i : Nat) (pos : PoolPos)
    (haccounted : (q.goto i pos).Accounted) (hmax : q.maxRequest = p.maxRequest)
    (hthreads : q.threads = p.threads) (hconns : ∀ x ∈ q.conns, x ∈ p.conns)
    (hpos : ∀ c, pos ≠ .recycling c)
    (hfields : ∀ c, q.createTime c = 0 ∧ (p.Pooled c → q.requestCount c = p.requestCount c)) :
    (q.goto i pos).Unaged := by
  refine unaged_of p _ h haccounted hmax (fun c => (hfields c).1) (fun c hc => ?_)
  have hold := pooled_goto p q i pos c hthreads hconns (hpos c) hc
  exact ⟨hold, (hfields c).2 hold⟩

theorem unaged_goOn (p p' : HttpConnectionPool) (h : p.Unaged) (i : Nat) (pos : PoolPos)
    (hi : p.threads[i]? = some pos) (hstep : p.goOn i pos = some p') : p'.Unaged := by
  have haccounted := goOn_accounted p p' h.accounted i pos hi hstep
  have hsame : ∀ c, p.createTime c = 0 ∧ (p.Pooled c → p.requestCount c = p.requestCount c) :=
    fun c => ⟨h.unset c, fun _ => rfl⟩
  have hdelete : ∀ x c, (p.delete x).createTime c = 0 ∧
      (p.Pooled c → (p.delete x).requestCount c = p.requestCount c) := by
    intro x c
    rcases fields_delete p x c with ⟨htime, hrequest⟩
    exact ⟨htime.trans (h.unset c), fun _ => hrequest⟩
  cases pos with
  | clearing invalid size ptr =>
      cases invalid with
      | cons c rest =>
          cases hstep
          exact unaged_goto p _ h i _ haccounted rfl rfl (fun _ hx => hx)
            (fun _ hno => by cases hno) (hdelete c)
      | nil =>
          cases hstep
          cases ptr with
          | some c =>
              exact unaged_goto p _ h i _ haccounted rfl rfl (fun _ hx => hx)
                (fun _ hno => by cases hno) hsame
          | none =>
              exact unaged_goto p _ h i _ haccounted rfl rfl (fun _ hx => hx)
                (fun _ hno => by cases hno) hsame
  | made c | got c | deleted =>
      cases hstep
      exact unaged_goto p _ h i _ haccounted rfl rfl (fun _ hx => hx)
        (fun _ hno => by cases hno) hsame
  | deleting c =>
      cases hstep
      exact unaged_goto p _ h i _ haccounted rfl rfl (fun _ hx => hx)
        (fun _ hno => by cases hno) (hdelete c)
  | recycling c =>
      cases hstep
      -- The connection was on its way to the list.
      refine unaged_of p _ h haccounted rfl h.unset (fun x hx => ⟨?_, rfl⟩)
      rcases hx with hmem | hmem
      · rcases List.mem_append.1 hmem with hold | hnew
        · exact Or.inl hold
        · rw [List.mem_singleton.1 hnew]
          exact Or.inr (List.mem_of_getElem? hi)
      · rcases List.mem_or_eq_of_mem_set hmem with hold | hnew
        · exact Or.inr hold
        · cases hnew
  | getting | connecting | returned | releasing | released => cases hstep

theorem unaged_step (p p' : HttpConnectionPool) (a : Action) (h : p.Unaged)
    (hstep : step a p = some p') : p'.Unaged := by
  have haccounted := step_accounted p p' a h.accounted hstep
  have hsame : ∀ c, p.createTime c = 0 ∧ (p.Pooled c → p.requestCount c = p.requestCount c) :=
    fun c => ⟨h.unset c, fun _ => rfl⟩
  -- A call that begins has nothing for the list.
  have hbegin : ∀ (pos : PoolPos) c, pos ≠ .recycling c →
      .recycling c ∈ p.threads ++ [pos] → p.Pooled c := by
    intro pos c hne hc
    rcases List.mem_append.1 hc with hold | hnew
    · exact Or.inr hold
    · exact absurd (List.mem_singleton.1 hnew).symm hne
  cases a with
  | getConnection nowMs =>
      cases hstep
      refine unaged_of p _ h haccounted rfl h.unset (fun c hc => ⟨?_, rfl⟩)
      exact hc.elim Or.inl (hbegin _ c (fun hno => by cases hno))
  | lock i connected =>
      simp only [step] at hstep
      split at hstep
      · next nowMs hi =>
          cases hstep
          refine unaged_goto p { p with conns := (p.takeConn nowMs connected p.conns).2.2 } h i _
            haccounted rfl rfl ?_ (fun _ hno => by cases hno) hsame
          intro x hx
          rw [takeConn_count p nowMs connected p.conns]
          exact List.mem_append_right _ hx
      · cases hstep
  | connect i ok =>
      simp only [step] at hstep
      split at hstep
      · split at hstep
        · cases hstep
          refine unaged_goto p { p with objects := p.objects ++ [⟨0, 0, 0⟩] } h i _ haccounted rfl
            rfl (fun _ hx => hx) (fun _ hno => by cases hno) (fun c => ?_)
          rcases fields_concat p c with ⟨htime, hrequest⟩
          refine ⟨htime (h.unset c), fun hc => hrequest ?_⟩
          exact lt_of_owns p h.accounted c (owns_of_pooled p c hc)
        · cases hstep
          exact unaged_goto p p h i _ haccounted rfl rfl (fun _ hx => hx)
            (fun _ hno => by cases hno) hsame
      · cases hstep
  | release c =>
      simp only [step] at hstep
      split at hstep
      · cases hstep
        refine unaged_of p _ h haccounted rfl h.unset (fun x hx => ⟨?_, rfl⟩)
        exact hx.elim Or.inl (hbegin _ x (fun hno => by cases hno))
      · cases hstep
  | check i connected nowMs =>
      simp only [step] at hstep
      split at hstep
      · next c hi =>
          have hmem := List.mem_of_getElem? hi
          have hlt := lt_of_owns p h.accounted c
            (owns_of_mem p c _ hmem (List.mem_singleton_self c))
          have hfields := fields_served p c hlt
          have hapart : ∀ x, p.Pooled x → (p.served c).requestCount x = p.requestCount x := by
            intro x hx
            rw [(hfields x).2, if_neg]
            rintro rfl
            exact not_pooled_of_releasing p h.accounted x hmem hx
          have hunset : ∀ x, (p.served c).createTime x = 0 :=
            fun x => (hfields x).1.trans (h.unset x)
          split at hstep
          · cases hstep
            exact unaged_goto p (p.served c) h i _ haccounted rfl rfl (fun _ hx => hx)
              (fun _ hno => by cases hno) (fun x => ⟨hunset x, hapart x⟩)
          · next hkeep =>
              cases hstep
              refine ⟨haccounted, hunset, fun x hx => ?_⟩
              by_cases hxc : x = c
              · -- It goes to the list because it has served less than it may.
                simp only [Bool.or_eq_true, decide_eq_true_eq, not_or] at hkeep
                rw [hxc]
                exact UInt64.not_le.1 hkeep.2
              · have hold : p.Pooled x := by
                  refine pooled_goto p (p.served c) i _ x rfl (fun _ hx => hx) ?_ hx
                  intro heq
                  cases heq
                  exact hxc rfl
                exact (hapart x hold).trans_lt (h.pooled x hold)
      · cases hstep
  | go i =>
      rcases Option.bind_eq_some_iff.1 hstep with ⟨pos, hi, hgo⟩
      exact unaged_goOn p p' h i pos hi hgo

/-! ## The loop -/

/-- Before `m_maxAliveTime` on the clock the loop throws everything away. -/
theorem takeConn_early (p : HttpConnectionPool) (h : p.Unaged) (nowMs : UInt64)
    (hearly : nowMs < p.maxAliveTime) (connected cs : List Nat) :
    p.takeConn nowMs connected cs = (cs, none, []) := by
  induction cs with
  | nil => rfl
  | cons c cs ih =>
      have htime : p.createTime c + p.maxAliveTime > nowMs := by
        rw [h.unset c, UInt64.zero_add]
        exact hearly
      rw [takeConn, if_pos (Or.inr htime), ih]

/-- Later on it takes the first that is connected. -/
theorem takeConn_late (p : HttpConnectionPool) (h : p.Unaged) (nowMs : UInt64)
    (hlate : ¬nowMs < p.maxAliveTime) (connected cs : List Nat) :
    (p.takeConn nowMs connected cs).2.1 = cs.find? (· ∈ connected) ∧
      ∀ c ∈ (p.takeConn nowMs connected cs).1, c ∉ connected := by
  induction cs with
  | nil => exact ⟨rfl, fun _ hc => absurd hc List.not_mem_nil⟩
  | cons c cs ih =>
      have htime : ¬p.createTime c + p.maxAliveTime > nowMs := by
        rw [h.unset c, UInt64.zero_add]
        exact hlate
      rw [takeConn]
      by_cases hc : c ∈ connected
      · rw [if_neg (not_or.2 ⟨not_not.2 hc, htime⟩), List.find?_cons_of_pos (by simpa using hc)]
        exact ⟨rfl, fun _ hno => absurd hno List.not_mem_nil⟩
      · rw [if_pos (Or.inl hc), List.find?_cons_of_neg (by simpa using hc)]
        refine ⟨ih.1, fun x hx => ?_⟩
        rcases List.mem_cons.1 hx with rfl | hx'
        · exact hc
        · exact ih.2 x hx'

end HttpConnectionPool

namespace AgingPool

/-! ## One step -/

theorem inv_step (w : AgingPool) (a : HttpConnectionPool.Action × UInt64) (w' : AgingPool)
    (h : w.pool.Unaged) (hstep : step a w = some w') : w'.pool.Unaged := by
  rcases Option.map_eq_some_iff.1 hstep with ⟨p, hpool, rfl⟩
  have hp := HttpConnectionPool.unaged_step w.pool p a.1 h hpool
  split
  · exact hp
  · exact hp

/-- The mutex of `getConnection`. -/
theorem lock_iff (w : AgingPool) (h : w.pool.Unaged) (i : Nat) (connected : List Nat)
    (now : UInt64) : w.AgesWell (.lock i connected, now) ↔ w.Spares (.lock i connected, now) := by
  by_cases hthread : ∃ nowMs, w.pool.threads[i]? = some (.getting nowMs)
  · rcases hthread with ⟨nowMs, hi⟩
    set taken := w.pool.takeConn nowMs connected w.pool.conns with htaken
    have hstep : step (.lock i connected, now) w = some ⟨HttpConnectionPool.goto
        { w.pool with conns := taken.2.2 } i (.clearing taken.1 taken.1.length taken.2.1),
        w.born⟩ := by
      simp only [step, HttpConnectionPool.step, hi, Option.map_some, ← htaken]
    have hclear : (w.pool.threads.set i (.clearing taken.1 taken.1.length taken.2.1))[i]? =
        some (.clearing taken.1 taken.1.length taken.2.1) :=
      (getElem?_update _ i _ _ hi i).trans (if_pos rfl)
    have hages : w.AgesWell (.lock i connected, now) ↔
        (∀ c, taken.2.1 = some c → ¬w.Expired nowMs c) ∧
          ∀ c ∈ taken.1, ¬w.Keep nowMs c (c ∈ connected) := by
      constructor
      · intro hall
        exact hall _ hstep nowMs _ _ _ hi hclear
      · intro hall w' hw' nowMs' invalid size ptr hi' hclear'
        rw [hstep, Option.some.injEq] at hw'
        rw [← hw'] at hclear'
        rw [hi] at hi'
        rw [HttpConnectionPool.goto, hclear] at hclear'
        cases hi'
        cases hclear'
        exact hall
    have hspares : w.Spares (.lock i connected, now) ↔
        if nowMs < w.pool.maxAliveTime then ∀ c ∈ w.pool.conns, c ∉ connected
        else ∀ c, w.pool.conns.find? (· ∈ connected) = some c → ¬w.Expired nowMs c := by
      constructor
      · intro hall
        exact hall nowMs hi
      · intro hall nowMs' hi'
        rw [hi] at hi'
        cases hi'
        exact hall
    rw [hages, hspares]
    by_cases hearly : nowMs < w.pool.maxAliveTime
    · rw [if_pos hearly, htaken,
        HttpConnectionPool.takeConn_early w.pool h nowMs hearly connected w.pool.conns]
      -- Whatever is in the list should be kept if it is connected.
      have hkeep : ∀ c ∈ w.pool.conns, w.Keep nowMs c (c ∈ connected) ↔ c ∈ connected := by
        intro c hc
        have hfresh : w.Fresh nowMs c := Nat.lt_add_left _ (UInt64.lt_iff_toNat_lt.1 hearly)
        exact and_iff_left ⟨hfresh, h.pooled c (Or.inl hc)⟩
      constructor
      · rintro ⟨-, hall⟩ c hc hconn
        exact hall c hc ((hkeep c hc).2 hconn)
      · intro hall
        refine ⟨fun c hno => ?_, fun c hc hk => hall c hc ((hkeep c hc).1 hk)⟩
        cases hno
    · rw [if_neg hearly]
      rcases HttpConnectionPool.takeConn_late w.pool h nowMs hearly connected w.pool.conns with
        ⟨hptr, hinvalid⟩
      rw [← htaken] at hptr hinvalid
      rw [hptr]
      exact and_iff_left (fun c hc hk => hinvalid c hc hk.1)
  · refine iff_of_true ?_ (fun nowMs hi => absurd ⟨nowMs, hi⟩ hthread)
    intro w' _ nowMs _ _ _ hi
    exact absurd ⟨nowMs, hi⟩ hthread

/-- The first half of `ReleasePtr`. -/
theorem check_iff (w : AgingPool) (h : w.pool.Unaged) (i : Nat) (connected : Bool)
    (nowMs now : UInt64) :
    w.AgesWell (.check i connected nowMs, now) ↔ w.Spares (.check i connected nowMs, now) := by
  by_cases hthread : ∃ c, w.pool.threads[i]? = some (.releasing c)
  · rcases hthread with ⟨c, hi⟩
    have hlt := HttpConnectionPool.lt_of_owns w.pool h.accounted c
      (HttpConnectionPool.owns_of_mem w.pool c _ (List.mem_of_getElem? hi)
        (List.mem_singleton_self c))
    rcases HttpConnectionPool.fields_served w.pool c hlt c with ⟨htime, hrequest⟩
    rw [h.unset c] at htime
    rw [if_pos rfl] at hrequest
    set gone := !connected || decide (w.pool.maxAliveTime ≥ nowMs) ||
      decide (w.pool.requestCount c + 1 ≥ w.pool.maxRequest) with hgone
    have hpool : HttpConnectionPool.step (.check i connected nowMs) w.pool =
        some ((w.pool.served c).goto i (if gone then .deleting c else .recycling c)) := by
      simp only [HttpConnectionPool.step, hi]
      change (if !connected || decide ((w.pool.served c).createTime c + w.pool.maxAliveTime ≥ nowMs)
        || decide ((w.pool.served c).requestCount c ≥ w.pool.maxRequest) then
        some ((w.pool.served c).goto i (.deleting c))
        else some ((w.pool.served c).goto i (.recycling c))) = _
      rw [htime, hrequest, UInt64.zero_add, ← hgone]
      split <;> rfl
    set w₁ : AgingPool :=
      ⟨(w.pool.served c).goto i (if gone then .deleting c else .recycling c), w.born⟩ with hw₁
    have hstep : step (.check i connected nowMs, now) w = some w₁ := by
      simp only [step, hpool, Option.map_some]
      rfl
    have hpos : w₁.pool.threads[i]? = some (if gone then .deleting c else .recycling c) :=
      (getElem?_update w.pool.threads i _ _ hi i).trans (if_pos rfl)
    have hages : w.AgesWell (.check i connected nowMs, now) ↔
        (gone = true → ¬w₁.Keep nowMs c (connected = true)) := by
      constructor
      · intro hall hyes
        refine hall w₁ hstep c ?_
        rw [hpos, if_pos hyes]
      · intro hall w' hw' c' hdeleting
        rw [hstep, Option.some.injEq] at hw'
        rw [← hw', hpos, Option.some.injEq] at hdeleting
        rw [← hw']
        split at hdeleting
        · next hyes =>
            cases hdeleting
            exact hall hyes
        · cases hdeleting
    have hkeep : w₁.Keep nowMs c (connected = true) ↔ connected = true ∧ w.Fresh nowMs c ∧
        w.pool.requestCount c + 1 < w.pool.maxRequest := by
      have hcount : w₁.pool.requestCount c = w.pool.requestCount c + 1 := hrequest
      rw [Keep, hcount]
      exact Iff.rfl
    have hspares : w.Spares (.check i connected nowMs, now) ↔
        ¬(connected = true ∧ w.pool.requestCount c + 1 < w.pool.maxRequest ∧
          (nowMs < w.pool.maxAliveTime ∨ nowMs = w.pool.maxAliveTime ∧ 0 < w.bornAt c)) := by
      constructor
      · intro hall
        exact hall c hi
      · intro hall c' hi'
        rw [hi] at hi'
        cases hi'
        exact hall
    -- With no time of its own, a connection is kept once the clock has passed `m_maxAliveTime`.
    have hclock : nowMs ≤ w.pool.maxAliveTime ∧ w.Fresh nowMs c ↔
        nowMs < w.pool.maxAliveTime ∨ nowMs = w.pool.maxAliveTime ∧ 0 < w.bornAt c := by
      simp only [Fresh, UInt64.lt_iff_toNat_lt, UInt64.le_iff_toNat_le, ← UInt64.toNat_inj,
        UInt64.toNat_zero]
      omega
    rw [hages, hspares, hkeep, ← hclock, hgone]
    simp only [Bool.or_eq_true, decide_eq_true_eq, ge_iff_le]
    constructor
    · rintro hall ⟨hconn, hless, hle, hfresh⟩
      exact hall (Or.inl (Or.inr hle)) ⟨hconn, hfresh, hless⟩
    · rintro hall ((hgone | hle) | hmax) ⟨hconn, hfresh, hless⟩
      · rw [hconn] at hgone
        cases hgone
      · exact hall ⟨hconn, hless, hle, hfresh⟩
      · exact absurd hless (UInt64.not_lt.2 hmax)
  · have hnone : step (.check i connected nowMs, now) w = none := by
      simp only [step, HttpConnectionPool.step]
      split
      · next c hi => exact absurd ⟨c, hi⟩ hthread
      · rfl
    refine iff_of_true ?_ (fun c hi => absurd ⟨c, hi⟩ hthread)
    intro w' hw'
    rw [hnone] at hw'
    cases hw'

theorem agesWell_iff (w : AgingPool) (a : HttpConnectionPool.Action × UInt64)
    (h : w.pool.Unaged) : w.AgesWell a ↔ w.Spares a := by
  rcases a with ⟨a, now⟩
  cases a with
  | lock i connected => exact lock_iff w h i connected now
  | check i connected nowMs => exact check_iff w h i connected nowMs now
  | getConnection nowMs | connect i ok | release c | go i =>
      exact iff_of_true (fun _ _ => trivial) trivial

/-! ## Any run -/

/-- In any run, at any times, no connection that is too old is taken from the list and none is
    thrown away that could be used again, exactly if no step of the run runs into the
    comparisons. -/
theorem ageing_iff (maxAliveTime maxRequest : UInt64)
    (as : List (HttpConnectionPool.Action × UInt64)) :
    Along step AgesWell as (new maxAliveTime maxRequest) ↔
      Along step Spares as (new maxAliveTime maxRequest) :=
  along_iff (fun w => w.pool.Unaged) agesWell_iff
    (fun w a w' h _ hstep => inv_step w a w' h hstep) as _
    (HttpConnectionPool.unaged_new maxAliveTime maxRequest)

/-- A connection that is given back after a second. -/
def pooledOnce : List (HttpConnectionPool.Action × UInt64) :=
  [(.getConnection 5000, 5000), (.lock 0 [], 5000), (.go 0, 5000), (.connect 0 true, 5000),
    (.go 0, 5000), (.go 0, 5000), (.release 0, 6000), (.check 1 true 6000, 6000), (.go 1, 6000),
    (.getConnection 100000, 100000)]

/-- A connection that may live for a second is handed out again after 95. -/
theorem expired_handed_out :
    ¬∀ (maxAliveTime maxRequest : UInt64) (as : List (HttpConnectionPool.Action × UInt64)),
      Along step AgesWell as (new maxAliveTime maxRequest) := by
  intro hall
  have hrun : run step pooledOnce (new 1000 10) = some ⟨⟨1000, 10, [0], 1, [⟨0, 1, 0⟩], [],
      [.returned (some 0), .released, .getting 100000]⟩, [5000]⟩ := by decide
  have hlast := hall 1000 10 (pooledOnce ++ [(.lock 2 [0], 100000)])
  rw [along_append _ _ _ _ hrun] at hlast
  have hexpired := (hlast.2.1 _ rfl 100000 [] 0 (some 0) rfl rfl).1 0 rfl
  have hold : (5000 : UInt64).toNat + (1000 : UInt64).toNat < (100000 : UInt64).toNat := by decide
  exact hexpired hold

end AgingPool

end YkServer
