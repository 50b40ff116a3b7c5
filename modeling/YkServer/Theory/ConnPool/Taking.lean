import Mathlib.Data.List.Nodup
import Mathlib.Data.List.Perm.Basic
import Mathlib.Data.List.TakeWhile
import YkServer.Core.ConnPool
import YkServer.Lib.Reach

/-!
# Taking a Connection

What `getConn` does with the list, and what becomes of the connection it returns.

In any run a connection is in the list, or handed out, or deleted, and in one place
only. `getConn` deletes the connections in front of the first valid one and takes
that one; if there is none it takes a new one. It does not look at whether a new one
could be made, so that with no valid connection and no database it takes the first
one of an empty list.

## Main definitions

* `ConnPool.places`: The connections in all places.
* `ConnPool.Distinct`: Every connection is in one place.
* `ConnPool.PutBackOnce`: What becomes of a connection that was taken.
* `ConnPool.Takes`: What `getConn` is for.

## Theorems

* `ConnPool.getConn_first`, `ConnPool.getConn_new`, `ConnPool.getConn_fault`: The ways
  `getConn` ends.
* `ConnPool.perform_distinct`, `ConnPool.reaches_distinct`: The invariant.
* `ConnPool.putBackOnce_of_taken`: A taken connection is put back once.
* `ConnPool.takes_iff`: When `getConn` does what it is for.
-/

namespace YkServer.ConnPool

open Lib

/-- The connections in all places. -/
def places (p : ConnPool) : List Nat := p.m_conns ++ (p.taken ++ p.deleted)

/-- Every connection is in one place, and the next one is a new one. -/
structure Distinct (p : ConnPool) : Prop where
  nodup : (places p).Nodup
  old : ∀ c ∈ places p, c < p.made

/-- The connection is not in the list as long as its deleter has not run, and once in
    it when that has. -/
def PutBackOnce (c : Nat) (p : ConnPool) : Prop :=
  ∀ p', Reaches perform (fun s op => Allowed s op ∧ op ≠ .deleter c) p p' →
    c ∈ p'.taken ∧ c ∉ p'.m_conns
      ∧ ∃ p'', deleter c p' = .ok () p'' ∧ p''.m_conns.count c = 1 ∧ c ∉ p''.taken

/-- What `getConn` is for: it returns, deletes the invalid connections in front of the
    first valid one, and takes that one or a new one, which is put back once; it
    returns an empty pointer if there is none. -/
def Takes (p : ConnPool) (valid : Nat → Bool) (connect : Bool) : Prop :=
  ∃ ptr p', getConn valid connect p = .ok ptr p'
    ∧ p'.deleted = p.deleted ++ p.m_conns.takeWhile (fun c => !valid c)
    ∧ match ptr with
      | some c => p'.m_conns = (p.m_conns.dropWhile (fun c => !valid c)).tail
          ∧ ((p.m_conns.dropWhile (fun c => !valid c)).head? = some c
            ∨ p.m_conns.dropWhile (fun c => !valid c) = [] ∧ c ∉ places p)
          ∧ c ∉ p'.m_conns ∧ PutBackOnce c p'
      | none => p'.m_conns = [] ∧ (∀ c ∈ p.m_conns, valid c = false)
          ∧ (p.m_status && connect) = false

/-! ## The ways the methods end -/

theorem prune_eq (valid : Nat → Bool) (conns : List Nat) :
    prune valid conns
      = (conns.takeWhile (fun c => !valid c), conns.dropWhile (fun c => !valid c)) := by
  induction conns with
  | nil => rfl
  | cons c conns ih =>
      rw [prune, ih, List.takeWhile_cons, List.dropWhile_cons]
      cases valid c with
      | true => rfl
      | false => rfl

theorem addConn_made (connect : Bool) (p : ConnPool) (h : (p.m_status && connect) = true) :
    addConn connect p
      = .ok 0 { p with m_conns := p.m_conns ++ [p.made], made := p.made + 1 } := by
  rcases p with ⟨minSize, timeout, conns, status, taken, deleted, made⟩
  rw [Bool.and_eq_true] at h
  rcases h with ⟨rfl, rfl⟩
  rfl

theorem addConn_failed (connect : Bool) (p : ConnPool) (h : (p.m_status && connect) = false) :
    addConn connect p = .ok 1 p := by
  rcases p with ⟨minSize, timeout, conns, status, taken, deleted, made⟩
  rw [Bool.and_eq_false_iff] at h
  rcases h with rfl | rfl
  · rfl
  · cases status with
    | true => rfl
    | false => rfl

section

variable (valid : Nat → Bool) (connect : Bool) (p : ConnPool)

/-- The pool behind the loop. -/
def pruned : ConnPool :=
  { p with
    m_conns := p.m_conns.dropWhile (fun c => !valid c)
    deleted := p.deleted ++ p.m_conns.takeWhile (fun c => !valid c) }

theorem dropInvalid_eq : dropInvalid valid p = .ok () (pruned valid p) := by
  rw [dropInvalid, Prog.modify, prune_eq]
  rfl

/-- There is a valid connection. -/
theorem getConn_first (c : Nat) (conns : List Nat)
    (h : p.m_conns.dropWhile (fun c => !valid c) = c :: conns) :
    getConn valid connect p
      = .ok (some c) { pruned valid p with m_conns := conns, taken := c :: p.taken } := by
  have hfront : (pruned valid p).m_conns = c :: conns := h
  have hadd : addIfEmpty connect (pruned valid p) = .ok 0 (pruned valid p) := by
    simp only [addIfEmpty, bind, Prog.get, hfront]
    rfl
  rw [getConn, bind_ok _ _ p _ () (dropInvalid_eq valid p), bind_ok _ _ _ _ _ hadd]
  simp only [takeFront, bind, Prog.get, hfront]
  rfl

/-- There is none, and a new one can be made. -/
theorem getConn_new (h : p.m_conns.dropWhile (fun c => !valid c) = [])
    (hmade : (p.m_status && connect) = true) :
    getConn valid connect p
      = .ok (some p.made) { pruned valid p with
          m_conns := [], taken := p.made :: p.taken, made := p.made + 1 } := by
  have hempty : (pruned valid p).m_conns = [] := h
  have hadd : addIfEmpty connect (pruned valid p)
      = .ok 0 { pruned valid p with m_conns := [p.made], made := p.made + 1 } := by
    have hone := addConn_made connect (pruned valid p) hmade
    rw [hempty] at hone
    simp only [addIfEmpty, bind, Prog.get, hempty]
    exact hone
  rw [getConn, bind_ok _ _ p _ () (dropInvalid_eq valid p), bind_ok _ _ _ _ _ hadd]
  rfl

/-- There is none, and none can be made. -/
theorem getConn_fault (h : p.m_conns.dropWhile (fun c => !valid c) = [])
    (hfailed : (p.m_status && connect) = false) : getConn valid connect p = .fault := by
  have hempty : (pruned valid p).m_conns = [] := h
  have hadd : addIfEmpty connect (pruned valid p) = .ok 1 (pruned valid p) := by
    simp only [addIfEmpty, bind, Prog.get, hempty]
    exact addConn_failed connect (pruned valid p) hfailed
  rw [getConn, bind_ok _ _ p _ () (dropInvalid_eq valid p), bind_ok _ _ _ _ _ hadd]
  simp only [takeFront, bind, Prog.get, hempty]
  rfl

end

/-! ## One place each -/

theorem distinct_new (minSize : Nat) (timeout : UInt64) : Distinct (new minSize timeout) :=
  ⟨List.nodup_nil, fun _ hc => absurd hc List.not_mem_nil⟩

/-- Connections change places. -/
theorem distinct_of_perm (p p' : ConnPool) (h : Distinct p)
    (hperm : (places p').Perm (places p)) (hmade : p'.made = p.made) : Distinct p' where
  nodup := hperm.nodup_iff.2 h.nodup
  old c hc := by
    rw [hmade]
    exact h.old c (hperm.mem_iff.1 hc)

/-- A new connection comes in. -/
theorem distinct_of_made (p p' : ConnPool) (h : Distinct p)
    (hperm : (places p').Perm (p.made :: places p)) (hmade : p'.made = p.made + 1) :
    Distinct p' where
  nodup := by
    rw [hperm.nodup_iff, List.nodup_cons]
    exact ⟨fun hmem => Nat.lt_irrefl _ (h.old _ hmem), h.nodup⟩
  old c hc := by
    rw [hmade]
    rcases List.mem_cons.1 (hperm.mem_iff.1 hc) with rfl | hc
    · exact Nat.lt_succ_self _
    · exact Nat.lt_succ_of_lt (h.old c hc)

theorem pruned_perm (valid : Nat → Bool) (p : ConnPool) :
    (places (pruned valid p)).Perm (places p) := by
  rw [List.perm_iff_count]
  intro a
  have hsplit := congrArg (List.count a)
    (List.takeWhile_append_dropWhile (p := fun c => !valid c) (l := p.m_conns))
  rw [List.count_append] at hsplit
  simp only [places, pruned, List.count_append]
  omega

/-- What `recycleConn` leaves and what it deletes is what there was. -/
theorem count_recycle (minSize : Nat) (timeout : UInt64) (idle : Nat → UInt64) (size : Nat)
    (conns : List Nat) (a : Nat) :
    (recycle minSize timeout idle size conns).1.count a
      + (recycle minSize timeout idle size conns).2.count a = conns.count a := by
  induction conns generalizing size with
  | nil => rfl
  | cons c conns ih =>
      rw [recycle]
      split
      · rw [List.count_nil, Nat.add_zero]
      · split
        · have hrest := ih (size - 1)
          simp only [List.count_cons]
          omega
        · have hrest := ih size
          simp only [List.count_cons]
          omega

theorem recycle_perm (idle : Nat → UInt64) (p : ConnPool) :
    (places { p with
      m_conns := (recycle p.m_minSize p.m_timeout idle p.m_conns.length p.m_conns).1
      deleted := p.deleted
        ++ (recycle p.m_minSize p.m_timeout idle p.m_conns.length p.m_conns).2 }).Perm
      (places p) := by
  rw [List.perm_iff_count]
  intro a
  have hcount := count_recycle p.m_minSize p.m_timeout idle p.m_conns.length p.m_conns a
  simp only [places, List.count_append]
  omega

/-! ## Keeping -/

theorem addConn_keeps (I : ConnPool → Prop) (connect : Bool)
    (hmade : ∀ p, I p → I { p with m_conns := p.m_conns ++ [p.made], made := p.made + 1 }) :
    Keeps I (addConn connect) := by
  intro p hp
  cases hcase : p.m_status && connect with
  | true =>
      rw [addConn_made connect p hcase]
      exact hmade p hp
  | false =>
      rw [addConn_failed connect p hcase]
      exact hp

theorem produce_keeps (I : ConnPool → Prop) (connect : Nat → Bool) (n : Nat)
    (hadd : ∀ b, Keeps I (addConn b)) : Keeps I (produce connect n) := by
  induction n with
  | zero => exact fun p hp => hp
  | succ n ih =>
      rw [produce]
      refine keeps_bind I _ _ (hadd _) (fun ret => ?_)
      split
      · exact fun p hp => hp
      · exact ih

theorem init_keeps (I : ConnPool → Prop) (driver : Bool)
    (hstatus : ∀ p status, I p → I { p with m_status := status }) : Keeps I (init driver) := by
  intro p hp
  cases hs : p.m_status with
  | true =>
      simp only [init, bind, Prog.get, hs]
      exact hp
  | false =>
      cases driver with
      | true =>
          simp only [init, bind, Prog.get, hs]
          exact hstatus p true hp
      | false =>
          simp only [init, bind, Prog.get, hs]
          exact hstatus p false hp

/-- An invariant is kept by `getConn` if it is kept where `getConn` returns. -/
theorem getConn_keeps (I : ConnPool → Prop) (valid : Nat → Bool) (connect : Bool)
    (hfirst : ∀ p c conns, I p → (pruned valid p).m_conns = c :: conns →
      I { pruned valid p with m_conns := conns, taken := c :: p.taken })
    (hnew : ∀ p, I p → (pruned valid p).m_conns = [] →
      I { pruned valid p with m_conns := [], taken := p.made :: p.taken, made := p.made + 1 }) :
    Keeps I (getConn valid connect) := by
  intro p hp
  rcases hdrop : p.m_conns.dropWhile (fun c => !valid c) with _ | ⟨c, conns⟩
  · cases hcase : p.m_status && connect with
    | true =>
        rw [getConn_new valid connect p hdrop hcase]
        exact hnew p hp hdrop
    | false =>
        rw [getConn_fault valid connect p hdrop hcase]
        trivial
  · rw [getConn_first valid connect p c conns hdrop]
    exact hfirst p c conns hp hdrop

theorem addConn_distinct (connect : Bool) : Keeps Distinct (addConn connect) := by
  refine addConn_keeps Distinct connect (fun p hp => distinct_of_made p _ hp ?_ rfl)
  simp only [places, List.append_assoc, List.singleton_append]
  exact List.perm_middle

theorem getConn_distinct (valid : Nat → Bool) (connect : Bool) :
    Keeps Distinct (getConn valid connect) := by
  refine getConn_keeps Distinct valid connect (fun p c conns hp hdrop => ?_)
    (fun p hp hdrop => ?_)
  · refine distinct_of_perm p _ hp (List.Perm.trans ?_ (pruned_perm valid p)) rfl
    simp only [places, hdrop, List.cons_append]
    exact List.perm_middle
  · refine distinct_of_made p _ hp (List.Perm.trans ?_ ((pruned_perm valid p).cons p.made)) rfl
    simp only [places, hdrop, List.nil_append, List.cons_append]
    exact List.Perm.refl _

theorem deleter_distinct (p : ConnPool) (c : Nat) (hp : Distinct p) (hc : c ∈ p.taken) :
    Distinct { p with m_conns := p.m_conns ++ [c], taken := p.taken.erase c } := by
  refine distinct_of_perm p _ hp ?_ rfl
  rw [List.perm_iff_count]
  intro a
  have htaken := (List.perm_cons_erase hc).count_eq a
  simp only [List.count_cons] at htaken
  simp only [places, List.count_append, List.count_cons, List.count_nil]
  omega

/-- Every operation keeps one place for every connection. -/
theorem perform_distinct (p p' : ConnPool) (op : Op) (hp : Distinct p) (hop : Allowed p op)
    (h : perform op p = .ok () p') : Distinct p' := by
  have hends (hkeeps : Keeps Distinct (perform op)) : Distinct p' := by
    have hend := hkeeps p hp
    rw [h] at hend
    exact hend
  have hstatus (q : ConnPool) (status : Bool) (hq : Distinct q) :
      Distinct { q with m_status := status } :=
    distinct_of_perm q _ hq (List.Perm.refl _) rfl
  cases op with
  | init driver =>
      exact hends (keeps_bind _ _ _ (init_keeps Distinct driver hstatus) (fun _ _ hq => hq))
  | addConn connect =>
      exact hends (keeps_bind _ _ _ (addConn_distinct connect) (fun _ _ hq => hq))
  | getConn valid connect =>
      exact hends (keeps_bind _ _ _ (getConn_distinct valid connect) (fun _ _ hq => hq))
  | deleter c =>
      rw [← (Outcome.ok.inj h).2]
      exact deleter_distinct p c hp hop
  | produceConn connect =>
      refine hends (fun q hq => ?_)
      exact produce_keeps Distinct connect _ addConn_distinct q hq
  | recycleConn idle =>
      rw [← (Outcome.ok.inj h).2]
      exact distinct_of_perm p _ hp (recycle_perm idle p) rfl

theorem reaches_distinct (minSize : Nat) (timeout : UInt64) (p : ConnPool)
    (h : Reaches perform Allowed (new minSize timeout) p) : Distinct p :=
  Reaches.inv perform Allowed (new minSize timeout) Distinct (distinct_new minSize timeout)
    (fun q q' op _ hq hop hrun => perform_distinct q q' op hq hop hrun) p h

/-! ## Putting back -/

/-- A connection somebody has a pointer to stays with them until its deleter runs. -/
theorem perform_taken (p p' : ConnPool) (op : Op) (c : Nat) (hc : c ∈ p.taken)
    (hop : op ≠ .deleter c) (h : perform op p = .ok () p') : c ∈ p'.taken := by
  have hends (hkeeps : Keeps (fun q => c ∈ q.taken) (perform op)) : c ∈ p'.taken := by
    have hend := hkeeps p hc
    rw [h] at hend
    exact hend
  have hadd (connect : Bool) : Keeps (fun q => c ∈ q.taken) (addConn connect) :=
    addConn_keeps _ connect (fun _ hq => hq)
  cases op with
  | init driver =>
      exact hends (keeps_bind _ _ _ (init_keeps _ driver (fun _ _ hq => hq)) (fun _ _ hq => hq))
  | addConn connect => exact hends (keeps_bind _ _ _ (hadd connect) (fun _ _ hq => hq))
  | getConn valid connect =>
      refine hends (keeps_bind _ _ _ (getConn_keeps _ valid connect ?_ ?_) (fun _ _ hq => hq))
      · exact fun q d conns hq _ => List.mem_cons_of_mem d hq
      · exact fun q hq _ => List.mem_cons_of_mem q.made hq
  | deleter d =>
      rw [← (Outcome.ok.inj h).2]
      have hne : c ≠ d := fun heq => hop (congrArg Op.deleter heq.symm)
      exact (List.mem_erase_of_ne hne).2 hc
  | produceConn connect =>
      refine hends (fun q hq => ?_)
      exact produce_keeps _ connect _ hadd q hq
  | recycleConn idle =>
      rw [← (Outcome.ok.inj h).2]
      exact hc

/-- A connection that is handed out is not in the list. -/
theorem not_mem_conns (p : ConnPool) (c : Nat) (hp : Distinct p) (hc : c ∈ p.taken) :
    c ∉ p.m_conns := by
  have hnodup := hp.nodup
  rw [places, List.nodup_append] at hnodup
  exact fun hmem => hnodup.2.2 c hmem c (List.mem_append_left _ hc) rfl

/-- A taken connection is put back once. -/
theorem putBackOnce_of_taken (c : Nat) (p : ConnPool) (hp : Distinct p) (hc : c ∈ p.taken) :
    PutBackOnce c p := by
  intro p' hreach
  have hinv : Distinct p' ∧ c ∈ p'.taken :=
    Reaches.inv perform _ p (fun q => Distinct q ∧ c ∈ q.taken) ⟨hp, hc⟩
      (fun q q' op _ hq hop hrun => ⟨perform_distinct q q' op hq.1 hop.1 hrun,
        perform_taken q q' op c hq.2 hop.2 hrun⟩) p' hreach
  rcases hinv with ⟨hdistinct, htaken⟩
  have hnodup := hdistinct.nodup
  rw [places, List.nodup_append, List.nodup_append] at hnodup
  have hnot := not_mem_conns p' c hdistinct htaken
  refine ⟨htaken, hnot, _, rfl, ?_, ?_⟩
  · simp only [List.count_append, List.count_eq_zero_of_not_mem hnot, List.count_singleton_self]
  · exact fun hmem => (List.Nodup.mem_erase_iff hnodup.2.1.1).1 hmem |>.1 rfl

/-! ## Taking -/

theorem exists_valid_iff (valid : Nat → Bool) (conns : List Nat) :
    (∃ c ∈ conns, valid c = true) ↔ conns.dropWhile (fun c => !valid c) ≠ [] := by
  rw [ne_eq, List.dropWhile_eq_nil_iff, not_forall]
  constructor
  · rintro ⟨c, hc, hvalid⟩
    refine ⟨c, fun h => ?_⟩
    have hnot := h hc
    rw [hvalid] at hnot
    exact Bool.noConfusion hnot
  · rintro ⟨c, h⟩
    rw [Classical.not_imp] at h
    refine ⟨c, h.1, ?_⟩
    rw [Bool.not_eq_true, Bool.not_eq_false'] at h
    exact h.2

section

variable (p : ConnPool) (valid : Nat → Bool) (connect : Bool) (hp : Distinct p)
include hp

/-- `getConn` does what it is for if there is a valid connection. -/
theorem takes_first (c : Nat) (conns : List Nat)
    (hdrop : p.m_conns.dropWhile (fun c => !valid c) = c :: conns) : Takes p valid connect := by
  have hrun := getConn_first valid connect p c conns hdrop
  have hend := getConn_distinct valid connect p hp
  rw [hrun] at hend
  refine ⟨some c, _, hrun, rfl, ?_, Or.inl ?_, ?_, ?_⟩
  · rw [hdrop, List.tail_cons]
  · rw [hdrop, List.head?_cons]
  · exact not_mem_conns _ c hend List.mem_cons_self
  · exact putBackOnce_of_taken c _ hend List.mem_cons_self

/-- `getConn` does what it is for if a connection can be made. -/
theorem takes_new (hdrop : p.m_conns.dropWhile (fun c => !valid c) = [])
    (hmade : (p.m_status && connect) = true) : Takes p valid connect := by
  have hrun := getConn_new valid connect p hdrop hmade
  have hend := getConn_distinct valid connect p hp
  rw [hrun] at hend
  refine ⟨some p.made, _, hrun, rfl, ?_, Or.inr ⟨hdrop, ?_⟩, ?_, ?_⟩
  · rw [hdrop, List.tail_nil]
  · exact fun hmem => Nat.lt_irrefl _ (hp.old _ hmem)
  · exact List.not_mem_nil
  · exact putBackOnce_of_taken p.made _ hend List.mem_cons_self

end

/-- The pools of all runs have every connection in one place, and from such a pool
    `getConn` does what it is for exactly if there is a valid connection in the list or
    one can be made. -/
theorem takes_iff (minSize : Nat) (timeout : UInt64) (p : ConnPool) (valid : Nat → Bool)
    (connect : Bool) :
    (Reaches perform Allowed (new minSize timeout) p → Distinct p)
      ∧ (Distinct p → (Takes p valid connect
          ↔ (∃ c ∈ p.m_conns, valid c = true) ∨ (p.m_status && connect) = true)) := by
  refine ⟨reaches_distinct minSize timeout p, fun hp => ?_⟩
  rw [exists_valid_iff]
  rcases hdrop : p.m_conns.dropWhile (fun c => !valid c) with _ | ⟨c, conns⟩
  · cases hcase : p.m_status && connect with
    | true =>
        exact ⟨fun _ => Or.inr rfl, fun _ => takes_new p valid connect hp hdrop hcase⟩
    | false =>
        constructor
        · rintro ⟨ptr, p', hrun, _⟩
          rw [getConn_fault valid connect p hdrop hcase] at hrun
          cases hrun
        · rintro (hne | hno)
          · exact absurd rfl hne
          · exact Bool.noConfusion hno
  · exact ⟨fun _ => Or.inl (List.cons_ne_nil c conns),
      fun _ => takes_first p valid connect hp c conns hdrop⟩

/-- The pool after `init` and one round of `produceConn` that made a connection and
    then waits. -/
def idlePool : ConnPool := ⟨1, 600000, [0], true, [], [], 1⟩

theorem reaches_idlePool : Reaches perform Allowed (new 1 600000) idlePool := by
  have hinit : Reaches perform Allowed (new 1 600000) ⟨1, 600000, [], true, [], [], 0⟩ :=
    Reaches.step _ _ (.init true) () Reaches.start trivial rfl
  exact Reaches.step _ _ (.produceConn (fun n => n == 1)) () hinit trivial rfl

/-- The idle connection is taken as long as it is valid. -/
theorem takes_iff_idle : Takes idlePool (fun c => c == 0) false := by
  have hdistinct := (takes_iff 1 600000 idlePool (fun c => c == 0) false).1 reaches_idlePool
  exact ((takes_iff 1 600000 idlePool (fun c => c == 0) false).2 hdistinct).2
    (Or.inl ⟨0, List.mem_singleton_self 0, rfl⟩)

/-- The database goes away: the one idle connection is not valid any more and no new
    one can be made. -/
theorem not_takes_outage :
    Reaches perform Allowed (new 1 600000) idlePool
      ∧ ¬ Takes idlePool (fun _ => false) false := by
  refine ⟨reaches_idlePool, ?_⟩
  rintro ⟨ptr, p', hrun, _⟩
  cases hrun

end YkServer.ConnPool
