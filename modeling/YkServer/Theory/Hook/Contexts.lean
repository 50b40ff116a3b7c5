import YkServer.Core.FdDatas
import YkServer.Lib.Interleaving

/-!
# One Context per Descriptor

Two threads that ask for the context of the same descriptor may both find none. Each
then makes one, one after the other, and the second takes the place of the first, which
somebody is already using. `one_context_iff` says that nothing else goes wrong, up to
the size of the vector, which is compared as an `int`. From 2³¹ entries on it counts as
negative, so that every creation resizes the vector and `del` does nothing.

Where nobody interferes, the vector is the function of `YkServer.Core.FdManager`.

## Main definitions

* `FdDatas.OneContext`: What is expected of a step.
* `FdDatas.Unraced`: The condition for it.
* `FdDatas.Inv`: What holds as long as the condition was met.
* `FdDatas.view`: The vector as a function.

## Theorems

* `step_cases`: What a step can do.
* `getOrCreate_alone`: Creating a context without interference.
* `one_context_iff`: Any number of threads.
* `two_contexts`: Two threads that interfere.
-/

namespace YkServer

open Lib

namespace FdDatas

/-- All that `get` has returned for a descriptor since it was last deleted is the same
    context, and `m_datas` does not shrink and is not indexed out of its range. -/
structure OneContext (s s' : FdDatas) : Prop where
  same : ∀ fd, ∀ p ∈ s'.returned fd, ∀ q ∈ s'.returned fd, p = q
  grows : s.datas.length ≤ s'.datas.length
  inRange : s'.inRange = true

/-- The size of `m_datas` as an `int` is not negative. -/
def Sized (s : FdDatas) : Prop := s.datas.length < 2 ^ 31

/-- Whoever makes a context finds that there is still none. If the size counts as negative,
    there may be one that `del` was to remove, and the vector must not be larger than
    what it is resized to. -/
def Unraced (s : FdDatas) : Action → Prop
  | .create t _ => ∀ fd, s.threads t = .creating fd →
    (s.datas.getD fd none = none ∨ ¬s.Sized ∧ s.returned fd = []) ∧
      (s.Sized ∨ s.datas.length ≤ fd * 3 / 2)
  | _ => True

/-- A pointer in `m_datas` is one to a context that there is. What `get` returns is in
    `m_datas`, and as long as `del` works nothing else is. -/
structure Inv (s : FdDatas) : Prop where
  large : 64 ≤ s.datas.length
  word : s.datas.length < 2 ^ 32
  inRange : s.inRange = true
  creating : ∀ t fd, s.threads t = .creating fd → fd < 2 ^ 31
  made : ∀ fd p, s.datas.getD fd none = some p → p < s.objects.length
  kept : ∀ fd, ∀ p ∈ s.returned fd, s.datas.getD fd none = some p
  held : s.Sized → ∀ fd p, s.datas.getD fd none = some p → p ∈ s.returned fd

/-! ## The vector -/

/-- The comparison with the size. -/
theorem beyond_iff (s : FdDatas) (hword : s.datas.length < 2 ^ 32) (fd : Nat) :
    s.Beyond fd ↔ s.datas.length ≤ fd ∨ ¬s.Sized := by
  unfold Beyond Sized
  by_cases hsized : s.datas.length < 2 ^ 31
  · rw [intOfWord_small _ hsized, Nat.cast_le, or_iff_left (not_not.2 hsized)]
  · rw [intOfWord_large _ (Nat.le_of_not_lt hsized) hword]
    exact iff_of_true (by omega) (Or.inr hsized)

/-- An index that is in range. -/
theorem index_eq (s : FdDatas) (hin : s.inRange = true) (fd : Nat) (h : fd < s.datas.length) :
    s.index fd = s := by
  rw [index, hin, decide_eq_true h]
  exact (congrArg (fun b => { s with inRange := b }) hin.symm).trans rfl

/-- Storing where the index is in range. -/
theorem store_eq (s : FdDatas) (hin : s.inRange = true) (fd : Nat) (p : Option Nat)
    (h : fd < s.datas.length) : s.store fd p = { s with datas := s.datas.set fd p } := by
  rw [store, index_eq s hin fd h]

/-- An entry of the vector after another was stored. -/
theorem getD_store (s : FdDatas) (fd fd' : Nat) (p : Option Nat) (h : fd < s.datas.length) :
    (s.store fd p).datas.getD fd' none = if fd' = fd then p else s.datas.getD fd' none := by
  simp only [store, List.getD_eq_getElem?_getD, List.getElem?_set]
  by_cases heq : fd' = fd
  · rw [if_pos heq.symm, if_pos h, if_pos heq, Option.getD_some]
  · rw [if_neg (fun h => heq h.symm), if_neg heq]

theorem length_store (s : FdDatas) (fd : Nat) (p : Option Nat) :
    (s.store fd p).datas.length = s.datas.length := List.length_set

theorem length_resize (s : FdDatas) (size : Nat) : (s.resize size).datas.length = size := by
  simp only [resize, List.length_append, List.length_take, List.length_replicate]
  omega

/-- A larger vector has the same entries, and null behind them. -/
theorem getD_resize (s : FdDatas) (size : Nat) (h : s.datas.length ≤ size) (fd : Nat) :
    (s.resize size).datas.getD fd none = s.datas.getD fd none := by
  simp only [resize, List.take_of_length_le h, List.getD_eq_getElem?_getD]
  by_cases hlt : fd < s.datas.length
  · rw [List.getElem?_append_left hlt]
  · have hle := Nat.le_of_not_lt hlt
    rw [List.getElem?_append_right hle, List.getElem?_eq_none hle, List.getElem?_replicate]
    split <;> rfl

/-- There is nothing beyond the end. -/
theorem getD_beyond (s : FdDatas) (fd : Nat) (h : s.datas.length ≤ fd) :
    s.datas.getD fd none = none := by
  rw [List.getD_eq_getElem?_getD, List.getElem?_eq_none h, Option.getD_none]

theorem resize_self (s : FdDatas) : s.resize s.datas.length = s := by
  rw [resize, List.take_length, Nat.sub_self, List.replicate_zero, List.append_nil]

/-! ## Making a context -/

/-- The state with a context made for a descriptor in a vector of some size. -/
def created (s : FdDatas) (fd size : Nat) (file : Option OpenFile) : FdDatas :=
  { s with
    objects := s.objects ++ [(HookedFd.init file).1]
    datas := ((s.resize size).store fd (some s.objects.length)).datas
    returned := Function.update s.returned fd (s.objects.length :: s.returned fd) }

/-- What `get` does under the write lock, if the vector need not shrink. -/
theorem createLocked_spec (s : FdDatas) (h : s.Inv) (fd : Nat) (hfd : fd < 2 ^ 31)
    (file : Option OpenFile) (hroom : s.Sized ∨ s.datas.length ≤ fd * 3 / 2) :
    ∃ size, s.datas.length ≤ size ∧ fd < size ∧ size < 2 ^ 32 ∧
      s.createLocked fd file = s.created fd size file := by
  have hlarge := h.large
  have hword := h.word
  set s₁ : FdDatas := { s with objects := s.objects ++ [(HookedFd.init file).1] } with hs₁
  have hbeyond : s₁.Beyond fd ↔ _ := s.beyond_iff hword fd
  -- Storing behind a resize, in the state with the new object.
  have hstore : ∀ size, fd < size →
      ((s₁.resize size).store fd (some s.objects.length)).returns fd s.objects.length =
        s.created fd size file := by
    intro size hlt
    have hrange : fd < (s₁.resize size).datas.length := by rwa [length_resize]
    rw [store_eq (s₁.resize size) h.inRange fd _ hrange]
    rfl
  by_cases hb : s₁.Beyond fd
  · have hgrow : s.datas.length ≤ fd * 3 / 2 ∧ fd < fd * 3 / 2 := by
      rcases hbeyond.1 hb with hle | hneg
      · omega
      · have hsize := hroom.resolve_left hneg
        unfold Sized at hneg
        omega
    refine ⟨fd * 3 / 2, hgrow.1, hgrow.2, by omega, ?_⟩
    rw [← hstore _ hgrow.2]
    simp only [createLocked, ← hs₁, if_pos hb]
  · have hlt : fd < s.datas.length :=
      Nat.lt_of_not_le (fun hle => hb (hbeyond.2 (Or.inl hle)))
    refine ⟨s.datas.length, Nat.le_refl _, hlt, hword, ?_⟩
    have hself : s₁.resize s.datas.length = s₁ := s₁.resize_self
    rw [← hstore _ hlt, hself]
    simp only [createLocked, ← hs₁, if_neg hb]

/-- A vector whose size counts as negative is always resized. -/
theorem length_createLocked (s : FdDatas) (hword : s.datas.length < 2 ^ 32) (hneg : ¬s.Sized)
    (fd : Nat) (file : Option OpenFile) :
    (s.createLocked fd file).datas.length = fd * 3 / 2 := by
  have hb : Beyond { s with objects := s.objects ++ [(HookedFd.init file).1] } fd :=
    (s.beyond_iff hword fd).2 (Or.inr hneg)
  simp only [createLocked, if_pos hb, returns]
  rw [length_store, length_resize]

/-- The entries of the vector then. -/
theorem getD_created (s : FdDatas) (fd size : Nat) (file : Option OpenFile)
    (hle : s.datas.length ≤ size) (hlt : fd < size) (fd' : Nat) :
    (s.created fd size file).datas.getD fd' none =
      if fd' = fd then some s.objects.length else s.datas.getD fd' none := by
  have hrange : fd < (s.resize size).datas.length := by rwa [length_resize]
  rw [created, getD_store _ _ _ _ hrange, getD_resize s size hle]

/-! ## Steps -/

/-- A thread goes on without touching the vector. -/
def Moves (s s' : FdDatas) : Prop :=
  ∃ t pc, s' = s.goto t pc ∧ ∀ fd, pc = .creating fd → fd < 2 ^ 31

/-- A thread finds a context. -/
def Finds (s s' : FdDatas) : Prop :=
  ∃ fd p, s.datas.getD fd none = some p ∧ s' = s.returns fd p

/-- A thread makes one. -/
def Creates (s s' : FdDatas) (a : Action) : Prop :=
  ∃ t fd file, a = .create t file ∧ s.threads t = .creating fd ∧
    s' = (s.createLocked fd file).goto t .idle

/-- A thread removes one, unless the size counts as negative. -/
def Deletes (s s' : FdDatas) : Prop :=
  ∃ fd datas, s' = { s with datas := datas, returned := Function.update s.returned fd [] } ∧
    datas.length = s.datas.length ∧ (s.Sized → datas.getD fd none = none) ∧
    (datas.getD fd none = s.datas.getD fd none ∨ datas.getD fd none = none) ∧
    ∀ fd', fd' ≠ fd → datas.getD fd' none = s.datas.getD fd' none

theorem moves_idle (s : FdDatas) (t : Nat) (hidle : s.threads t = .idle) : s.Moves s := by
  refine ⟨t, .idle, ?_, fun fd h => by cases h⟩
  rw [goto, ← hidle, Function.update_eq_self]

/-- Everything a step can do. -/
theorem step_cases (s s' : FdDatas) (a : Action) (h : s.Inv) (hstep : step a s = some s') :
    s.Moves s' ∨ s.Finds s' ∨ s.Creates s' a ∨ s.Deletes s' := by
  cases a with
  | get t fd autoCreate =>
      rw [step] at hstep
      split at hstep
      · next hidle =>
          -- Whether `get` stops here or waits for the write lock.
          have hnone : s.Moves (if autoCreate then s.goto t (.creating fd) else s) := by
            cases autoCreate with
            | false => exact s.moves_idle t hidle.1
            | true => exact ⟨t, _, rfl, fun fd' heq => by cases heq; exact hidle.2⟩
          split at hstep
          · cases hstep
            exact Or.inl hnone
          · next hin =>
              rw [s.beyond_iff h.word, not_or, Nat.not_le] at hin
              rw [s.index_eq h.inRange fd hin.1] at hstep
              split at hstep
              · next p hp =>
                  cases hstep
                  exact Or.inr (Or.inl ⟨fd, p, hp, rfl⟩)
              · cases hstep
                exact Or.inl hnone
      · cases hstep
  | create t file =>
      rw [step] at hstep
      split at hstep
      · next fd hpc =>
          cases hstep
          exact Or.inr (Or.inr (Or.inl ⟨t, fd, file, rfl, hpc, rfl⟩))
      · cases hstep
  | del t fd =>
      rw [step] at hstep
      split at hstep
      · rw [Option.some.injEq] at hstep
        have hbeyond : Beyond { s with returned := Function.update s.returned fd [] } fd ↔ _ :=
          s.beyond_iff h.word fd
        refine Or.inr (Or.inr (Or.inr ?_))
        split at hstep
        · next hb =>
            refine ⟨fd, s.datas, hstep.symm, rfl, fun hsized => ?_, Or.inl rfl, fun _ _ => rfl⟩
            exact s.getD_beyond fd ((hbeyond.1 hb).resolve_right (not_not.2 hsized))
        · next hb =>
            rw [hbeyond, not_or, Nat.not_le] at hb
            have hget := fun fd' => s.getD_store fd fd' none hb.1
            have hfd := (hget fd).trans (if_pos rfl)
            refine ⟨fd, (s.store fd none).datas, ?_, s.length_store fd none, fun _ => hfd,
              Or.inr hfd, fun fd' hne => (hget fd').trans (if_neg hne)⟩
            rw [← hstep, s.store_eq h.inRange fd none hb.1]
            exact store_eq { s with returned := Function.update s.returned fd [] } h.inRange fd
              none hb.1
      · cases hstep

/-! ## The invariant -/

theorem inv_new : new.Inv := by
  have hnone : ∀ fd, new.datas.getD fd none = none := by
    intro fd
    rw [new, List.getD_eq_getElem?_getD, List.getElem?_replicate]
    split <;> rfl
  have hlength : new.datas.length = 64 := List.length_replicate
  refine ⟨hlength.ge, by rw [hlength]; decide, rfl, fun _ _ h => (by cases h), ?_,
    fun _ _ h => absurd h List.not_mem_nil, ?_⟩
  · intro fd p h
    rw [hnone] at h
    cases h
  · intro _ fd p h
    rw [hnone] at h
    cases h

/-- Where the threads are after one has moved. -/
theorem threads_goto (s : FdDatas) (t t' : Nat) (pc : GetPc) :
    (s.goto t pc).threads t' = if t' = t then pc else s.threads t' :=
  Function.update_apply s.threads t pc t'

theorem inv_goto (s : FdDatas) (h : s.Inv) (t : Nat) (pc : GetPc)
    (hpc : ∀ fd, pc = .creating fd → fd < 2 ^ 31) : (s.goto t pc).Inv := by
  refine ⟨h.large, h.word, h.inRange, ?_, h.made, h.kept, h.held⟩
  intro t' fd heq
  rw [threads_goto] at heq
  split at heq
  · exact hpc fd heq
  · exact h.creating t' fd heq

/-- A context that is in the vector is returned. -/
theorem inv_returns (s : FdDatas) (h : s.Inv) (fd p : Nat) (hp : s.datas.getD fd none = some p) :
    (s.returns fd p).Inv := by
  have hmem : ∀ fd' q, q ∈ (s.returns fd p).returned fd' ↔
      q ∈ s.returned fd' ∨ fd' = fd ∧ q = p := by
    intro fd' q
    simp only [returns, Function.update_apply]
    split
    · next heq => rw [List.mem_cons, heq, or_comm, eq_self_iff_true, true_and]
    · next hne => rw [or_iff_left (fun hand => hne hand.1)]
  refine ⟨h.large, h.word, h.inRange, h.creating, h.made, ?_, ?_⟩
  · intro fd' q hq
    rcases (hmem fd' q).1 hq with hold | ⟨rfl, rfl⟩
    · exact h.kept fd' q hold
    · exact hp
  · intro hsized fd' q hq
    exact (hmem fd' q).2 (Or.inl (h.held hsized fd' q hq))

/-- A context is made where there is none that counts. -/
theorem inv_created (s : FdDatas) (h : s.Inv) (fd size : Nat) (file : Option OpenFile)
    (hle : s.datas.length ≤ size) (hlt : fd < size) (hword : size < 2 ^ 32)
    (hnone : s.returned fd = []) : (s.created fd size file).Inv := by
  have hget := s.getD_created fd size file hle hlt
  have hlength : (s.created fd size file).datas.length = size := by
    rw [created, length_store, length_resize]
  have hobjects : (s.created fd size file).objects.length = s.objects.length + 1 :=
    List.length_append
  have hreturned : ∀ fd', (s.created fd size file).returned fd' =
      if fd' = fd then [s.objects.length] else s.returned fd' := by
    intro fd'
    simp only [created, Function.update_apply, hnone]
  refine ⟨h.large.trans (by rw [hlength]; exact hle), by rw [hlength]; exact hword, h.inRange,
    h.creating, ?_, ?_, ?_⟩
  · intro fd' p hp
    rw [hget] at hp
    rw [hobjects]
    split at hp
    · cases hp
      exact Nat.lt_succ_self _
    · exact Nat.lt_succ_of_lt (h.made fd' p hp)
  · intro fd' p hp
    rw [hget]
    rw [hreturned] at hp
    split at hp
    · next heq => rw [if_pos heq, List.mem_singleton.1 hp]
    · next hne =>
        rw [if_neg hne]
        exact h.kept fd' p hp
  · intro hsized fd' p hp
    rw [hreturned]
    rw [hget] at hp
    rw [Sized, hlength] at hsized
    split at hp
    · next heq =>
        cases hp
        rw [if_pos heq]
        exact List.mem_singleton_self _
    · next hne =>
        rw [if_neg hne]
        exact h.held (Nat.lt_of_le_of_lt hle hsized) fd' p hp

theorem inv_deletes (s s' : FdDatas) (h : s.Inv) (hdeletes : s.Deletes s') : s'.Inv := by
  rcases hdeletes with ⟨fd, datas, rfl, hlength, hnone, hfd, hother⟩
  -- No entry is there that was not there before.
  have hold : ∀ fd' p, datas.getD fd' none = some p → s.datas.getD fd' none = some p := by
    intro fd' p hp
    by_cases heq : fd' = fd
    · rw [heq] at hp ⊢
      rcases hfd with hsame | hgone
      · rwa [← hsame]
      · rw [hgone] at hp
        cases hp
    · rwa [← hother fd' heq]
  refine ⟨h.large.trans hlength.ge, hlength.trans_lt h.word, h.inRange, h.creating,
    fun fd' p hp => h.made fd' p (hold fd' p hp), ?_, ?_⟩
  · intro fd' p hp
    simp only [Function.update_apply] at hp
    split at hp
    · cases hp
    · next hne =>
        rw [← h.kept fd' p hp]
        exact hother fd' hne
  · intro hsized fd' p hp
    have hsized' : s.Sized := hlength.symm.trans_lt hsized
    simp only [Function.update_apply]
    split
    · next heq =>
        rw [heq, hnone hsized'] at hp
        cases hp
    · exact h.held hsized' fd' p (hold fd' p hp)

/-- Whoever makes a context under the condition makes the only one. -/
theorem returned_eq_nil (s : FdDatas) (h : s.Inv) (fd : Nat)
    (hvacant : s.datas.getD fd none = none ∨ ¬s.Sized ∧ s.returned fd = []) :
    s.returned fd = [] := by
  rcases hvacant with hnone | ⟨-, hnil⟩
  · rw [List.eq_nil_iff_forall_not_mem]
    intro p hp
    rw [h.kept fd p hp] at hnone
    cases hnone
  · exact hnil

theorem inv_step (s : FdDatas) (a : Action) (s' : FdDatas) (h : s.Inv) (hunraced : s.Unraced a)
    (hstep : step a s = some s') : s'.Inv := by
  rcases step_cases s s' a h hstep with ⟨t, pc, rfl, hpc⟩ | ⟨fd, p, hp, rfl⟩ |
    ⟨t, fd, file, rfl, hpc, rfl⟩ | hdeletes
  · exact inv_goto s h t pc hpc
  · exact inv_returns s h fd p hp
  · rcases hunraced fd hpc with ⟨hvacant, hroom⟩
    rcases s.createLocked_spec h fd (h.creating t fd hpc) file hroom with
      ⟨size, hle, hlt, hword, heq⟩
    rw [heq]
    exact inv_goto _ (inv_created s h fd size file hle hlt hword (s.returned_eq_nil h fd hvacant))
      t .idle (fun _ hno => (by cases hno))
  · exact inv_deletes s s' h hdeletes

/-! ## Without interference -/

/-- The vector as a function. -/
def view (s : FdDatas) (fd : Nat) : Option HookedFd :=
  (s.datas.getD fd none).bind (s.objects[·]?)

/-- The vector with a context that was made, as a function. -/
theorem view_created (s : FdDatas) (h : s.Inv) (fd size : Nat) (file : Option OpenFile)
    (hle : s.datas.length ≤ size) (hlt : fd < size) :
    (s.created fd size file).view = Function.update s.view fd (some (HookedFd.init file).1) := by
  funext fd'
  rw [view, s.getD_created fd size file hle hlt, Function.update_apply]
  split
  · exact List.getElem?_concat_length
  · rw [view]
    rcases hp : s.datas.getD fd' none with _ | p
    · rfl
    · exact List.getElem?_append_left (h.made fd' p hp)

/-- The two steps of `get(fd, true)`, one behind the other, are the one of
    `YkServer.Core.FdManager`. -/
theorem getOrCreate_alone (s : FdDatas) (h : s.Inv) (hsized : s.Sized) (t fd : Nat)
    (hidle : s.threads t = .idle) (hfd : fd < 2 ^ 31) (w : FdWorld) (hw : w.datas = s.view) :
    ∃ s', (run step [.get t fd true] s = some s' ∨
        run step [.get t fd true, .create t (w.files fd)] s = some s') ∧
      s'.threads t = .idle ∧ (w.getOrCreate fd).datas = s'.view := by
  have hbeyond := s.beyond_iff h.word fd
  rcases hp : s.datas.getD fd none with _ | p
  · -- There is none, and the thread goes on to make one.
    have hget : step (.get t fd true) s = some (s.goto t (.creating fd)) := by
      simp only [step, if_pos (And.intro hidle hfd), hp, if_true]
      split
      · rfl
      · next hin =>
          rw [hbeyond, not_or, Nat.not_le] at hin
          rw [s.index_eq h.inRange fd hin.1]
    have h₁ := inv_goto s h t (.creating fd) (fun fd' heq => by cases heq; exact hfd)
    set s₁ := s.goto t (.creating fd) with hs₁
    have hpc : s₁.threads t = .creating fd := by rw [hs₁, threads_goto, if_pos rfl]
    rcases s₁.createLocked_spec h₁ fd hfd (w.files fd) (Or.inl hsized) with
      ⟨size, hle, hlt, -, heq⟩
    refine ⟨(s₁.created fd size (w.files fd)).goto t .idle, Or.inr ?_, Function.update_self .., ?_⟩
    · have hcreate : step (.create t (w.files fd)) s₁ =
          some ((s₁.created fd size (w.files fd)).goto t .idle) := by
        simp only [step, hpc, heq]
      rw [run_cons _ _ s s₁ hget, run_cons _ _ s₁ _ hcreate, run]
    · have hview := s₁.view_created h₁ fd size (w.files fd) hle hlt
      have hnone : w.datas fd = none := by rw [hw, view, hp, Option.bind_none]
      refine Eq.trans ?_ hview.symm
      rw [FdWorld.getOrCreate, hnone, hw]
      rfl
  · have hin : ¬s.Beyond fd := by
      rw [hbeyond, not_or]
      refine ⟨fun hle => ?_, not_not.2 hsized⟩
      rw [s.getD_beyond fd hle] at hp
      cases hp
    have hlt : fd < s.datas.length := Nat.lt_of_not_le (fun hle => hin (hbeyond.2 (Or.inl hle)))
    refine ⟨s.returns fd p, Or.inl ?_, hidle, ?_⟩
    · simp only [run, step, if_pos (And.intro hidle hfd), if_neg hin, hp,
        s.index_eq h.inRange fd hlt]
    · have hsome : w.datas fd = s.objects[p]? := by rw [hw, view, hp, Option.bind_some]
      rw [List.getElem?_eq_getElem (h.made fd p hp)] at hsome
      rw [FdWorld.getOrCreate, hsome]
      exact hw

/-! ## Whole runs -/

/-- One step from a state that is in order is as expected exactly if the condition holds. -/
theorem oneContext_iff (s : FdDatas) (a : Action) (h : s.Inv) :
    (∀ s', step a s = some s' → OneContext s s') ↔ s.Unraced a := by
  constructor
  · intro hone
    cases a with
    | get t fd autoCreate => trivial
    | del t fd => trivial
    | create t file =>
        intro fd hpc
        have hstep : step (.create t file) s = some ((s.createLocked fd file).goto t .idle) := by
          simp only [step, hpc]
        rcases hone _ hstep with ⟨hsame, hgrows, -⟩
        -- The vector has not become smaller, so there was room.
        have hroom : s.Sized ∨ s.datas.length ≤ fd * 3 / 2 := by
          by_cases hsized : s.Sized
          · exact Or.inl hsized
          · right
            rw [← s.length_createLocked h.word hsized fd file]
            exact hgrows
        refine ⟨?_, hroom⟩
        -- The new context is not one that was returned before.
        rcases s.createLocked_spec h fd (h.creating t fd hpc) file hroom with
          ⟨size, hle, hlt, hword, heq⟩
        have hnil : s.returned fd = [] := by
          rw [List.eq_nil_iff_forall_not_mem]
          intro p hp
          have hreturned : ((s.createLocked fd file).goto t .idle).returned fd =
              s.objects.length :: s.returned fd := by
            rw [heq]
            exact Function.update_self ..
          have heqp := hsame fd p (hreturned ▸ List.mem_cons_of_mem _ hp) s.objects.length
            (hreturned ▸ List.mem_cons_self)
          exact absurd (h.made fd p (h.kept fd p hp)) (by rw [heqp]; exact Nat.lt_irrefl _)
        by_cases hsized : s.Sized
        · left
          rcases hdatas : s.datas.getD fd none with _ | p
          · rfl
          · have hmem := h.held hsized fd p hdatas
            rw [hnil] at hmem
            cases hmem
        · exact Or.inr ⟨hsized, hnil⟩
  · intro hunraced s' hstep
    have h' := inv_step s a s' h hunraced hstep
    refine ⟨?_, ?_, h'.inRange⟩
    · intro fd p hp q hq
      have hpq := (h'.kept fd p hp).symm.trans (h'.kept fd q hq)
      exact Option.some.inj hpq
    · rcases step_cases s s' a h hstep with ⟨t, pc, rfl, -⟩ | ⟨fd, p, -, rfl⟩ |
        ⟨t, fd, file, rfl, hpc, rfl⟩ | ⟨fd, datas, rfl, hlength, -⟩
      · exact Nat.le_refl _
      · exact Nat.le_refl _
      · rcases s.createLocked_spec h fd (h.creating t fd hpc) file (hunraced fd hpc).2 with
          ⟨size, hle, -, -, heq⟩
        rw [heq, goto, created, length_store, length_resize]
        exact hle
      · exact hlength.ge

/-- Whatever any number of threads do, at every step of the run there is one context for
    each descriptor, exactly if whoever makes one finds that there is none. -/
theorem one_context_iff (as : List Action) :
    Along step (fun s a => ∀ s', step a s = some s' → OneContext s s') as new ↔
      Along step Unraced as new :=
  along_iff Inv oneContext_iff inv_step as new inv_new

/-- Two threads both find no context for descriptor 5, and each makes one. -/
theorem two_contexts :
    ¬∀ as : List Action,
      Along step (fun s a => ∀ s', step a s = some s' → OneContext s s') as new := by
  intro hall
  have hrun := hall [.get 1 5 true, .get 2 5 true, .create 1 none, .create 2 none]
  have hsame := (hrun.2.2.2.1 _ rfl).same 5 1 List.mem_cons_self 0
    (List.mem_cons_of_mem _ List.mem_cons_self)
  cases hsame

end FdDatas

end YkServer
