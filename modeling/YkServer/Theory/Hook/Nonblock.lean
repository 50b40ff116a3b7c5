import YkServer.Core.FdManager
import YkServer.Lib.Interleaving
import Mathlib.Data.Nat.Bitwise

/-!
# Non-blocking Mode

A hooked call lets its fiber go when the kernel says `EAGAIN`. For that the file has to be in
non-blocking mode, unless the user has asked for that mode and takes care of `EAGAIN`
alone. The context of a socket is made with the mode set, and what the user is told
depends on what the user has asked for. But `fcntl` and `ioctl` pass on a request to leave
the mode to the kernel, which then blocks the thread.

The other way round, what was asked for with `SOCK_NONBLOCK` is not written down, so `F_GETFL`
denies it.

## Main definitions

* `FdWorld.Guarded`: Where the user has not asked for the mode, the kernel has it.
* `FdWorld.Reported`: `F_GETFL` says what was asked for.
* `FdWorld.Asks`: Requests that keep both.

## Theorems

* `nonblocking_setFlags`, `nonblocking_setNonblock`: The flag in the kernel.
* `step_nonblocking`, `asks_of_step`: What a call keeps, and what it needs for that.
* `nonblock_kept_iff`: Both hold throughout exactly if every request is for non-blocking mode.
-/

namespace YkServer

open Lib

/-! ## The flag -/

/-- The flag `O_NONBLOCK`. -/
def nonblocking (flags : UInt32) : Bool := flags.toNat.testBit 11

theorem and_O_NONBLOCK (flags : UInt32) :
    flags &&& O_NONBLOCK ≠ 0 ↔ nonblocking flags = true := by
  have hand : (flags &&& O_NONBLOCK).toNat = (flags.toNat.testBit 11).toNat * 2 ^ 11 := by
    rw [UInt32.toNat_and]
    exact Nat.and_two_pow flags.toNat 11
  have hzero : flags &&& O_NONBLOCK = 0 ↔ (flags &&& O_NONBLOCK).toNat = 0 :=
    UInt32.toNat_inj.symm
  rw [ne_eq, hzero, hand, nonblocking]
  cases flags.toNat.testBit 11 <;> decide

theorem nonblocking_and (a b : UInt32) :
    nonblocking (a &&& b) = (nonblocking a && nonblocking b) := by
  rw [nonblocking, UInt32.toNat_and, Nat.testBit_and]
  rfl

theorem nonblocking_or (a b : UInt32) :
    nonblocking (a ||| b) = (nonblocking a || nonblocking b) := by
  rw [nonblocking, UInt32.toNat_or, Nat.testBit_or]
  rfl

/-- The flag is set or cleared. -/
theorem nonblocking_ite (flags : UInt32) (on : Bool) :
    nonblocking (if on then flags ||| O_NONBLOCK else flags &&& ~~~O_NONBLOCK) = on := by
  have hset : nonblocking O_NONBLOCK = true := by decide
  have hrest : nonblocking (~~~O_NONBLOCK) = false := by decide
  cases on
  · rw [if_neg Bool.false_ne_true, nonblocking_and, hrest, Bool.and_false]
  · rw [if_pos rfl, nonblocking_or, hset, Bool.or_true]

theorem nonblocking_setFlags (f : OpenFile) (arg : UInt32) :
    nonblocking (f.setFlags arg).flags = nonblocking arg := by
  have hmask : nonblocking setflMask = true := by decide
  have hrest : nonblocking (~~~setflMask) = false := by decide
  rw [OpenFile.setFlags, nonblocking_or, nonblocking_and, nonblocking_and, hmask, hrest,
    Bool.and_false, Bool.false_or, Bool.and_true]

theorem nonblocking_setNonblock (f : OpenFile) (on : Bool) :
    nonblocking (f.setNonblock on).flags = on :=
  nonblocking_ite f.flags on

/-- A context is made for a socket. -/
theorem init_socket (flags : UInt32) :
    (HookedFd.init (some ⟨true, flags⟩)).1.isSocket = true ∧
    (HookedFd.init (some ⟨true, flags⟩)).1.isClose = false ∧
    (HookedFd.init (some ⟨true, flags⟩)).1.userNonblock = false ∧
    ∃ f, (HookedFd.init (some ⟨true, flags⟩)).2 = some f ∧ nonblocking f.flags = true := by
  refine ⟨rfl, rfl, rfl, _, rfl, ?_⟩
  by_cases hclear : flags &&& O_NONBLOCK = 0
  · simp only [if_pos hclear]
    rw [nonblocking_setFlags]
    exact nonblocking_ite flags true
  · simp only [if_neg hclear]
    exact (and_O_NONBLOCK flags).1 hclear

namespace FdWorld

/-! ## Descriptors -/

/-- On every managed socket, the kernel has the flag set unless the user has asked for
    non-blocking mode. -/
def Guarded (w : FdWorld) : Prop :=
  ∀ fd ctx, w.managed fd = some ctx → ctx.userNonblock = false →
    ∃ f, w.files fd = some f ∧ f.flags &&& O_NONBLOCK ≠ 0

/-- On every managed socket, `F_GETFL` has the flag exactly if the last request was for
    non-blocking mode. -/
def Reported (w : FdWorld) : Prop :=
  ∀ fd ctx, w.managed fd = some ctx → (w.getfl fd &&& O_NONBLOCK ≠ 0 ↔ w.asked fd = true)

/-- A request is for non-blocking mode, or the kernel refuses it, or it is not about a managed
    socket. A socket that is to be managed is not asked for with `SOCK_NONBLOCK`. -/
def Asks (w : FdWorld) : Action → Prop
  | .socket _ nonblock hookEnable => hookEnable = true → nonblock = false
  | .setfl fd arg ok => (w.managed fd).isSome → ok = true → arg &&& O_NONBLOCK ≠ 0
  | .fionbio fd value ok => (w.managed fd).isSome → ok = true → value ≠ 0
  | _ => True

/-- A descriptor with a context: it is one of a socket, the kernel has the flag set, and the
    context knows what was asked for. -/
def NonblockingAt (w : FdWorld) (fd : Nat) : Prop :=
  ∀ ctx, w.datas fd = some ctx → ctx.isSocket = true ∧ ctx.isClose = false ∧
    ctx.userNonblock = w.asked fd ∧ ∃ f, w.files fd = some f ∧ nonblocking f.flags = true

def Nonblocking (w : FdWorld) : Prop := ∀ fd, w.NonblockingAt fd

/-- A call is about one descriptor. -/
def SameElsewhere (w w' : FdWorld) (fd : Nat) : Prop :=
  ∀ fd', fd' ≠ fd → w'.datas fd' = w.datas fd' ∧ w'.files fd' = w.files fd' ∧
    w'.asked fd' = w.asked fd'

theorem nonblocking_of_at (w w' : FdWorld) (fd : Nat) (h : w.Nonblocking)
    (hsame : SameElsewhere w w' fd) (hat : w'.NonblockingAt fd) : w'.Nonblocking := by
  intro fd'
  by_cases hfd : fd' = fd
  · rw [hfd]
    exact hat
  · rcases hsame fd' hfd with ⟨hdatas, hfiles, hasked⟩
    intro ctx hctx
    rw [hdatas] at hctx
    rw [hfiles, hasked]
    exact h fd' ctx hctx

/-- A descriptor without a context. -/
theorem nonblockingAt_none (w : FdWorld) (fd : Nat) (h : w.datas fd = none) :
    w.NonblockingAt fd := by
  intro ctx hctx
  rw [h] at hctx
  cases hctx

/-- Every context counts. -/
theorem managed_eq (w : FdWorld) (fd : Nat) (h : w.NonblockingAt fd) :
    w.managed fd = w.datas fd := by
  rw [managed]
  rcases hctx : w.datas fd with _ | ctx
  · rfl
  · rcases h ctx hctx with ⟨hsocket, hclose, -⟩
    rw [Option.filter_some, hsocket, hclose]
    rfl

/-- The flag `F_GETFL` reports is the one of the context. -/
theorem getfl_nonblocking (w : FdWorld) (fd : Nat) (ctx : HookedFd)
    (hctx : w.managed fd = some ctx) :
    w.getfl fd &&& O_NONBLOCK ≠ 0 ↔ ctx.userNonblock = true := by
  rw [and_O_NONBLOCK]
  simp only [getfl, hctx]
  rw [nonblocking_ite]

theorem guarded_of_nonblocking (w : FdWorld) (h : w.Nonblocking) : w.Guarded ∧ w.Reported := by
  constructor
  · intro fd ctx hctx _
    rw [managed_eq w fd (h fd)] at hctx
    rcases h fd ctx hctx with ⟨-, -, -, f, hf, hflag⟩
    exact ⟨f, hf, (and_O_NONBLOCK f.flags).2 hflag⟩
  · intro fd ctx hctx
    rw [getfl_nonblocking w fd ctx hctx]
    rw [managed_eq w fd (h fd)] at hctx
    rw [(h fd ctx hctx).2.2.1]

/-! ## Calls -/

/-- A new descriptor has no context yet. -/
theorem datas_none (w : FdWorld) (h : w.Nonblocking) (fd : Nat) (hfree : (w.files fd).isNone) :
    w.datas fd = none := by
  rcases hctx : w.datas fd with _ | ctx
  · rfl
  · rcases h fd ctx hctx with ⟨-, -, -, f, hf, -⟩
    rw [hf] at hfree
    cases hfree

/-- A context is made for a new socket. It is there afterwards, the kernel has the flag set
    and the user is taken to have asked for nothing. -/
theorem create_spec (w : FdWorld) (fd : Nat) (nonblock : Bool) (hnone : w.datas fd = none) :
    ∃ ctx f,
      ((w.openSocket fd nonblock).getOrCreate fd).datas = Function.update w.datas fd (some ctx) ∧
      ((w.openSocket fd nonblock).getOrCreate fd).files = Function.update w.files fd (some f) ∧
      ((w.openSocket fd nonblock).getOrCreate fd).asked = Function.update w.asked fd nonblock ∧
      ctx.isSocket = true ∧ ctx.isClose = false ∧ ctx.userNonblock = false ∧
      nonblocking f.flags = true := by
  rcases init_socket (if nonblock then 0x802 else 2) with ⟨hsocket, hclose, huser, f, hf, hflag⟩
  refine ⟨_, f, ?_, ?_, ?_, hsocket, hclose, huser, hflag⟩
  · simp only [getOrCreate, openSocket, hnone, Function.update_self]
  · simp only [getOrCreate, openSocket, hnone, Function.update_self, hf, Function.update_idem]
  · simp only [getOrCreate, openSocket, hnone]

theorem nonblocking_create (w : FdWorld) (h : w.Nonblocking) (fd : Nat)
    (hfree : (w.files fd).isNone) :
    ((w.openSocket fd false).getOrCreate fd).Nonblocking := by
  rcases create_spec w fd false (datas_none w h fd hfree) with
    ⟨ctx, f, hdatas, hfiles, hasked, hsocket, hclose, huser, hflag⟩
  refine nonblocking_of_at w _ fd h ?_ ?_
  · intro fd' hfd
    rw [hdatas, hfiles, hasked, Function.update_of_ne hfd, Function.update_of_ne hfd,
      Function.update_of_ne hfd]
    exact ⟨rfl, rfl, rfl⟩
  · intro ctx' hctx'
    rw [hdatas, Function.update_self, Option.some.injEq] at hctx'
    rw [hfiles, hasked, Function.update_self, Function.update_self, ← hctx']
    exact ⟨hsocket, hclose, huser, f, rfl, hflag⟩

/-- The world after a request on a managed socket. -/
def request (w : FdWorld) (fd : Nat) (user ok : Bool) (f : OpenFile → OpenFile) : FdWorld :=
  { (w.setUserNonblock fd user).change fd ok f with
    asked := Function.update w.asked fd user }

theorem request_files (w : FdWorld) (fd : Nat) (user ok : Bool) (f : OpenFile → OpenFile) :
    (w.request fd user ok f).files =
      if ok then Function.update w.files fd ((w.files fd).map f) else w.files := by
  cases ok <;> rfl

theorem request_datas (w : FdWorld) (fd : Nat) (user ok : Bool) (f : OpenFile → OpenFile) :
    (w.request fd user ok f).datas = Function.update w.datas fd
      ((w.datas fd).map (fun ctx => { ctx with userNonblock := user })) := by
  cases ok <;> rfl

theorem request_same (w : FdWorld) (fd : Nat) (user ok : Bool) (f : OpenFile → OpenFile) :
    SameElsewhere w (w.request fd user ok f) fd := by
  intro fd' hfd
  rw [request_datas, request_files, Function.update_of_ne hfd]
  refine ⟨rfl, ?_, Function.update_of_ne hfd _ _⟩
  split
  · rw [Function.update_of_ne hfd]
  · rfl

/-- A request for non-blocking mode, or one that the kernel refuses. -/
theorem nonblocking_request (w : FdWorld) (h : w.Nonblocking) (fd : Nat) (user ok : Bool)
    (f : OpenFile → OpenFile) (hf : ∀ file, nonblocking (f file).flags = user)
    (hasks : ok = true → user = true) : (w.request fd user ok f).Nonblocking := by
  refine nonblocking_of_at w _ fd h (request_same w fd user ok f) ?_
  intro ctx' hctx'
  rw [request_datas, Function.update_self, Option.map_eq_some_iff] at hctx'
  rcases hctx' with ⟨ctx, hctx, rfl⟩
  rcases h fd ctx hctx with ⟨hsocket, hclose, -, file, hfile, hflag⟩
  refine ⟨hsocket, hclose, ?_, ?_⟩
  · simp only [request, Function.update_self]
  · rw [request_files]
    by_cases hok : ok = true
    · rw [if_pos hok, Function.update_self, hfile]
      exact ⟨f file, rfl, by rw [hf, hasks hok]⟩
    · rw [if_neg hok]
      exact ⟨file, hfile, hflag⟩

/-- After a request to leave the mode that the kernel follows, nothing guards the socket. -/
theorem asks_of_request (w : FdWorld) (fd : Nat) (user : Bool) (f : OpenFile → OpenFile)
    (hf : ∀ file, nonblocking (f file).flags = user) (ctx : HookedFd)
    (hctx : w.managed fd = some ctx) (hguarded : (w.request fd user true f).Guarded) :
    user = true := by
  rcases Option.filter_eq_some_iff.1 hctx with ⟨hdatas, hcounts⟩
  have hmanaged : (w.request fd user true f).managed fd =
      some { ctx with userNonblock := user } := by
    rw [managed, request_datas, Function.update_self, hdatas, Option.map_some, Option.filter_some]
    exact if_pos hcounts
  by_contra huser
  have hoff : user = false := Bool.eq_false_iff.2 huser
  rcases hguarded fd _ hmanaged hoff with ⟨file, hfile, hset⟩
  rw [request_files, if_pos rfl, Function.update_self, Option.map_eq_some_iff] at hfile
  rcases hfile with ⟨old, -, rfl⟩
  rw [and_O_NONBLOCK, hf] at hset
  exact huser hset

/-- `F_SETFL` on a managed socket is a request. -/
theorem setfl_managed (w : FdWorld) (fd : Nat) (arg : UInt32) (ok : Bool) (ctx : HookedFd)
    (hctx : w.managed fd = some ctx) :
    step (.setfl fd arg ok) w = some (w.request fd (decide (arg &&& O_NONBLOCK ≠ 0)) ok
      (·.setFlags (if decide (arg &&& O_NONBLOCK ≠ 0) then arg ||| O_NONBLOCK
        else arg &&& ~~~O_NONBLOCK))) := by
  simp only [step, setfl, hctx, request]

theorem fionbio_managed (w : FdWorld) (fd : Nat) (value : Int) (ok : Bool) (ctx : HookedFd)
    (hctx : w.managed fd = some ctx) :
    step (.fionbio fd value ok) w = some (w.request fd (decide (value ≠ 0)) ok
      (·.setNonblock (decide (value ≠ 0)))) := by
  simp only [step, fionbio, hctx, request]

/-- A request on a descriptor without a context goes to the kernel as it is. -/
theorem change_same (w : FdWorld) (fd : Nat) (user ok : Bool) (f : OpenFile → OpenFile) :
    SameElsewhere w { w.change fd ok f with asked := Function.update w.asked fd user } fd := by
  intro fd' hfd
  cases ok
  · exact ⟨rfl, rfl, Function.update_of_ne hfd _ _⟩
  · exact ⟨rfl, Function.update_of_ne hfd _ _, Function.update_of_ne hfd _ _⟩

theorem nonblocking_change (w : FdWorld) (h : w.Nonblocking) (fd : Nat) (hnone : w.datas fd = none)
    (user ok : Bool) (f : OpenFile → OpenFile) :
    Nonblocking { w.change fd ok f with asked := Function.update w.asked fd user } := by
  refine nonblocking_of_at w _ fd h (change_same w fd user ok f) (nonblockingAt_none _ fd ?_)
  cases ok
  · exact hnone
  · exact hnone

/-- A call that asks for nothing else keeps the mode. -/
theorem step_nonblocking (w : FdWorld) (a : Action) (w' : FdWorld) (h : w.Nonblocking)
    (hasks : w.Asks a) (hstep : step a w = some w') : w'.Nonblocking := by
  cases a with
  | socket fd nonblock hookEnable =>
      simp only [step] at hstep
      split at hstep
      · rename_i hfree
        cases hookEnable with
        | true =>
            cases hstep
            rw [hasks rfl]
            exact nonblocking_create w h fd hfree
        | false =>
            cases hstep
            refine nonblocking_of_at w _ fd h ?_ (nonblockingAt_none _ fd (datas_none w h fd hfree))
            intro fd' hfd
            exact ⟨rfl, Function.update_of_ne hfd _ _, Function.update_of_ne hfd _ _⟩
      · cases hstep
  | accept fd =>
      simp only [step] at hstep
      split at hstep
      · rename_i hfree
        cases hstep
        exact nonblocking_create w h fd hfree
      · cases hstep
  | setfl fd arg ok =>
      rcases hctx : w.managed fd with _ | ctx
      · simp only [step, setfl, hctx, Option.some.injEq] at hstep
        rw [← hstep]
        rw [managed_eq w fd (h fd)] at hctx
        exact nonblocking_change w h fd hctx _ ok _
      · rw [setfl_managed w fd arg ok ctx hctx] at hstep
        cases hstep
        refine nonblocking_request w h fd _ ok _ ?_ ?_
        · intro file
          rw [nonblocking_setFlags, nonblocking_ite]
        · intro hok
          exact decide_eq_true (hasks (by rw [hctx]; rfl) hok)
  | getfl fd =>
      cases hstep
      exact h
  | fionbio fd value ok =>
      rcases hctx : w.managed fd with _ | ctx
      · simp only [step, fionbio, hctx, Option.some.injEq] at hstep
        rw [← hstep]
        rw [managed_eq w fd (h fd)] at hctx
        exact nonblocking_change w h fd hctx _ ok _
      · rw [fionbio_managed w fd value ok ctx hctx] at hstep
        cases hstep
        refine nonblocking_request w h fd _ ok _ (fun file => nonblocking_setNonblock file _) ?_
        intro hok
        exact decide_eq_true (hasks (by rw [hctx]; rfl) hok)
  | close fd =>
      cases hstep
      refine nonblocking_of_at w _ fd h ?_ (nonblockingAt_none _ fd (Function.update_self fd _ _))
      intro fd' hfd
      exact ⟨Function.update_of_ne hfd _ _, Function.update_of_ne hfd _ _, rfl⟩

/-- A call that asks for anything else does not. -/
theorem asks_of_step (w : FdWorld) (a : Action) (w' : FdWorld) (h : w.Nonblocking)
    (hstep : step a w = some w') (hafter : w'.Guarded ∧ w'.Reported) : w.Asks a := by
  cases a with
  | socket fd nonblock hookEnable =>
      intro hhook
      simp only [step, hhook, if_true] at hstep
      split at hstep
      · rename_i hfree
        cases hstep
        rcases create_spec w fd nonblock (datas_none w h fd hfree) with
          ⟨ctx, f, hdatas, -, hasked, hsocket, hclose, huser, -⟩
        have hmanaged : ((w.openSocket fd nonblock).getOrCreate fd).managed fd = some ctx := by
          rw [managed, hdatas, Function.update_self, Option.filter_some, hsocket, hclose]
          rfl
        -- The context says that nothing was asked for.
        have hreport := hafter.2 fd ctx hmanaged
        rw [getfl_nonblocking _ fd ctx hmanaged, huser, hasked, Function.update_self] at hreport
        cases nonblock
        · rfl
        · exact absurd (hreport.2 rfl) Bool.false_ne_true
      · cases hstep
  | setfl fd arg ok =>
      intro hsome hok
      rcases Option.isSome_iff_exists.1 hsome with ⟨ctx, hctx⟩
      rw [setfl_managed w fd arg ok ctx hctx, hok] at hstep
      cases hstep
      refine of_decide_eq_true (asks_of_request w fd _ _ ?_ ctx hctx hafter.1)
      intro file
      rw [nonblocking_setFlags, nonblocking_ite]
  | fionbio fd value ok =>
      intro hsome hok
      rcases Option.isSome_iff_exists.1 hsome with ⟨ctx, hctx⟩
      rw [fionbio_managed w fd value ok ctx hctx, hok] at hstep
      cases hstep
      exact of_decide_eq_true (asks_of_request w fd _ _
        (fun file => nonblocking_setNonblock file _) ctx hctx hafter.1)
  | accept fd | getfl fd | close fd => trivial

/-- In every run, a managed socket that the user has not asked to be non-blocking is so in the
    kernel at all times and `F_GETFL` tells what was asked for, if and only if every request
    that the kernel follows is one for non-blocking mode and no managed socket is asked for
    with `SOCK_NONBLOCK`. -/
theorem nonblock_kept_iff (acts : List Action) (w : FdWorld) (hrun : run step acts new = some w) :
    (∀ before rest w', acts = before ++ rest → run step before new = some w' →
      w'.Guarded ∧ w'.Reported) ↔
    Along step Asks acts new :=
  throughout_iff Nonblocking (fun w => w.Guarded ∧ w.Reported) guarded_of_nonblocking
    step_nonblocking asks_of_step acts new w
    (fun fd => nonblockingAt_none new fd rfl) hrun

/-- A socket is made and asked to be non-blocking, before which `F_GETFL` does not have the
    flag. -/
theorem nonblock_kept_socket :
    ∃ w w', run step [.socket 5 false true] new = some w ∧
      run step [.socket 5 false true, .setfl 5 0x802 true] new = some w' ∧
      (w.Guarded ∧ w.Reported ∧ w.getfl 5 &&& O_NONBLOCK = 0) ∧
      (w'.Guarded ∧ w'.Reported ∧ w'.getfl 5 &&& O_NONBLOCK ≠ 0) := by
  have hall := (nonblock_kept_iff [.socket 5 false true, .setfl 5 0x802 true] _ rfl).2
    ⟨fun _ => rfl, fun _ _ => by decide, trivial⟩
  rcases hall [.socket 5 false true] [.setfl 5 0x802 true] _ rfl rfl with ⟨hguarded, hreported⟩
  rcases hall [.socket 5 false true, .setfl 5 0x802 true] [] _ rfl rfl with
    ⟨hguarded', hreported'⟩
  refine ⟨_, _, rfl, rfl, ⟨hguarded, hreported, by decide⟩, hguarded', hreported', ?_⟩
  exact (hreported' 5 _ rfl).2 rfl

/-- A socket is made, its flags are written without `O_NONBLOCK`, and the kernel blocks though
    the user has not asked for non-blocking mode. -/
theorem nonblock_lost :
    ∃ w, run step [.socket 5 false true, .setfl 5 2 true] new = some w ∧ ¬w.Guarded := by
  refine ⟨_, rfl, ?_⟩
  intro hguarded
  rcases hguarded 5 _ rfl rfl with ⟨f, hf, hset⟩
  cases hf
  exact hset (by decide)

end FdWorld

end YkServer
