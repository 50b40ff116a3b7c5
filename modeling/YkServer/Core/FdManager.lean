import YkServer.Core.Hook

/-!
# Descriptors and their Contexts

The model of `FdCtx::init` and `FdManager` in `yk/fdmanager.cc`, of `socket`, `accept`,
`close`, `fcntl` with `F_SETFL` and `F_GETFL` and `ioctl` with `FIONBIO` in `yk/hook.cc`, and of
what the kernel keeps of a file.

Of `accept` there is the part behind `do_io`. The table of contexts is a function here; that
it is a vector is not of interest. Calls that change flags can be refused by the kernel,
which leaves the flags as they are. `asked` is not in the code: whether the last request
for the descriptor was one for non-blocking mode, a `SOCK_NONBLOCK` among the arguments of
`socket` included.

## Main definitions

* `OpenFile`: A file of the kernel.
* `HookedFd`, `HookedFd.init`: A context.
* `FdWorld`: The kernel and the manager.
* `FdWorld.setfl`, `FdWorld.getfl`, `FdWorld.fionbio`: `fcntl` and `ioctl`.
* `FdWorld.step`: The calls.
-/

namespace YkServer

def O_NONBLOCK : UInt32 := 0x800

/-- The flags that `F_SETFL` changes: `O_APPEND`, `O_NONBLOCK`, `O_ASYNC`, `O_DIRECT` and
    `O_NOATIME`. -/
def setflMask : UInt32 := 0x46C00

structure OpenFile where
  isSocket : Bool
  flags : UInt32
  deriving DecidableEq, Repr

/-- What `F_SETFL` makes of a file. -/
def OpenFile.setFlags (f : OpenFile) (arg : UInt32) : OpenFile :=
  { f with flags := (f.flags &&& ~~~setflMask) ||| (arg &&& setflMask) }

/-- What `FIONBIO` makes of a file. -/
def OpenFile.setNonblock (f : OpenFile) (on : Bool) : OpenFile :=
  { f with flags := if on then f.flags ||| O_NONBLOCK else f.flags &&& ~~~O_NONBLOCK }

/-- `FdCtx`, with the fields that `do_io` does not look at. -/
structure HookedFd extends FdCtx where
  isInit : Bool
  sysNonblock : Bool
  deriving DecidableEq, Repr

/-- `FdCtx::init`, and what is left of the file. `fstat` fails if there is none. -/
def HookedFd.init (file : Option OpenFile) : HookedFd × Option OpenFile :=
  let isSocket := file.any OpenFile.isSocket
  let file' :=
    if isSocket then
      file.map (fun f =>
        if f.flags &&& O_NONBLOCK = 0 then f.setFlags (f.flags ||| O_NONBLOCK) else f)
    else file
  (⟨⟨isSocket, false, false, noTimeout, noTimeout⟩, file.isSome, isSocket⟩, file')

structure FdWorld where
  files : Nat → Option OpenFile
  datas : Nat → Option HookedFd
  asked : Nat → Bool

namespace FdWorld

def new : FdWorld := ⟨fun _ => none, fun _ => none, fun _ => false⟩

/-- `FdMgr::GetInstance()->get(fd)`, where a context that is closed or not one of a socket
    counts for none. -/
def managed (w : FdWorld) (fd : Nat) : Option HookedFd :=
  (w.datas fd).filter (fun ctx => !ctx.isClose && ctx.isSocket)

/-- `FdMgr::GetInstance()->get(fd, true)`. -/
def getOrCreate (w : FdWorld) (fd : Nat) : FdWorld :=
  match w.datas fd with
  | some _ => w
  | none =>
    { w with
      datas := Function.update w.datas fd (some (HookedFd.init (w.files fd)).1)
      files := Function.update w.files fd (HookedFd.init (w.files fd)).2 }

/-- The kernel changes a file, unless it refuses to. -/
def change (w : FdWorld) (fd : Nat) (ok : Bool) (f : OpenFile → OpenFile) : FdWorld :=
  if ok then { w with files := Function.update w.files fd ((w.files fd).map f) } else w

def setUserNonblock (w : FdWorld) (fd : Nat) (v : Bool) : FdWorld :=
  { w with
    datas := Function.update w.datas fd
      ((w.datas fd).map (fun ctx => { ctx with userNonblock := v })) }

/-- `fcntl(fd, F_SETFL, arg)`. -/
def setfl (w : FdWorld) (fd : Nat) (arg : UInt32) (ok : Bool) : FdWorld :=
  match w.managed fd with
  | none => w.change fd ok (·.setFlags arg)
  | some _ =>
    let user := decide (arg &&& O_NONBLOCK ≠ 0)
    -- The comment in the source has the system flag here.
    let arg := if user then arg ||| O_NONBLOCK else arg &&& ~~~O_NONBLOCK
    (w.setUserNonblock fd user).change fd ok (·.setFlags arg)

/-- `fcntl(fd, F_GETFL)`, with -1 if there is no file. -/
def getfl (w : FdWorld) (fd : Nat) : UInt32 :=
  let arg := match w.files fd with
    | some f => f.flags
    | none => 0xFFFFFFFF
  match w.managed fd with
  | none => arg
  | some ctx => if ctx.userNonblock then arg ||| O_NONBLOCK else arg &&& ~~~O_NONBLOCK

/-- `ioctl(fd, FIONBIO, &value)`. -/
def fionbio (w : FdWorld) (fd : Nat) (value : Int) (ok : Bool) : FdWorld :=
  let user := decide (value ≠ 0)
  match w.managed fd with
  | none => w.change fd ok (·.setNonblock user)
  | some _ => (w.setUserNonblock fd user).change fd ok (·.setNonblock user)

/-- The kernel makes a socket. -/
def openSocket (w : FdWorld) (fd : Nat) (nonblock : Bool) : FdWorld :=
  { w with
    files := Function.update w.files fd (some ⟨true, if nonblock then 0x802 else 2⟩)
    asked := Function.update w.asked fd nonblock }

inductive Action where
  /-- `socket`, which the kernel answers with `fd`, with or without `SOCK_NONBLOCK`. -/
  | socket (fd : Nat) (nonblock hookEnable : Bool)
  /-- `accept` returns `fd`. -/
  | accept (fd : Nat)
  | setfl (fd : Nat) (arg : UInt32) (ok : Bool)
  | getfl (fd : Nat)
  | fionbio (fd : Nat) (value : Int) (ok : Bool)
  /-- `close` with the hook enabled. -/
  | close (fd : Nat)
  deriving DecidableEq, Repr

def step : Action → FdWorld → Option FdWorld
  | .socket fd nonblock hookEnable, w =>
    if (w.files fd).isNone then
      let w := w.openSocket fd nonblock
      some (if hookEnable then w.getOrCreate fd else w)
    else none
  | .accept fd, w =>
    if (w.files fd).isNone then some ((w.openSocket fd false).getOrCreate fd) else none
  | .setfl fd arg ok, w =>
    some { w.setfl fd arg ok with
      asked := Function.update w.asked fd (decide (arg &&& O_NONBLOCK ≠ 0)) }
  | .getfl _, w => some w
  | .fionbio fd value ok, w =>
    some { w.fionbio fd value ok with asked := Function.update w.asked fd (decide (value ≠ 0)) }
  | .close fd, w =>
    some { w with
      datas := Function.update w.datas fd none
      files := Function.update w.files fd none }

end FdWorld

end YkServer
