import YkServer.Core.Util

/-!
# Servlets

The dispatcher of `http/http_servlet.cc`, which has a table of servlets by uri and a
list of servlets by pattern.

The tables hold creators, and a creator is asked for the servlet at every lookup; it
can make a new one each time, which is what the heap `ω` is for. A creator that is
a null pointer is not covered, since every lookup that finds it would call through
it. Every method locks the dispatcher, so that a sequence of calls is any
interleaving of its threads.

`fnmatch` is a function of the C library and an argument here.

## Main definitions

* `IServletCreator`, `holdServletCreator`, `servletCreator`: Creators.
* `ServletDispatch`: The tables.
* `ServletDispatch.getMatchedServlet`, `getServlet`, `getGlobServlet`: Lookups.
* `ServletDispatch.Call`, `ServletDispatch.run`: Sequences of calls.
-/

namespace YkServer

/-- What a `Servlet` is: a function, the answer for unknown pages, or any other. -/
inductive Servlet (κ σ : Type) where
  | functionServlet (m_cb : κ)
  | notFoundServlet (m_name : List UInt8)
  | other (slt : σ)
  deriving DecidableEq, Repr

/-- An `IServletCreator`, of which the dispatcher calls `get`. -/
structure IServletCreator (ω κ σ : Type) where
  get : ω → Option (Servlet κ σ) × ω

variable {ω κ σ : Type}

/-- `HoldServletCreator`, which always gives the servlet it was made with. -/
def holdServletCreator (m_servlet : Option (Servlet κ σ)) : IServletCreator ω κ σ where
  get w := (m_servlet, w)

/-- `ServletCreator<T>`, which gives a new servlet each time. -/
def servletCreator (new : ω → σ × ω) : IServletCreator ω κ σ where
  get w := (some (.other (new w).1), (new w).2)

/-- The dispatcher. -/
structure ServletDispatch (ω κ σ : Type) where
  m_datas : List UInt8 → Option (IServletCreator ω κ σ)
  m_globs : List (List UInt8 × IServletCreator ω κ σ)
  m_default : Option (Servlet κ σ)

namespace ServletDispatch

/-- The constructor. -/
def init : ServletDispatch ω κ σ where
  m_datas := fun _ => none
  m_globs := []
  m_default := some (.notFoundServlet (ascii "yk/1.0"))

def getDefault (d : ServletDispatch ω κ σ) : Option (Servlet κ σ) := d.m_default

def setDefault (d : ServletDispatch ω κ σ) (v : Option (Servlet κ σ)) :
    ServletDispatch ω κ σ := { d with m_default := v }

def addServletCreator (d : ServletDispatch ω κ σ) (uri : List UInt8)
    (creator : IServletCreator ω κ σ) : ServletDispatch ω κ σ :=
  { d with m_datas := Function.update d.m_datas uri (some creator) }

def addServlet (d : ServletDispatch ω κ σ) (uri : List UInt8) (slt : Option (Servlet κ σ)) :
    ServletDispatch ω κ σ :=
  { d with m_datas := Function.update d.m_datas uri (some (holdServletCreator slt)) }

/-- `addServlet` with a callback. -/
def addServletFunction (d : ServletDispatch ω κ σ) (uri : List UInt8) (cb : κ) :
    ServletDispatch ω κ σ :=
  { d with
    m_datas := Function.update d.m_datas uri
      (some (holdServletCreator (some (.functionServlet cb)))) }

/-- The loop that erases the first entry of a pattern. -/
def eraseGlob (uri : List UInt8) (m_globs : List (List UInt8 × IServletCreator ω κ σ)) :
    List (List UInt8 × IServletCreator ω κ σ) :=
  m_globs.eraseP (fun it => it.1 == uri)

def addGlobServletCreator (d : ServletDispatch ω κ σ) (uri : List UInt8)
    (creator : IServletCreator ω κ σ) : ServletDispatch ω κ σ :=
  { d with m_globs := eraseGlob uri d.m_globs ++ [(uri, creator)] }

def addGlobServlet (d : ServletDispatch ω κ σ) (uri : List UInt8)
    (slt : Option (Servlet κ σ)) : ServletDispatch ω κ σ :=
  { d with m_globs := eraseGlob uri d.m_globs ++ [(uri, holdServletCreator slt)] }

/-- `addGlobServlet` with a callback. -/
def addGlobServletFunction (d : ServletDispatch ω κ σ) (uri : List UInt8) (cb : κ) :
    ServletDispatch ω κ σ :=
  addGlobServlet d uri (some (.functionServlet cb))

def delServlet (d : ServletDispatch ω κ σ) (uri : List UInt8) : ServletDispatch ω κ σ :=
  { d with m_datas := Function.update d.m_datas uri none }

def delGlobServlet (d : ServletDispatch ω κ σ) (uri : List UInt8) : ServletDispatch ω κ σ :=
  { d with m_globs := eraseGlob uri d.m_globs }

/-! ## Lookups -/

def getServlet (d : ServletDispatch ω κ σ) (uri : List UInt8) (w : ω) :
    Option (Servlet κ σ) × ω :=
  match d.m_datas uri with
  | none => (none, w)
  | some it => it.get w

def getGlobServlet (d : ServletDispatch ω κ σ) (uri : List UInt8) (w : ω) :
    Option (Servlet κ σ) × ω :=
  match d.m_globs.find? (fun it => it.1 == uri) with
  | none => (none, w)
  | some it => it.2.get w

def getMatchedServlet (fnmatch : List UInt8 → List UInt8 → Nat → Int)
    (d : ServletDispatch ω κ σ) (uri : List UInt8) (w : ω) : Option (Servlet κ σ) × ω :=
  match d.m_datas uri with
  | some mit => mit.get w
  | none =>
    match d.m_globs.find? (fun it => fnmatch (cStr it.1) (cStr uri) 0 == 0) with
    | some it => it.2.get w
    | none => (d.m_default, w)

/-! ## Sequences of calls -/

/-- A call that changes the dispatcher. -/
inductive Call (ω κ σ : Type) where
  | addServlet (uri : List UInt8) (slt : Option (Servlet κ σ))
  | addServletFunction (uri : List UInt8) (cb : κ)
  | addServletCreator (uri : List UInt8) (creator : IServletCreator ω κ σ)
  | addGlobServlet (uri : List UInt8) (slt : Option (Servlet κ σ))
  | addGlobServletFunction (uri : List UInt8) (cb : κ)
  | addGlobServletCreator (uri : List UInt8) (creator : IServletCreator ω κ σ)
  | delServlet (uri : List UInt8)
  | delGlobServlet (uri : List UInt8)
  | setDefault (v : Option (Servlet κ σ))

def step (d : ServletDispatch ω κ σ) : Call ω κ σ → ServletDispatch ω κ σ
  | .addServlet uri slt => addServlet d uri slt
  | .addServletFunction uri cb => addServletFunction d uri cb
  | .addServletCreator uri creator => addServletCreator d uri creator
  | .addGlobServlet uri slt => addGlobServlet d uri slt
  | .addGlobServletFunction uri cb => addGlobServletFunction d uri cb
  | .addGlobServletCreator uri creator => addGlobServletCreator d uri creator
  | .delServlet uri => delServlet d uri
  | .delGlobServlet uri => delGlobServlet d uri
  | .setDefault v => setDefault d v

/-- The dispatcher after some calls. -/
def run (calls : List (Call ω κ σ)) : ServletDispatch ω κ σ := calls.foldl step init

end ServletDispatch

end YkServer
