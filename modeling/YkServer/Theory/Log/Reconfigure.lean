import YkServer.Lib.Rounds
import YkServer.Core.LogIniter
import YkServer.Theory.Log.Codec
import YkServer.Theory.Log.Scan

/-!
# Loggers After a Reconfiguration

What the loggers of the last value of `logs` keep of the values before it. The listener
sets up the logger of every definition that is new or modified. It sets the level and makes
the appenders anew each time. It sets the formatter only if the definition has one, and
nothing ever takes a formatter back, also not the removal of a definition. So a logger
whose definition has no formatter keeps the last one it was given, and it is the only thing
that a logger keeps.

In any state that assignments lead to, the logger of a definition of the current value is
what setting it up has made of some logger. This carries over to a definition that is not
modified, which the listener passes over.

## Main definitions

* `LogDefine.Valid`: A definition that a logger can be set up for.
* `LogIniter.Configured`: The loggers are as their definitions say.
* `LogIniter.HistoryIndependent`: What has been assigned before makes no difference.

## Theorems

* `setUp_eq`: What setting up a logger comes to.
* `setValue_spec`: What an assignment does to the loggers of the value.
* `configured_run`: Every sequence of assignments keeps the loggers as they should be.
* `valid_of_read`: What the reader makes is valid.
* `level_appenders_independent`: Levels and appenders do not depend on the past.
* `historyIndependent_iff`: For which values the past makes no difference.
-/

namespace YkServer

open Lib

namespace LogFormatter

theorem new_pattern (pattern : List UInt8) (f : LogFormatter) (h : new pattern = some f) :
    f.pattern = pattern := by
  rw [new, Option.map_eq_some_iff] at h
  obtain ⟨vec, -, hf⟩ := h
  rw [← hf]

end LogFormatter

namespace LogDefine

/-! ## Setting up a logger -/

/-- The appenders of a logger that is set up. -/
def made (d : Bool) (i : LogDefine) : List LogAppenderDefine → Option (List LogAppender)
  | [] => some []
  | a :: rest =>
    (newAppender d i a).bind (fun ap => (made d i rest).map (fun aps => ap.toList ++ aps))

theorem foldlM_addAppender (d : Bool) (i : LogDefine) (as : List LogAppenderDefine)
    (logger : Logger) :
    as.foldlM (addAppender d i) logger = (made d i as).map (fun aps =>
      { logger with appenders := logger.appenders ++ aps }) := by
  induction as generalizing logger with
  | nil =>
      rw [made, Option.map_some, List.append_nil]
      rfl
  | cons a rest ih =>
      rw [List.foldlM_cons, addAppender, made]
      rcases newAppender d i a with _ | _ | ap
      · rfl
      · change rest.foldlM (addAppender d i) logger = _
        rw [ih, Option.bind_some, Option.map_map]
        rfl
      · change rest.foldlM (addAppender d i) (logger.addAppender ap) = _
        rw [ih, Option.bind_some, Option.map_map]
        cases made d i rest with
        | none => rfl
        | some aps =>
            rw [Option.map_some, Option.map_some, Logger.addAppender, List.append_assoc]
            rfl

/-- Only the formatter may be the one the logger had. -/
theorem setUp_eq (d : Bool) (i : LogDefine) (logger : Logger) :
    i.setUp d logger = (LogFormatter.new i.formatter).bind (fun _ =>
      (made d i i.appenders).map (fun aps =>
        ⟨i.level, if i.formatter = [] then logger.formatter else i.formatter, aps⟩)) := by
  rw [setUp]
  by_cases hempty : i.formatter = []
  · rw [if_neg (not_not_intro hempty), if_pos hempty, hempty]
    change i.appenders.foldlM (addAppender d i) _ = Option.map _ (made d i i.appenders)
    rw [foldlM_addAppender]
    rfl
  · rw [if_pos hempty, if_neg hempty, Logger.setFormatter]
    rcases hnew : LogFormatter.new i.formatter with _ | f
    · rfl
    · change i.appenders.foldlM (addAppender d i) _ = Option.map _ (made d i i.appenders)
      rw [foldlM_addAppender, ← LogFormatter.new_pattern i.formatter f hnew]
      rfl

/-- A formatter can be made for every pattern, and every appender has one of the two types.
    Where nothing is written to the standard output, its appenders are passed over. -/
def Valid (d : Bool) (i : LogDefine) : Prop :=
  (LogFormatter.new i.formatter).isSome = true ∧ ∀ a ∈ i.appenders,
    a.type = 2 ∧ d = true ∨
      (a.type = 1 ∨ a.type = 2) ∧ (LogFormatter.new a.formatter).isSome = true

theorem appenderFormatter_isSome (i : LogDefine) (a : LogAppenderDefine)
    (hi : (LogFormatter.new i.formatter).isSome = true) :
    (i.appenderFormatter a).isSome = (LogFormatter.new a.formatter).isSome := by
  rw [appenderFormatter]
  by_cases hempty : a.formatter = []
  · rw [if_neg (not_not_intro hempty), hempty]
    split
    · rw [Option.isSome_map, hi]
      rfl
    · rfl
  · rw [if_pos hempty, Option.isSome_map]

theorem newAppender_isSome_iff (d : Bool) (i : LogDefine) (a : LogAppenderDefine)
    (hi : (LogFormatter.new i.formatter).isSome = true) :
    (newAppender d i a).isSome = true ↔ a.type = 2 ∧ d = true ∨
      (a.type = 1 ∨ a.type = 2) ∧ (LogFormatter.new a.formatter).isSome = true := by
  rw [newAppender]
  by_cases hfile : a.type = 1
  · rw [if_pos hfile, Option.isSome_map, appenderFormatter_isSome i a hi, hfile]
    simp
  · rw [if_neg hfile]
    by_cases hstdout : a.type = 2
    · rw [if_pos hstdout, hstdout]
      cases d with
      | true => simp
      | false => simp [appenderFormatter_isSome i a hi]
    · rw [if_neg hstdout]
      simp [hfile, hstdout]

theorem made_isSome_iff (d : Bool) (i : LogDefine) (as : List LogAppenderDefine) :
    (made d i as).isSome = true ↔ ∀ a ∈ as, (newAppender d i a).isSome = true := by
  induction as with
  | nil => simp [made]
  | cons a rest ih =>
      rw [made, List.forall_mem_cons, ← ih]
      cases newAppender d i a with
      | none => simp
      | some ap => simp

/-- Whether a logger can be set up does not depend on the logger. -/
theorem setUp_isSome_iff (d : Bool) (i : LogDefine) (logger : Logger) :
    (i.setUp d logger).isSome = true ↔ i.Valid d := by
  rw [setUp_eq, Valid]
  rcases hnew : LogFormatter.new i.formatter with _ | f
  · simp
  · have hi : (LogFormatter.new i.formatter).isSome = true := by rw [hnew]; rfl
    rw [Option.bind_some, Option.isSome_map, made_isSome_iff]
    simp only [Option.isSome_some, true_and]
    exact forall₂_congr (fun a _ => newAppender_isSome_iff d i a hi)

/-- With a formatter of its own a definition decides on everything. -/
theorem setUp_congr (d : Bool) (i : LogDefine) (hformatter : i.formatter ≠ [])
    (logger logger' : Logger) : i.setUp d logger = i.setUp d logger' := by
  rw [setUp_eq, setUp_eq, if_neg hformatter]
  simp only [if_neg hformatter]

/-- Without one it still decides on the level and on the appenders. -/
theorem setUp_rest (d : Bool) (i : LogDefine) (before before' logger logger' : Logger)
    (h : i.setUp d before = some logger) (h' : i.setUp d before' = some logger') :
    logger.level = logger'.level ∧ logger.appenders = logger'.appenders := by
  rw [setUp_eq] at h h'
  obtain ⟨f, hf, hmade⟩ := Option.bind_eq_some_iff.1 h
  obtain ⟨f', -, hmade'⟩ := Option.bind_eq_some_iff.1 h'
  obtain ⟨aps, haps, heq⟩ := Option.map_eq_some_iff.1 hmade
  obtain ⟨aps', haps', heq'⟩ := Option.map_eq_some_iff.1 hmade'
  rw [haps, Option.some.injEq] at haps'
  rw [← heq, ← heq', haps']
  exact ⟨rfl, rfl⟩

/-- What is left then is the formatter there was. -/
theorem setUp_formatter (d : Bool) (i : LogDefine) (logger logger' : Logger)
    (h : i.setUp d logger = some logger') :
    logger'.formatter = if i.formatter = [] then logger.formatter else i.formatter := by
  rw [setUp_eq] at h
  obtain ⟨f, -, hmade⟩ := Option.bind_eq_some_iff.1 h
  obtain ⟨aps, -, heq⟩ := Option.map_eq_some_iff.1 hmade
  rw [← heq]

/-- What the reader makes is valid if its patterns can be scanned with an `int`. -/
theorem valid_of_read (d : Bool) (n : YamlNode) (i : LogDefine) (hread : ofYaml n = .ok i)
    (hi : i.formatter.length ≤ 2 ^ 31) (has : ∀ a ∈ i.appenders, a.formatter.length ≤ 2 ^ 31) :
    i.Valid d := by
  refine ⟨LogFormatter.new_isSome _ hi, fun a ha => .inr ⟨?_, LogFormatter.new_isSome _ (has a ha)⟩⟩
  rcases (ofYaml_proper n i hread a ha).1 with hfile | ⟨hstdout, -⟩
  · exact .inl hfile
  · exact .inr hstdout

end LogDefine

/-! ## Sets of definitions -/

namespace LogDefines

theorem distinct (s : LogDefines) : s.defines.Pairwise (fun a b => a.name ≠ b.name) := by
  refine s.sorted.imp (fun {a b} hlt heq => ?_)
  rw [heq] at hlt
  exact List.lt_irrefl _ hlt

theorem find_eq_some (s : LogDefines) (i j : LogDefine) (h : s.find i = some j) :
    j ∈ s.defines ∧ j.name = i.name := by
  rw [find] at h
  have hname := List.find?_some h
  exact ⟨List.mem_of_find?_eq_some h, of_decide_eq_true hname⟩

theorem find_isSome (s : LogDefines) (i j : LogDefine) (hi : i ∈ s.defines)
    (hname : j.name = i.name) : (s.find j).isSome = true := by
  rw [find, List.find?_isSome]
  exact ⟨i, hi, decide_eq_true hname.symm⟩

end LogDefines

namespace LogIniter

/-! ## One assignment -/

theorem configure_local (d : Bool) (old : LogDefines) :
    Local (fun (ls : Loggers) name => ls.lookup name) LogDefine.name (configure d old) := by
  intro ls i ls' h name hname
  rw [configure] at h
  split at h
  · cases h
    rfl
  · obtain ⟨logger, -, heq⟩ := Option.map_eq_some_iff.1 h
    rw [← heq]
    exact Finmap.lookup_insert_of_ne ls hname

/-- The second loop leaves the loggers of the new value. -/
theorem lookup_remove (new : LogDefines) (old : List LogDefine) (ls : Loggers) (i : LogDefine)
    (hi : i ∈ new.defines) : (old.foldl (remove new) ls).lookup i.name = ls.lookup i.name := by
  induction old generalizing ls with
  | nil => rfl
  | cons j rest ih =>
      rw [List.foldl_cons, ih, remove]
      split
      · rfl
      · rename_i hgone
        refine Finmap.lookup_insert_of_ne ls (fun hname => hgone ?_)
        exact new.find_isSome i j hi hname.symm

/-- A definition that is not modified is passed over. The logger of another one is set up. -/
theorem setValue_spec (d : Bool) (s s' : State) (v : LogDefines)
    (h : setValue d s v = some s') : s'.value = v ∧ ∀ i ∈ v.defines,
      (s.value.find i = some i ∧ s'.loggers.lookup i.name = s.loggers.lookup i.name) ∨
      (s.value.find i ≠ some i ∧ ∃ logger, i.setUp d (s.loggers.logger i.name) = some logger ∧
        s'.loggers.lookup i.name = some logger) := by
  rw [setValue, Option.map_eq_some_iff] at h
  obtain ⟨ls', hlistener, heq⟩ := h
  obtain ⟨ls, hloop, hrest⟩ := Option.bind_eq_some_iff.1 hlistener
  rw [← heq]
  refine ⟨rfl, fun i hi => ?_⟩
  have hend : ls'.lookup i.name = ls.lookup i.name := by
    rw [← Option.some.inj hrest]
    exact lookup_remove v s.value.defines ls i hi
  obtain ⟨t, t', hfound, hround, hleft⟩ :=
    (configure_local d s.value).own v.defines v.distinct s.loggers ls hloop i hi
  rw [configure] at hround
  split at hround
  · rename_i hsame
    cases hround
    exact .inl ⟨hsame, hend.trans (hleft.trans hfound)⟩
  · rename_i hmodified
    obtain ⟨logger, hlogger, hinsert⟩ := Option.map_eq_some_iff.1 hround
    refine .inr ⟨hmodified, logger, ?_, ?_⟩
    · rw [Loggers.logger, ← hfound]
      exact hlogger
    · rw [hend, hleft, ← hinsert]
      exact Finmap.lookup_insert t

theorem setValue_isSome (d : Bool) (s : State) (v : LogDefines)
    (hvalid : ∀ i ∈ v.defines, i.Valid d) : (setValue d s v).isSome = true := by
  have hloop : (v.defines.foldlM (configure d s.value) s.loggers).isSome = true := by
    refine foldlM_isSome v.defines (fun ls i hi => ?_) s.loggers
    rw [configure]
    split
    · rfl
    · rw [Option.isSome_map]
      exact (LogDefine.setUp_isSome_iff d i _).2 (hvalid i hi)
  obtain ⟨ls, hls⟩ := Option.isSome_iff_exists.1 hloop
  rw [setValue, Option.isSome_map, listener, hls]
  rfl

/-! ## Sequences of assignments -/

/-- The logger of every definition of the value is what setting it up has made of some logger. -/
def Configured (d : Bool) (s : State) : Prop :=
  ∀ i ∈ s.value.defines, ∃ before logger,
    i.setUp d before = some logger ∧ s.loggers.lookup i.name = some logger

theorem configured_start (d : Bool) (names : List (List UInt8)) : Configured d (start names) := by
  intro i hi
  cases hi

/-- The logger of a definition that is passed over was set up before. -/
theorem configured_setValue (d : Bool) (s s' : State) (v : LogDefines) (hs : Configured d s)
    (h : setValue d s v = some s') : Configured d s' := by
  obtain ⟨hvalue, hlookup⟩ := setValue_spec d s s' v h
  intro i hi
  rw [hvalue] at hi
  rcases hlookup i hi with ⟨hsame, hleft⟩ | ⟨-, logger, hset, hnew⟩
  · rw [hleft]
    exact hs i (s.value.find_eq_some i i hsame).1
  · exact ⟨_, logger, hset, hnew⟩

theorem configured_run (d : Bool) (vs : List LogDefines) (s s' : State) (hs : Configured d s)
    (h : run d vs s = some s') : Configured d s' := by
  induction vs generalizing s with
  | nil =>
      cases h
      exact hs
  | cons v rest ih =>
      rw [run, List.foldlM_cons] at h
      obtain ⟨t, ht, hrest⟩ := Option.bind_eq_some_iff.1 h
      exact ih t (configured_setValue d s t v hs ht) hrest

theorem run_concat (d : Bool) (vs : List LogDefines) (F : LogDefines) (s s' : State)
    (h : run d (vs ++ [F]) s = some s') :
    ∃ t, run d vs s = some t ∧ setValue d t F = some s' := by
  rw [run, List.foldlM_append] at h
  obtain ⟨t, ht, hlast⟩ := Option.bind_eq_some_iff.1 h
  rw [List.foldlM_cons] at hlast
  obtain ⟨u, hu, hnil⟩ := Option.bind_eq_some_iff.1 hlast
  cases hnil
  exact ⟨t, ht, hu⟩

/-- After the last assignment of a sequence its value is there, with its loggers. -/
theorem configured_concat (d : Bool) (vs : List LogDefines) (F : LogDefines)
    (names : List (List UInt8)) (s : State) (h : run d (vs ++ [F]) (start names) = some s) :
    ∀ i ∈ F.defines, ∃ before logger,
      i.setUp d before = some logger ∧ s.loggers.lookup i.name = some logger := by
  have hconfigured := configured_run d _ _ _ (configured_start d names) h
  obtain ⟨t, -, hlast⟩ := run_concat d vs F _ s h
  rw [Configured, (setValue_spec d t s F hlast).1] at hconfigured
  exact hconfigured

/-- Whatever was assigned before a value, the loggers of its definitions are the same. -/
def HistoryIndependent (d : Bool) (names : List (List UInt8)) (F : LogDefines) : Prop :=
  ∀ vs ws s t, run d (vs ++ [F]) (start names) = some s →
    run d (ws ++ [F]) (start names) = some t →
      ∀ i ∈ F.defines, s.loggers.lookup i.name = t.loggers.lookup i.name

theorem historyIndependent_of_formatters (d : Bool) (names : List (List UInt8)) (F : LogDefines)
    (hformatters : (∀ i ∈ F.defines, i.Valid d) → ∀ i ∈ F.defines, i.formatter ≠ []) :
    HistoryIndependent d names F := by
  intro vs ws s t hs ht i hi
  have hvalid : ∀ j ∈ F.defines, j.Valid d := by
    intro j hj
    obtain ⟨before, logger, hset, -⟩ := configured_concat d vs F names s hs j hj
    rw [← LogDefine.setUp_isSome_iff d j before, hset]
    rfl
  obtain ⟨b, l, hb, hl⟩ := configured_concat d vs F names s hs i hi
  obtain ⟨b', l', hb', hl'⟩ := configured_concat d ws F names t ht i hi
  rw [LogDefine.setUp_congr d i (hformatters hvalid i hi) b b', hb'] at hb
  rw [hl, hl', hb]

/-- The level and the appenders never depend on the past. -/
theorem level_appenders_independent (d : Bool) (names : List (List UInt8)) (F : LogDefines)
    (vs ws : List LogDefines) (s t : State) (hs : run d (vs ++ [F]) (start names) = some s)
    (ht : run d (ws ++ [F]) (start names) = some t) (i : LogDefine) (hi : i ∈ F.defines) :
    (s.loggers.logger i.name).level = (t.loggers.logger i.name).level ∧
      (s.loggers.logger i.name).appenders = (t.loggers.logger i.name).appenders := by
  obtain ⟨b, l, hb, hl⟩ := configured_concat d vs F names s hs i hi
  obtain ⟨b', l', hb', hl'⟩ := configured_concat d ws F names t ht i hi
  rw [Loggers.logger, Loggers.logger, hl, hl']
  exact LogDefine.setUp_rest d i b b' l l' hb hb'

/-! ## A formatter that is kept -/

/-- A logger that has been asked for is as it was made. -/
theorem logger_start (names : List (List UInt8)) (name : List UInt8) :
    (start names).loggers.logger name = Logger.new name := by
  have hall : ∀ ls : Loggers, (∀ n, ls.logger n = Logger.new n) →
      (names.foldl Loggers.getLogger ls).logger name = Logger.new name := by
    induction names with
    | nil => exact fun ls hls => hls name
    | cons other rest ih =>
        intro ls hls
        refine ih (ls.getLogger other) (fun n => ?_)
        rw [Loggers.logger, Loggers.getLogger, hls other]
        by_cases hn : n = other
        · rw [hn, Finmap.lookup_insert]
          rfl
        · rw [Finmap.lookup_insert_of_ne _ hn]
          exact hls n
  refine hall Loggers.new (fun n => ?_)
  rw [Loggers.logger, Loggers.new]
  by_cases hn : n = ascii "root"
  · rw [hn, Finmap.lookup_singleton_eq]
    rfl
  · rw [Finmap.lookup_eq_none.2 (fun hmem => hn (Finmap.mem_singleton _ _ _ |>.1 hmem))]
    rfl

/-- The formatter of a logger behind an assignment that sets it up. -/
theorem formatter_setValue (d : Bool) (s s' : State) (v : LogDefines)
    (h : setValue d s v = some s') (i : LogDefine) (hi : i ∈ v.defines)
    (hmodified : s.value.find i ≠ some i) :
    (s'.loggers.logger i.name).formatter =
      if i.formatter = [] then (s.loggers.logger i.name).formatter else i.formatter := by
  rcases (setValue_spec d s s' v h).2 i hi with ⟨hsame, -⟩ | ⟨-, logger, hset, hnew⟩
  · exact absurd hsame hmodified
  · have hlogger : s'.loggers.logger i.name = logger := by
      rw [Loggers.logger, hnew]
      rfl
    rw [hlogger]
    exact LogDefine.setUp_formatter d i _ logger hset

/-- A value that gives the logger of a name a formatter of its own. -/
def messageOnly (name : List UInt8) : LogDefines :=
  ⟨[{ name := name, formatter := ascii "%m" }], List.pairwise_singleton _ _⟩

theorem messageOnly_valid (d : Bool) (name : List UInt8) :
    ∀ i ∈ (messageOnly name).defines, i.Valid d :=
  List.forall_mem_singleton.2
    ⟨LogFormatter.new_isSome (ascii "%m") (by decide), fun _ ha => nomatch ha⟩

/-- A definition without a formatter gets the one that was there. -/
theorem not_historyIndependent (d : Bool) (names : List (List UInt8)) (F : LogDefines)
    (hvalid : ∀ i ∈ F.defines, i.Valid d) (i : LogDefine) (hi : i ∈ F.defines)
    (hempty : i.formatter = []) : ¬HistoryIndependent d names F := by
  intro hindependent
  obtain ⟨s, hs⟩ := Option.isSome_iff_exists.1 (setValue_isSome d (start names) F hvalid)
  obtain ⟨t, ht⟩ := Option.isSome_iff_exists.1
    (setValue_isSome d (start names) (messageOnly i.name) (messageOnly_valid d i.name))
  obtain ⟨u, hu⟩ := Option.isSome_iff_exists.1 (setValue_isSome d t F hvalid)
  have hrun : run d ([] ++ [F]) (start names) = some s := by
    rw [List.nil_append, run, List.foldlM_cons, hs]
    rfl
  have hrun' : run d ([messageOnly i.name] ++ [F]) (start names) = some u := by
    rw [run, List.foldlM_append, List.foldlM_cons, ht]
    change List.foldlM (setValue d) t [F] = some u
    rw [List.foldlM_cons, hu]
    rfl
  have hfresh : (s.loggers.logger i.name).formatter = LogFormatter.defaultPattern := by
    rw [formatter_setValue d _ s F hs i hi (fun h => nomatch h), if_pos hempty, logger_start]
    rfl
  have hgiven : (t.loggers.logger i.name).formatter = ascii "%m" :=
    formatter_setValue d _ t _ ht { name := i.name, formatter := ascii "%m" }
      List.mem_cons_self (fun h => nomatch h)
  have hmodified : t.value.find i ≠ some i := by
    intro hfind
    have hmem := (t.value.find_eq_some i i hfind).1
    rw [(setValue_spec d _ t _ ht).1, messageOnly, List.mem_singleton] at hmem
    rw [hmem] at hempty
    cases hempty
  have hkept : (u.loggers.logger i.name).formatter = ascii "%m" := by
    rw [formatter_setValue d t u F hu i hi hmodified, if_pos hempty, hgiven]
  have hsame := hindependent [] [messageOnly i.name] s u hrun hrun' i hi
  rw [Loggers.logger, ← hsame, ← Loggers.logger, hfresh] at hkept
  exact absurd hkept (by decide)

/-- The past makes no difference to a value that can be assigned if and only if each of its
    definitions has a formatter. -/
theorem historyIndependent_iff (d : Bool) (names : List (List UInt8)) (F : LogDefines) :
    HistoryIndependent d names F ↔
      ((∀ i ∈ F.defines, i.Valid d) → ∀ i ∈ F.defines, i.formatter ≠ []) := by
  constructor
  · intro hindependent hvalid i hi hempty
    exact not_historyIndependent d names F hvalid i hi hempty hindependent
  · exact historyIndependent_of_formatters d names F

/-- The root logger, of which only the level is defined, keeps the formatter of before. -/
theorem not_historyIndependent_root : ¬HistoryIndependent false []
    ⟨[{ name := ascii "root", level := .INFO }], List.pairwise_singleton _ _⟩ :=
  not_historyIndependent false [] _
    (List.forall_mem_singleton.2 ⟨rfl, fun _ ha => nomatch ha⟩)
    { name := ascii "root", level := .INFO } List.mem_cons_self rfl

end LogIniter

end YkServer
