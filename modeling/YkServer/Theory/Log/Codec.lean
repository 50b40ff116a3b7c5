import YkServer.Core.LogDefine

/-!
# Log Definitions Through YAML

What is left of a definition that is printed and read again. The writer prints the level
of an appender and the reader never asks for it, so an appender comes back with the level
it is made with. Everything else comes back as it was. The two definitions are equal only
if no appender had a level, and two definitions that differ in such a level only are the
same one to the change detection behind the reader.

## Main definitions

* `LogAppenderDefine.Proper`: An appender that is a file or the standard output.
* `LogAppenderDefine.unlevelled`: An appender without its level.

## Theorems

* `ofYaml_toYaml`: What is read from the node that is printed.
* `ofYaml_toYaml_eq_iff`: When two definitions are read as the same one.
* `ofYaml_proper`: What the reader makes.
* `castFromString_toString_iff`: When a definition comes back as it was.
-/

namespace YkServer

@[simp] theorem LogLevel.fromString_toString (level : LogLevel) :
    LogLevel.fromString level.toString = level := by
  cases level <;> decide

/-- A step that is passed has come to something. -/
theorem exists_of_bind {α β : Type} {x : Except CastError α} {f : α → Except CastError β} {b : β}
    (h : (x >>= f) = .ok b) : ∃ a, x = .ok a ∧ f a = .ok b := by
  rcases x with e | a
  · cases h
  · exact ⟨a, rfl, h⟩

namespace LogAppenderDefine

/-- Of type 1 with a file, or of type 2 without. -/
def Proper (a : LogAppenderDefine) : Prop := a.type = 1 ∨ (a.type = 2 ∧ a.file = [])

def unlevelled (a : LogAppenderDefine) : LogAppenderDefine := { a with level := .UNKNOW }

theorem unlevelled_eq_self (a : LogAppenderDefine) : a.unlevelled = a ↔ a.level = .UNKNOW := by
  constructor
  · intro h
    rw [← h]
    rfl
  · intro h
    rw [unlevelled, ← h]

/-! ## Entries and fields -/

/-- A key that an optional entry does not have is looked for behind it. -/
theorem lookup_levelEntry_append (key : List UInt8) (hkey : (key == ascii "level") = false)
    (level : LogLevel) (rest : List (List UInt8 × YamlNode)) :
    (levelEntry level ++ rest).lookup key = rest.lookup key := by
  rw [levelEntry]
  split
  · rw [List.singleton_append, List.lookup_cons, hkey]
  · rw [List.nil_append]

theorem lookup_formatterEntry_append (key : List UInt8)
    (hkey : (key == ascii "formatter") = false) (formatter : List UInt8)
    (rest : List (List UInt8 × YamlNode)) :
    (formatterEntry formatter ++ rest).lookup key = rest.lookup key := by
  rw [formatterEntry]
  split
  · rw [List.singleton_append, List.lookup_cons, hkey]
  · rw [List.nil_append]

theorem lookup_appendersEntry (key : List UInt8) (hkey : (key == ascii "appenders") = false)
    (as : List LogAppenderDefine) : (LogDefine.appendersEntry as).lookup key = none := by
  cases as with
  | nil => rfl
  | cons a rest =>
    rw [LogDefine.appendersEntry, List.lookup_cons, hkey]
    · rfl
    · simp

/-- The field of a formatter that is printed if it is not empty. -/
theorem stringField_formatter (entries : List (List UInt8 × YamlNode)) (formatter : List UInt8)
    (h : entries.lookup (ascii "formatter") =
      (formatterEntry formatter).lookup (ascii "formatter")) :
    ∃ s, YamlNode.stringField (ascii "formatter") (.map entries) = .ok s ∧ s.getD [] = formatter := by
  by_cases hempty : formatter = []
  · refine ⟨none, ?_, hempty.symm⟩
    rw [formatterEntry, if_neg (not_not_intro hempty)] at h
    rw [YamlNode.stringField, YamlNode.field, h]
    rfl
  · refine ⟨some formatter, ?_, rfl⟩
    rw [formatterEntry, if_pos hempty, List.lookup_cons, beq_self_eq_true] at h
    rw [YamlNode.stringField, YamlNode.field, h]
    rfl

theorem stringField_level (entries : List (List UInt8 × YamlNode)) (level : LogLevel)
    (h : entries.lookup (ascii "level") = (levelEntry level).lookup (ascii "level")) :
    ∃ s, YamlNode.stringField (ascii "level") (.map entries) = .ok s ∧
      LogLevel.fromString (s.getD []) = level := by
  by_cases hunknow : level = .UNKNOW
  · refine ⟨none, ?_, by rw [hunknow]; rfl⟩
    rw [levelEntry, if_neg (not_not_intro hunknow)] at h
    rw [YamlNode.stringField, YamlNode.field, h]
    rfl
  · refine ⟨some level.toString, ?_, LogLevel.fromString_toString level⟩
    rw [levelEntry, if_pos hunknow, List.lookup_cons, beq_self_eq_true] at h
    rw [YamlNode.stringField, YamlNode.field, h]
    rfl

/-! ## An appender -/

theorem ofYaml_toYaml (a : LogAppenderDefine) (ha : a.Proper) :
    ofYaml a.toYaml = .ok (some a.unlevelled) := by
  rcases ha with htype | ⟨htype, hfile⟩
  · have hyaml : a.toYaml = .map ((ascii "type", .scalar (ascii "FileLogAppender")) ::
        (ascii "file", .scalar a.file) :: (levelEntry a.level ++ formatterEntry a.formatter)) := by
      rw [toYaml, typeEntries, if_pos htype]
      rfl
    obtain ⟨s, hs, hformatter⟩ := stringField_formatter
      ((ascii "type", .scalar (ascii "FileLogAppender")) ::
        (ascii "file", .scalar a.file) :: (levelEntry a.level ++ formatterEntry a.formatter))
      a.formatter (lookup_levelEntry_append _ rfl _ _)
    rw [hyaml, ofYaml]
    change (YamlNode.stringField (ascii "formatter") _ >>= _) = _
    rw [hs]
    change Except.ok (some _) = _
    rw [hformatter, unlevelled, ← htype]
  · have hyaml : a.toYaml = .map ((ascii "type", .scalar (ascii "StdoutLogAppender")) ::
        (levelEntry a.level ++ formatterEntry a.formatter)) := by
      rw [toYaml, typeEntries, if_neg (by rw [htype]; decide), if_pos htype]
      rfl
    obtain ⟨s, hs, hformatter⟩ := stringField_formatter
      ((ascii "type", .scalar (ascii "StdoutLogAppender")) ::
        (levelEntry a.level ++ formatterEntry a.formatter))
      a.formatter (lookup_levelEntry_append _ rfl _ _)
    rw [hyaml, ofYaml]
    change (YamlNode.stringField (ascii "formatter") _ >>= _) = _
    rw [hs]
    change Except.ok (some _) = _
    rw [hformatter, unlevelled, ← htype, hfile]

/-- An appender that is read is one of the two kinds and has no level. -/
theorem ofYaml_proper (n : YamlNode) (a : LogAppenderDefine) (h : ofYaml n = .ok (some a)) :
    a.Proper ∧ a.level = .UNKNOW := by
  obtain ⟨type, -, h⟩ := exists_of_bind h
  rcases type with - | type
  · cases h
  · dsimp only at h
    split at h
    · obtain ⟨file, -, h⟩ := exists_of_bind h
      rcases file with - | file
      · cases h
      · obtain ⟨formatter, -, h⟩ := exists_of_bind h
        cases h
        exact ⟨.inl rfl, rfl⟩
    · split at h
      · obtain ⟨formatter, -, h⟩ := exists_of_bind h
        cases h
        exact ⟨.inr ⟨rfl, rfl⟩, rfl⟩
      · cases h

theorem readAll_proper (ns : List YamlNode) (as : List LogAppenderDefine)
    (h : readAll ns = .ok as) : ∀ a ∈ as, a.Proper ∧ a.level = .UNKNOW := by
  induction ns generalizing as with
  | nil =>
      cases h
      intro a ha
      cases ha
  | cons n rest ih =>
      obtain ⟨lad, hlad, h⟩ := exists_of_bind h
      obtain ⟨lads, hlads, h⟩ := exists_of_bind h
      cases h
      intro a ha
      rcases List.mem_append.1 ha with hnew | hold
      · rw [Option.mem_toList] at hnew
        rw [hnew] at hlad
        exact ofYaml_proper n a hlad
      · exact ih lads hlads a hold

theorem readAll_toYaml (as : List LogAppenderDefine) (has : ∀ a ∈ as, a.Proper) :
    readAll (as.map toYaml) = .ok (as.map unlevelled) := by
  induction as with
  | nil => rfl
  | cons a rest ih =>
      rw [List.map_cons, readAll, ofYaml_toYaml a (has a List.mem_cons_self),
        ih (fun b hb => has b (List.mem_cons_of_mem a hb))]
      rfl

end LogAppenderDefine

namespace LogDefine

open LogAppenderDefine

/-! ## A definition -/

theorem lookup_name (i : LogDefine) :
    YamlNode.stringField (ascii "name") i.toYaml = .ok (some i.name) := rfl

theorem lookup_level (i : LogDefine) :
    ∃ s, YamlNode.stringField (ascii "level") i.toYaml = .ok s ∧
      LogLevel.fromString (s.getD []) = i.level := by
  refine stringField_level _ i.level ?_
  have hname : (ascii "level" == ascii "name") = false := rfl
  rw [List.lookup_cons, hname, List.append_assoc, List.lookup_append,
    lookup_formatterEntry_append _ rfl, lookup_appendersEntry _ rfl, Option.or_none]

theorem lookup_formatter (i : LogDefine) :
    ∃ s, YamlNode.stringField (ascii "formatter") i.toYaml = .ok s ∧ s.getD [] = i.formatter := by
  refine stringField_formatter _ i.formatter ?_
  have hname : (ascii "formatter" == ascii "name") = false := rfl
  rw [List.lookup_cons, hname, List.append_assoc, lookup_levelEntry_append _ rfl,
    List.lookup_append, lookup_appendersEntry _ rfl, Option.or_none]

/-- The items of the field of the appenders. Without appenders there is no field. -/
theorem lookup_appenders (i : LogDefine) :
    ∃ n, YamlNode.field (ascii "appenders") i.toYaml = .ok n ∧
      (n.map YamlNode.elements).getD [] = i.appenders.map LogAppenderDefine.toYaml := by
  have hname : (ascii "appenders" == ascii "name") = false := rfl
  refine ⟨(appendersEntry i.appenders).lookup (ascii "appenders"), ?_, ?_⟩
  · rw [toYaml, YamlNode.field, List.lookup_cons, hname, List.append_assoc,
      lookup_levelEntry_append _ rfl, lookup_formatterEntry_append _ rfl]
  · cases i.appenders with
    | nil => rfl
    | cons a rest => rfl

/-- The definition without the levels of its appenders. -/
def unlevelled (i : LogDefine) : LogDefine :=
  { i with appenders := i.appenders.map LogAppenderDefine.unlevelled }

theorem unlevelled_eq_self (i : LogDefine) :
    i.unlevelled = i ↔ ∀ a ∈ i.appenders, a.level = .UNKNOW := by
  have hmap : i.unlevelled = i ↔ i.appenders.map LogAppenderDefine.unlevelled = i.appenders := by
    constructor
    · intro h
      exact congrArg LogDefine.appenders h
    · intro h
      rw [unlevelled, h]
  rw [hmap]
  conv_lhs => rhs; rw [← List.map_id i.appenders]
  rw [List.map_inj_left]
  exact forall₂_congr (fun a _ => LogAppenderDefine.unlevelled_eq_self a)

theorem ofYaml_toYaml (i : LogDefine) (hproper : ∀ a ∈ i.appenders, a.Proper) :
    ofYaml i.toYaml = .ok i.unlevelled := by
  obtain ⟨level, hlevel, heqlevel⟩ := lookup_level i
  obtain ⟨formatter, hformatter, heqformatter⟩ := lookup_formatter i
  obtain ⟨as, has, heqas⟩ := lookup_appenders i
  have hread : readAll ((as.map YamlNode.elements).getD []) =
      .ok (i.appenders.map LogAppenderDefine.unlevelled) := by
    rw [heqas, readAll_toYaml i.appenders hproper]
  simp only [ofYaml, lookup_name, hlevel, hformatter, has, hread, bind, Except.bind]
  rw [heqlevel, heqformatter, unlevelled]

theorem ofYaml_toYaml_eq_iff (i j : LogDefine) (hi : ∀ a ∈ i.appenders, a.Proper)
    (hj : ∀ a ∈ j.appenders, a.Proper) :
    ofYaml i.toYaml = ofYaml j.toYaml ↔ i.unlevelled = j.unlevelled := by
  rw [ofYaml_toYaml i hi, ofYaml_toYaml j hj, Except.ok.injEq]

/-- What the reader makes can be printed and read without a loss. -/
theorem ofYaml_proper (n : YamlNode) (i : LogDefine) (h : ofYaml n = .ok i) :
    ∀ a ∈ i.appenders, a.Proper ∧ a.level = .UNKNOW := by
  obtain ⟨name, -, h⟩ := exists_of_bind h
  rcases name with - | name
  · cases h
  · obtain ⟨level, -, h⟩ := exists_of_bind h
    obtain ⟨formatter, -, h⟩ := exists_of_bind h
    obtain ⟨as, -, h⟩ := exists_of_bind h
    obtain ⟨lads, hlads, h⟩ := exists_of_bind h
    cases h
    exact readAll_proper _ lads hlads

/-- A definition comes back as it was if and only if no appender has a level. -/
theorem castFromString_toString_iff (emit : YamlNode → List UInt8)
    (load : List UInt8 → Option YamlNode) (i : LogDefine)
    (hproper : ∀ a ∈ i.appenders, a.Proper) (hload : load (emit i.toYaml) = some i.toYaml) :
    castFromString load (castToString emit i) = .ok i ↔ ∀ a ∈ i.appenders, a.level = .UNKNOW := by
  rw [castFromString, castToString, hload]
  change ofYaml i.toYaml = _ ↔ _
  rw [ofYaml_toYaml i hproper, Except.ok.injEq, unlevelled_eq_self]

/-- The root logger, written to the standard output. -/
theorem castFromString_toString_root :
    let i : LogDefine :=
      ⟨ascii "root", .INFO, [], [⟨2, .UNKNOW, [], []⟩]⟩
    let text := ascii "name: root\nlevel: INFO\nappenders:\n  - type: StdoutLogAppender"
    castFromString (fun v => if v = text then some i.toYaml else none)
      (castToString (fun _ => text) i) = .ok i :=
  (castFromString_toString_iff _ _ _ (List.forall_mem_singleton.2 (.inr ⟨rfl, rfl⟩))
    (if_pos rfl)).2 (List.forall_mem_singleton.2 rfl)

/-- An appender with a level comes back without. -/
theorem castFromString_toString_level :
    ¬ ∀ (emit : YamlNode → List UInt8) (load : List UInt8 → Option YamlNode) (i : LogDefine),
      (∀ a ∈ i.appenders, a.Proper) → load (emit i.toYaml) = some i.toYaml →
        castFromString load (castToString emit i) = .ok i := by
  intro hall
  let i : LogDefine := ⟨ascii "root", .INFO, [], [⟨2, .WARN, [], []⟩]⟩
  let text := ascii
    "name: root\nlevel: INFO\nappenders:\n  - type: StdoutLogAppender\n    level: WARN"
  have hproper : ∀ a ∈ i.appenders, a.Proper := List.forall_mem_singleton.2 (.inr ⟨rfl, rfl⟩)
  have hsame : ofYaml i.toYaml = .ok i :=
    hall (fun _ => text) (fun v => if v = text then some i.toYaml else none) i hproper (if_pos rfl)
  rw [ofYaml_toYaml i hproper, Except.ok.injEq, unlevelled_eq_self] at hsame
  have hlevel : LogLevel.WARN = .UNKNOW := hsame ⟨2, .WARN, [], []⟩ List.mem_cons_self
  cases hlevel

end LogDefine

end YkServer
