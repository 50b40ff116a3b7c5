import YkServer.Theory.Log.Scan

/-!
# Log Patterns

A pattern is literals, escaped percent signs and conversions in a row. Without escapes a
formatter prints what it should, in patterns of up to two gigabytes. An escape is where the
code goes wrong: the first percent sign is printed, but only the first is behind the
loop then, and the second begins a conversion. Nothing that follows can make up for it, as the
event below shows: every conversion prints something, and something else than its key.

The index of an opening brace is kept in an `int`. Far out in a pattern this is another index,
or a negative one.

## Main definitions

* `Segment`, `patternText`: What a pattern is made of, and the pattern.
* `Wf`: The segments are as described.
* `Right`: What is expected of the formatter.
* `Fits`: There is no escape, and the indices of the braces are kept.

## Theorems

* `lexes_of_fits`: What the code makes of such a pattern.
* `unescaped`: An escape shows.
* `pattern_right_iff`: When the formatter does what is expected.
-/

namespace YkServer

open Lib

namespace LogFormatter

/-- A part of a pattern. -/
inductive Segment where
  | literal (s : List UInt8)
  | escape
  | conversion (key : UInt8) (fmt : Option (List UInt8))
  deriving DecidableEq, Repr

/-- `{f}`, if there is one. -/
def formatPart : Option (List UInt8) → List UInt8
  | none => []
  | some f => 123 :: f ++ [125]

def Segment.text : Segment → List UInt8
  | .literal s => s
  | .escape => [37, 37]
  | .conversion key fmt => 37 :: key :: formatPart fmt

def patternText (segs : List Segment) : List UInt8 := segs.flatMap Segment.text

/-- The keys there are. -/
def keys : List UInt8 := ascii "mprctndflTFN"

/-- A conversion without a format ends in front of this. -/
def Ends (s : List UInt8) : Prop :=
  ∀ c, s.head? = some c → keyChar c = false ∧ c ≠ 123

/-- Literals are without percent signs, keys are known, formats are without closing braces, and
    behind a conversion without a format there is no letter and no brace. -/
def Wf : List Segment → Prop
  | [] => True
  | .literal s :: segs => 37 ∉ s ∧ Wf segs
  | .escape :: segs => Wf segs
  | .conversion key none :: segs => key ∈ keys ∧ Ends (patternText segs) ∧ Wf segs
  | .conversion key (some f) :: segs => key ∈ keys ∧ 125 ∉ f ∧ Wf segs

section Expected

variable (strftime : List UInt8 → UInt64 → List UInt8) (level : LogLevel) (event : LogEvent)

/-- What a conversion prints for an event. -/
def printedBy (key : UInt8) (fmt : List UInt8) : List UInt8 :=
  (item (.conversion [key] fmt)).format strftime level event

/-- What is expected of a segment. -/
def Segment.expected : Segment → List UInt8
  | .literal s => s
  | .escape => [37]
  | .conversion key fmt => printedBy strftime level event key (fmt.getD [])

def expected (segs : List Segment) : List UInt8 :=
  segs.flatMap (Segment.expected strftime level event)

end Expected

/-- The formatter has no error, and prints every event as expected, whatever `strftime` makes of
    a time: what is right does not depend on the library. -/
def Right (segs : List Segment) : Prop :=
  ∃ f, LogFormatter.new (patternText segs) = some f ∧ f.error = false ∧
    ∀ strftime level event,
      f.format strftime level event = expected strftime level event segs

/-- The index of an opening brace, plus one, is an `int`, up to rounds of 32 bits if the format
    does not matter. -/
def Kept (key : UInt8) (b : Nat) : Prop :=
  (b + 1) % 2 ^ 32 < 2 ^ 31 ∧ (key = 100 → b + 1 < 2 ^ 31)

/-- There is no escape, and opening braces are where their indices can be kept. The first
    segment is at `i`. -/
def Fits : Nat → List Segment → Prop
  | _, [] => True
  | i, .literal s :: segs => Fits (i + s.length) segs
  | _, .escape :: _ => False
  | i, .conversion _ none :: segs => Fits (i + 2) segs
  | i, .conversion key (some f) :: segs => Kept key (i + 2) ∧ Fits (i + 2 + 1 + f.length + 1) segs

/-! ## Conversions -/

theorem keyChar_of_mem : ∀ k ∈ keys, keyChar k = true := List.all_eq_true.1 rfl

/-- The format matters only where the time is printed. -/
theorem item_of_mem (k : UInt8) (hk : k ∈ keys) :
    (k = 100 ∧ ∀ fmt, item (.conversion [k] fmt) = FormatItem.newDateTime fmt) ∨
      k ≠ 100 ∧ ∀ fmt, item (.conversion [k] fmt) = item (.conversion [k] []) := by
  have hcases : k = 109 ∨ k = 112 ∨ k = 114 ∨ k = 99 ∨ k = 116 ∨ k = 110 ∨ k = 100 ∨ k = 102 ∨
      k = 108 ∨ k = 84 ∨ k = 70 ∨ k = 78 := by
    simpa [keys, ascii] using hk
  rcases hcases with rfl | rfl | rfl | rfl | rfl | rfl | rfl | rfl | rfl | rfl | rfl | rfl
  case inr.inr.inr.inr.inr.inr.inl => exact Or.inl ⟨rfl, fun _ => rfl⟩
  all_goals exact Or.inr ⟨by decide, fun _ => rfl⟩

/-- A key in front of something else. -/
theorem split_key (k : UInt8) (t : List UInt8) (hk : k ∈ keys)
    (ht : ∀ c, t.head? = some c → keyChar c = false) :
    (k :: t).takeWhile keyChar = [k] ∧ (k :: t).dropWhile keyChar = t := by
  rw [List.takeWhile_cons_of_pos (keyChar_of_mem k hk),
    List.dropWhile_cons_of_pos (keyChar_of_mem k hk)]
  cases t with
  | nil => exact ⟨rfl, rfl⟩
  | cons c t =>
      have hc : ¬keyChar c = true := by
        rw [ht c rfl]
        exact Bool.false_ne_true
      rw [List.takeWhile_cons_of_neg hc, List.dropWhile_cons_of_neg hc]
      exact ⟨rfl, rfl⟩

theorem split_format (f t : List UInt8) (hf : 125 ∉ f) :
    (f ++ 125 :: t).takeWhile bodyChar = f ∧ (f ++ 125 :: t).dropWhile bodyChar = 125 :: t := by
  have hbody : ∀ c ∈ f, bodyChar c = true := by
    intro c hc
    refine decide_eq_true (fun h => ?_)
    rw [h] at hc
    exact hf hc
  have hlast : ¬bodyChar 125 = true := by decide
  rw [List.takeWhile_append_of_pos hbody, List.dropWhile_append_of_pos hbody,
    List.takeWhile_cons_of_neg hlast, List.dropWhile_cons_of_neg hlast, List.append_nil]
  exact ⟨rfl, rfl⟩

/-- Where the format of a conversion is, and what is behind it. -/
theorem drop_conversion (pattern : List UInt8) (key : UInt8) (f t : List UInt8) (i : Nat)
    (hdrop : pattern.drop i = 37 :: key :: (formatPart (some f) ++ t)) :
    pattern.drop (i + 2 + 1) = f ++ 125 :: t ∧ pattern.drop (i + 2 + 1 + f.length + 1) = t := by
  have hinside : pattern.drop (i + 2 + 1) = f ++ 125 :: t := by
    rw [show i + 2 + 1 = i + 3 from rfl, ← List.drop_drop, hdrop]
    simp only [formatPart, List.drop_succ_cons, List.cons_append, List.append_assoc,
      List.nil_append, List.drop_zero]
  refine ⟨hinside, ?_⟩
  rw [← List.drop_drop, ← List.drop_drop, hinside, List.drop_left]
  rfl

/-! ## Patterns without escapes -/

theorem lexes_literal (pattern s t : List UInt8) (es : List Entry) (i : Nat) (hs : 37 ∉ s)
    (h : Lexes pattern (i + s.length) t es) :
    Lexes pattern i (s ++ t) (s.map (fun c => .text [c]) ++ es) := by
  induction s generalizing i with
  | nil => exact h
  | cons c s ih =>
      rw [List.mem_cons, not_or] at hs
      refine .char i c _ _ (Ne.symm hs.1) (ih (i + 1) hs.2 ?_)
      rw [Nat.add_right_comm, Nat.add_assoc]
      exact h

theorem output_literal (strftime : List UInt8 → UInt64 → List UInt8) (level : LogLevel)
    (event : LogEvent) (s : List UInt8) (es : List Entry) :
    output strftime level event (s.map (fun c => .text [c]) ++ es) =
      s ++ output strftime level event es := by
  induction s with
  | nil => rfl
  | cons c s ih =>
      rw [List.map_cons, List.cons_append, output_text, ih]
      rfl

/-- What is found between the braces of a format prints the same. -/
theorem between_kept (pattern : List UInt8) (hlen : pattern.length < 2 ^ 63) (key : UInt8)
    (hkey : key ∈ keys) (b : Nat) (f t : List UInt8) (hkept : Kept key b)
    (hdrop : pattern.drop (b + 1) = f ++ 125 :: t) :
    ∃ fmt, between pattern b (b + 1 + f.length) = some fmt ∧
      ∀ strftime level event, printedBy strftime level event key fmt =
        printedBy strftime level event key f := by
  have hin : b + 1 + f.length < pattern.length := by
    have hcount := congrArg List.length hdrop
    rw [List.length_drop, List.length_append, List.length_cons] at hcount
    omega
  rcases between_some pattern b (b + 1 + f.length) hkept.1 (by omega) hin hlen with
    ⟨fmt, hfmt, hright, -⟩
  refine ⟨fmt, hfmt, fun strftime level event => ?_⟩
  rcases item_of_mem key hkey with ⟨htime, -⟩ | ⟨-, hsame⟩
  · rw [hright (hkept.2 htime), hdrop, show b + 1 + f.length - b - 1 = f.length by omega,
      List.take_left]
  · rw [printedBy, printedBy, hsame fmt, hsame f]

/-- A conversion without a format. -/
theorem lexes_bare (pattern : List UInt8) (key : UInt8) (hkey : key ∈ keys) (t : List UInt8)
    (hends : Ends t) (i : Nat) (es : List Entry) (h : Lexes pattern (i + 2) t es) :
    Lexes pattern i (37 :: key :: t) (.conversion [key] [] :: es) := by
  rcases split_key key t hkey (fun c hc => (hends c hc).1) with ⟨htake, hrest⟩
  have hword := @Lexes.word pattern i (key :: t) es
    (fun heq => (keyChar_ne key (keyChar_of_mem key hkey)).2 (Option.some.inj heq))
  rw [htake, hrest] at hword
  exact hword (fun heq => (hends 123 heq).2 rfl) h

/-- A conversion with one. -/
theorem lexes_formatted (pattern : List UInt8) (key : UInt8) (hkey : key ∈ keys)
    (f t fmt : List UInt8) (hf : 125 ∉ f) (i : Nat) (es : List Entry)
    (hfmt : between pattern (i + 2) (i + 2 + 1 + f.length) = some fmt)
    (h : Lexes pattern (i + 2 + 1 + f.length + 1) t es) :
    Lexes pattern i (37 :: key :: (formatPart (some f) ++ t)) (.conversion [key] fmt :: es) := by
  have htext : formatPart (some f) ++ t = 123 :: (f ++ 125 :: t) := by
    simp only [formatPart, List.cons_append, List.append_assoc, List.nil_append]
  rw [htext]
  rcases split_key key (123 :: (f ++ 125 :: t)) hkey
    (fun c hc => by rw [← Option.some.inj hc]; rfl) with ⟨htake, hopen⟩
  rcases split_format f t hf with ⟨hbody, hclose⟩
  have hbraced := @Lexes.braced pattern i _ _ _ fmt es hopen hclose
  rw [htake, hbody] at hbraced
  exact hbraced hfmt h

/-- Without escapes the code finds the segments. -/
theorem lexes_of_fits (pattern : List UInt8) (hlen : pattern.length < 2 ^ 63)
    (segs : List Segment) (i : Nat) (hwf : Wf segs) (hfits : Fits i segs)
    (hdrop : pattern.drop i = patternText segs) :
    ∃ es, Lexes pattern i (patternText segs) es ∧ ∀ strftime level event,
      output strftime level event es = expected strftime level event segs := by
  induction segs generalizing i with
  | nil => exact ⟨[], .done i, fun _ _ _ => rfl⟩
  | cons seg segs ih =>
      rw [patternText, List.flatMap_cons] at hdrop ⊢
      cases seg with
      | literal s =>
          have hrest : pattern.drop (i + s.length) = patternText segs := by
            rw [← List.drop_drop, hdrop]
            exact List.drop_left
          rcases ih (i + s.length) hwf.2 hfits hrest with ⟨es, hlex, hout⟩
          refine ⟨_, lexes_literal pattern s _ es i hwf.1 hlex, fun strftime level event => ?_⟩
          rw [output_literal, hout]
          rfl
      | escape => exact absurd hfits id
      | conversion key fmt =>
          cases fmt with
          | none =>
              rcases hwf with ⟨hkey, hends, hwf⟩
              have hnext : pattern.drop (i + 2) = patternText segs := by
                rw [← List.drop_drop, hdrop]
                rfl
              rcases ih (i + 2) hwf hfits hnext with ⟨es, hlex, hout⟩
              refine ⟨_, lexes_bare pattern key hkey _ hends i es hlex,
                fun strftime level event => ?_⟩
              rw [output_cons, hout]
              rfl
          | some f =>
              rcases hwf with ⟨hkey, hf, hwf⟩
              change pattern.drop i = 37 :: key :: (formatPart (some f) ++ patternText segs) at hdrop
              rcases drop_conversion pattern key f _ i hdrop with ⟨hinside, hnext⟩
              rcases between_kept pattern hlen key hkey (i + 2) f _ hfits.1 hinside with
                ⟨fmt, hfmt, hsame⟩
              rcases ih (i + 2 + 1 + f.length + 1) hwf hfits.2 hnext with ⟨es, hlex, hout⟩
              refine ⟨_, lexes_formatted pattern key hkey f _ fmt hf i es hfmt hlex,
                fun strftime level event => ?_⟩
              rw [output_cons, hout]
              exact congrArg (· ++ _) (hsame strftime level event)

/-! ## Patterns with escapes -/

/-- There is no escape. -/
def Plain (segs : List Segment) : Prop := .escape ∉ segs

/-- What segments are, seen from the first character of the pattern. -/
inductive View (segs : List Segment) : Prop where
  | done (htext : patternText segs = [])
      (hexp : ∀ strftime level event, expected strftime level event segs = []) (hplain : Plain segs)
  | char (c : UInt8) (rest : List Segment) (hc : c ≠ 37) (hwf : Wf rest)
      (htext : patternText segs = c :: patternText rest)
      (hexp : ∀ strftime level event,
        expected strftime level event segs = c :: expected strftime level event rest)
      (hplain : Plain rest → Plain segs)
  | escape (rest : List Segment) (hwf : Wf rest)
      (htext : patternText segs = 37 :: 37 :: patternText rest)
      (hexp : ∀ strftime level event,
        expected strftime level event segs = 37 :: expected strftime level event rest)
  | conversion (key : UInt8) (fmt : Option (List UInt8)) (rest : List Segment)
      (hkey : key ∈ keys) (hwf : Wf rest) (hends : fmt = none → Ends (patternText rest))
      (hfmt : ∀ f, fmt = some f → 125 ∉ f)
      (htext : patternText segs = 37 :: key :: (formatPart fmt ++ patternText rest))
      (hexp : ∀ strftime level event, expected strftime level event segs =
        printedBy strftime level event key (fmt.getD []) ++ expected strftime level event rest)
      (hplain : Plain rest → Plain segs)

theorem plain_cons (seg : Segment) (segs : List Segment) (hseg : seg ≠ .escape)
    (h : Plain segs) : Plain (seg :: segs) :=
  List.not_mem_cons_of_ne_of_not_mem (Ne.symm hseg) h

theorem view (segs : List Segment) (hwf : Wf segs) : View segs := by
  induction segs with
  | nil => exact .done rfl (fun _ _ _ => rfl) List.not_mem_nil
  | cons seg segs ih =>
      cases seg with
      | literal s =>
          cases s with
          | nil =>
              -- An empty literal is nothing.
              have hplain := plain_cons (.literal []) segs (fun h => by cases h)
              cases ih hwf.2 with
              | done htext hexp hp => exact .done htext hexp (hplain hp)
              | char c rest hc hw htext hexp hp =>
                  exact .char c rest hc hw htext hexp (fun h => hplain (hp h))
              | escape rest hw htext hexp => exact .escape rest hw htext hexp
              | conversion key fmt rest hkey hw hends hfmt htext hexp hp =>
                  exact .conversion key fmt rest hkey hw hends hfmt htext hexp
                    (fun h => hplain (hp h))
          | cons c s =>
              have hmem := hwf.1
              rw [List.mem_cons, not_or] at hmem
              refine .char c (.literal s :: segs) (Ne.symm hmem.1) ⟨hmem.2, hwf.2⟩ rfl
                (fun _ _ _ => rfl) (fun h => ?_)
              exact plain_cons _ segs (fun h => by cases h) (fun h' => h (List.mem_cons_of_mem _ h'))
      | escape => exact .escape segs hwf rfl (fun _ _ _ => rfl)
      | conversion key fmt =>
          have hplain := plain_cons (.conversion key fmt) segs (fun h => by cases h)
          cases fmt with
          | none =>
              exact .conversion key none segs hwf.1 hwf.2.2 (fun _ => hwf.2.1)
                (fun f h => by cases h) rfl (fun _ _ _ => rfl) hplain
          | some f =>
              exact .conversion key (some f) segs hwf.1 hwf.2.2 (fun h => by cases h)
                (fun f' h => by cases h; exact hwf.2.1) rfl (fun _ _ _ => rfl) hplain

/-! ### An event that tells everything apart -/

def oneByte (_ : List UInt8) (_ : UInt64) : List UInt8 := [120]

def plainEvent : LogEvent := ⟨[120], 0, 0, 0, 0, [120], 0, [120], [120]⟩

/-- What entries print for this event. -/
def shownOut (es : List Entry) : List UInt8 := output oneByte .UNKNOW plainEvent es

def shownExpected (segs : List Segment) : List UInt8 := expected oneByte .UNKNOW plainEvent segs

/-- A conversion with a key prints something, but nothing that begins with its key, and no
    brace. -/
theorem printedBy_plain : ∀ k ∈ keys,
    printedBy oneByte .UNKNOW plainEvent k [] ≠ [] ∧
      (printedBy oneByte .UNKNOW plainEvent k []).head? ≠ some k ∧
      123 ∉ printedBy oneByte .UNKNOW plainEvent k [] := by
  have hall : keys.all (fun k => decide (printedBy oneByte .UNKNOW plainEvent k [] ≠ [] ∧
      (printedBy oneByte .UNKNOW plainEvent k []).head? ≠ some k ∧
      123 ∉ printedBy oneByte .UNKNOW plainEvent k [])) = true := rfl
  intro k hk
  exact of_decide_eq_true (List.all_eq_true.1 hall k hk)

/-- The format does not matter. -/
theorem printedBy_fmt (k : UInt8) (hk : k ∈ keys) (fmt : List UInt8) :
    printedBy oneByte .UNKNOW plainEvent k fmt = printedBy oneByte .UNKNOW plainEvent k [] := by
  rcases item_of_mem k hk with ⟨-, htime⟩ | ⟨-, hother⟩
  · rw [printedBy, printedBy, htime fmt, htime []]
    rfl
  · rw [printedBy, printedBy, hother fmt]

/-- A key that is not known is printed with more around it. -/
theorem item_unknown (str fmt : List UInt8) (h : ∀ k ∈ keys, str ≠ [k]) :
    item (.conversion str fmt) = .string (ascii "<<error_format %" ++ str ++ ascii ">>") := by
  have hnone : formatItems.find? (fun e => e.1 = str) = none := by
    rw [List.find?_eq_none]
    intro e he
    have hkeys : ∀ e ∈ formatItems, ∃ k ∈ keys, e.1 = [k] := by decide
    rcases hkeys e he with ⟨k, hk, heq⟩
    rw [heq, decide_eq_true_eq]
    exact fun hstr => h k hk hstr.symm
  rw [item, hnone]

/-- What a key and its conversion print: the conversion gets ahead of the key. -/
theorem overtakes (str fmt K Z R : List UInt8) (hstr : ∀ c ∈ str, keyChar c = true)
    (hK : 123 ∉ K)
    (h : str ++ Z = K ++ ((item (.conversion str fmt)).format oneByte .UNKNOW plainEvent ++ R)) :
    ∃ K', K' ≠ [] ∧ 123 ∉ K' ∧ Z = K' ++ R := by
  by_cases hknown : ∃ k ∈ keys, str = [k]
  · rcases hknown with ⟨k, hk, rfl⟩
    rcases printedBy_plain k hk with ⟨hne, hhead, hbrace⟩
    change [k] ++ Z = K ++ (printedBy oneByte .UNKNOW plainEvent k fmt ++ R) at h
    rw [printedBy_fmt k hk fmt] at h
    generalize printedBy oneByte .UNKNOW plainEvent k [] = o at h hne hhead hbrace
    rcases o with _ | ⟨c, o⟩
    · exact absurd rfl hne
    · cases K with
      | nil =>
          rw [List.nil_append, List.singleton_append, List.cons_append, List.cons.injEq] at h
          exact absurd (congrArg some h.1.symm) hhead
      | cons d K =>
          rw [List.singleton_append, List.cons_append, List.cons.injEq] at h
          refine ⟨K ++ (c :: o), List.append_ne_nil_of_right_ne_nil K hne, ?_, ?_⟩
          · rw [List.mem_append, not_or]
            exact ⟨fun hmem => hK (List.mem_cons_of_mem d hmem), hbrace⟩
          · rw [h.2, List.append_assoc]
  · have hunknown : ∀ k ∈ keys, str ≠ [k] := fun k hk heq => hknown ⟨k, hk, heq⟩
    rw [item_unknown str fmt hunknown] at h
    change str ++ Z = K ++ ((ascii "<<error_format %" ++ str ++ ascii ">>") ++ R) at h
    have hlen : (ascii "<<error_format %" ++ str ++ ascii ">>").length = str.length + 18 := by
      rw [List.length_append, List.length_append, show (ascii "<<error_format %").length = 16 from rfl,
        show (ascii ">>").length = 2 from rfl]
      omega
    have hbrace : 123 ∉ ascii "<<error_format %" ++ str ++ ascii ">>" := by
      rw [List.mem_append, List.mem_append, not_or, not_or]
      exact ⟨⟨by decide, fun hmem => (keyChar_ne 123 (hstr 123 hmem)).1 rfl⟩, by decide⟩
    generalize ascii "<<error_format %" ++ str ++ ascii ">>" = X at h hlen hbrace
    rw [← List.append_assoc, List.append_eq_append_iff] at h
    rcases h with ⟨K', hsplit, hZ⟩ | ⟨K', hsplit, -⟩
    · have hcount := congrArg List.length hsplit
      rw [List.length_append, List.length_append] at hcount
      refine ⟨K', fun hnil => ?_, fun hmem => ?_, hZ⟩
      · rw [hnil, List.length_nil] at hcount
        omega
      · have hin : 123 ∈ K ++ X := by
          rw [hsplit]
          exact List.mem_append_right str hmem
        exact (List.mem_append.1 hin).elim hK hbrace
    · have hcount := congrArg List.length hsplit
      rw [List.length_append, List.length_append] at hcount
      omega

/-- What is printed in front of a part that is expected as well stays ahead behind it. -/
theorem stays_ahead (o K Z R : List UInt8) (hK : 123 ∉ K) (ho : 123 ∉ o)
    (h : o ++ Z = K ++ (o ++ R)) : ∃ K', K'.length = K.length ∧ 123 ∉ K' ∧ Z = K' ++ R := by
  rw [← List.append_assoc, List.append_eq_append_iff] at h
  rcases h with ⟨K', hsplit, hZ⟩ | ⟨K', hsplit, hR⟩
  · have hcount := congrArg List.length hsplit
    rw [List.length_append, List.length_append] at hcount
    refine ⟨K', by omega, fun hmem => ?_, hZ⟩
    have hin : 123 ∈ K ++ o := by
      rw [hsplit]
      exact List.mem_append_right o hmem
    exact (List.mem_append.1 hin).elim hK ho
  · have hcount := congrArg List.length hsplit
    rw [List.length_append, List.length_append] at hcount
    have hnil : K = [] := List.length_eq_zero_iff.1 (by omega)
    have hnil' : K' = [] := List.length_eq_zero_iff.1 (by omega)
    rw [hnil', List.nil_append] at hR
    exact ⟨[], by rw [hnil], List.not_mem_nil, hR.symm⟩

/-- A run of letters and closing braces is from literals. -/
theorem taken (k t : List UInt8) (hk : ∀ c ∈ k, keyChar c = true) (segs : List Segment)
    (hwf : Wf segs) (htext : patternText segs = k ++ t) :
    ∃ rest, Wf rest ∧ patternText rest = t ∧ shownExpected segs = k ++ shownExpected rest := by
  induction k generalizing segs with
  | nil => exact ⟨segs, hwf, htext, rfl⟩
  | cons c k ih =>
      have hc := (keyChar_ne c (hk c List.mem_cons_self)).2
      cases view segs hwf with
      | done hnil hexp hplain =>
          rw [hnil] at htext
          cases htext
      | char d rest hd hwf' htext' hexp hplain =>
          rw [htext', List.cons_append, List.cons.injEq] at htext
          rcases ih (fun x hx => hk x (List.mem_cons_of_mem c hx)) rest hwf' htext.2 with
            ⟨rest', hwf'', htext'', hshown⟩
          refine ⟨rest', hwf'', htext'', ?_⟩
          rw [shownExpected, hexp, htext.1]
          exact congrArg (c :: ·) hshown
      | escape rest hwf' htext' hexp =>
          rw [htext', List.cons_append, List.cons.injEq] at htext
          exact absurd htext.1.symm hc
      | conversion key fmt rest hkey hwf' hends hfmt htext' hexp hplain =>
          rw [htext', List.cons_append, List.cons.injEq] at htext
          exact absurd htext.1.symm hc

/-- A conversion whose key is not one of the pattern is ahead behind its key. -/
theorem ahead_of_key (s fmt : List UInt8) (es : List Entry) (segs : List Segment) (hwf : Wf segs)
    (htext : patternText segs = s) (K : List UInt8) (hK : 123 ∉ K)
    (h : shownExpected segs = K ++ shownOut (.conversion (s.takeWhile keyChar) fmt :: es)) :
    ∃ rest K', Wf rest ∧ patternText rest = s.dropWhile keyChar ∧ K' ≠ [] ∧ 123 ∉ K' ∧
      shownExpected rest = K' ++ shownOut es := by
  have hkey : ∀ c ∈ s.takeWhile keyChar, keyChar c = true :=
    fun c hc => List.all_eq_true.1 List.all_takeWhile c hc
  rcases taken (s.takeWhile keyChar) (s.dropWhile keyChar) hkey segs hwf
    (htext.trans List.takeWhile_append_dropWhile.symm) with ⟨rest, hwf', htext', hshown⟩
  rw [hshown] at h
  rcases overtakes _ _ K _ _ hkey hK h with ⟨K', hne, hK', hahead⟩
  exact ⟨rest, K', hwf', htext', hne, hK', hahead⟩

/-- What the induction shows of a rest of the pattern. -/
def Unescaped (pattern s : List UInt8) : Prop :=
  ∀ (i : Nat) (es : List Entry) (segs : List Segment) (K : List UInt8), Lexes pattern i s es →
    Wf segs → patternText segs = s → 123 ∉ K → shownExpected segs = K ++ shownOut es →
    K = [] ∧ Plain segs

/-- Behind an escape the code is ahead for good. -/
theorem unescaped_escape (pattern s : List UInt8) (ih : ∀ t : List UInt8,
    t.length ≤ s.length → Unescaped pattern t) (i : Nat) (es : List Entry)
    (hlex : Lexes pattern i (37 :: s) es) (segs : List Segment) (hwf : Wf segs)
    (htext : patternText segs = s) (K : List UInt8) (hK : 123 ∉ K)
    (h : shownExpected segs = K ++ shownOut es) : False := by
  cases hlex with
  | char _ _ _ es hc _ => exact hc rfl
  | escape _ s es hrest =>
      -- Another percent sign is printed.
      have hahead : shownExpected segs = (K ++ [37]) ++ shownOut es := by
        rw [List.append_assoc]
        exact h
      have hK' : 123 ∉ K ++ [37] := by
        rw [List.mem_append, not_or]
        exact ⟨hK, by decide⟩
      exact List.append_ne_nil_of_right_ne_nil K (List.cons_ne_nil 37 [])
        (ih _ (Nat.le_refl _) _ es segs (K ++ [37]) hrest hwf htext hK' hahead).1
  | word _ _ es hhead hend hrest =>
      rcases ahead_of_key s _ es segs hwf htext K hK h with
        ⟨rest, K', hwf', htext', hne, hK', hahead⟩
      exact hne (ih _ (length_dropWhile_le keyChar s) _ es rest K' hrest hwf' htext' hK' hahead).1
  | braced _ _ body rest' fmt es hopen hclose hfmt hrest =>
      rcases ahead_of_key s _ es segs hwf htext K hK h with
        ⟨rest, K', hwf', htext', hne, hK', hahead⟩
      -- What is expected begins with the brace, and what is ahead has none.
      rw [hopen] at htext'
      cases view rest hwf' with
      | done hnil _ _ =>
          rw [hnil] at htext'
          cases htext'
      | char c rest'' _ _ htext'' hexp _ =>
          rw [htext'', List.cons.injEq] at htext'
          rw [shownExpected, hexp, htext'.1] at hahead
          rcases K' with _ | ⟨d, K'⟩
          · exact hne rfl
          · rw [List.cons_append, List.cons.injEq] at hahead
            exact hK' (by rw [hahead.1]; exact List.mem_cons_self)
      | escape rest'' _ htext'' _ =>
          rw [htext'', List.cons.injEq] at htext'
          exact absurd htext'.1 (by decide)
      | conversion key fmt' rest'' _ _ _ _ htext'' _ _ =>
          rw [htext'', List.cons.injEq] at htext'
          exact absurd htext'.1 (by decide)

/-- At a conversion of the pattern the code prints what is expected. -/
theorem unescaped_conversion (pattern : List UInt8) (key : UInt8) (hkey : key ∈ keys)
    (fmt : Option (List UInt8)) (t : List UInt8) (hends : fmt = none → Ends t)
    (hfmt : ∀ f, fmt = some f → 125 ∉ f) (i : Nat) (es : List Entry)
    (hlex : Lexes pattern i (37 :: key :: (formatPart fmt ++ t)) es) :
    ∃ j fmt' es', Lexes pattern j t es' ∧ es = .conversion [key] fmt' :: es' ∧
      (fmt = none → fmt' = [] ∧ j = i + 2) ∧
      ∀ f, fmt = some f → between pattern (i + 2) (i + 2 + 1 + f.length) = some fmt' ∧
        j = i + 2 + 1 + f.length + 1 := by
  have hne := (keyChar_ne key (keyChar_of_mem key hkey)).2
  cases fmt with
  | none =>
      rcases split_key key t hkey (fun c hc => (hends rfl c hc).1) with ⟨htake, hdrop⟩
      change Lexes pattern i (37 :: key :: t) es at hlex
      cases hlex with
      | char _ _ _ _ hc _ => exact absurd rfl hc
      | escape _ _ _ _ => exact absurd rfl hne
      | word _ _ es' _ _ hrest =>
          rw [hdrop, htake] at hrest
          rw [htake]
          exact ⟨_, _, es', hrest, rfl, fun _ => ⟨rfl, rfl⟩, fun f hf => (by cases hf)⟩
      | braced _ _ body _ _ _ hopen _ _ _ =>
          rw [hdrop] at hopen
          exact absurd rfl (hends rfl 123 (by rw [hopen]; rfl)).2
  | some f =>
      rcases split_key key (123 :: (f ++ 125 :: t)) hkey
        (fun c hc => by rw [← Option.some.inj hc]; rfl) with ⟨htake, hopen⟩
      rcases split_format f t (hfmt f rfl) with ⟨hbody, hclose⟩
      have htext : formatPart (some f) ++ t = 123 :: (f ++ 125 :: t) := by
        simp only [formatPart, List.cons_append, List.append_assoc, List.nil_append]
      rw [htext] at hlex
      cases hlex with
      | char _ _ _ _ hc _ => exact absurd rfl hc
      | escape _ _ _ _ => exact absurd rfl hne
      | word _ _ _ _ hend _ =>
          rw [hopen] at hend
          exact absurd rfl hend
      | braced _ _ body rest fmt' es' hopen' hclose' hbetween hrest =>
          rw [hopen, List.cons.injEq] at hopen'
          rw [← hopen'.2, hclose, List.cons.injEq] at hclose'
          rw [← hopen'.2, hbody, htake] at hrest hbetween
          rw [← hclose'.2] at hrest
          rw [htake]
          refine ⟨_, fmt', es', hrest, rfl, fun h => (by cases h), fun f' hf' => ?_⟩
          rw [← Option.some.inj hf']
          exact ⟨hbetween, rfl⟩

/-- What the code prints is what is expected, with something in front, only if there is no
    escape, and nothing in front. -/
theorem unescaped (pattern s : List UInt8) : Unescaped pattern s := by
  induction hn : s.length using Nat.strong_induction_on generalizing s with
  | _ n ih =>
      intro i es segs K hlex hwf htext hK h
      cases view segs hwf with
      | done htext' hexp hplain =>
          rw [← htext, htext'] at hlex
          cases hlex
          rw [shownExpected, hexp] at h
          exact ⟨(List.append_eq_nil_iff.1 h.symm).1, hplain⟩
      | char c rest hc hwf' htext' hexp hplain =>
          rw [← htext, htext'] at hlex hn
          rw [List.length_cons] at hn
          generalize ht : patternText rest = t at hlex hn
          cases hlex with
          | escape _ _ _ _ => exact absurd rfl hc
          | word _ _ _ _ _ _ => exact absurd rfl hc
          | braced _ _ _ _ _ _ _ _ _ _ => exact absurd rfl hc
          | char _ _ _ es _ hrest =>
              rw [shownExpected, hexp, shownOut, output_text] at h
              have hih := ih _ (by omega) t rfl (i + 1) es rest
              rcases K with _ | ⟨d, K⟩
              · rw [List.nil_append, List.singleton_append, List.cons.injEq] at h
                exact ⟨rfl, hplain (hih [] hrest hwf' ht hK h.2).2⟩
              · rw [List.cons_append, List.cons.injEq] at h
                have hK' : 123 ∉ K ++ [c] := by
                  rw [h.1, List.mem_append, not_or, List.mem_singleton]
                  rw [List.mem_cons, not_or] at hK
                  exact ⟨hK.2, hK.1⟩
                have hnil := (hih (K ++ [c]) hrest hwf' ht hK'
                  (by rw [List.append_assoc]; exact h.2)).1
                exact absurd hnil (List.append_ne_nil_of_right_ne_nil K (List.cons_ne_nil c []))
      | escape rest hwf' htext' hexp =>
          rw [← htext, htext'] at hlex hn
          rw [List.length_cons, List.length_cons] at hn
          generalize ht : patternText rest = t at hlex hn
          cases hlex with
          | char _ _ _ _ hc _ => exact absurd rfl hc
          | word _ _ _ hhead _ _ => exact absurd rfl hhead
          | braced _ _ body _ _ _ hopen _ _ _ => exact absurd rfl (head_of_open _ body hopen)
          | escape _ _ es hrest =>
              rw [shownExpected, hexp, shownOut, output_text] at h
              rcases stays_ahead [37] K _ _ hK (by decide) h with ⟨K', -, hK', hahead⟩
              exact (unescaped_escape pattern t (fun u hu => ih _ (by omega) u rfl) _ es hrest
                rest hwf' ht K' hK' hahead).elim
      | conversion key fmt rest hkey hwf' hends hfmt htext' hexp hplain =>
          rw [← htext, htext'] at hlex hn
          rw [List.length_cons, List.length_cons, List.length_append] at hn
          rcases unescaped_conversion pattern key hkey fmt _ hends hfmt i es hlex with
            ⟨j, fmt', es', hrest, rfl, -, -⟩
          rw [shownExpected, hexp, shownOut, output_cons] at h
          change printedBy oneByte .UNKNOW plainEvent key (fmt.getD []) ++ _ =
            K ++ (printedBy oneByte .UNKNOW plainEvent key fmt' ++ _) at h
          rw [printedBy_fmt key hkey (fmt.getD []), printedBy_fmt key hkey fmt'] at h
          rcases stays_ahead _ K _ _ hK (printedBy_plain key hkey).2.2 h with
            ⟨K', hcount, hK', hahead⟩
          rcases ih _ (by omega) _ rfl j es' rest K' hrest hwf' rfl hK' hahead with ⟨hnil, hp⟩
          rw [hnil, List.length_nil] at hcount
          exact ⟨List.length_eq_zero_iff.1 hcount.symm, hplain hp⟩

/-! ## Formats that are too long -/

/-- As many bytes as the format has. -/
def asLong (fmt : List UInt8) (_ : UInt64) : List UInt8 := List.replicate fmt.length 120

theorem lexes_of_literal (pattern s t : List UInt8) (i : Nat) (es : List Entry) (hs : 37 ∉ s)
    (h : Lexes pattern i (s ++ t) es) :
    ∃ es', Lexes pattern (i + s.length) t es' ∧ es = s.map (fun c => .text [c]) ++ es' := by
  induction s generalizing i es with
  | nil => exact ⟨es, h, rfl⟩
  | cons c s ih =>
      rw [List.mem_cons, not_or] at hs
      rw [List.cons_append] at h
      generalize hu : s ++ t = u at h
      cases h with
      | escape _ _ _ _ => exact absurd rfl hs.1
      | word _ _ _ _ _ _ => exact absurd rfl hs.1
      | braced _ _ _ _ _ _ _ _ _ _ => exact absurd rfl hs.1
      | char _ _ _ es _ hrest =>
          rw [← hu] at hrest
          rcases ih (i + 1) es hs.2 hrest with ⟨es', hlex, rfl⟩
          rw [Nat.add_right_comm, Nat.add_assoc] at hlex
          exact ⟨es', hlex, rfl⟩

/-- A format that is found is not shorter than it should be, and where the time is printed it
    is only as long if its index has been kept. -/
theorem kept_of_between (pattern : List UInt8) (hlen : pattern.length < 2 ^ 63) (key : UInt8)
    (hkey : key ∈ keys) (b : Nat) (f t fmt : List UInt8)
    (hdrop : pattern.drop (b + 1) = f ++ 125 :: t)
    (hfmt : between pattern b (b + 1 + f.length) = some fmt) :
    (printedBy asLong .UNKNOW plainEvent key f).length ≤
        (printedBy asLong .UNKNOW plainEvent key fmt).length ∧
      ((printedBy asLong .UNKNOW plainEvent key f).length =
        (printedBy asLong .UNKNOW plainEvent key fmt).length → Kept key b) := by
  have hin : b + 1 + f.length < pattern.length := by
    have hcount := congrArg List.length hdrop
    rw [List.length_drop, List.length_append, List.length_cons] at hcount
    omega
  have hb : (b + 1) % 2 ^ 32 < 2 ^ 31 := by
    by_contra hno
    rw [between_none pattern b _ hno hlen] at hfmt
    cases hfmt
  rcases between_some pattern b (b + 1 + f.length) hb (by omega) hin hlen with
    ⟨fmt', hfmt', hright, hlong⟩
  rw [hfmt, Option.some.injEq] at hfmt'
  rw [← hfmt'] at hright hlong
  rcases item_of_mem key hkey with ⟨-, htime⟩ | ⟨hother, hsame⟩
  · have hprinted : ∀ g : List UInt8, (printedBy asLong .UNKNOW plainEvent key g).length =
        if g = [] then 17 else g.length := by
      intro g
      rw [printedBy, htime, FormatItem.newDateTime, FormatItem.format, asLong,
        List.length_replicate]
      by_cases hg : g = []
      · rw [if_pos hg, if_pos hg]
        rfl
      · rw [if_neg hg, if_neg hg]
    rw [hprinted, hprinted]
    by_cases hsmall : b + 1 < 2 ^ 31
    · rw [hright hsmall, hdrop, show b + 1 + f.length - b - 1 = f.length by omega, List.take_left]
      exact ⟨Nat.le_refl _, fun _ => ⟨hb, fun _ => hsmall⟩⟩
    · have hge := hlong (Nat.not_lt.1 hsmall)
      have hne : fmt ≠ [] := by
        intro hnil
        rw [hnil, List.length_nil] at hge
        omega
      rw [if_neg hne]
      have hbound : (if f = [] then 17 else f.length) < fmt.length := by
        split <;> omega
      exact ⟨Nat.le_of_lt hbound, fun heq => absurd heq (Nat.ne_of_lt hbound)⟩
  · rw [printedBy, printedBy, hsame f, hsame fmt]
    exact ⟨Nat.le_refl _, fun _ => ⟨hb, fun h => absurd h hother⟩⟩

/-- Without escapes the formats are never shorter than they should be. -/
theorem fits_of_lengths (pattern : List UInt8) (hlen : pattern.length < 2 ^ 63)
    (segs : List Segment) (i : Nat) (es : List Entry) (hwf : Wf segs) (hplain : Plain segs)
    (hdrop : pattern.drop i = patternText segs) (hlex : Lexes pattern i (patternText segs) es) :
    (expected asLong .UNKNOW plainEvent segs).length ≤
        (output asLong .UNKNOW plainEvent es).length ∧
      ((expected asLong .UNKNOW plainEvent segs).length =
        (output asLong .UNKNOW plainEvent es).length → Fits i segs) := by
  induction segs generalizing i es with
  | nil => exact ⟨Nat.zero_le _, fun _ => trivial⟩
  | cons seg segs ih =>
      have hplain' : Plain segs := fun h => hplain (List.mem_cons_of_mem _ h)
      rw [patternText, List.flatMap_cons] at hdrop hlex
      rw [expected, List.flatMap_cons, List.length_append]
      cases seg with
      | escape => exact absurd List.mem_cons_self hplain
      | literal s =>
          have hrest : pattern.drop (i + s.length) = patternText segs := by
            rw [← List.drop_drop, hdrop]
            exact List.drop_left
          rcases lexes_of_literal pattern s _ i es hwf.1 hlex with ⟨es', hlex', rfl⟩
          rcases ih (i + s.length) es' hwf.2 hplain' hrest hlex' with ⟨hle, heq⟩
          rw [output_literal, List.length_append]
          refine ⟨Nat.add_le_add_left hle _, fun h => heq (Nat.add_left_cancel h)⟩
      | conversion key fmt =>
          change pattern.drop i = 37 :: key :: (formatPart fmt ++ patternText segs) at hdrop
          change Lexes pattern i (37 :: key :: (formatPart fmt ++ patternText segs)) es at hlex
          cases fmt with
          | none =>
              rcases hwf with ⟨hkey, hends, hwf⟩
              rcases unescaped_conversion pattern key hkey none _ (fun _ => hends)
                (fun f hf => by cases hf) i es hlex with ⟨j, fmt', es', hrest, rfl, hnone, -⟩
              rcases hnone rfl with ⟨rfl, rfl⟩
              have hnext : pattern.drop (i + 2) = patternText segs := by
                rw [← List.drop_drop, hdrop]
                rfl
              rcases ih (i + 2) es' hwf hplain' hnext hrest with ⟨hle, heq⟩
              rw [output_cons, List.length_append]
              exact ⟨Nat.add_le_add_left hle _, fun h => heq (Nat.add_left_cancel h)⟩
          | some f =>
              rcases hwf with ⟨hkey, hf, hwf⟩
              rcases unescaped_conversion pattern key hkey (some f) _ (fun h => by cases h)
                (fun f' hf' => by cases hf'; exact hf) i es hlex with
                ⟨j, fmt', es', hrest, rfl, -, hsome⟩
              rcases hsome f rfl with ⟨hfmt, rfl⟩
              rcases drop_conversion pattern key f _ i hdrop with ⟨hinside, hnext⟩
              rcases ih _ es' hwf hplain' hnext hrest with ⟨hle, heq⟩
              rcases kept_of_between pattern hlen key hkey (i + 2) f _ fmt' hinside hfmt with
                ⟨hshort, hkept⟩
              rw [output_cons, List.length_append]
              change (printedBy asLong .UNKNOW plainEvent key f).length + _ ≤
                (printedBy asLong .UNKNOW plainEvent key fmt').length + _ ∧
                ((printedBy asLong .UNKNOW plainEvent key f).length + _ =
                  (printedBy asLong .UNKNOW plainEvent key fmt').length + _ → _)
              refine ⟨Nat.add_le_add hshort hle, fun h => ?_⟩
              have hboth := (add_eq_add_iff_eq_and_eq hshort hle).1 h
              exact ⟨hkept hboth.1, heq hboth.2⟩

/-- For every pattern the formatter does what is expected if and only if there is no escape and
    opening braces are where their indices can be kept; and a string of at most `2 ^ 31` bytes
    is scanned to its end, whatever it is. -/
theorem pattern_right_iff (segs : List Segment) (hwf : Wf segs)
    (hlen : (patternText segs).length < 2 ^ 63) :
    (Right segs ↔ Fits 0 segs) ∧
      ∀ pattern : List UInt8, pattern.length ≤ 2 ^ 31 → (LogFormatter.new pattern).isSome := by
  refine ⟨⟨fun hright => ?_, fun hfits => ?_⟩, new_isSome⟩
  · rcases hright with ⟨f, hnew, herror, hformat⟩
    rcases Option.map_eq_some_iff.1 hnew with ⟨⟨vec, err⟩, hvec, rfl⟩
    rw [show err = false from herror] at hvec
    rcases lexes_of_initLoop (patternText segs) _ 0 [] _ vec List.drop_zero hvec with
      ⟨es, hlex, hout⟩
    have hsame : ∀ strftime level event, expected strftime level event segs =
        output strftime level event es := by
      intro strftime level event
      rw [← hformat, ← List.nil_append (output strftime level event es), ← hout]
      exact List.flatMap_map _ _ _
    have hplain := (unescaped _ _ 0 es segs [] hlex hwf rfl List.not_mem_nil (hsame _ _ _)).2
    exact (fits_of_lengths _ hlen segs 0 es hwf hplain List.drop_zero hlex).2
      (congrArg List.length (hsame _ _ _))
  · rcases lexes_of_fits _ hlen segs 0 hwf hfits List.drop_zero with ⟨es, hlex, hout⟩
    rcases initLoop_of_lexes _ 0 _ es hlex List.drop_zero _ (Nat.le_refl _) [] with
      ⟨vec, hvec, hvecout⟩
    refine ⟨⟨patternText segs, vec.map item, false⟩, ?_, rfl, fun strftime level event => ?_⟩
    · rw [LogFormatter.new, hvec]
      rfl
    · rw [← hout, ← List.nil_append (output strftime level event es), ← hvecout]
      exact List.flatMap_map _ _ _

/-- The message, with its level in brackets. -/
theorem pattern_right_message :
    Right [.literal (ascii "["), .conversion 112 none, .literal (ascii "] "),
      .conversion 109 none] := by
  have hwf : Wf [.literal (ascii "["), .conversion 112 none, .literal (ascii "] "),
      .conversion 109 none] := by
    refine ⟨by decide, by decide, ?_, by decide, by decide, ?_, trivial⟩
    · rintro c ⟨⟩
      exact ⟨rfl, by decide⟩
    · rintro c ⟨⟩
  exact (pattern_right_iff _ hwf (by decide)).1.2 trivial

/-- An escape alone: the code prints `%<<error_format %>>`. -/
theorem pattern_wrong_escape : Wf [.escape] ∧ ¬Right [.escape] := by
  refine ⟨trivial, ?_⟩
  rintro ⟨f, hnew, -, hformat⟩
  have hf : LogFormatter.new (patternText [.escape]) =
      some ⟨[37, 37], [.string [37], .string (ascii "<<error_format %>>")], false⟩ := by decide
  rw [hf, Option.some.injEq] at hnew
  rw [← hnew] at hformat
  exact absurd (hformat oneByte .INFO plainEvent) (by decide)

end LogFormatter

end YkServer
