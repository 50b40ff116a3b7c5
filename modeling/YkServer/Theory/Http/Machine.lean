import YkServer.Core.HttpParser

/-!
# What the Machine of HTTP Requests Does

Facts about the transitions of the machine that the proofs about the parser use.

## Theorems

* `requestMethod_on_space`: The method is passed on at a space.
* `done_iff_finished`: A request is done in the final states.
-/

namespace YkServer

open Lib Lib.Ragel

namespace HttpParser

theorem firesOn_requestMethod (relaxed : Bool) :
    FiresOn .requestMethod (· == 32) (main relaxed) := by
  -- Of the parts of the machine only the method has the action, and a space comes behind it.
  refine firesOn_finish _ _ _ _ ?_ (by decide)
  refine firesOn_alt _ _ _ _ ?_ (firesOn_absent _ _ _ (by cases relaxed <;> decide))
  refine firesOn_seq _ _ _ _ ?_ (firesOn_absent _ _ _ (by decide))
  refine firesOn_leave _ _ _ _ (firesOn_absent _ _ _ (by decide))
    (firesOn_absent _ _ _ (by cases relaxed <;> decide)) rfl ?_
  intro c hc
  cases c with
  | none => cases hc
  | some c => simpa [afterMethod, cat, text, ascii, first, nullable] using hc

/-- The method is passed on at the space behind it. -/
theorem requestMethod_on_space (relaxed : Bool) (cs : Cs) (c : UInt8)
    (h : Action.requestMethod ∈ cs.actions relaxed c) : c = 32 := by
  have hany := firesOn_requestMethod relaxed _ _ _ _ h
  simpa using hany

/-- A request is done exactly in the final states. -/
theorem done_iff_finished (relaxed : Bool) (cs : Cs) (c : UInt8) :
    Action.done ∈ cs.actions relaxed c ↔ (cs.step relaxed c).finished relaxed = true := by
  -- The action is embedded around the whole machine, and only there.
  have hfinal : ∀ s, final (main relaxed) s =
      final (.alt (request relaxed) (socketRequest relaxed)) s := by
    intro s
    cases s <;> rfl
  have hshift : shift (main relaxed) cs.entered cs.live (some c) =
      shift (.alt (request relaxed) (socketRequest relaxed)) cs.entered cs.live (some c) := by
    rcases cs with ⟨entered, live⟩
    cases entered <;> cases live <;> rfl
  rw [Cs.finished, Cs.step, hfinal, hshift]
  exact mem_fires_finish Action.done _ (by cases relaxed <;> decide) _ _ _ _

end HttpParser

end YkServer
